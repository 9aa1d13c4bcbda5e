import OopsOs.ProcessSafety

/-!
# The kernel-entry stack pointer over whole runs

`execute` and the scheduler compute `tss.esp0` from the number of the process
they select, together with its program page.  `halt` takes it from the block
of the process that ends: the ESP at which the parent's `execute` has called
`go_to_ring_three`, somewhere below the top of the parent's stack.  So the
kernel-entry stack pointer is the running process's own in every run that
keeps the pages, up to the first `halt` that goes back to a parent.
-/

namespace OopsOs

open ByteMem Machine

/-- The running process enters the kernel at the top of its own stack. -/
def OwnStack (s : System) : Prop :=
  ∀ o, s.cpu = some o → s.kernel.esp0 = kernelStack o.pid

/-- A `halt` that goes back to a parent finds the top of the parent's stack in the child's block. -/
def ReturnsToTop (s : System) : SystemEvent → Prop
  | .halt _ _ => ∀ o, s.cpu = some o → 3 ≤ o.pid.val →
      (s.kernel.pcb o.pid).saved.esp = kernelStack (s.kernel.processPrevious o.pid)
  | _ => True

/-- The condition under which each process enters the kernel at the top of its own stack. -/
def KeepsStack (s : System) (e : SystemEvent) : Prop :=
  KeepsPages s e ∧ ReturnsToTop s e

instance (s : System) : (e : SystemEvent) → Decidable (ReturnsToTop s e)
  | .tick _ _ _ _ => isTrue trivial
  | .key _ => isTrue trivial
  | .execute _ _ _ => isTrue trivial
  | .halt _ _ => inferInstanceAs (Decidable (∀ o, s.cpu = some o → 3 ≤ o.pid.val →
      (s.kernel.pcb o.pid).saved.esp = kernelStack (s.kernel.processPrevious o.pid)))

instance (s : System) (e : SystemEvent) : Decidable (KeepsStack s e) :=
  inferInstanceAs (Decidable (_ ∧ _))

/-! ## One step -/

theorem OwnStack.findsOwnBlock {s : System} (h : OwnStack s) : FindsOwnBlock s := by
  intro o ho
  rw [h o ho, pcbSlot_kernelStack]

theorem EntersAtTop.ownStack {s s' : System} (h : EntersAtTop s s') (hs : OwnStack s) :
    OwnStack s' := by
  intro o ho
  rcases h o ho with ⟨hcpu, hesp⟩ | htop
  · rw [hesp]
    exact hs o hcpu
  · exact htop

/-- Every step that keeps the stack keeps the stack pointer. -/
theorem systemStep_ownStack {s s' : System} {e : SystemEvent}
    (hI : Kept (fun p => 3 ≤ p.val) s ∧ OwnStack s) (hguard : KeepsStack s e)
    (hstep : systemStep s e = some s') : Kept (fun p => 3 ≤ p.val) s' ∧ OwnStack s' := by
  obtain ⟨hkept, hown⟩ := hI
  obtain ⟨hpages, hreturns⟩ := hguard
  obtain ⟨hstacks, hlaunches⟩ := KeepsPages.guard hkept.2.running hpages
  have hkept' := step_kept_of_launches (fun _ hp => hp) hkept hstacks hlaunches hstep
  refine ⟨hkept', ?_⟩
  obtain ⟨stack, h⟩ := hkept.1
  obtain ⟨stack', h'⟩ := hkept'.1
  cases e with
  | tick esp ebp innerEsp innerEbp =>
      obtain rfl := Option.some.inj hstep
      exact (tick_entersAtTop h').ownStack hown
  | key scancode =>
      simp only [systemStep] at hstep
      split_ifs at hstep
      obtain rfl := Option.some.inj hstep
      exact (key_entersAtTop s scancode).ownStack hown
  | execute cmd esp ebp =>
      simp only [systemStep] at hstep
      split_ifs at hstep
      obtain ⟨o, -, rfl⟩ := Option.map_eq_some_iff.mp hstep
      exact (execute_entersAtTop s o cmd esp ebp).ownStack hown
  | halt esp ebp =>
      obtain ⟨o, ho, hblock⟩ := Option.bind_eq_some_iff.mp hstep
      obtain ⟨slot, hslot, hhalt⟩ := Option.bind_eq_some_iff.mp hblock
      obtain rfl := Option.some.inj (hslot.symm.trans (hown.findsOwnBlock o ho))
      simp only [SystemEvent.view, hslot] at hstacks
      rcases h.halt_stack_cases ho (fun _ hp => hp) hstacks hhalt with
        htop | ⟨q, hhigh, -, hprev, hcpu, hesp⟩
      · exact htop.ownStack hown
      · intro o' ho'
        obtain rfl := Option.some.inj (hcpu.symm.trans ho')
        rw [hesp, hreturns o ho hhigh, hprev]

/-! ## Runs from boot -/

theorem run_ownStack {console : Console} {fs : Mem} {es : List SystemEvent} {s : System}
    (hrun : Run systemStep KeepsStack (System.boot console fs) es s) : OwnStack s := by
  refine (hrun.invariant (fun _ _ _ hI hC hs => systemStep_ownStack hI hC hs) ?_).2
  exact ⟨boot_kept _ console fs, fun o ho => (by cases ho)⟩

/--
In a run whose steps keep the stack, the running process enters the kernel at
the top of its own stack; when the same process runs again after any number of
further steps, the stack pointer is where it was.
-/
theorem run_enters_on_own_stack (console : Console) (fs : Mem) (es : List SystemEvent) (s : System)
    (hrun : Run systemStep KeepsStack (System.boot console fs) es s) :
    (∀ o, s.cpu = some o →
      s.kernel.esp0 = 8 * 2 ^ 20 - 8 * 2 ^ 10 * o.pid.val - 4) ∧
    ∀ es' s', Run systemStep KeepsStack s es' s' →
      ∀ o o', s.cpu = some o → s'.cpu = some o' → o'.pid = o.pid →
        s'.kernel.esp0 = s.kernel.esp0 := by
  have hown := run_ownStack hrun
  refine ⟨hown, ?_⟩
  intro es' s' hrun' o o' ho ho' hpid
  have hown' := run_ownStack (hrun.append hrun')
  rw [hown o ho, hown' o' ho', hpid]

/-- The root shell of terminal 0 is restarted, starts another shell, and is preempted. -/
theorem run_enters_on_own_stack_nested_shell :
    ∃ s, Run systemStep KeepsStack (System.boot blankConsole shellImage)
        (sixTicks.take 5 ++ [.halt 0x7FFF80 0x7FFFA0, .execute shellCommand 0x7FFF98 0x7FFFB8,
          .tick 6 6 6 6]) s ∧
      s.cpu = some ⟨1, 1⟩ ∧ s.kernel.esp0 = 0x7FDFFC := by
  have hvals : (exec systemStep KeepsStack (System.boot blankConsole shellImage)
      (sixTicks.take 5 ++ [.halt 0x7FFF80 0x7FFFA0, .execute shellCommand 0x7FFF98 0x7FFFB8,
        .tick 6 6 6 6])).map System.cpu = some (some ⟨1, 1⟩) := by
    decide +kernel
  obtain ⟨s, hs, hcpu⟩ := Option.map_eq_some_iff.mp hvals
  have hrun := run_of_exec hs
  exact ⟨s, hrun, hcpu, (run_enters_on_own_stack blankConsole shellImage _ s hrun).1 ⟨1, 1⟩ hcpu⟩

/--
The shell of terminal 0 starts another shell, which halts.  The first one goes
on with the ESP of its own `execute` as its kernel-entry stack pointer.
-/
theorem halt_leaves_saved_stack :
    ∃ s, Run systemStep anyStep (System.boot blankConsole shellImage)
        (sixTicks.take 5 ++ [.execute shellCommand 0x7FFF98 0x7FFFB8, .halt 0x7F9F80 0x7F9FA0]) s ∧
      s.cpu = some ⟨0, 0⟩ ∧ s.kernel.esp0 = 0x7FFF98 ∧
      ¬ s.kernel.esp0 = 8 * 2 ^ 20 - 8 * 2 ^ 10 * 0 - 4 := by
  have hvals : (exec systemStep anyStep (System.boot blankConsole shellImage)
      (sixTicks.take 5 ++ [.execute shellCommand 0x7FFF98 0x7FFFB8,
        .halt 0x7F9F80 0x7F9FA0])).map (fun s => (s.cpu, s.kernel.esp0)) =
      some (some ⟨0, 0⟩, 0x7FFF98) := by
    decide +kernel
  obtain ⟨s, hs, hvals⟩ := Option.map_eq_some_iff.mp hvals
  simp only [Prod.mk.injEq] at hvals
  obtain ⟨hcpu, hesp⟩ := hvals
  refine ⟨s, run_of_exec hs, hcpu, hesp, ?_⟩
  rw [hesp]
  decide

end OopsOs
