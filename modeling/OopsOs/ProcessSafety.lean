import OopsOs.OwnBlocks

/-!
# The process table and the program page over whole runs

The process table is consistent, and each process runs on its own memory, in
every run from boot whose steps meet a condition on `execute` and `halt`.
Both have the same cause: `execute` takes the displayed terminal for the one
of its caller, and `halt` takes slots 0 to 2 for the root shells.  A process
that starts another one while its terminal is in the background breaks both.
-/

namespace OopsOs

open ByteMem Machine

/-! ## Runs from boot -/

theorem boot_consistent (D : Fin 6 → Prop) (console : Console) (fs : Mem) :
    Consistent D (System.boot console fs).view (fun _ => []) := by
  have htable := boot_table console fs
  have hcount : (System.boot console fs).view.table.count = 0 := by
    rw [htable]
    rfl
  have hfree : (System.boot console fs).view.table.occupants = fun _ => 0 := by
    rw [htable]
    rfl
  have hstacked : Stacked D (System.boot console fs).view.table
      (System.boot console fs).view.parent (fun _ => []) := by
    refine ⟨fun _ => List.nodup_nil, ?_, ?_, ?_, fun _ => List.isChain_nil⟩
    · intro t u _ p hp
      cases hp
    · intro p
      rw [hfree]
      simp
    · intro t p hp
      cases hp
  refine ⟨boot_scheduled console fs, ?_, hstacked, ?_, ?_, fun _ _ => ⟨rfl, rfl⟩, ?_, ?_, ?_, ?_⟩
  · intro h1
    omega
  · intro t ht
    omega
  · intro t ht
    omega
  · intro t p hp
    cases hp
  · intro o ho
    cases ho
  · intro t o ho
    cases ho
  · intro o ho
    cases ho

/-- What guarded steps keep: consistent stacks, and calls on the stacks of their processes. -/
def Kept (D : Fin 6 → Prop) (s : System) : Prop :=
  (∃ stack, Consistent D s.view stack) ∧ OwnBlocks s

theorem boot_kept (D : Fin 6 → Prop) (console : Console) (fs : Mem) :
    Kept D (System.boot console fs) :=
  ⟨⟨_, boot_consistent D console fs⟩, boot_ownBlocks console fs⟩

/-- After a guarded run all is kept, or a root shell is missing for good. -/
theorem run_kept {D : Fin 6 → Prop} (hD : ∀ p : Fin 6, 3 ≤ p.val → D p)
    {C : System → SystemEvent → Prop}
    (hC : ∀ s e, FindsOwnBlock s → C s e → StackGuard D s.view (e.view s))
    {console : Console} {fs : Mem} {es : List SystemEvent} {s : System}
    (hrun : Run systemStep C (System.boot console fs) es s) :
    Kept D s ∨ LaunchFailed s.view := by
  apply hrun.invariant (I := fun s => Kept D s ∨ LaunchFailed s.view)
  · intro s e s' hI hCs hstep
    have hview := systemStep_view hstep
    rcases hI with ⟨⟨stack, h⟩, hown⟩ | hfailed
    · have hguard := hC s e hown.running hCs
      rcases step_consistent h hD hguard hview with ⟨stack', h'⟩ | ⟨hfailed, -⟩
      · exact Or.inl ⟨⟨stack', h'⟩, step_ownBlocks hD h h' hown hguard hstep⟩
      · exact Or.inr hfailed
    · exact Or.inr (hfailed.step hview)
  · exact Or.inl (boot_kept D console fs)

/-- A guarded step that launches the shell it should launch keeps all. -/
theorem step_kept_of_launches {D : Fin 6 → Prop} (hD : ∀ p : Fin 6, 3 ≤ p.val → D p)
    {s s' : System} (h : Kept D s) {e : SystemEvent}
    (hguard : StackGuard D s.view (e.view s)) (hlaunches : Launches s.view (e.view s))
    (hstep : systemStep s e = some s') : Kept D s' := by
  obtain ⟨⟨stack, hcons⟩, hown⟩ := h
  rcases step_consistent hcons hD hguard (systemStep_view hstep) with ⟨stack', h'⟩ | ⟨-, hnot⟩
  · exact ⟨⟨stack', h'⟩, step_ownBlocks hD hcons h' hown hguard hstep⟩
  · exact absurd hlaunches hnot

theorem run_kept_of_launches {D : Fin 6 → Prop} (hD : ∀ p : Fin 6, 3 ≤ p.val → D p)
    {C : System → SystemEvent → Prop}
    (hC : ∀ s e, FindsOwnBlock s → C s e →
      StackGuard D s.view (e.view s) ∧ Launches s.view (e.view s))
    {console : Console} {fs : Mem} {es : List SystemEvent} {s : System}
    (hrun : Run systemStep C (System.boot console fs) es s) : Kept D s := by
  apply hrun.invariant (I := Kept D)
  · intro s e s' h hCs hstep
    obtain ⟨hguard, hlaunches⟩ := hC s e h.2.running hCs
    exact step_kept_of_launches hD h hguard hlaunches hstep
  · exact boot_kept D console fs

/-! ## The process table -/

/-- The process of terminal `t`: the running one, or the one whose context is kept for it. -/
def System.processOn (s : System) (t : Fin 3) : Option Owner :=
  if s.cpu.map Owner.term = some t then s.cpu else (s.kernel.terminal t).current.owner

/--
The process table agrees with what runs.  `chain t` is the list of slots from
`terminal[t].process_num` along `process_previous` to the root shell of `t`.
-/
structure TableAgrees (s : System) : Prop where
  running : ∀ t, s.processOn t = some ⟨t, (s.kernel.terminal t).processNum⟩
  chains : ∃ chain : Fin 3 → List (Fin 6),
    (∀ t, (chain t).head? = some (s.kernel.terminal t).processNum ∧
      (chain t).getLast? = s.root t ∧
      (chain t).IsChain (fun p q => s.kernel.processPrevious p = q) ∧
      (chain t).Nodup) ∧
    (∀ t u, t ≠ u → ∀ p, p ∈ chain t → p ∉ chain u) ∧
    (∀ p, s.kernel.pcbOccupants p ≠ 0 ↔ ∃ t, p ∈ chain t)

/-- A program that gets a slot is started from the displayed terminal. -/
def StartsOnDisplay (s : System) (cmd : List UInt8) : Prop :=
  ∀ o, s.cpu = some o → checkValid s.kernel.fs (parse cmd).1 ≠ -1 → freeSlot s.kernel ≠ none →
    o.term = s.kernel.activeTerminal

/--
The condition under which the table stays right: `execute` is called from the
displayed terminal, and the process that halts has a slot below 3 exactly if
it is a root shell, and then on the displayed terminal.
-/
def KeepsTable (s : System) : SystemEvent → Prop
  | .execute cmd _ _ => StartsOnDisplay s cmd
  | .halt _ _ => ∀ o, s.cpu = some o →
      (o.pid.val < 3 ↔ s.root o.term = some o.pid) ∧
      (o.pid.val < 3 → o.term = s.kernel.activeTerminal)
  | _ => True

instance (s : System) (cmd : List UInt8) : Decidable (StartsOnDisplay s cmd) :=
  inferInstanceAs (Decidable (∀ o, s.cpu = some o → checkValid s.kernel.fs (parse cmd).1 ≠ -1 →
    freeSlot s.kernel ≠ none → o.term = s.kernel.activeTerminal))

instance (s : System) : (e : SystemEvent) → Decidable (KeepsTable s e)
  | .tick _ _ _ _ => isTrue trivial
  | .key _ => isTrue trivial
  | .execute cmd _ _ => inferInstanceAs (Decidable (StartsOnDisplay s cmd))
  | .halt _ _ => inferInstanceAs (Decidable (∀ o, s.cpu = some o →
      (o.pid.val < 3 ↔ s.root o.term = some o.pid) ∧
      (o.pid.val < 3 → o.term = s.kernel.activeTerminal)))

theorem StartsOnDisplay.guard {s : System} {cmd : List UInt8} (h : StartsOnDisplay s cmd)
    (D : Fin 6 → Prop) (esp ebp : Nat) :
    StackGuard D s.view ((SystemEvent.execute cmd esp ebp).view s) := by
  intro o ho hvalid hfree
  exact h o ho (of_decide_eq_true hvalid) hfree

theorem KeepsTable.guard {s : System} {e : SystemEvent} (hown : FindsOwnBlock s)
    (h : KeepsTable s e) : StackGuard (fun _ => True) s.view (e.view s) := by
  cases e with
  | tick esp ebp innerEsp innerEbp => trivial
  | key scancode => trivial
  | execute cmd esp ebp => exact StartsOnDisplay.guard h _ esp ebp
  | halt esp ebp =>
      intro o ho
      obtain ⟨hroot, hactive⟩ := h o ho
      refine ⟨hown o ho, fun hlow => ⟨hactive hlow, Or.inl (hroot.mp hlow)⟩, ?_⟩
      intro hhigh hr
      have := hroot.mpr hr
      omega

section Agrees

variable {s : System} {stack : Stacks} (h : Consistent (fun _ => True) s.view stack)
include h

theorem Consistent.launched (hroots : ∀ t, s.root t ≠ none) (t : Fin 3) :
    t.val < s.view.table.count := by
  by_contra hlt
  exact hroots t (h.unlaunched t (not_lt.mp hlt)).2

theorem Consistent.processOn_eq (hroots : ∀ t, s.root t ≠ none) (t : Fin 3) :
    s.processOn t = some ⟨t, (s.kernel.terminal t).processNum⟩ := by
  obtain ⟨o, ho, -⟩ := h.scheduled.running (Nat.one_le_of_lt (h.launched hroots t))
  have hcpu : s.cpu = some o := ho
  unfold System.processOn
  rw [hcpu, Option.map_some]
  by_cases hterm : o.term = t
  · subst hterm
    have hnum : (s.kernel.terminal o.term).processNum = o.pid := h.runs o ho
    rw [if_pos rfl, hnum]
  · rw [if_neg (fun he => hterm (Option.some.inj he))]
    exact h.waits t o ho (fun he => hterm he.symm) (h.launched hroots t)

theorem Consistent.tableAgrees (hroots : ∀ t, s.root t ≠ none) : TableAgrees s := by
  refine ⟨h.processOn_eq hroots, stack, ?_, h.stacked.disjoint, h.stacked.occupied⟩
  intro t
  refine ⟨h.top t (h.launched hroots t), (h.bottom t (h.launched hroots t)).symm, ?_,
    h.stacked.nodup t⟩
  exact (h.stacked.linked t).imp (fun p q hlink => (hlink trivial).previous)

/-- A process that another one has started goes back to that one. -/
theorem Consistent.halt_to_parent (hown : FindsOwnBlock s) {o : Owner} (ho : s.cpu = some o)
    {q : Fin 6} (hq : s.parent o.pid = some q) {esp ebp : Nat} (hC : KeepsTable s (.halt esp ebp)) :
    ∃ s', systemStep s (.halt esp ebp) = some s' ∧
      (s'.kernel.terminal o.term).processNum = q ∧ s'.cpu = some ⟨o.term, q⟩ := by
  have hho : s.view.cpu = some o := ho
  obtain ⟨hroot, -⟩ := hC o ho
  have hnotroot : s.root o.term ≠ some o.pid := by
    intro hr
    have hnone : s.parent o.pid = none := h.rootless o.term o.pid hr
    rw [hq] at hnone
    cases hnone
  have hhigh : 3 ≤ o.pid.val := by
    by_contra hlow
    exact hnotroot (hroot.mp (by omega))
  obtain ⟨q', -, hparent, hsaved, hprev, -⟩ :=
    return_consistent h (fun _ _ => trivial) hho hhigh hnotroot
  obtain rfl : q = q' := Option.some.inj (hq.symm.trans hparent)
  have hview := haltStep_view s o o.pid esp ebp
  rw [h.halt_return hho hhigh] at hview
  have hsaved' : ((s.view.table.free o.pid).saved o.pid).owner = some ⟨o.term, q⟩ := hsaved
  have hprev' : (s.view.table.free o.pid).previous o.pid = q := hprev
  simp only [ProcessTable.returnToParent, TableSystem.haltTo, hsaved', hprev'] at hview
  obtain ⟨s', hs', hs''⟩ := Option.map_eq_some_iff.mp hview
  refine ⟨s', ?_, ?_, ?_⟩
  · simp only [systemStep, ho, hown o ho, Option.bind_some]
    exact hs'
  · have hnum : s'.view.table.processNum o.term = q := by
      rw [hs'']
      exact Function.update_self _ _ _
    exact hnum
  · exact congrArg TableSystem.cpu hs''

end Agrees

/--
In a run whose steps keep the table, once the three root shells are there,
the process of each terminal is its `process_num`, the chains along
`process_previous` end in the root shells, are disjoint and make up the
occupied slots, and a process that halts goes back to its parent.
-/
theorem run_table_agrees (console : Console) (fs : Mem) (es : List SystemEvent) (s : System)
    (hrun : Run systemStep KeepsTable (System.boot console fs) es s)
    (hroots : ∀ t, s.root t ≠ none) :
    TableAgrees s ∧
    ∀ o q esp ebp, s.cpu = some o → s.parent o.pid = some q → KeepsTable s (.halt esp ebp) →
      ∃ s', systemStep s (.halt esp ebp) = some s' ∧
        (s'.kernel.terminal o.term).processNum = q ∧ s'.cpu = some ⟨o.term, q⟩ := by
  rcases run_kept (fun _ _ => trivial) (fun _ _ hown hC => KeepsTable.guard hown hC) hrun with
    ⟨⟨stack, h⟩, hown⟩ | ⟨-, t, -, hnone⟩
  · exact ⟨h.tableAgrees hroots,
      fun o q esp ebp ho hq hC => h.halt_to_parent hown.running ho hq hC⟩
  · exact absurd hnone (hroots t)

/-- Six ticks, after which the shell of terminal 1 runs while terminal 0 is displayed. -/
def sixTicks : List SystemEvent :=
  [.tick 1 1 1 1, .tick 2 2 2 2, .tick 3 3 3 3, .tick 4 4 4 4, .tick 5 5 5 5, .tick 6 6 6 6]

/-- A shell started from the displayed terminal, and the halt that goes back to its parent. -/
theorem run_table_agrees_nested_shell :
    ∃ s, Run systemStep KeepsTable (System.boot blankConsole shellImage)
        (sixTicks.take 5 ++ [.execute shellCommand 0x7FFF98 0x7FFFB8]) s ∧
      s.cpu = some ⟨0, 3⟩ ∧ TableAgrees s ∧
      ∃ s', systemStep s (.halt 8 8) = some s' ∧ (s'.kernel.terminal 0).processNum = 0 := by
  have hvals : (exec systemStep KeepsTable (System.boot blankConsole shellImage)
      (sixTicks.take 5 ++ [.execute shellCommand 0x7FFF98 0x7FFFB8])).map (fun s =>
        (s.cpu, s.parent 3, decide (∀ t, s.root t ≠ none), decide (KeepsTable s (.halt 8 8)))) =
      some (some ⟨0, 3⟩, some 0, true, true) := by
    decide +kernel
  obtain ⟨s, hs, hvals⟩ := Option.map_eq_some_iff.mp hvals
  simp only [Prod.mk.injEq, decide_eq_true_eq] at hvals
  obtain ⟨hcpu, hparent, hroots, hhalt⟩ := hvals
  have hrun := run_of_exec hs
  obtain ⟨hagrees, hreturns⟩ := run_table_agrees blankConsole shellImage _ s hrun hroots
  obtain ⟨s', hs', hnum, -⟩ := hreturns ⟨0, 3⟩ 0 8 8 hcpu hparent hhalt
  exact ⟨s, hrun, hcpu, hagrees, s', hs', hnum⟩

/--
The shell of terminal 1 starts another one in the background.  It runs on
terminal 1, and the table gives it to terminal 0.
-/
theorem background_execute_mixes_terminals :
    ∃ s, Run systemStep anyStep (System.boot blankConsole shellImage)
        (sixTicks ++ [.execute shellCommand 0x7FDF98 0x7FDFB8]) s ∧
      (∀ t, s.root t ≠ none) ∧ s.cpu = some ⟨1, 3⟩ ∧
      (s.kernel.terminal 1).processNum = 1 ∧ (s.kernel.terminal 0).processNum = 3 ∧
      ¬ TableAgrees s := by
  have hvals : (exec systemStep anyStep (System.boot blankConsole shellImage)
      (sixTicks ++ [.execute shellCommand 0x7FDF98 0x7FDFB8])).map (fun s =>
        (decide (∀ t, s.root t ≠ none), s.cpu, (s.kernel.terminal 1).processNum,
          (s.kernel.terminal 0).processNum, s.processOn 1)) =
      some (true, some ⟨1, 3⟩, 1, 3, some ⟨1, 3⟩) := by
    decide +kernel
  obtain ⟨s, hs, hvals⟩ := Option.map_eq_some_iff.mp hvals
  simp only [Prod.mk.injEq, decide_eq_true_eq] at hvals
  obtain ⟨hroots, hcpu, hone, hzero, hon⟩ := hvals
  refine ⟨s, run_of_exec hs, hroots, hcpu, hone, hzero, ?_⟩
  intro hagrees
  have hrunning := hagrees.running 1
  rw [hon, hone] at hrunning
  exact absurd hrunning (by decide)

/-! ## The program page -/

/--
The condition under which each process runs on its own page: a program is
started from the displayed terminal, a shell that restarts does so on the
displayed terminal, the root shells have slots below 3, and every launch of a
root shell finds the program and a slot.
-/
def KeepsPages (s : System) : SystemEvent → Prop
  | .tick _ _ _ _ => s.kernel.currentRunningProcessCount < 3 →
      checkValid s.kernel.fs (parse shellCommand).1 ≠ -1 ∧ freeSlot s.kernel ≠ none
  | .key _ => True
  | .execute cmd _ _ => StartsOnDisplay s cmd
  | .halt _ _ => ∀ o, s.cpu = some o →
      (o.pid.val < 3 → o.term = s.kernel.activeTerminal) ∧
      (s.root o.term = some o.pid → o.pid.val < 3)

instance (s : System) : (e : SystemEvent) → Decidable (KeepsPages s e)
  | .tick _ _ _ _ => inferInstanceAs (Decidable (s.kernel.currentRunningProcessCount < 3 →
      checkValid s.kernel.fs (parse shellCommand).1 ≠ -1 ∧ freeSlot s.kernel ≠ none))
  | .key _ => isTrue trivial
  | .execute cmd _ _ => inferInstanceAs (Decidable (StartsOnDisplay s cmd))
  | .halt _ _ => inferInstanceAs (Decidable (∀ o, s.cpu = some o →
      (o.pid.val < 3 → o.term = s.kernel.activeTerminal) ∧
      (s.root o.term = some o.pid → o.pid.val < 3)))

/-- Here a restarted shell need not go back anywhere, so only the other slots are linked. -/
theorem KeepsPages.guard {s : System} {e : SystemEvent} (hown : FindsOwnBlock s)
    (h : KeepsPages s e) :
    StackGuard (fun p => 3 ≤ p.val) s.view (e.view s) ∧ Launches s.view (e.view s) := by
  cases e with
  | tick esp ebp innerEsp innerEbp =>
      refine ⟨trivial, fun hlt => ?_⟩
      obtain ⟨hvalid, hfree⟩ := h hlt
      exact ⟨decide_eq_true hvalid, hfree⟩
  | key scancode => exact ⟨trivial, trivial⟩
  | execute cmd esp ebp => exact ⟨StartsOnDisplay.guard h _ esp ebp, trivial⟩
  | halt esp ebp =>
      refine ⟨fun o ho => ?_, trivial⟩
      obtain ⟨hactive, hroot⟩ := h o ho
      refine ⟨hown o ho, fun hlow => ⟨hactive hlow, Or.inr (fun p hp => not_le.mpr hp)⟩, ?_⟩
      intro hhigh hr
      have := hroot hr
      omega

/--
In a run whose steps keep the pages, a process that has been entered or
resumed has its own program page mapped.
-/
theorem run_maps_own_page (console : Console) (fs : Mem) (es : List SystemEvent) (s : System)
    (hrun : Run systemStep KeepsPages (System.boot console fs) es s) :
    ∀ o, s.cpu = some o → s.kernel.pDirectory 32 = (8 * 2 ^ 20 + 4 * 2 ^ 20 * o.pid.val) ||| 0x87 := by
  obtain ⟨⟨stack, h⟩, -⟩ :=
    run_kept_of_launches (fun _ hp => hp) (fun _ _ hown hC => KeepsPages.guard hown hC) hrun
  exact h.page

theorem run_maps_own_page_nested_shell :
    ∃ s, Run systemStep KeepsPages (System.boot blankConsole shellImage)
        (sixTicks.take 5 ++ [.execute shellCommand 0x7FFF98 0x7FFFB8, .tick 6 6 6 6, .tick 7 7 7 7,
          .tick 8 8 8 8]) s ∧
      s.cpu = some ⟨0, 3⟩ ∧ s.kernel.pDirectory 32 = 0x1400087 := by
  have hvals : (exec systemStep KeepsPages (System.boot blankConsole shellImage)
      (sixTicks.take 5 ++ [.execute shellCommand 0x7FFF98 0x7FFFB8, .tick 6 6 6 6, .tick 7 7 7 7,
        .tick 8 8 8 8])).map System.cpu = some (some ⟨0, 3⟩) := by
    decide +kernel
  obtain ⟨s, hs, hcpu⟩ := Option.map_eq_some_iff.mp hvals
  have hrun := run_of_exec hs
  exact ⟨s, hrun, hcpu, run_maps_own_page blankConsole shellImage _ s hrun ⟨0, 3⟩ hcpu⟩

/--
After a shell started in the background on terminal 1, the scheduler comes
back to the shell of terminal 0, with the page of the new process mapped.
-/
theorem background_execute_maps_other_page :
    ∃ s, Run systemStep anyStep (System.boot blankConsole shellImage)
        (sixTicks ++ [.execute shellCommand 0x7FDF98 0x7FDFB8, .tick 8 8 8 8, .tick 9 9 9 9]) s ∧
      s.cpu = some ⟨0, 0⟩ ∧ s.kernel.pDirectory 32 = (8 * 2 ^ 20 + 4 * 2 ^ 20 * 3) ||| 0x87 ∧
      ¬ s.kernel.pDirectory 32 = (8 * 2 ^ 20 + 4 * 2 ^ 20 * 0) ||| 0x87 := by
  have hvals : (exec systemStep anyStep (System.boot blankConsole shellImage)
      (sixTicks ++ [.execute shellCommand 0x7FDF98 0x7FDFB8, .tick 8 8 8 8, .tick 9 9 9 9])).map
        (fun s => (s.cpu, s.kernel.pDirectory 32)) = some (some ⟨0, 0⟩, 0x1400087) := by
    decide +kernel
  obtain ⟨s, hs, hvals⟩ := Option.map_eq_some_iff.mp hvals
  simp only [Prod.mk.injEq] at hvals
  obtain ⟨hcpu, hpage⟩ := hvals
  refine ⟨s, run_of_exec hs, hcpu, ?_, ?_⟩
  · rw [hpage]
    decide
  · rw [hpage]
    decide

end OopsOs
