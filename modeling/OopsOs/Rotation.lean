import OopsOs.KernelStack

/-!
# The rotation of the terminals

What the scheduler does next depends on the number of timer ticks since boot
and on nothing else: `Phase n` is what it has reached after `n` of them, in
every run, whatever the processes and the keys do.  The first three launch the
shells, the fourth goes back to the first screen, and from the fifth on the
terminals take turns.

So no terminal starves: of any three ticks in a row one goes on with the
process of a given terminal, on its own memory and its own kernel stack, and
it listens to the keyboard if that terminal is displayed.
-/

namespace OopsOs

open ByteMem Machine

def isTick : SystemEvent → Bool
  | .tick _ _ _ _ => true
  | _ => false

/-- The terminal whose turn it is after `n` ticks. -/
def turn (n : Nat) : Fin 3 := if n ≤ 4 then 2 else Fin.ofNat 3 (n + 1)

/-- After the fourth tick each one moves the turn on. -/
theorem turn_succ {n : Nat} (h : 4 ≤ n) : turn (n + 1) = turn n + 1 := by
  unfold turn
  rw [if_neg (by omega)]
  split_ifs with hle
  · obtain rfl : n = 4 := by omega
    rfl
  · apply Fin.ext
    simp [Fin.val_add]

/-- Three turns in a row are those of the three terminals. -/
theorem exists_turn {n : Nat} (h : 4 ≤ n) (t : Fin 3) : ∃ m, m < 3 ∧ turn (n + m + 1) = t := by
  have h1 := turn_succ h
  have h2 : turn (n + 1 + 1) = turn (n + 1) + 1 := turn_succ (by omega)
  have h3 : turn (n + 2 + 1) = turn (n + 1 + 1) + 1 := turn_succ (by omega)
  have hall : ∀ u t : Fin 3, t = u + 1 ∨ t = u + 1 + 1 ∨ t = u + 1 + 1 + 1 := by decide
  rcases hall (turn n) t with rfl | rfl | rfl
  · exact ⟨0, by omega, h1⟩
  · exact ⟨1, by omega, by rw [h2, h1]⟩
  · exact ⟨2, by omega, by rw [h3, h2, h1]⟩

/-- The scheduler after `n` ticks. -/
structure Phase (n : Nat) (T : ProcessTable) : Prop where
  activated : T.activated = true
  count : T.count = min n 4
  next : T.next = turn n
  launching : 1 ≤ n → n ≤ 4 → T.masked = true ∧ T.active = Fin.ofNat 3 (n - 1)

/-! ## Steps other than ticks -/

/-- The parts of a table that the scheduler alone decides. -/
structure SameSchedule (T T' : ProcessTable) : Prop where
  activated : T'.activated = T.activated
  count : T'.count = T.count
  next : T'.next = T.next
  masked : T'.masked = T.masked
  active : T'.active = T.active

theorem SameSchedule.refl (T : ProcessTable) : SameSchedule T T := ⟨rfl, rfl, rfl, rfl, rfl⟩

theorem SameSchedule.phase {T T' : ProcessTable} (h : SameSchedule T T') {n : Nat}
    (hphase : Phase n T) : Phase n T' := by
  refine ⟨h.activated.trans hphase.activated, h.count.trans hphase.count,
    h.next.trans hphase.next, fun h1 h4 => ?_⟩
  rw [h.masked, h.active]
  exact hphase.launching h1 h4

theorem execute_sameSchedule (T : ProcessTable) (valid : Bool) (c : Context) :
    SameSchedule T (T.execute valid c).1 := by
  unfold ProcessTable.execute
  split_ifs
  · cases T.freeSlot with
    | none => exact SameSchedule.refl T
    | some p => exact ⟨rfl, rfl, rfl, rfl, rfl⟩
  · exact SameSchedule.refl T

theorem halt_sameSchedule (T : ProcessTable) (slot : Fin 6) (c : Context) :
    SameSchedule T (T.halt slot c).1 := by
  unfold ProcessTable.halt
  cases T.processTerm (T.number slot) with
  | none => exact SameSchedule.refl T
  | some term =>
      simp only
      split_ifs
      · have hexec := execute_sameSchedule (T.free (T.processNum term)) T.shellOk c
        split <;> rename_i heq <;> rw [heq] at hexec
        · exact ⟨hexec.activated, hexec.count, hexec.next, hexec.masked, hexec.active⟩
        · exact ⟨hexec.activated, hexec.count, hexec.next, hexec.masked, hexec.active⟩
      · exact ⟨rfl, rfl, rfl, rfl, rfl⟩

/-- A switch of the display, which a key can make only while the keyboard is listened to. -/
theorem Phase.display {n : Nat} {T : ProcessTable} (h : Phase n T) (hmasked : ¬ T.masked = true)
    (t : Fin 3) : Phase n { T with active := t } :=
  ⟨h.activated, h.count, h.next, fun h1 h4 => absurd (h.launching h1 h4).1 hmasked⟩

/-! ## Ticks -/

/-- A tick takes the scheduler to its next phase, whether or not a shell can be started. -/
theorem Phase.tick {n : Nat} {T : ProcessTable} (h : Phase n T) (c inner : Context) :
    Phase (n + 1) (T.tick c inner).1 := by
  have hact := h.activated
  have hcount := h.count
  rcases lt_trichotomy T.count 3 with hlt | heq | hgt
  · -- a launch, after which the shell's process is entered or not
    have hn : n < 3 := by omega
    have hsame := execute_sameSchedule (launchTable T ⟨T.count, hlt⟩ c) T.shellOk inner
    have htick : (T.tick c inner).1 =
        ((launchTable T ⟨T.count, hlt⟩ c).execute T.shellOk inner).1 := by
      rw [tick_launch c inner hact hlt]
      split <;> rename_i hexec <;> rw [hexec]
    rw [htick]
    refine hsame.phase ⟨hact, ?_, ?_, fun _ _ => ⟨rfl, ?_⟩⟩
    · simp only [launchTable]
      omega
    · have hnext := h.next
      simp only [launchTable]
      rw [hnext, turn, turn, if_pos (by omega), if_pos (by omega)]
    · apply Fin.ext
      simp only [launchTable, Fin.val_ofNat]
      omega
  · obtain rfl : n = 3 := by omega
    rw [tick_done c inner hact heq]
    refine ⟨hact, rfl, ?_, fun _ _ => ⟨rfl, rfl⟩⟩
    exact h.next
  · rw [tick_roundRobin c inner hact hgt]
    refine ⟨hact, ?_, ?_, ?_⟩
    · simp only
      omega
    · rw [turn_succ (by omega), ← h.next]
    · intro _ h4
      omega

theorem boot_phase (console : Console) (fs : Mem) : Phase 0 (System.boot console fs).view.table := by
  rw [boot_table]
  refine ⟨rfl, rfl, rfl, ?_⟩
  intro h1
  omega

/-- A step counts if it is a tick, and changes nothing of the schedule otherwise. -/
theorem step_phase (n : Nat) (s : System) (e : SystemEvent) (s' : System)
    (h : Phase n s.view.table) (_ : anyStep s e) (hstep : systemStep s e = some s') :
    Phase (if isTick e then n + 1 else n) s'.view.table := by
  have hview := systemStep_view hstep
  cases e with
  | tick esp ebp innerEsp innerEbp =>
      have htick := h.tick ⟨esp, ebp, s.cpu⟩ ⟨innerEsp, innerEbp, s.cpu⟩
      have htable : s'.view.table =
          (s.view.table.tick ⟨esp, ebp, s.cpu⟩ ⟨innerEsp, innerEbp, s.cpu⟩).1 := by
        obtain rfl := Option.some.inj hstep
        rw [tickStep_view]
        unfold TableSystem.tickTo
        split <;> rename_i hend <;> rw [hend]
      rw [htable]
      exact htick
  | key scancode =>
      simp only [SystemEvent.view, TableSystem.step] at hview
      split_ifs at hview with hmasked
      rw [← Option.some.inj hview]
      exact h.display hmasked _
  | execute cmd esp ebp =>
      obtain ⟨o, -, hexec⟩ := Option.map_eq_some_iff.mp hview
      have hkeep : Phase n s'.view.table := by
        rw [← hexec]
        have hsame := execute_sameSchedule s.view.table
          (decide (checkValid s.kernel.fs (parse cmd).1 ≠ -1)) ⟨esp, ebp, some o⟩
        unfold TableSystem.executeTo
        split <;> rename_i hend <;> rw [hend] at hsame <;> exact hsame.phase h
      exact hkeep
  | halt esp ebp =>
      obtain ⟨o, -, hblock⟩ := Option.bind_eq_some_iff.mp hview
      obtain ⟨slot, -, hhalt⟩ := Option.bind_eq_some_iff.mp hblock
      have hsame := halt_sameSchedule s.view.table slot ⟨esp, ebp, some o⟩
      unfold TableSystem.haltTo at hhalt
      split at hhalt <;> rename_i hend <;> rw [hend] at hsame
      · cases hhalt
      · rw [← Option.some.inj hhalt]
        exact hsame.phase h
      · rw [← Option.some.inj hhalt]
        exact hsame.phase h

theorem run_phase {C : System → SystemEvent → Prop} {n : Nat} {es : List SystemEvent}
    {s s' : System} (hrun : Run systemStep C s es s') (h : Phase n s.view.table) :
    Phase (n + es.countP isTick) s'.view.table :=
  (hrun.mono (fun _ _ _ => trivial)).counted (I := fun n s => Phase n s.view.table) step_phase h

/-! ## Terminals take turns -/

/--
In every run from boot, whatever the processes, the keys and the launches of
the shells come to: the number of ticks decides how many terminals have been
set up and whose turn it is, and from the first tick to the fifth no key is
listened to and the terminal set up last is displayed, the first one again
after the fourth tick.
-/
theorem run_rotation (console : Console) (fs : Mem) (es : List SystemEvent) (s : System)
    (hrun : Run systemStep anyStep (System.boot console fs) es s) :
    s.kernel.currentRunningProcessCount = min (es.countP isTick) 4 ∧
      s.kernel.nextTerminalInSchedule = turn (es.countP isTick) ∧
      (1 ≤ es.countP isTick → es.countP isTick ≤ 4 → KeyboardMasked s.kernel ∧
        s.kernel.activeTerminal = Fin.ofNat 3 (es.countP isTick - 1)) := by
  have h := run_phase hrun (boot_phase console fs)
  rw [Nat.zero_add] at h
  exact ⟨h.count, h.next, h.launching⟩

/-- The second screen is displayed after the second tick, and Alt+F1 does nothing there. -/
theorem run_rotation_two_ticks :
    ∃ s, Run systemStep anyStep (System.boot blankConsole shellImage)
        [.tick 1 1 1 1, .tick 2 2 2 2] s ∧
      s.kernel.activeTerminal = 1 ∧ systemStep s (.key 56) = none := by
  have hrun : Run systemStep anyStep (System.boot blankConsole shellImage)
      [.tick 1 1 1 1, .tick 2 2 2 2] _ :=
    Run.cons trivial rfl (Run.cons trivial rfl (Run.nil _))
  obtain ⟨-, -, hlaunching⟩ := run_rotation blankConsole shellImage _ _ hrun
  obtain ⟨hmasked, hactive⟩ := hlaunching (by decide) (by decide)
  refine ⟨_, hrun, hactive, ?_⟩
  rw [systemStep, if_pos hmasked]

/-- The process of terminal `t` runs on its own memory, and has the keyboard if it is displayed. -/
structure Served (s : System) (t : Fin 3) : Prop where
  cpu : s.cpu = some ⟨t, (s.kernel.terminal t).processNum⟩
  page : s.kernel.pDirectory 32 = programPage (s.kernel.terminal t).processNum
  stack : s.kernel.esp0 = kernelStack (s.kernel.terminal t).processNum
  keyboard : KeyboardMasked s.kernel ↔ t ≠ s.kernel.activeTerminal

/-- A tick of the rotation goes on with the process that waits for its turn. -/
theorem tick_served {D : Fin 6 → Prop} {s : System} {stack : Stacks}
    (h : Consistent D s.view stack) {n : Nat} (hphase : Phase n s.view.table) (hn : 4 ≤ n)
    (esp ebp innerEsp innerEbp : Nat) :
    Served (tickStep s esp ebp innerEsp innerEbp) (turn (n + 1)) := by
  have hfour : 3 < s.view.table.count := by
    rw [hphase.count]
    omega
  have hturn : turn (n + 1) = s.view.table.next + 1 := by
    rw [turn_succ hn, hphase.next]
  obtain ⟨o, ho, -⟩ := h.scheduled.running (by omega)
  have hwaits := h.waits _ o ho (h.scheduled.next_not_running hfour ho).2 (by omega)
  have hview := tickStep_view s esp ebp innerEsp innerEbp
  rw [tick_roundRobin _ _ hphase.activated hfour] at hview
  obtain ⟨-, hend⟩ := table_pitHandler s.kernel ⟨esp, ebp, s.cpu⟩ ⟨innerEsp, innerEbp, s.cpu⟩
  obtain ⟨-, hesp⟩ := pitHandler_window s.kernel ⟨esp, ebp, s.cpu⟩ ⟨innerEsp, innerEbp, s.cpu⟩
  have htick := tick_roundRobin ⟨esp, ebp, s.cpu⟩ ⟨innerEsp, innerEbp, s.cpu⟩ hphase.activated hfour
  have hsame : s.view.table = s.kernel.table := rfl
  rw [← hsame, htick] at hend
  have htable := congrArg TableSystem.table hview
  have hnext : (tickStep s esp ebp innerEsp innerEbp).kernel.nextTerminalInSchedule =
      s.view.table.next + 1 := congrArg ProcessTable.next htable
  have hnum : ∀ t, ((tickStep s esp ebp innerEsp innerEbp).kernel.terminal t).processNum =
      s.view.table.processNum t := fun t => congrFun (congrArg ProcessTable.processNum htable) t
  have hactive : (tickStep s esp ebp innerEsp innerEbp).kernel.activeTerminal =
      s.view.table.active := congrArg ProcessTable.active htable
  have hmasked : (tickStep s esp ebp innerEsp innerEbp).kernel.masterBitMask.getLsbD 1 =
      decide (s.view.table.next + 1 ≠ s.view.table.active) := congrArg ProcessTable.masked htable
  rw [hturn]
  refine ⟨?_, ?_, ?_, ?_⟩
  · rw [hnum, ← hwaits]
    exact congrArg TableSystem.cpu hview
  · rw [hnum]
    exact congrArg ProcessTable.page htable
  · have hselects : tickSelects s.kernel ⟨esp, ebp, s.cpu⟩ ⟨innerEsp, innerEbp, s.cpu⟩ =
        some (s.view.table.processNum (s.view.table.next + 1)) := by
      unfold tickSelects
      rw [hend]
      simp only
      rw [← tickStep_kernel, hnext, hnum]
    rw [tickStep_kernel, hesp, hselects, ← tickStep_kernel, hnum]
    rfl
  · unfold KeyboardMasked
    rw [hmasked, hactive, decide_eq_true_iff]

/--
No terminal starves.  Once the terminals are set up, whatever the processes
and the keys do between the ticks, one of any three ticks in a row goes on
with the process of terminal `t`, on its own program page and its own kernel
stack, and listens to the keyboard exactly if `t` is displayed.
-/
theorem run_serves_terminals {console : Console} {fs : Mem} {es₀ es : List SystemEvent}
    {s₀ s : System} (hstart : Run systemStep KeepsPages (System.boot console fs) es₀ s₀)
    (hlaunched : 4 ≤ es₀.countP isTick) (hrun : Run systemStep KeepsPages s₀ es s)
    (hticks : 3 ≤ es.countP isTick) (t : Fin 3) :
    ∃ es₁ e es₂ s₁, es = es₁ ++ e :: es₂ ∧ isTick e = true ∧ es₁.countP isTick < 3 ∧
      Run systemStep KeepsPages s₀ (es₁ ++ [e]) s₁ ∧ Run systemStep KeepsPages s₁ es₂ s ∧
      Served s₁ t := by
  have hphase₀ := run_phase hstart (boot_phase console fs)
  rw [Nat.zero_add] at hphase₀
  obtain ⟨m, hm, rfl⟩ := exists_turn hlaunched t
  obtain ⟨es₁, e, es₂, s₁, s₂, rfl, htick, hcount, hrun₁, hguard, hstep, hrun₂⟩ :=
    hrun.nth (p := isTick) (m := m) (by omega)
  refine ⟨es₁, e, es₂, s₂, rfl, htick, by omega, ?_, hrun₂, ?_⟩
  · exact hrun₁.append (Run.cons hguard hstep (Run.nil s₂))
  · have hphase := run_phase hrun₁ hphase₀
    rw [hcount] at hphase
    obtain ⟨⟨stack, h⟩, -⟩ := run_kept_of_launches (fun _ hp => hp)
      (fun _ _ hown hC => KeepsPages.guard hown hC) (hstart.append hrun₁)
    cases e with
    | tick esp ebp innerEsp innerEbp =>
        obtain rfl := Option.some.inj hstep
        exact tick_served h hphase (by omega) esp ebp innerEsp innerEbp
    | key scancode => cases htick
    | execute cmd esp ebp => cases htick
    | halt esp ebp => cases htick

/-- Three ticks and a shell started between them, with a turn for terminal 2. -/
theorem run_serves_terminals_nested_shell :
    ∃ s₀ s es₁ e s₁,
      Run systemStep KeepsPages (System.boot blankConsole shellImage) (sixTicks.take 4) s₀ ∧
      Run systemStep KeepsPages s₀
        [.tick 5 5 5 5, .execute shellCommand 0x7FFF98 0x7FFFB8, .tick 6 6 6 6, .tick 7 7 7 7] s ∧
      Run systemStep KeepsPages s₀ (es₁ ++ [e]) s₁ ∧ Served s₁ 2 := by
  have hvals : (exec systemStep KeepsPages (System.boot blankConsole shellImage)
      (sixTicks.take 4 ++ [.tick 5 5 5 5, .execute shellCommand 0x7FFF98 0x7FFFB8, .tick 6 6 6 6,
        .tick 7 7 7 7])).isSome = true := by
    decide +kernel
  obtain ⟨s, hs⟩ := Option.isSome_iff_exists.mp hvals
  obtain ⟨s₀, hstart, hrun⟩ := (run_of_exec hs).split
  obtain ⟨es₁, e, -, s₁, -, -, -, hrun₁, -, hserved⟩ :=
    run_serves_terminals hstart (by decide) hrun (by decide) 2
  exact ⟨s₀, s, es₁, e, s₁, hstart, hrun, hrun₁, hserved⟩

end OopsOs
