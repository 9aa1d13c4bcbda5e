import OopsOs.TableSystem
import OopsOs.Lib.FirstFit

/-!
# The scheduler never loses a context

The timer handler picks the slot it saves a context to in three ways, by the
displayed terminal, by the number 2 and by the schedule.  `Scheduled` says
why each of them is the terminal that runs: while shells are started the
keyboard is masked, so the displayed terminal is the one whose shell was
started last, and the round robin begins where that has ended.
-/

namespace OopsOs

open ByteMem Machine

/-! ## What a tick does to the table -/

/-- The round robin does not stay at a terminal. -/
theorem next_terminal_ne (n : Fin 3) : n + 1 ≠ n := by
  revert n
  decide

section Tick

variable {T : ProcessTable} (c inner : Context)

/-- The table when a tick of the first phase calls `execute`. -/
def launchTable (T : ProcessTable) (n : Fin 3) (c : Context) : ProcessTable :=
  { T with
    current := if T.count ≠ 0 then Function.update T.current T.active c else T.current
    masked := true
    active := n
    count := T.count + 1 }

theorem tick_launch (hact : T.activated = true) (h : T.count < 3) :
    T.tick c inner =
      match (launchTable T ⟨T.count, h⟩ c).execute T.shellOk inner with
      | (T, some pid) => (T, .entered pid)
      | (T, none) => (T, .continued) := by
  unfold ProcessTable.tick ProcessTable.schedule ProcessTable.launchShell launchTable
  simp only [hact, if_true, dif_pos h]
  split_ifs <;> rfl

theorem tick_launched (hact : T.activated = true) (h : T.count < 3) (hok : T.shellOk = true)
    {pid : Fin 6} (hfree : T.freeSlot = some pid) :
    T.tick c inner = ((launchTable T ⟨T.count, h⟩ c).start pid inner, .entered pid) := by
  have hfree' : (launchTable T ⟨T.count, h⟩ c).freeSlot = some pid := hfree
  rw [tick_launch c inner hact h, ProcessTable.execute, if_pos hok, hfree']

theorem tick_launch_failed (hact : T.activated = true) (h : T.count < 3)
    (hfail : T.shellOk = true → T.freeSlot = none) :
    T.tick c inner = (launchTable T ⟨T.count, h⟩ c, .continued) := by
  rw [tick_launch c inner hact h, ProcessTable.execute]
  by_cases hok : T.shellOk = true
  · have hfree : (launchTable T ⟨T.count, h⟩ c).freeSlot = none := hfail hok
    rw [if_pos hok, hfree]
  · rw [if_neg hok]

theorem tick_done (hact : T.activated = true) (h : T.count = 3) :
    T.tick c inner =
      ({ T with
          current := Function.update T.current 2 c
          masked := true
          active := 0
          count := 4 },
        .continued) := by
  unfold ProcessTable.tick ProcessTable.schedule ProcessTable.launchesDone ProcessTable.saveContext
  simp only [hact, if_true, h, show ¬ (3 < 3) by decide, dite_false]

theorem tick_roundRobin (hact : T.activated = true) (h : 3 < T.count) :
    T.tick c inner =
      ({ T with
          current := Function.update T.current T.next c
          next := T.next + 1
          masked := decide (T.next + 1 ≠ T.active)
          page := programPage (T.processNum (T.next + 1)) },
        .resumed (T.current (T.next + 1))) := by
  have hother := next_terminal_ne T.next
  unfold ProcessTable.tick ProcessTable.schedule ProcessTable.roundRobin ProcessTable.saveContext
  simp only [hact, if_true, dif_neg (show ¬ T.count < 3 by omega),
    if_neg (show ¬ T.count = 3 by omega), Function.update_of_ne hother]

end Tick

/-! ## The scheduling invariant -/

structure Scheduled (s : TableSystem) : Prop where
  activated : s.table.activated = true
  idle : s.table.count = 0 → s.cpu = none
  start : s.table.count ≤ 3 → s.table.next = 2
  launching : 1 ≤ s.table.count → s.table.count ≤ 3 →
    s.table.masked = true ∧ s.table.active.val + 1 = s.table.count
  running : 1 ≤ s.table.count → ∃ o, s.cpu = some o ∧
    (s.table.count ≤ 3 → o.term.val + 1 = s.table.count) ∧
    (3 ≤ s.table.count → o.term = s.table.next)
  away : ∀ t o, s.cpu = some o → t ≠ o.term → t.val < s.table.count →
    (∃ p, (s.table.current t).owner = some ⟨t, p⟩) ∧ s.preempted t = some (s.table.current t)

theorem preempt_of_cpu {s : TableSystem} {o : Owner} (h : s.cpu = some o) (c : Context) :
    s.preempt c = Function.update s.preempted o.term (some c) := by
  unfold TableSystem.preempt
  rw [h]

section Step

variable {s : TableSystem} (hs : Scheduled s)
include hs

/-- The terminal that the round robin comes to is not the running one. -/
theorem Scheduled.next_not_running (hfour : 3 < s.table.count) {o : Owner} (ho : s.cpu = some o) :
    o.term = s.table.next ∧ s.table.next + 1 ≠ o.term := by
  obtain ⟨o', ho', -, hnext⟩ := hs.running (by omega)
  obtain rfl := Option.some.inj (ho.symm.trans ho')
  have hterm : o.term = s.table.next := hnext (by omega)
  refine ⟨hterm, ?_⟩
  rw [hterm]
  exact next_terminal_ne _

/-- A terminal that is away stays away when the running one is saved to its own slot. -/
theorem Scheduled.away_update {o : Owner} (ho : s.cpu = some o) {c : Context}
    (hc : c.owner = some o) {t : Fin 3} (ht : t.val < s.table.count) :
    (∃ p, (Function.update s.table.current o.term c t).owner = some ⟨t, p⟩) ∧
      Function.update s.preempted o.term (some c) t =
        some (Function.update s.table.current o.term c t) := by
  by_cases hto : t = o.term
  · subst hto
    simp only [Function.update_self]
    exact ⟨⟨o.pid, hc⟩, trivial⟩
  · simp only [Function.update_of_ne hto]
    exact hs.away t o ho hto ht

/-- The first phase, when the shell is entered. -/
theorem launched_scheduled (h : s.table.count < 3) (pid : Fin 6) (esp ebp : Nat) (inner : Context) :
    Scheduled (s.tickTo ⟨esp, ebp, s.cpu⟩
      ((launchTable s.table ⟨s.table.count, h⟩ ⟨esp, ebp, s.cpu⟩).start pid inner,
        .entered pid)) := by
  refine ⟨hs.activated, ?_, ?_, ?_, ?_, ?_⟩
  · intro h0
    exact absurd h0 (Nat.succ_ne_zero _)
  · intro _
    exact hs.start (by omega)
  · intro _ _
    exact ⟨rfl, rfl⟩
  · intro _
    refine ⟨⟨⟨s.table.count, h⟩, pid⟩, rfl, fun _ => rfl, ?_⟩
    intro h3
    have hnext := hs.start (by omega)
    apply Fin.ext
    simp only [TableSystem.tickTo, launchTable, ProcessTable.start] at h3 ⊢
    rw [hnext]
    simp
    omega
  · intro t o ho hne hlt
    obtain rfl := Option.some.inj ho
    simp only [TableSystem.tickTo, launchTable, ProcessTable.start] at hne hlt ⊢
    have hlt' : t.val < s.table.count := by
      have : t.val ≠ s.table.count := fun he => hne (Fin.ext he)
      omega
    obtain ⟨o, ho', hterm, -⟩ := hs.running (by omega)
    obtain ⟨-, hactive⟩ := hs.launching (by omega) (by omega)
    have hslot : s.table.active = o.term := Fin.ext (by have := hterm (by omega); omega)
    rw [if_pos (by omega), hslot, preempt_of_cpu ho']
    exact hs.away_update ho' ho' hlt'

/-- The second phase: the running process goes on. -/
theorem done_scheduled (h : s.table.count = 3) (esp ebp : Nat) :
    Scheduled (s.tickTo ⟨esp, ebp, s.cpu⟩
      ({ s.table with
          current := Function.update s.table.current 2 ⟨esp, ebp, s.cpu⟩
          masked := true
          active := 0
          count := 4 },
        .continued)) := by
  obtain ⟨o, ho, -, hnext⟩ := hs.running (by omega)
  have hterm : o.term = s.table.next := hnext (by omega)
  have htwo : o.term = 2 := hterm.trans (hs.start (by omega))
  refine ⟨hs.activated, ?_, ?_, ?_, ?_, ?_⟩
  · intro h0
    exact absurd h0 (by simp [TableSystem.tickTo])
  · intro h3
    exact absurd h3 (by simp [TableSystem.tickTo])
  · intro _ h3
    exact absurd h3 (by simp [TableSystem.tickTo])
  · intro _
    exact ⟨o, ho, fun h3 => absurd h3 (by simp [TableSystem.tickTo]), fun _ => hterm⟩
  · intro t o' ho' hne hlt
    simp only [TableSystem.tickTo] at ho' ⊢
    rw [preempt_of_cpu ho, ← htwo]
    exact hs.away_update ho ho (by omega)

/-- The round robin: the next terminal was away, so its slot holds its own context. -/
theorem roundRobin_scheduled (h : 3 < s.table.count) (esp ebp : Nat) :
    Scheduled (s.tickTo ⟨esp, ebp, s.cpu⟩
      ({ s.table with
          current := Function.update s.table.current s.table.next ⟨esp, ebp, s.cpu⟩
          next := s.table.next + 1
          masked := decide (s.table.next + 1 ≠ s.table.active)
          page := programPage (s.table.processNum (s.table.next + 1)) },
        .resumed (s.table.current (s.table.next + 1)))) := by
  obtain ⟨o, ho, -⟩ := hs.running (by omega)
  obtain ⟨hterm, hother⟩ := hs.next_not_running h ho
  obtain ⟨⟨p, howner⟩, -⟩ := hs.away (s.table.next + 1) o ho hother (by omega)
  refine ⟨hs.activated, ?_, ?_, ?_, ?_, ?_⟩
  · intro h0
    simp only [TableSystem.tickTo] at h0
    omega
  · intro h3
    simp only [TableSystem.tickTo] at h3
    omega
  · intro _ h3
    simp only [TableSystem.tickTo] at h3
    omega
  · intro _
    refine ⟨⟨s.table.next + 1, p⟩, howner, ?_, fun _ => rfl⟩
    intro h3
    simp only [TableSystem.tickTo] at h3
    omega
  · intro t o' ho' hne hlt
    simp only [TableSystem.tickTo] at ho' hlt ⊢
    rw [preempt_of_cpu ho, ← hterm]
    exact hs.away_update ho ho hlt

/-- A terminal switch; while shells are started there is none. -/
theorem display_scheduled (h : ¬ s.table.masked = true) (t : Fin 3) :
    Scheduled { s with table := { s.table with active := t } } := by
  refine ⟨hs.activated, hs.idle, hs.start, ?_, hs.running, hs.away⟩
  intro h1 h3
  exact absurd (hs.launching h1 h3).1 h

end Step

/-! ## Free slots -/

theorem freeSlot_spec {T : ProcessTable} {pid : Fin 6} (h : T.freeSlot = some pid) :
    T.occupants pid = 0 ∧ ∀ q, q < pid → T.occupants q ≠ 0 := by
  obtain ⟨hfree, hleast⟩ := FirstFit.find?_eq_some_iff.mp h
  refine ⟨hfree, ?_⟩
  intro q hq hzero
  exact absurd (hleast hzero) (not_le.mpr hq)

theorem freeSlot_of_free {T : ProcessTable} {p : Fin 6} (h : T.occupants p = 0) :
    ∃ pid, T.freeSlot = some pid ∧ pid ≤ p := by
  cases hfree : T.freeSlot with
  | none =>
      exact absurd h (FirstFit.find?_eq_none_iff.mp hfree p)
  | some pid =>
      exact ⟨pid, rfl, (FirstFit.find?_eq_some_iff.mp hfree).2 h⟩

/-! ## Ticks and keys from boot -/

/-- While shells are started, the occupied slots are those of the shells. -/
structure ShellsOnly (s : TableSystem) : Prop where
  scheduled : Scheduled s
  shell : s.table.shellOk = true
  slots : s.table.count ≤ 3 → ∀ p, s.table.occupants p = 0 ↔ s.table.count ≤ p.val

theorem tick_shellsOnly {s s' : TableSystem} (h : ShellsOnly s) {esp ebp innerEsp innerEbp : Nat}
    (hstep : s.step (.tick esp ebp innerEsp innerEbp) = some s') : ShellsOnly s' := by
  have hs := h.scheduled
  obtain rfl := Option.some.inj hstep
  rcases lt_trichotomy s.table.count 3 with hlt | heq | hgt
  · have hfree : s.table.occupants ⟨s.table.count, by omega⟩ = 0 :=
      (h.slots (by omega) _).mpr (le_refl _)
    obtain ⟨pid, hpid, hle⟩ := freeSlot_of_free hfree
    have hval : pid.val = s.table.count := by
      have hge := (h.slots (by omega) pid).mp (freeSlot_spec hpid).1
      have := Fin.le_def.mp hle
      simp only at this
      omega
    rw [tick_launched _ _ hs.activated hlt h.shell hpid]
    refine ⟨launched_scheduled hs hlt pid esp ebp _, h.shell, ?_⟩
    intro _ p
    simp only [TableSystem.tickTo, launchTable, ProcessTable.start]
    by_cases hp : p = pid
    · subst hp
      simp only [Function.update_self]
      omega
    · have hne : p.val ≠ pid.val := fun he => hp (Fin.ext he)
      rw [Function.update_of_ne hp, h.slots (by omega) p]
      omega
  · rw [tick_done _ _ hs.activated heq]
    refine ⟨done_scheduled hs heq esp ebp, h.shell, ?_⟩
    intro h3
    exact absurd h3 (by simp [TableSystem.tickTo])
  · rw [tick_roundRobin _ _ hs.activated hgt]
    refine ⟨roundRobin_scheduled hs hgt esp ebp, h.shell, ?_⟩
    intro h3
    simp only [TableSystem.tickTo] at h3
    omega

theorem display_shellsOnly {s s' : TableSystem} (h : ShellsOnly s) {t : Fin 3}
    (hstep : s.step (.display t) = some s') : ShellsOnly s' := by
  simp only [TableSystem.step] at hstep
  split_ifs at hstep with hmasked
  obtain rfl := Option.some.inj hstep
  exact ⟨display_scheduled h.scheduled hmasked t, h.shell, h.slots⟩

/-- Runs made of timer ticks and keys. -/
def TimerAndKeys (_ : System) : SystemEvent → Prop
  | .tick _ _ _ _ => True
  | .key _ => True
  | _ => False

instance (s : System) : (e : SystemEvent) → Decidable (TimerAndKeys s e)
  | .tick _ _ _ _ => isTrue trivial
  | .key _ => isTrue trivial
  | .execute _ _ _ => isFalse (fun h => h)
  | .halt _ _ => isFalse (fun h => h)

theorem step_shellsOnly (s : System) (e : SystemEvent) (s' : System) (h : ShellsOnly s.view)
    (hC : TimerAndKeys s e) (hstep : systemStep s e = some s') : ShellsOnly s'.view := by
  have hview := systemStep_view hstep
  cases e with
  | tick esp ebp innerEsp innerEbp => exact tick_shellsOnly h hview
  | key scancode => exact display_shellsOnly h hview
  | execute cmd esp ebp => exact absurd hC (fun hf => hf)
  | halt esp ebp => exact absurd hC (fun hf => hf)

theorem table_openTerminal (k : Kernel) (j : Fin 3) :
    (openTerminal k j).table = k.table.saveContext j ⟨0, 0, none⟩ := by
  refine ProcessTable.ext (funext fun u => ?_) (funext fun u => ?_) rfl rfl rfl rfl rfl rfl rfl
    rfl rfl rfl rfl
  · by_cases hu : u = j <;> simp [openTerminal, Kernel.table, ProcessTable.saveContext, hu]
  · by_cases hu : u = j <;> simp [openTerminal, Kernel.table, ProcessTable.saveContext, hu]

theorem table_keyboardInitialize (k : Kernel) :
    (keyboardInitialize k).table =
      { k.table with current := fun _ => ⟨0, 0, none⟩, masked := false, active := 0 } := by
  have hopen : (terminalOpen (enableIrq k 0x01)).table =
      { k.table with current := fun _ => ⟨0, 0, none⟩, masked := false } := by
    unfold terminalOpen
    rw [table_openTerminal, table_openTerminal, table_openTerminal, table_enableIrq]
    refine ProcessTable.ext rfl (funext fun u => ?_) rfl rfl rfl rfl rfl rfl rfl rfl rfl rfl rfl
    revert u
    simp [ProcessTable.saveContext, Fin.forall_fin_succ]
  have hflags : ∀ k' : Kernel, Kernel.table
      { k' with
        activeTerminal := 0
        capsStatus := false
        shiftStatus := false
        ctrlStatus := false
        altStatus := false } = { k'.table with active := 0 } := fun _ => rfl
  unfold keyboardInitialize
  rw [hflags, hopen]

/-- The kernel that `entry` leaves, as a table. -/
theorem boot_table (console : Console) (fs : Mem) :
    (System.boot console fs).view.table =
      { (Kernel.zero console.mem fs).table with
        next := 2
        activated := true
        masked := false } := by
  have hboot : (System.boot console fs).view.table =
      (saveAndSwitchTerm (keyboardInitialize (enableIrq (scheduleInitialization
        (enableIrq (enableIrq { Kernel.zero console.mem fs with
          console := console, masterBitMask := 0xFC, slaveBitMask := 0xFC } 2) 0x08)) 0)) 0).table :=
    rfl
  rw [hboot, table_saveAndSwitchTerm, table_keyboardInitialize]
  rfl

theorem boot_scheduled (console : Console) (fs : Mem) : Scheduled (System.boot console fs).view := by
  have htable := boot_table console fs
  have hcount : (System.boot console fs).view.table.count = 0 := by
    rw [htable]
    rfl
  refine ⟨by rw [htable], fun _ => rfl, fun _ => by rw [htable], ?_, ?_, ?_⟩
  · intro h1
    omega
  · intro h1
    omega
  · intro t o ho
    cases ho

theorem boot_shellsOnly (console : Console) {fs : Mem}
    (hshell : checkValid fs (parse shellCommand).1 ≠ -1) :
    ShellsOnly (System.boot console fs).view := by
  have htable := boot_table console fs
  refine ⟨boot_scheduled console fs, ?_, ?_⟩
  · rw [htable]
    exact decide_eq_true hshell
  · intro _ p
    rw [htable]
    exact iff_of_true rfl (Nat.zero_le _)

section Contexts

variable {s : TableSystem} (h : ShellsOnly s) (esp ebp : Nat) (inner : Context)
include h

/-- A tick writes the slot of the running terminal, and no other. -/
theorem tick_current :
    (∀ t, (∀ o, s.cpu = some o → t ≠ o.term) →
      (s.table.tick ⟨esp, ebp, s.cpu⟩ inner).1.current t = s.table.current t) ∧
    (∀ o, s.cpu = some o →
      (s.table.tick ⟨esp, ebp, s.cpu⟩ inner).1.current o.term = ⟨esp, ebp, some o⟩) := by
  have hs := h.scheduled
  have hslot : ∀ (o : Owner) (slot : Fin 3), s.cpu = some o → slot = o.term →
      (∀ t, (∀ o, s.cpu = some o → t ≠ o.term) →
        Function.update s.table.current slot ⟨esp, ebp, s.cpu⟩ t = s.table.current t) ∧
      (∀ o, s.cpu = some o →
        Function.update s.table.current slot ⟨esp, ebp, s.cpu⟩ o.term = ⟨esp, ebp, some o⟩) := by
    intro o slot ho hslot
    refine ⟨fun t ht => ?_, fun o' ho' => ?_⟩
    · rw [hslot, Function.update_of_ne (ht o ho)]
    · obtain rfl := Option.some.inj (ho.symm.trans ho')
      rw [hslot, Function.update_self, ho]
  rcases lt_trichotomy s.table.count 3 with hlt | heq | hgt
  · have hfree : s.table.occupants ⟨s.table.count, by omega⟩ = 0 :=
      (h.slots (by omega) _).mpr (le_refl _)
    obtain ⟨pid, hpid, -⟩ := freeSlot_of_free hfree
    rw [tick_launched _ _ hs.activated hlt h.shell hpid]
    simp only [ProcessTable.start, launchTable]
    by_cases hzero : s.table.count = 0
    · rw [if_neg (by omega), hs.idle hzero]
      refine ⟨fun _ _ => rfl, fun o ho => ?_⟩
      cases ho
    · rw [if_pos hzero]
      obtain ⟨o, ho, hterm, -⟩ := hs.running (by omega)
      obtain ⟨-, hactive⟩ := hs.launching (by omega) (by omega)
      exact hslot o s.table.active ho (Fin.ext (by have := hterm (by omega); omega))
  · obtain ⟨o, ho, -, hnext⟩ := hs.running (by omega)
    rw [tick_done _ _ hs.activated heq]
    exact hslot o 2 ho ((hnext (by omega)).trans (hs.start (by omega))).symm
  · obtain ⟨o, ho, -, hnext⟩ := hs.running (by omega)
    rw [tick_roundRobin _ _ hs.activated hgt]
    exact hslot o s.table.next ho (hnext (by omega)).symm

/-- A tick that switches loads what the last preemption of that terminal has saved. -/
theorem tick_resumed {c : Context} (hc : (s.table.tick ⟨esp, ebp, s.cpu⟩ inner).2 = .resumed c) :
    ∃ p, c.owner = some ⟨(s.table.tick ⟨esp, ebp, s.cpu⟩ inner).1.next, p⟩ ∧
      s.preempted (s.table.tick ⟨esp, ebp, s.cpu⟩ inner).1.next = some c := by
  have hs := h.scheduled
  rcases lt_trichotomy s.table.count 3 with hlt | heq | hgt
  · rw [tick_launch _ _ hs.activated hlt] at hc
    split at hc <;> cases hc
  · rw [tick_done _ _ hs.activated heq] at hc
    cases hc
  · rw [tick_roundRobin _ _ hs.activated hgt] at hc ⊢
    obtain rfl := TickEnd.resumed.inj hc
    obtain ⟨o, ho, -⟩ := hs.running (by omega)
    have hother := (hs.next_not_running hgt ho).2
    obtain ⟨⟨p, howner⟩, hpre⟩ := hs.away (s.table.next + 1) o ho hother (by omega)
    exact ⟨p, howner, hpre⟩

end Contexts

/--
The scheduler never loses a context.  After any run of ticks and keys from
boot, the next tick saves the running process into the slot of its own
terminal and touches no other slot, and if it switches to a terminal, the
context it loads is the one that the last tick to preempt that terminal's
process has saved.
-/
theorem scheduler_keeps_contexts (console : Console) (fs : Mem)
    (hshell : checkValid fs (parse shellCommand).1 ≠ -1) (es : List SystemEvent) (s : System)
    (hrun : Run systemStep TimerAndKeys (System.boot console fs) es s)
    (esp ebp innerEsp innerEbp : Nat) :
    let s' := tickStep s esp ebp innerEsp innerEbp
    (∀ t, (∀ o, s.cpu = some o → t ≠ o.term) →
      (s'.kernel.terminal t).current = (s.kernel.terminal t).current) ∧
    (∀ o, s.cpu = some o → (s'.kernel.terminal o.term).current = ⟨esp, ebp, some o⟩) ∧
    (∀ c, (pitHandler s.kernel ⟨esp, ebp, s.cpu⟩ ⟨innerEsp, innerEbp, s.cpu⟩).2 = .resumed c →
      ∃ p, c.owner = some ⟨s'.kernel.nextTerminalInSchedule, p⟩ ∧
        s.preempted s'.kernel.nextTerminalInSchedule = some c ∧ s'.cpu = c.owner) := by
  intro s'
  have h : ShellsOnly s.view := by
    apply hrun.invariant (I := fun s => ShellsOnly s.view) step_shellsOnly
    exact boot_shellsOnly console hshell
  obtain ⟨htable, hend⟩ := table_pitHandler s.kernel ⟨esp, ebp, s.cpu⟩ ⟨innerEsp, innerEbp, s.cpu⟩
  have hkernel : s'.kernel =
      (pitHandler s.kernel ⟨esp, ebp, s.cpu⟩ ⟨innerEsp, innerEbp, s.cpu⟩).1 :=
    tickStep_kernel s esp ebp innerEsp innerEbp
  have hcurrent : ∀ t, (s'.kernel.terminal t).current =
      (s.view.table.tick ⟨esp, ebp, s.cpu⟩ ⟨innerEsp, innerEbp, s.cpu⟩).1.current t := by
    intro t
    rw [hkernel]
    exact congrFun (congrArg ProcessTable.current htable) t
  have hnext : s'.kernel.nextTerminalInSchedule =
      (s.view.table.tick ⟨esp, ebp, s.cpu⟩ ⟨innerEsp, innerEbp, s.cpu⟩).1.next := by
    rw [hkernel]
    exact congrArg ProcessTable.next htable
  obtain ⟨hother, hown⟩ := tick_current h esp ebp ⟨innerEsp, innerEbp, s.cpu⟩
  refine ⟨fun t ht => (hcurrent t).trans (hother t ht), fun o ho => (hcurrent _).trans (hown o ho), ?_⟩
  intro c hc
  rw [hend] at hc
  obtain ⟨p, howner, hpre⟩ := tick_resumed h esp ebp ⟨innerEsp, innerEbp, s.cpu⟩ hc
  have hcpu : s.view.cpu = s.cpu := rfl
  rw [hcpu, ← hnext] at howner hpre
  refine ⟨p, howner, hpre, ?_⟩
  rw [← hend] at hc
  simp only [s', tickStep]
  split <;> rename_i hpit <;> rw [hpit] at hc <;> cases hc
  rfl

/-- The fifth tick after boot goes back to terminal 0, which the second one has preempted. -/
theorem scheduler_keeps_contexts_fifth_tick :
    ∃ s, Run systemStep TimerAndKeys (System.boot blankConsole shellImage)
        [.tick 1 1 1 1, .tick 2 2 2 2, .tick 3 3 3 3, .tick 4 4 4 4] s ∧
      (pitHandler s.kernel ⟨5, 5, s.cpu⟩ ⟨5, 5, s.cpu⟩).2 = .resumed ⟨2, 2, some ⟨0, 0⟩⟩ ∧
      (tickStep s 5 5 5 5).cpu = some ⟨0, 0⟩ := by
  have hvals : (exec systemStep TimerAndKeys (System.boot blankConsole shellImage)
      [.tick 1 1 1 1, .tick 2 2 2 2, .tick 3 3 3 3, .tick 4 4 4 4]).map (fun s =>
        (pitHandler s.kernel ⟨5, 5, s.cpu⟩ ⟨5, 5, s.cpu⟩).2) =
      some (.resumed ⟨2, 2, some ⟨0, 0⟩⟩) := by
    decide +kernel
  obtain ⟨s, hs, hresumed⟩ := Option.map_eq_some_iff.mp hvals
  have hrun := run_of_exec hs
  obtain ⟨-, -, hswitch⟩ := scheduler_keeps_contexts blankConsole shellImage shellImage_valid _ s
    hrun 5 5 5 5
  obtain ⟨p, -, -, hcpu⟩ := hswitch _ hresumed
  exact ⟨s, hrun, hresumed, hcpu⟩

end OopsOs
