import OopsOs.ProcessRuns
import OopsOs.ProgramWindow

/-!
# The control blocks that the calls find

A system call runs on the stack that `tss.esp0` points into, and `get_pcb` takes
the control block at the bottom of that stack for the caller's.  The scheduler
and `execute` leave `tss.esp0` at the top of the stack of the process they
select.  `halt` leaves it where the `execute` of the caller has stood, by the
context in the block of the process that ends.

`OwnBlocks` says that the process that runs finds its own block, and that the
processes that wait have left their contexts on their own stacks.  Every step
that keeps the stacks of processes keeps it.
-/

namespace OopsOs

open ByteMem Machine

/-! ## Where a process has its parent from -/

/-- The saved context and the number of a slot are the same in two tables. -/
structure SameBlock (T T' : ProcessTable) (p : Fin 6) : Prop where
  saved : T'.saved p = T.saved p
  number : T'.number p = T.number p

theorem start_block (T : ProcessTable) {n p : Fin 6} (c : Context) (h : p ≠ n) :
    SameBlock T (T.start n c) p := by
  constructor
  · simp [ProcessTable.start, h]
  · simp [ProcessTable.start, h]

theorem execute_block (T : ProcessTable) (valid : Bool) (c : Context) {p : Fin 6}
    (h : (T.execute valid c).2 ≠ some p) : SameBlock T (T.execute valid c).1 p := by
  unfold ProcessTable.execute at h ⊢
  split_ifs at h ⊢
  · cases hfree : T.freeSlot with
    | none => exact ⟨rfl, rfl⟩
    | some n =>
        rw [hfree] at h
        exact start_block T c (fun he => h (congrArg some he.symm))
  · exact ⟨rfl, rfl⟩

theorem execute_start (T : ProcessTable) (valid : Bool) (c : Context) {n : Fin 6}
    (h : (T.execute valid c).2 = some n) : (T.execute valid c).1 = T.start n c := by
  unfold ProcessTable.execute at h ⊢
  split_ifs at h ⊢
  cases hfree : T.freeSlot with
  | none =>
      rw [hfree] at h
      cases h
  | some p =>
      rw [hfree] at h
      obtain rfl := Option.some.inj h
      rfl

theorem halt_block (T : ProcessTable) (slot : Fin 6) (c : Context) {p : Fin 6}
    (h : (T.halt slot c).2 ≠ .entered p) : SameBlock T (T.halt slot c).1 p := by
  unfold ProcessTable.halt at h ⊢
  cases hterm : T.processTerm (T.number slot) with
  | none => exact ⟨rfl, rfl⟩
  | some term =>
      simp only [hterm] at h ⊢
      split_ifs at h ⊢
      · obtain ⟨T', r, hexec⟩ : ∃ T' r,
            (T.free (T.processNum term)).execute T.shellOk c = (T', r) := ⟨_, _, rfl⟩
        have hblock := execute_block (T.free (T.processNum term)) T.shellOk c (p := p)
        rw [hexec] at h hblock ⊢
        cases r with
        | none =>
            obtain ⟨hsaved, hnumber⟩ := hblock (by simp)
            exact ⟨hsaved, hnumber⟩
        | some n =>
            obtain ⟨hsaved, hnumber⟩ := hblock (fun he => h (congrArg HaltEnd.entered
              (Option.some.inj he)))
            exact ⟨hsaved, hnumber⟩
      · exact ⟨rfl, rfl⟩

theorem tick_block (T : ProcessTable) (c inner : Context) {p : Fin 6}
    (h : (T.tick c inner).2 ≠ .entered p) : SameBlock T (T.tick c inner).1 p := by
  by_cases hact : T.activated = true
  · rcases lt_trichotomy T.count 3 with hlt | heq | hgt
    · have hblock := execute_block (launchTable T ⟨T.count, hlt⟩ c) T.shellOk inner (p := p)
      rw [tick_launch c inner hact hlt] at h ⊢
      obtain ⟨T', r, hexec⟩ : ∃ T' r,
          (launchTable T ⟨T.count, hlt⟩ c).execute T.shellOk inner = (T', r) := ⟨_, _, rfl⟩
      rw [hexec] at h hblock ⊢
      cases r with
      | none =>
          obtain ⟨hsaved, hnumber⟩ := hblock (by simp)
          exact ⟨hsaved, hnumber⟩
      | some n =>
          obtain ⟨hsaved, hnumber⟩ := hblock (fun he => h (congrArg TickEnd.entered
            (Option.some.inj he)))
          exact ⟨hsaved, hnumber⟩
    · rw [tick_done c inner hact heq]
      exact ⟨rfl, rfl⟩
    · rw [tick_roundRobin c inner hact hgt]
      exact ⟨rfl, rfl⟩
  · unfold ProcessTable.tick ProcessTable.schedule
    rw [if_neg hact]
    exact ⟨rfl, rfl⟩

section Parents

variable {s : TableSystem} {p q : Fin 6}

/-- A tick takes the parent of the shell it enters, and leaves all others. -/
theorem tickTo_parent {c inner : Context}
    (hp : (s.tickTo c (s.table.tick c inner)).parent p = some q) :
    s.parent p = some q ∧ SameBlock s.table (s.tickTo c (s.table.tick c inner)).table p := by
  have hblock := tick_block s.table c inner (p := p)
  obtain ⟨T, r, htick⟩ : ∃ T r, s.table.tick c inner = (T, r) := ⟨_, _, rfl⟩
  rw [htick] at hp hblock ⊢
  cases r with
  | entered n =>
      have hpn : p ≠ n := by
        rintro rfl
        simp [TableSystem.tickTo] at hp
      simp only [TableSystem.tickTo, Function.update_of_ne hpn] at hp
      exact ⟨hp, hblock (fun he => hpn (TickEnd.entered.inj he).symm)⟩
  | continued => exact ⟨hp, hblock (by simp)⟩
  | resumed c => exact ⟨hp, hblock (by simp)⟩

theorem haltTo_parent {s' : TableSystem} {o : Owner} {slot : Fin 6} {c : Context}
    (hhalt : s.haltTo o (s.table.halt slot c) = some s') (hp : s'.parent p = some q) :
    s.parent p = some q ∧ SameBlock s.table s'.table p := by
  have hblock := halt_block s.table slot c (p := p)
  obtain ⟨T, r, hr⟩ : ∃ T r, s.table.halt slot c = (T, r) := ⟨_, _, rfl⟩
  rw [hr] at hhalt hblock
  cases r with
  | astray => cases hhalt
  | resumed c =>
      obtain rfl := Option.some.inj hhalt
      exact ⟨hp, hblock (by simp)⟩
  | entered n =>
      obtain rfl := Option.some.inj hhalt
      have hpn : p ≠ n := by
        rintro rfl
        simp at hp
      simp only [Function.update_of_ne hpn] at hp
      exact ⟨hp, hblock (fun he => hpn (HaltEnd.entered.inj he).symm)⟩

theorem executeTo_parent {o : Owner} {valid : Bool} {c : Context}
    (hp : (s.executeTo o (s.table.execute valid c)).parent p = some q) :
    (s.parent p = some q ∧
      SameBlock s.table (s.executeTo o (s.table.execute valid c)).table p) ∨
    (o.pid = q ∧ (s.table.execute valid c).2 = some p ∧
      (s.executeTo o (s.table.execute valid c)).table = s.table.start p c) := by
  have hblock := execute_block s.table valid c (p := p)
  have hstart := execute_start s.table valid c (n := p)
  obtain ⟨T, r, hr⟩ : ∃ T r, s.table.execute valid c = (T, r) := ⟨_, _, rfl⟩
  rw [hr] at hp hblock hstart ⊢
  cases r with
  | none =>
      left
      exact ⟨hp, hblock (by simp)⟩
  | some n =>
      by_cases hpn : p = n
      · right
        subst hpn
        simp only [TableSystem.executeTo, Function.update_self, Option.some.injEq] at hp
        exact ⟨hp, rfl, hstart rfl⟩
      · left
        simp only [TableSystem.executeTo, Function.update_of_ne hpn] at hp
        exact ⟨hp, hblock (fun he => hpn (Option.some.inj he).symm)⟩

/--
A process has a parent after a step because it had that parent before and kept
its block, or because the parent has just started it.
-/
theorem step_parent {s' : TableSystem} {e : TableEvent} (hstep : s.step e = some s')
    (hp : s'.parent p = some q) :
    (s.parent p = some q ∧ SameBlock s.table s'.table p) ∨
    ∃ valid esp ebp o, e = .execute valid esp ebp ∧ s.cpu = some o ∧ o.pid = q ∧
      (s.table.execute valid ⟨esp, ebp, some o⟩).2 = some p ∧
      s'.table = s.table.start p ⟨esp, ebp, some o⟩ := by
  cases e with
  | tick esp ebp innerEsp innerEbp =>
      obtain rfl := Option.some.inj hstep
      exact Or.inl (tickTo_parent hp)
  | display t =>
      simp only [TableSystem.step] at hstep
      split_ifs at hstep
      obtain rfl := Option.some.inj hstep
      exact Or.inl ⟨hp, rfl, rfl⟩
  | execute valid esp ebp =>
      obtain ⟨o, ho, rfl⟩ := Option.map_eq_some_iff.mp hstep
      rcases executeTo_parent hp with hold | ⟨hq, hstarted, htable⟩
      · exact Or.inl hold
      · exact Or.inr ⟨valid, esp, ebp, o, rfl, ho, hq, hstarted, htable⟩
  | halt slot esp ebp =>
      obtain ⟨o, -, hblock⟩ := Option.bind_eq_some_iff.mp hstep
      obtain ⟨slot, -, hhalt⟩ := Option.bind_eq_some_iff.mp hblock
      exact Or.inl (haltTo_parent hhalt hp)

end Parents

/-! ## The stack of the running process -/

/-- The process that runs finds its own control block. -/
def FindsOwnBlock (s : System) : Prop :=
  ∀ o, s.cpu = some o → pcbSlot s.kernel.esp0 = some o.pid

instance (s : System) : Decidable (FindsOwnBlock s) :=
  inferInstanceAs (Decidable (∀ o, s.cpu = some o → pcbSlot s.kernel.esp0 = some o.pid))

/--
The process that runs has its own stack, and so has each process that waits for
another one to end.
-/
structure OwnBlocks (s : System) : Prop where
  running : FindsOwnBlock s
  waiting : ∀ p q, s.parent p = some q → pcbSlot (s.kernel.pcb p).saved.esp = some q

theorem boot_ownBlocks (console : Console) (fs : Mem) : OwnBlocks (System.boot console fs) := by
  refine ⟨?_, ?_⟩
  · intro o ho
    cases ho
  · intro p q hp
    cases hp

/-- The process that runs after a step ran there before, or is entered at the top of its stack. -/
def EntersAtTop (s s' : System) : Prop :=
  ∀ o, s'.cpu = some o →
    (s.cpu = some o ∧ s'.kernel.esp0 = s.kernel.esp0) ∨ s'.kernel.esp0 = kernelStack o.pid

theorem EntersAtTop.findsOwnBlock {s s' : System} (h : EntersAtTop s s') (hs : FindsOwnBlock s) :
    FindsOwnBlock s' := by
  intro o ho
  rcases h o ho with ⟨hcpu, hesp⟩ | htop
  · rw [hesp]
    exact hs o hcpu
  · rw [htop, pcbSlot_kernelStack]

/-- A tick that selects no process leaves the running one. -/
theorem tickStep_cpu {s : System} {esp ebp innerEsp innerEbp : Nat}
    (h : tickSelects s.kernel ⟨esp, ebp, s.cpu⟩ ⟨innerEsp, innerEbp, s.cpu⟩ = none) :
    (tickStep s esp ebp innerEsp innerEbp).cpu = s.cpu := by
  unfold tickSelects at h
  unfold tickStep
  obtain ⟨k, r, hpit⟩ : ∃ k r,
      pitHandler s.kernel ⟨esp, ebp, s.cpu⟩ ⟨innerEsp, innerEbp, s.cpu⟩ = (k, r) := ⟨_, _, rfl⟩
  rw [hpit] at h
  simp only [hpit]
  cases r with
  | entered pid => cases h
  | continued => rfl
  | resumed c => cases h

/-- A tick sets the stack pointer for the process whose page it maps. -/
theorem tick_entersAtTop {D : Fin 6 → Prop} {s : System} {stack : Stacks}
    {esp ebp innerEsp innerEbp : Nat}
    (h : Consistent D (tickStep s esp ebp innerEsp innerEbp).view stack) :
    EntersAtTop s (tickStep s esp ebp innerEsp innerEbp) := by
  intro o ho
  have hpage : (tickStep s esp ebp innerEsp innerEbp).kernel.pDirectory 32 = programPage o.pid :=
    h.page o ho
  obtain ⟨hdir, hesp⟩ :=
    pitHandler_window s.kernel ⟨esp, ebp, s.cpu⟩ ⟨innerEsp, innerEbp, s.cpu⟩
  rw [tickStep_kernel] at hpage ⊢
  cases hsel : tickSelects s.kernel ⟨esp, ebp, s.cpu⟩ ⟨innerEsp, innerEbp, s.cpu⟩ with
  | none =>
      left
      rw [tickStep_cpu hsel] at ho
      refine ⟨ho, ?_⟩
      rw [hesp, hsel, setStack_none]
  | some p =>
      right
      rw [hdir, hsel, setWindow_some, Function.update_self] at hpage
      rw [hesp, hsel, setStack_some, programPage_injective hpage]

theorem execute_entersAtTop (s : System) (o : Owner) (cmd : List UInt8) (esp ebp : Nat) :
    EntersAtTop s (executeStep s o cmd esp ebp) := by
  have hesp := (execute_window s.kernel cmd ⟨esp, ebp, some o⟩).2
  unfold executeStep
  obtain ⟨k, r, hexec⟩ : ∃ k r, execute s.kernel cmd ⟨esp, ebp, some o⟩ = (k, r) := ⟨_, _, rfl⟩
  rw [hexec] at hesp ⊢
  intro o' ho'
  cases r with
  | none =>
      left
      exact ⟨ho', hesp⟩
  | some pid =>
      right
      obtain rfl := Option.some.inj ho'
      exact hesp

theorem key_entersAtTop (s : System) (scancode : Nat) :
    EntersAtTop s { s with kernel := keyboardHandler s.kernel scancode } := by
  intro o ho
  left
  exact ⟨ho, (keyboardHandler_edits s.kernel scancode).esp0⟩

/-! ## `halt` in its own slot -/

section Halt

variable {D : Fin 6 → Prop} {s s' : System} {stack : Stacks} (h : Consistent D s.view stack)
variable {o : Owner} (ho : s.cpu = some o) {esp ebp : Nat}
include h ho

/-- Where a `halt` leaves the stack pointer: at the top for a restarted shell, or with the parent. -/
theorem Consistent.halt_stack_cases (hD : ∀ p : Fin 6, 3 ≤ p.val → D p)
    (hguard : StackGuard D s.view (.halt (some o.pid) esp ebp))
    (hstep : haltStep s o o.pid esp ebp = some s') :
    EntersAtTop s s' ∨
      ∃ q, 3 ≤ o.pid.val ∧ s.parent o.pid = some q ∧ s.kernel.processPrevious o.pid = q ∧
        s'.cpu = some ⟨o.term, q⟩ ∧ s'.kernel.esp0 = (s.kernel.pcb o.pid).saved.esp := by
  have hho : s.view.cpu = some o := ho
  have hview : s.view.table = s.kernel.table := rfl
  obtain ⟨-, -, hroot⟩ := hguard o hho
  obtain ⟨hentered, hresumed⟩ := halt_stack s.kernel o.pid ⟨esp, ebp, some o⟩
  obtain ⟨-, hend⟩ := table_halt s.kernel o.pid ⟨esp, ebp, some o⟩
  unfold haltStep at hstep
  obtain ⟨k, r, hhalt⟩ : ∃ k r, halt s.kernel o.pid ⟨esp, ebp, some o⟩ = (k, r) := ⟨_, _, rfl⟩
  rw [hhalt] at hentered hresumed hend hstep
  cases r with
  | astray => cases hstep
  | entered pid =>
      left
      obtain rfl := Option.some.inj hstep
      intro o' ho'
      right
      obtain rfl := Option.some.inj ho'
      exact hentered pid rfl
  | resumed c =>
      right
      obtain rfl := Option.some.inj hstep
      obtain ⟨rfl, hesp⟩ := hresumed c rfl
      -- a slot below 3 would have been restarted
      have hhigh : 3 ≤ o.pid.val := by
        by_contra hlow
        obtain ⟨n, -, hrestart⟩ := h.halt_entered hho (not_le.mp hlow) ⟨esp, ebp, some o⟩
        rw [← hview, hrestart] at hend
        cases hend
      obtain ⟨q, -, hparent, hsaved, hprev, -⟩ :=
        return_consistent h hD hho hhigh (hroot hhigh)
      exact ⟨q, hhigh, hparent, hprev, hsaved, hesp⟩

end Halt

/-! ## One step -/

/-- A process that waits has left its context on the stack it ran on. -/
theorem step_waiting {s s' : System} (h : OwnBlocks s) {e : SystemEvent}
    (hstep : systemStep s e = some s') {p q : Fin 6} (hp : s'.parent p = some q) :
    pcbSlot (s'.kernel.pcb p).saved.esp = some q := by
  rcases step_parent (systemStep_view hstep) hp with
    ⟨hold, hblock⟩ | ⟨valid, esp, ebp, o, he, ho, hq, -, htable⟩
  · have hsaved : (s'.kernel.pcb p).saved = (s.kernel.pcb p).saved := hblock.saved
    rw [hsaved]
    exact h.waiting p q hold
  · have hsaved : s'.view.table.saved p = ⟨esp, ebp, some o⟩ := by
      rw [htable]
      exact Function.update_self _ _ _
    have hnew : (s'.kernel.pcb p).saved = ⟨esp, ebp, some o⟩ := hsaved
    have hstack : pcbSlot esp = pcbSlot s.kernel.esp0 := by
      cases e with
      | tick esp ebp innerEsp innerEbp => cases he
      | key scancode => cases he
      | halt esp ebp => cases he
      | execute cmd esp' ebp' =>
          cases he
          simp only [systemStep] at hstep
          split_ifs at hstep with hstack
          exact hstack
    rw [hnew, ← hq, hstack]
    exact h.running o ho

theorem step_ownBlocks {D : Fin 6 → Prop} (hD : ∀ p : Fin 6, 3 ≤ p.val → D p) {s s' : System}
    {stack stack' : Stacks} (h : Consistent D s.view stack) (h' : Consistent D s'.view stack')
    (hown : OwnBlocks s) {e : SystemEvent} (hguard : StackGuard D s.view (e.view s))
    (hstep : systemStep s e = some s') : OwnBlocks s' := by
  refine ⟨?_, fun p q hp => step_waiting hown hstep hp⟩
  cases e with
  | tick esp ebp innerEsp innerEbp =>
      obtain rfl := Option.some.inj hstep
      exact (tick_entersAtTop h').findsOwnBlock hown.running
  | key scancode =>
      simp only [systemStep] at hstep
      split_ifs at hstep
      obtain rfl := Option.some.inj hstep
      exact (key_entersAtTop s scancode).findsOwnBlock hown.running
  | execute cmd esp ebp =>
      simp only [systemStep] at hstep
      split_ifs at hstep
      obtain ⟨o, -, rfl⟩ := Option.map_eq_some_iff.mp hstep
      exact (execute_entersAtTop s o cmd esp ebp).findsOwnBlock hown.running
  | halt esp ebp =>
      obtain ⟨o, ho, hblock⟩ := Option.bind_eq_some_iff.mp hstep
      obtain ⟨slot, hslot, hhalt⟩ := Option.bind_eq_some_iff.mp hblock
      obtain rfl := Option.some.inj (hslot.symm.trans (hown.running o ho))
      simp only [SystemEvent.view, hslot] at hguard
      rcases h.halt_stack_cases ho hD hguard hhalt with htop | ⟨q, -, hparent, -, hcpu, hesp⟩
      · exact htop.findsOwnBlock hown.running
      · intro o' ho'
        obtain rfl := Option.some.inj (hcpu.symm.trans ho')
        rw [hesp]
        exact hown.waiting o.pid q hparent

end OopsOs
