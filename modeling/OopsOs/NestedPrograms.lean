import OopsOs.ProcessTable
import OopsOs.ExecuteEffects

/-!
# `halt` undoes `execute`

A process runs a program by `execute`, and the program ends by `halt`; in
between the program may run programs in the same way, one after the other and
inside each other.  Such a run leaves the occupied slots, the processes of the
terminals and the mapping as it found them.

The argument is about tables.  The slot that `execute` takes was free, so it is
none of the first three and no terminal's, and it stays occupied while
programs run inside: its parent, its number and the context saved in it are
still there when it halts.
-/

namespace OopsOs

/-! ## Tables -/

/-- The three shells are there, each terminal has its own process, and the displayed one's is mapped. -/
structure ReadyTable (T : ProcessTable) : Prop where
  shells : ∀ p : Fin 6, p.val < 3 → T.occupants p ≠ 0
  occupied : ∀ t, T.occupants (T.processNum t) ≠ 0
  distinct : Function.Injective T.processNum
  mapped : T.page = programPage (T.processNum T.active)

/-- What a run of programs keeps; of a control block only if its slot is occupied. -/
structure KeptTable (T T' : ProcessTable) : Prop where
  occupants : T'.occupants = T.occupants
  processNum : T'.processNum = T.processNum
  page : T'.page = T.page
  active : T'.active = T.active
  blocks : ∀ p, T.occupants p ≠ 0 →
    T'.previous p = T.previous p ∧ T'.saved p = T.saved p ∧ T'.number p = T.number p

theorem KeptTable.refl (T : ProcessTable) : KeptTable T T :=
  ⟨rfl, rfl, rfl, rfl, fun _ _ => ⟨rfl, rfl, rfl⟩⟩

theorem KeptTable.trans {T T' T'' : ProcessTable} (h : KeptTable T T') (h' : KeptTable T' T'') :
    KeptTable T T'' where
  occupants := h'.occupants.trans h.occupants
  processNum := h'.processNum.trans h.processNum
  page := h'.page.trans h.page
  active := h'.active.trans h.active
  blocks := by
    intro p hp
    obtain ⟨hprev, hsaved, hnum⟩ := h.blocks p hp
    obtain ⟨hprev', hsaved', hnum'⟩ := h'.blocks p (by rw [h.occupants]; exact hp)
    exact ⟨hprev'.trans hprev, hsaved'.trans hsaved, hnum'.trans hnum⟩

theorem KeptTable.ready {T T' : ProcessTable} (h : KeptTable T T') (hT : ReadyTable T) :
    ReadyTable T' where
  shells := by rw [h.occupants]; exact hT.shells
  occupied := by rw [h.occupants, h.processNum]; exact hT.occupied
  distinct := by rw [h.processNum]; exact hT.distinct
  mapped := by rw [h.page, h.processNum, h.active]; exact hT.mapped

section Start

variable {T : ProcessTable} {pid : Fin 6} (hT : ReadyTable T) (hfree : T.occupants pid = 0)
include hT hfree

theorem three_le_of_free : 3 ≤ pid.val := by
  by_contra hlow
  exact hT.shells pid (by omega) hfree

theorem processNum_ne_of_free (t : Fin 3) : T.processNum t ≠ pid := by
  intro h
  exact hT.occupied t (h ▸ hfree)

/-- The table that `execute` leaves is ready for programs inside the new one. -/
theorem start_ready (c : Context) : ReadyTable (T.start pid c) where
  shells := by
    intro p hp
    have hne : p ≠ pid := by
      rintro rfl
      exact hT.shells p hp hfree
    simp only [ProcessTable.start, Function.update_of_ne hne]
    exact hT.shells p hp
  occupied := by
    intro t
    by_cases ht : t = T.active
    · subst ht
      simp [ProcessTable.start]
    · simp only [ProcessTable.start, Function.update_of_ne ht,
        Function.update_of_ne (processNum_ne_of_free hT hfree t)]
      exact hT.occupied t
  distinct := by
    intro t u h
    by_cases ht : t = T.active
    · by_cases hu : u = T.active
      · rw [ht, hu]
      · subst ht
        simp only [ProcessTable.start, Function.update_self, Function.update_of_ne hu] at h
        exact absurd h.symm (processNum_ne_of_free hT hfree u)
    · by_cases hu : u = T.active
      · subst hu
        simp only [ProcessTable.start, Function.update_self, Function.update_of_ne ht] at h
        exact absurd h (processNum_ne_of_free hT hfree t)
      · simp only [ProcessTable.start, Function.update_of_ne ht, Function.update_of_ne hu] at h
        exact hT.distinct h
  mapped := by
    simp [ProcessTable.start]

/-- `halt` finds the terminal of the process that `execute` started. -/
theorem processTerm_start {T₂ : ProcessTable} {c : Context} (hkept : KeptTable (T.start pid c) T₂) :
    T₂.processTerm pid = some T.active := by
  unfold ProcessTable.processTerm
  rw [FirstFit.find?_eq_some_iff]
  have hnum : T₂.processNum = Function.update T.processNum T.active pid := hkept.processNum
  constructor
  · simp [hnum]
  · intro t ht
    by_cases hta : t = T.active
    · rw [hta]
    · have ht' : T₂.processNum t = pid := ht
      rw [hnum, Function.update_of_ne hta] at ht'
      exact absurd ht' (processNum_ne_of_free hT hfree t)

/-- One program: `execute`, anything that is kept, and the `halt` of the new process. -/
theorem halt_start_kept {T₂ : ProcessTable} {c : Context} (hkept : KeptTable (T.start pid c) T₂)
    (c' : Context) :
    KeptTable T (T₂.halt pid c').1 ∧ (T₂.halt pid c').2 = .resumed c := by
  have hhigh := three_le_of_free hT hfree
  have hself : (T.start pid c).occupants pid ≠ 0 := by
    simp [ProcessTable.start]
  obtain ⟨hprev, hsaved, hnumber⟩ := hkept.blocks pid hself
  simp only [ProcessTable.start, Function.update_self] at hprev hsaved hnumber
  have hpid : T₂.processNum T.active = pid := by
    rw [hkept.processNum]
    simp [ProcessTable.start]
  have hhalt : T₂.halt pid c' = (T₂.free pid).returnToParent pid T.active pid := by
    unfold ProcessTable.halt
    rw [hnumber, processTerm_start hT hfree hkept]
    simp only [hpid]
    rw [if_neg (by omega)]
  rw [hhalt]
  have hprev' : (T₂.free pid).previous pid = T.processNum T.active := hprev
  have hsaved' : (T₂.free pid).saved pid = c := hsaved
  unfold ProcessTable.returnToParent
  rw [hprev', hsaved']
  refine ⟨⟨?_, ?_, ?_, ?_, ?_⟩, rfl⟩
  · have hocc : T₂.occupants = Function.update T.occupants pid (-1) := hkept.occupants
    simp only [ProcessTable.free, hocc, Function.update_idem]
    rw [← hfree, Function.update_eq_self]
  · have hnum : T₂.processNum = Function.update T.processNum T.active pid := hkept.processNum
    simp only [ProcessTable.free, hnum, Function.update_idem, Function.update_eq_self]
  · exact hT.mapped.symm
  · exact hkept.active
  · intro p hp
    have hne : p ≠ pid := by
      rintro rfl
      exact hp hfree
    have hocc : (T.start pid c).occupants p ≠ 0 := by
      simpa [ProcessTable.start, Function.update_of_ne hne] using hp
    obtain ⟨h1, h2, h3⟩ := hkept.blocks p hocc
    simp only [ProcessTable.start, Function.update_of_ne hne] at h1 h2 h3
    exact ⟨h1, h2, h3⟩

end Start

/-! ## Runs of programs -/

/--
What the process of the displayed terminal does between two points of its own
code, with that terminal displayed and no tick: it runs programs, one after the
other.  Each of them does the same until it halts.
-/
inductive ProgramRuns : Kernel → Kernel → Prop
  | done (k : Kernel) : ProgramRuns k k
  /-- Anything that leaves the process table alone. -/
  | work {k k₁ k' : Kernel} (h : k₁.table = k.table) (rest : ProgramRuns k₁ k') :
      ProgramRuns k k'
  /-- An `execute` that returns -1. -/
  | refused {k k' : Kernel} (cmd : List UInt8) (saved : Context)
      (h : (execute k cmd saved).2 = none)
      (rest : ProgramRuns (execute k cmd saved).1 k') : ProgramRuns k k'
  /-- A program: the process that `execute` starts, what it does, and its `halt`. -/
  | program {k k₂ k' : Kernel} (cmd : List UInt8) (saved saved' : Context) (pid : Fin 6)
      (h : (execute k cmd saved).2 = some pid)
      (inside : ProgramRuns (execute k cmd saved).1 k₂)
      (rest : ProgramRuns (halt k₂ pid saved').1 k') : ProgramRuns k k'

theorem execute_none_table {k : Kernel} {cmd : List UInt8} {saved : Context}
    (h : (execute k cmd saved).2 = none) : (execute k cmd saved).1.table = k.table := by
  rcases execute_cases k cmd saved with ⟨-, text, heq⟩ | ⟨pid, -, -, heq⟩
  · rw [heq, table_printf, table_reportName]
  · rw [heq] at h
    cases h

theorem execute_some_table {k : Kernel} {cmd : List UInt8} {saved : Context} {pid : Fin 6}
    (h : (execute k cmd saved).2 = some pid) :
    k.table.occupants pid = 0 ∧ (execute k cmd saved).1.table = k.table.start pid saved := by
  rcases execute_cases k cmd saved with ⟨-, text, heq⟩ | ⟨pid', -, hfree, heq⟩
  · rw [heq] at h
    cases h
  · rw [heq] at h ⊢
    cases h
    exact ⟨(freeSlot_eq_some_iff.mp hfree).1, by rw [table_start, table_reportName]⟩

theorem execute_ready {k : Kernel} {cmd : List UInt8} {saved : Context} {pid : Fin 6}
    (hready : ReadyTable k.table) (h : (execute k cmd saved).2 = some pid) :
    ReadyTable (execute k cmd saved).1.table := by
  obtain ⟨hfree, htable⟩ := execute_some_table h
  rw [htable]
  exact start_ready hready hfree saved

/-- One program on the kernel, from what is kept inside it. -/
theorem program_kept {k k₂ : Kernel} {cmd : List UInt8} {saved : Context} {pid : Fin 6}
    (hready : ReadyTable k.table) (h : (execute k cmd saved).2 = some pid)
    (hinside : KeptTable (execute k cmd saved).1.table k₂.table) (saved' : Context) :
    KeptTable k.table (halt k₂ pid saved').1.table ∧ (halt k₂ pid saved').2 = .resumed saved := by
  obtain ⟨hfree, htable⟩ := execute_some_table h
  obtain ⟨hhalt, hend⟩ := table_halt k₂ pid saved'
  rw [htable] at hinside
  rw [hhalt, hend]
  exact halt_start_kept hready hfree hinside saved'

theorem ProgramRuns.kept {k k' : Kernel} (h : ProgramRuns k k') (hready : ReadyTable k.table) :
    KeptTable k.table k'.table := by
  induction h with
  | done k =>
      exact KeptTable.refl k.table
  | work htable rest ih =>
      rw [← htable]
      exact ih (by rw [htable]; exact hready)
  | refused cmd saved hnone rest ih =>
      rw [execute_none_table hnone] at ih
      exact ih hready
  | program cmd saved saved' pid hsome inside rest ihInside ihRest =>
      have hstarted := execute_ready hready hsome
      obtain ⟨hkept, -⟩ := program_kept hready hsome (ihInside hstarted) saved'
      exact hkept.trans (ihRest (hkept.ready hready))

/-- Shells in slots 0 to 2, a process of its own on each terminal, and the caller mapped. -/
structure ReadyKernel (k : Kernel) : Prop where
  shells : ∀ p : Fin 6, p.val < 3 → k.pcbOccupants p ≠ 0
  occupied : ∀ t, k.pcbOccupants (k.terminal t).processNum ≠ 0
  distinct : ∀ t u, (k.terminal t).processNum = (k.terminal u).processNum → t = u
  mapped : k.pDirectory 32 = programPage (k.terminal k.activeTerminal).processNum

theorem ReadyKernel.table {k : Kernel} (h : ReadyKernel k) : ReadyTable k.table :=
  ⟨h.shells, h.occupied, fun t u => h.distinct t u, h.mapped⟩

/--
`halt` undoes `execute`: after any programs inside it the slots, the processes
of the terminals and the mapping are as before, and the caller goes on from
the context that `execute` saved.
-/
theorem halt_undoes_execute {k k₂ : Kernel} {cmd : List UInt8} {saved : Context} {pid : Fin 6}
    (hready : ReadyKernel k) (hexec : (execute k cmd saved).2 = some pid)
    (hinside : ProgramRuns (execute k cmd saved).1 k₂) (saved' : Context) :
    (halt k₂ pid saved').1.pcbOccupants = k.pcbOccupants ∧
      (∀ t, ((halt k₂ pid saved').1.terminal t).processNum = (k.terminal t).processNum) ∧
      (halt k₂ pid saved').1.pDirectory 32 = k.pDirectory 32 ∧
      (halt k₂ pid saved').2 = .resumed saved := by
  have hstarted := execute_ready hready.table hexec
  obtain ⟨hkept, hend⟩ := program_kept hready.table hexec (hinside.kept hstarted) saved'
  exact ⟨hkept.occupants, congrFun hkept.processNum, hkept.page, hend⟩

/-- The three shells, with terminal 0 displayed. -/
def threeShells : Kernel :=
  { Kernel.zero (fun _ => 0) shellImage with
    pcbOccupants := fun p => if p.val < 3 then -1 else 0
    terminal := fun t => { Terminal.zero with processNum := t.castLE (by decide) }
    pDirectory := fun _ => programPage 0 }

theorem threeShells_ready : ReadyKernel threeShells where
  shells := by decide
  occupied := by decide
  distinct := by decide
  mapped := by decide

/-- A second shell is run inside a first one. -/
theorem halt_undoes_execute_nested :
    ∃ k₂, ProgramRuns (execute threeShells shellCommand Context.zero).1 k₂ ∧
      (halt k₂ 3 Context.zero).1.pcbOccupants = threeShells.pcbOccupants ∧
      (halt k₂ 3 Context.zero).1.pDirectory 32 = threeShells.pDirectory 32 := by
  have houter : (execute threeShells shellCommand Context.zero).2 = some 3 := by decide +kernel
  have hinner : (execute (execute threeShells shellCommand Context.zero).1 shellCommand
      Context.zero).2 = some 4 := by decide +kernel
  have hruns := ProgramRuns.program shellCommand Context.zero Context.zero 4 hinner (.done _)
    (.done _)
  obtain ⟨hocc, -, hpage, -⟩ := halt_undoes_execute threeShells_ready houter hruns Context.zero
  exact ⟨_, hruns, hocc, hpage⟩

end OopsOs
