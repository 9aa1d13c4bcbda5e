import OopsOs.ProcessTable

/-!
# The system seen through the process table

`TableSystem` is the system with the process table in place of the kernel.
Its events are those of the system, except that all a key can do to it is to
display another terminal, that of a command line only counts whether it names
a program, and that a `halt` carries the slot whose control block it finds.  `systemStep_view` is the simulation: each step of the
system is one step here.
-/

namespace OopsOs

open ByteMem Machine

structure TableSystem where
  table : ProcessTable
  cpu : Option Owner
  root : Fin 3 → Option (Fin 6)
  parent : Fin 6 → Option (Fin 6)
  preempted : Fin 3 → Option Context

inductive TableEvent
  | tick (esp ebp innerEsp innerEbp : Nat)
  | display (t : Fin 3)
  | execute (valid : Bool) (esp ebp : Nat)
  | halt (slot : Option (Fin 6)) (esp ebp : Nat)

namespace TableSystem

def preempt (s : TableSystem) (c : Context) : Fin 3 → Option Context :=
  match s.cpu with
  | none => s.preempted
  | some o => Function.update s.preempted o.term (some c)

/-- A tick, from what it has left of the table. -/
def tickTo (s : TableSystem) (c : Context) : ProcessTable × TickEnd → TableSystem
  | (T, .entered pid) =>
      { table := T
        cpu := some ⟨T.active, pid⟩
        root := Function.update s.root T.active (some pid)
        parent := Function.update s.parent pid none
        preempted := s.preempt c }
  | (T, .continued) => { s with table := T, preempted := s.preempt c }
  | (T, .resumed c') => { s with table := T, cpu := c'.owner, preempted := s.preempt c }

/-- A successful or failed `execute` by the process `o`. -/
def executeTo (s : TableSystem) (o : Owner) : ProcessTable × Option (Fin 6) → TableSystem
  | (T, none) => { s with table := T }
  | (T, some pid) =>
      { s with
        table := T
        cpu := some ⟨o.term, pid⟩
        parent := Function.update s.parent pid (some o.pid) }

/-- A `halt` by the process `o`. -/
def haltTo (s : TableSystem) (o : Owner) : ProcessTable × HaltEnd → Option TableSystem
  | (_, .astray) => none
  | (T, .resumed c) => some { s with table := T, cpu := c.owner }
  | (T, .entered pid) =>
      some
        { s with
          table := T
          cpu := some ⟨o.term, pid⟩
          root :=
            if s.root o.term = some o.pid then Function.update s.root o.term (some pid)
            else s.root
          parent := Function.update s.parent pid none }

def step (s : TableSystem) : TableEvent → Option TableSystem
  | .tick esp ebp innerEsp innerEbp =>
      some (s.tickTo ⟨esp, ebp, s.cpu⟩
        (s.table.tick ⟨esp, ebp, s.cpu⟩ ⟨innerEsp, innerEbp, s.cpu⟩))
  | .display t =>
      if s.table.masked = true then none
      else some { s with table := { s.table with active := t } }
  | .execute valid esp ebp =>
      s.cpu.map (fun o => s.executeTo o (s.table.execute valid ⟨esp, ebp, some o⟩))
  | .halt slot esp ebp =>
      s.cpu.bind (fun o => slot.bind (fun slot =>
        s.haltTo o (s.table.halt slot ⟨esp, ebp, some o⟩)))

end TableSystem

def System.view (s : System) : TableSystem :=
  ⟨s.kernel.table, s.cpu, s.root, s.parent, s.preempted⟩

theorem tickStep_view (s : System) (esp ebp innerEsp innerEbp : Nat) :
    (tickStep s esp ebp innerEsp innerEbp).view =
      s.view.tickTo ⟨esp, ebp, s.cpu⟩
        (s.view.table.tick ⟨esp, ebp, s.cpu⟩ ⟨innerEsp, innerEbp, s.cpu⟩) := by
  obtain ⟨htable, hend⟩ := table_pitHandler s.kernel ⟨esp, ebp, s.cpu⟩ ⟨innerEsp, innerEbp, s.cpu⟩
  unfold tickStep
  obtain ⟨k, r, hpit⟩ : ∃ k r,
      pitHandler s.kernel ⟨esp, ebp, s.cpu⟩ ⟨innerEsp, innerEbp, s.cpu⟩ = (k, r) := ⟨_, _, rfl⟩
  obtain ⟨T, r', htick⟩ : ∃ T r',
      s.view.table.tick ⟨esp, ebp, s.cpu⟩ ⟨innerEsp, innerEbp, s.cpu⟩ = (T, r') := ⟨_, _, rfl⟩
  have htick' : s.kernel.table.tick ⟨esp, ebp, s.cpu⟩ ⟨innerEsp, innerEbp, s.cpu⟩ = (T, r') := htick
  rw [hpit, htick'] at htable hend
  simp only at htable hend
  subst htable hend
  simp only [hpit, htick]
  cases r with
  | entered pid => rfl
  | continued => rfl
  | resumed c => rfl

theorem executeStep_view (s : System) (o : Owner) (cmd : List UInt8) (esp ebp : Nat) :
    (executeStep s o cmd esp ebp).view =
      s.view.executeTo o (s.view.table.execute
        (decide (checkValid s.kernel.fs (parse cmd).1 ≠ -1)) ⟨esp, ebp, some o⟩) := by
  obtain ⟨htable, hend⟩ := table_execute s.kernel cmd ⟨esp, ebp, some o⟩
  unfold executeStep
  obtain ⟨k, r, hexec⟩ : ∃ k r, execute s.kernel cmd ⟨esp, ebp, some o⟩ = (k, r) := ⟨_, _, rfl⟩
  have hview : s.view.table = s.kernel.table := rfl
  rw [hexec] at htable hend
  rw [hexec, hview, ← Prod.mk.eta (p := s.kernel.table.execute _ _), ← htable, ← hend]
  cases r with
  | none => rfl
  | some pid => rfl

theorem haltStep_view (s : System) (o : Owner) (slot : Fin 6) (esp ebp : Nat) :
    (haltStep s o slot esp ebp).map System.view =
      s.view.haltTo o (s.view.table.halt slot ⟨esp, ebp, some o⟩) := by
  obtain ⟨htable, hend⟩ := table_halt s.kernel slot ⟨esp, ebp, some o⟩
  unfold haltStep
  obtain ⟨k, r, hhalt⟩ : ∃ k r, halt s.kernel slot ⟨esp, ebp, some o⟩ = (k, r) := ⟨_, _, rfl⟩
  have hview : s.view.table = s.kernel.table := rfl
  rw [hhalt] at htable hend
  rw [hhalt, hview, ← Prod.mk.eta (p := s.kernel.table.halt _ _), ← htable, ← hend]
  cases r with
  | entered pid => rfl
  | resumed c => rfl
  | astray => rfl

/-- The event of the table that an event of the system is. -/
def SystemEvent.view (s : System) : SystemEvent → TableEvent
  | .tick esp ebp innerEsp innerEbp => .tick esp ebp innerEsp innerEbp
  | .key scancode => .display (keyboardHandler s.kernel scancode).activeTerminal
  | .execute cmd esp ebp =>
      .execute (decide (checkValid s.kernel.fs (parse cmd).1 ≠ -1)) esp ebp
  | .halt esp ebp => .halt (pcbSlot s.kernel.esp0) esp ebp

/-- Each step of the system is a step of its view. -/
theorem systemStep_view {s s' : System} {e : SystemEvent} (h : systemStep s e = some s') :
    s.view.step (e.view s) = some s'.view := by
  cases e with
  | tick esp ebp innerEsp innerEbp =>
      obtain rfl := Option.some.inj h
      rw [tickStep_view]
      rfl
  | key scancode =>
      simp only [systemStep] at h
      split_ifs at h with hmasked
      obtain rfl := Option.some.inj h
      have hunmasked : ¬ s.view.table.masked = true := hmasked
      simp only [SystemEvent.view, TableSystem.step]
      rw [if_neg hunmasked]
      unfold System.view
      rw [(keyboardHandler_same s.kernel scancode).table]
  | execute cmd esp ebp =>
      simp only [systemStep] at h
      split_ifs at h with hstack
      obtain ⟨o, ho, rfl⟩ := Option.map_eq_some_iff.mp h
      rw [executeStep_view]
      have hcpu : s.view.cpu = some o := ho
      simp only [SystemEvent.view, TableSystem.step, hcpu, Option.map_some]
  | halt esp ebp =>
      obtain ⟨o, ho, hblock⟩ := Option.bind_eq_some_iff.mp h
      obtain ⟨slot, hslot, hhalt⟩ := Option.bind_eq_some_iff.mp hblock
      have hcpu : s.view.cpu = some o := ho
      simp only [SystemEvent.view, TableSystem.step, hcpu, hslot, Option.bind_some]
      rw [← haltStep_view, hhalt]
      rfl

end OopsOs
