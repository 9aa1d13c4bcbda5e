import OopsOs.ProcessStacks

/-!
# Runs that keep the stacks

`Consistent` ties the stacks to the terminals: the top of each stack is the
process that runs there or waits to be resumed, the bottom is the root shell,
and the mapped program page is that of the running process.  Every step that
meets `StackGuard` keeps it, except that the launch of a root shell may fail,
after which the three shells are never all there.
-/

namespace OopsOs

open ByteMem Machine

structure Consistent (D : Fin 6 → Prop) (s : TableSystem) (stack : Stacks) : Prop where
  scheduled : Scheduled s
  shell : 1 ≤ s.table.count → s.table.shellOk = true
  stacked : Stacked D s.table s.parent stack
  top : ∀ t, t.val < s.table.count → (stack t).head? = some (s.table.processNum t)
  bottom : ∀ t, t.val < s.table.count → s.root t = (stack t).getLast?
  unlaunched : ∀ t, s.table.count ≤ t.val → stack t = [] ∧ s.root t = none
  rootless : ∀ t p, s.root t = some p → s.parent p = none
  runs : ∀ o, s.cpu = some o → s.table.processNum o.term = o.pid
  waits : ∀ t o, s.cpu = some o → t ≠ o.term → t.val < s.table.count →
    (s.table.current t).owner = some ⟨t, s.table.processNum t⟩
  page : ∀ o, s.cpu = some o → s.table.page = programPage o.pid

/-- The launch of a root shell has failed. -/
def LaunchFailed (s : TableSystem) : Prop :=
  s.table.activated = true ∧ ∃ t : Fin 3, t.val < s.table.count ∧ s.root t = none

/-- If the step is to launch a root shell, it succeeds. -/
def Launches (s : TableSystem) : TableEvent → Prop
  | .tick _ _ _ _ => s.table.count < 3 → s.table.shellOk = true ∧ s.table.freeSlot ≠ none
  | _ => True

/--
The condition on a step.  A process that gets a slot for a new process must
run on the displayed terminal; one that ends must do so in its own slot, and be
a root shell exactly if the slot is below 3, unless links are not asked for on
those slots.
-/
def StackGuard (D : Fin 6 → Prop) (s : TableSystem) : TableEvent → Prop
  | .execute valid _ _ => ∀ o, s.cpu = some o → valid = true → s.table.freeSlot ≠ none →
      o.term = s.table.active
  | .halt slot _ _ => ∀ o, s.cpu = some o → slot = some o.pid ∧
      (o.pid.val < 3 → o.term = s.table.active ∧
        (s.root o.term = some o.pid ∨ ∀ p : Fin 6, p.val < 3 → ¬ D p)) ∧
      (3 ≤ o.pid.val → s.root o.term ≠ some o.pid)
  | _ => True

section Facts

variable {D : Fin 6 → Prop} {s : TableSystem} {stack : Stacks}

theorem Scheduled.term_lt (hs : Scheduled s) {o : Owner} (ho : s.cpu = some o) :
    1 ≤ s.table.count ∧ o.term.val < s.table.count := by
  have hcount : 1 ≤ s.table.count := by
    by_contra hzero
    have := hs.idle (by omega)
    rw [ho] at this
    cases this
  obtain ⟨o', ho', hlow, -⟩ := hs.running hcount
  obtain rfl := Option.some.inj (ho.symm.trans ho')
  refine ⟨hcount, ?_⟩
  by_cases h3 : s.table.count ≤ 3
  · have := hlow h3
    omega
  · omega

/-- Another process of the same terminal runs, and the table differs in its records only. -/
theorem Scheduled.swap (hs : Scheduled s) {o : Owner} (ho : s.cpu = some o) {T : ProcessTable}
    (hactivated : T.activated = s.table.activated) (hcount : T.count = s.table.count)
    (hnext : T.next = s.table.next) (hmasked : T.masked = s.table.masked)
    (hactive : T.active = s.table.active) (hcurrent : T.current = s.table.current) (p : Fin 6)
    (root : Fin 3 → Option (Fin 6)) (parent : Fin 6 → Option (Fin 6)) :
    Scheduled ⟨T, some ⟨o.term, p⟩, root, parent, s.preempted⟩ := by
  obtain ⟨h1, -⟩ := hs.term_lt ho
  obtain ⟨o', ho', hlow, hhigh⟩ := hs.running h1
  obtain rfl := Option.some.inj (ho.symm.trans ho')
  refine ⟨hactivated.trans hs.activated, ?_, ?_, ?_, ?_, ?_⟩
  · intro h0
    simp only [hcount] at h0
    omega
  · intro h3
    simp only [hcount, hnext] at h3 ⊢
    exact hs.start h3
  · intro _ h3
    simp only [hcount, hmasked, hactive] at h3 ⊢
    exact hs.launching h1 h3
  · intro _
    simp only [hcount, hnext]
    exact ⟨_, rfl, hlow, hhigh⟩
  · intro t u hu hne hlt
    obtain rfl := Option.some.inj hu
    simp only [hcount, hcurrent] at hlt ⊢
    exact hs.away t o ho hne hlt

variable (h : Consistent D s stack)
include h

theorem Consistent.stack_top {o : Owner} (ho : s.cpu = some o) :
    ∃ rest, stack o.term = o.pid :: rest := by
  have hhead := h.top o.term (h.scheduled.term_lt ho).2
  rw [h.runs o ho] at hhead
  cases hstack : stack o.term with
  | nil =>
      rw [hstack] at hhead
      cases hhead
  | cons p rest =>
      rw [hstack] at hhead
      obtain rfl := Option.some.inj hhead
      exact ⟨rest, rfl⟩

/-- `halt` finds the terminal of the halting process. -/
theorem Consistent.processTerm_eq {o : Owner} (ho : s.cpu = some o) :
    s.table.processTerm (s.table.number o.pid) = some o.term := by
  obtain ⟨rest, hstack⟩ := h.stack_top ho
  have hmem : o.pid ∈ stack o.term := by
    rw [hstack]
    exact List.mem_cons_self
  have hlt := (h.scheduled.term_lt ho).2
  rw [h.stacked.number o.term o.pid hmem]
  unfold ProcessTable.processTerm
  rw [List.find?_eq_some_iff_getElem]
  refine ⟨by simpa using h.runs o ho, o.term.val, by simp, by simp, ?_⟩
  intro j hj
  -- an earlier terminal has its shell already, and another process on top
  simp only [List.getElem_finRange, Bool.not_eq_true', decide_eq_false_iff_not]
  intro hnum
  have hhead := h.top ⟨j, by omega⟩ (by simp only; omega)
  have hne : (⟨j, by omega⟩ : Fin 3) ≠ o.term := by
    intro he
    rw [← he] at hj
    simp at hj
  have hmem' : o.pid ∈ stack ⟨j, by omega⟩ := by
    apply List.mem_of_mem_head?
    rw [hhead]
    exact congrArg some hnum
  exact h.stacked.disjoint _ _ hne o.pid hmem' hmem

/-- Every terminal waits for its own process once the running one has been saved. -/
theorem Consistent.waits_update {o : Owner} (ho : s.cpu = some o) {esp ebp : Nat} {t : Fin 3}
    (ht : t.val < s.table.count) :
    (Function.update s.table.current o.term ⟨esp, ebp, s.cpu⟩ t).owner =
      some ⟨t, s.table.processNum t⟩ := by
  by_cases hto : t = o.term
  · subst hto
    rw [Function.update_self, h.runs o ho, ho]
  · rw [Function.update_of_ne hto]
    exact h.waits t o ho hto ht

end Facts

section Steps

variable {D : Fin 6 → Prop} {s : TableSystem} {stack : Stacks} (h : Consistent D s stack)
include h

/--
A process is started on the running terminal, over what is left of its stack:
all of it after `execute`, all but the top after a restart.
-/
theorem Consistent.start {o : Owner} (ho : s.cpu = some o) (hactive : o.term = s.table.active)
    {occupants : Fin 6 → Int} {stack₁ : Stacks}
    (hstacked : Stacked D { s.table with occupants := occupants } s.parent stack₁)
    (hother : ∀ u, u ≠ o.term → stack₁ u = stack u) {p : Fin 6} (hfree : occupants p = 0)
    {c : Context} {x : Option (Fin 6)}
    (hlink : ∀ q, (stack₁ o.term).head? = some q → D p →
      s.table.processNum o.term = q ∧ c.owner = some ⟨o.term, q⟩ ∧ x = some q)
    {root : Fin 3 → Option (Fin 6)} (hroots : ∀ u, u ≠ o.term → root u = s.root u)
    (hroot : root o.term = (p :: stack₁ o.term).getLast?)
    (hrootless : ∀ u q, root u = some q → Function.update s.parent p x q = none) :
    Consistent D
      ⟨ProcessTable.start { s.table with occupants := occupants } p c, some ⟨o.term, p⟩, root,
        Function.update s.parent p x, s.preempted⟩
      (Function.update stack₁ o.term (p :: stack₁ o.term)) := by
  obtain ⟨hcount, hlt⟩ := h.scheduled.term_lt ho
  have hnum : ∀ u, u ≠ o.term →
      (ProcessTable.start { s.table with occupants := occupants } p c).processNum u =
        s.table.processNum u := by
    intro u hu
    simp [ProcessTable.start, ← hactive, hu]
  have hself : (ProcessTable.start { s.table with occupants := occupants } p c).processNum o.term =
      p := by
    simp [ProcessTable.start, ← hactive]
  refine ⟨?_, h.shell, ?_, ?_, ?_, ?_, hrootless, ?_, ?_, ?_⟩
  · refine h.scheduled.swap ho ?_ ?_ ?_ ?_ ?_ ?_ p root _ <;> rfl
  · exact hstacked.push hfree hactive.symm hlink
  · intro u hu
    by_cases hut : u = o.term
    · subst hut
      simp only [Function.update_self, List.head?_cons, hself]
    · simp only [Function.update_of_ne hut, hother u hut, hnum u hut]
      exact h.top u hu
  · intro u hu
    by_cases hut : u = o.term
    · subst hut
      simp only [Function.update_self]
      exact hroot
    · simp only [Function.update_of_ne hut, hother u hut, hroots u hut]
      exact h.bottom u hu
  · intro u hu
    have hut : u ≠ o.term := by
      rintro rfl
      exact absurd hlt (not_lt.mpr hu)
    simp only [Function.update_of_ne hut, hother u hut, hroots u hut]
    exact h.unlaunched u hu
  · intro o' ho'
    obtain rfl := Option.some.inj ho'
    exact hself
  · intro u o' ho' hne hu
    obtain rfl := Option.some.inj ho'
    simp only [hnum u hne]
    exact h.waits u o ho hne hu
  · intro o' ho'
    obtain rfl := Option.some.inj ho'
    rfl

theorem execute_consistent {valid : Bool} {esp ebp : Nat} {s' : TableSystem}
    (hC : StackGuard D s (.execute valid esp ebp))
    (hstep : s.step (.execute valid esp ebp) = some s') :
    ∃ stack', Consistent D s' stack' := by
  obtain ⟨o, ho, rfl⟩ := Option.map_eq_some_iff.mp hstep
  unfold ProcessTable.execute
  by_cases hvalid : valid = true
  · rw [if_pos hvalid]
    cases hfree : s.table.freeSlot with
    | none => exact ⟨stack, h⟩
    | some p =>
        have hactive : o.term = s.table.active := hC o ho hvalid (by rw [hfree]; simp)
        have hp := (freeSlot_spec hfree).1
        obtain ⟨rest, hstack⟩ := h.stack_top ho
        refine ⟨_, h.start ho hactive h.stacked (fun _ _ => rfl) hp ?_ (fun _ _ => rfl) ?_ ?_⟩
        · intro q hq _
          rw [hstack] at hq
          obtain rfl := Option.some.inj hq
          exact ⟨h.runs o ho, rfl, rfl⟩
        · rw [h.bottom o.term (h.scheduled.term_lt ho).2, hstack, List.getLast?_cons_cons]
        · intro u q hq
          have hqp : q ≠ p := by
            rintro rfl
            by_cases hu : u.val < s.table.count
            · rw [h.bottom u hu] at hq
              exact h.stacked.not_mem_of_free hp u (List.mem_of_getLast? hq)
            · rw [(h.unlaunched u (not_lt.mp hu)).2] at hq
              cases hq
          rw [Function.update_of_ne hqp]
          exact h.rootless u q hq
  · rw [if_neg hvalid]
    exact ⟨stack, h⟩

/-- A root shell at the top is alone on its stack. -/
theorem Consistent.rest_of_root {o : Owner} {rest : List (Fin 6)}
    (hstack : stack o.term = o.pid :: rest) (hroot : s.root o.term = some o.pid)
    (hlt : o.term.val < s.table.count) : rest = [] := by
  rw [h.bottom o.term hlt, hstack] at hroot
  cases rest with
  | nil => rfl
  | cons q rest =>
      rw [List.getLast?_cons_cons] at hroot
      have hmem := List.mem_of_getLast? hroot
      have hnodup := h.stacked.nodup o.term
      rw [hstack, List.nodup_cons] at hnodup
      exact absurd hmem hnodup.1

/-- The restart of a shell in one of the first three slots. -/
theorem restart_consistent {o : Owner} (ho : s.cpu = some o) (hlow : o.pid.val < 3)
    (hactive : o.term = s.table.active)
    (hroot : s.root o.term = some o.pid ∨ ∀ p : Fin 6, p.val < 3 → ¬ D p)
    {n : Fin 6} (hfree : (s.table.free o.pid).freeSlot = some n) (c : Context) :
    ∃ stack', Consistent D
      { s with
        table := (s.table.free o.pid).start n c
        cpu := some ⟨o.term, n⟩
        root :=
          if s.root o.term = some o.pid then Function.update s.root o.term (some n) else s.root
        parent := Function.update s.parent n none } stack' := by
  obtain ⟨rest, hstack⟩ := h.stack_top ho
  have hlt := (h.scheduled.term_lt ho).2
  have hbottom := h.bottom o.term hlt
  rw [hstack] at hbottom
  have hn : n.val < 3 := by
    -- the slot just given back is free, so the first free one is not above it
    obtain ⟨n', hn', hle⟩ := freeSlot_of_free (T := s.table.free o.pid) (p := o.pid)
      (by simp [ProcessTable.free])
    obtain rfl := Option.some.inj (hfree.symm.trans hn')
    have := Fin.le_def.mp hle
    omega
  refine ⟨_, h.start ho hactive (h.stacked.pop hstack)
    (fun u hu => Function.update_of_ne hu _ _) (freeSlot_spec hfree).1 ?_ ?_ ?_ ?_⟩
  · intro q hq hD
    rw [Function.update_self] at hq
    rcases hroot with hroot | hroot
    · rw [h.rest_of_root hstack hroot hlt] at hq
      cases hq
    · exact absurd hD (hroot n hn)
  · intro u hu
    split_ifs
    · exact Function.update_of_ne hu _ _
    · rfl
  · rw [Function.update_self]
    by_cases hr : s.root o.term = some o.pid
    · rw [if_pos hr, Function.update_self, h.rest_of_root hstack hr hlt]
      rfl
    · rw [if_neg hr, hbottom]
      cases rest with
      | nil => exact absurd hbottom hr
      | cons q rest => rw [List.getLast?_cons_cons, List.getLast?_cons_cons]
  · intro u q hq
    by_cases hqn : q = n
    · rw [hqn, Function.update_self]
    · rw [Function.update_of_ne hqn]
      split_ifs at hq with hr
      · by_cases hu : u = o.term
        · rw [hu, Function.update_self] at hq
          exact absurd (Option.some.inj hq).symm hqn
        · rw [Function.update_of_ne hu] at hq
          exact h.rootless u q hq
      · exact h.rootless u q hq

/-- The return to the parent of a process in one of the other slots. -/
theorem return_consistent (hD : ∀ p : Fin 6, 3 ≤ p.val → D p) {o : Owner} (ho : s.cpu = some o)
    (hhigh : 3 ≤ o.pid.val) (hroot : s.root o.term ≠ some o.pid) :
    ∃ q stack', s.parent o.pid = some q ∧
      (s.table.saved o.pid).owner = some ⟨o.term, q⟩ ∧
      s.table.previous o.pid = q ∧
      Consistent D
        { s with
          table :=
            { s.table.free o.pid with
              processNum := Function.update s.table.processNum o.term q
              page := programPage q }
          cpu := some ⟨o.term, q⟩ } stack' := by
  obtain ⟨rest, hstack⟩ := h.stack_top ho
  have hlt := (h.scheduled.term_lt ho).2
  have hbottom := h.bottom o.term hlt
  rw [hstack] at hbottom
  cases rest with
  | nil => exact absurd hbottom hroot
  | cons q rest =>
      have hlinked := h.stacked.linked o.term
      rw [hstack, List.isChain_cons_cons] at hlinked
      obtain ⟨hprev, hsaved, hparent⟩ := hlinked.1 (hD o.pid hhigh)
      have hpopped := h.stacked.pop hstack
      refine ⟨q, _, hparent, hsaved, hprev, ?_, h.shell, hpopped.congr rfl rfl rfl rfl, ?_, ?_, ?_,
        h.rootless, ?_, ?_, ?_⟩
      · refine h.scheduled.swap ho ?_ ?_ ?_ ?_ ?_ ?_ q s.root s.parent <;> rfl
      · intro u hu
        by_cases hut : u = o.term
        · subst hut
          simp only [Function.update_self, List.head?_cons]
        · simp only [Function.update_of_ne hut]
          exact h.top u hu
      · intro u hu
        by_cases hut : u = o.term
        · subst hut
          simp only [Function.update_self]
          rw [hbottom, List.getLast?_cons_cons]
        · simp only [Function.update_of_ne hut]
          exact h.bottom u hu
      · intro u hu
        have hut : u ≠ o.term := by
          rintro rfl
          exact absurd hlt (not_lt.mpr hu)
        simp only [Function.update_of_ne hut]
        exact h.unlaunched u hu
      · intro o' ho'
        obtain rfl := Option.some.inj ho'
        simp only [Function.update_self]
      · intro u o' ho' hne hu
        obtain rfl := Option.some.inj ho'
        simp only [Function.update_of_ne hne]
        exact h.waits u o ho hne hu
      · intro o' ho'
        obtain rfl := Option.some.inj ho'
        rfl

/-- What `halt` does in a consistent system, when it restarts a shell. -/
theorem Consistent.halt_restart {o : Owner} (ho : s.cpu = some o) (hlow : o.pid.val < 3)
    {c : Context} {T : ProcessTable} {new : Fin 6}
    (hexec : (s.table.free o.pid).execute s.table.shellOk c = (T, some new)) :
    s.table.halt o.pid c = (T, .entered new) := by
  have hroot : o.pid = 0 ∨ o.pid = 1 ∨ o.pid = 2 := by omega
  unfold ProcessTable.halt
  rw [h.processTerm_eq ho]
  simp only [h.runs o ho, if_pos hroot, hexec]

/-- What `halt` does in a consistent system, when it goes back to the parent. -/
theorem Consistent.halt_return {o : Owner} (ho : s.cpu = some o) (hhigh : 3 ≤ o.pid.val)
    (c : Context) :
    s.table.halt o.pid c = (s.table.free o.pid).returnToParent o.pid o.term o.pid := by
  have hroot : ¬ (o.pid = 0 ∨ o.pid = 1 ∨ o.pid = 2) := by omega
  unfold ProcessTable.halt
  rw [h.processTerm_eq ho]
  simp only [h.runs o ho, if_neg hroot]

/-- A process in one of the first three slots restarts the shell: its own slot is free. -/
theorem Consistent.halt_entered {o : Owner} (ho : s.cpu = some o) (hlow : o.pid.val < 3)
    (c : Context) :
    ∃ n, (s.table.free o.pid).freeSlot = some n ∧
      s.table.halt o.pid c = ((s.table.free o.pid).start n c, .entered n) := by
  obtain ⟨n, hfree, -⟩ := freeSlot_of_free (T := s.table.free o.pid) (p := o.pid)
    (by simp [ProcessTable.free])
  have hexec : (s.table.free o.pid).execute s.table.shellOk c =
      ((s.table.free o.pid).start n c, some n) := by
    rw [ProcessTable.execute, if_pos (h.shell (h.scheduled.term_lt ho).1), hfree]
  exact ⟨n, hfree, h.halt_restart ho hlow hexec⟩

theorem halt_consistent (hD : ∀ p : Fin 6, 3 ≤ p.val → D p) {slot : Option (Fin 6)}
    {esp ebp : Nat} {s' : TableSystem} (hC : StackGuard D s (.halt slot esp ebp))
    (hstep : s.step (.halt slot esp ebp) = some s') : ∃ stack', Consistent D s' stack' := by
  obtain ⟨o, ho, hhalt⟩ := Option.bind_eq_some_iff.mp hstep
  obtain ⟨rfl, hlow, hhigh⟩ := hC o ho
  rw [Option.bind_some] at hhalt
  by_cases hpid : o.pid.val < 3
  · obtain ⟨hactive, hroot⟩ := hlow hpid
    obtain ⟨n, hfree, hentered⟩ := h.halt_entered ho hpid ⟨esp, ebp, some o⟩
    rw [hentered] at hhalt
    obtain rfl := Option.some.inj hhalt
    exact restart_consistent h ho hpid hactive hroot hfree _
  · rw [h.halt_return ho (by omega)] at hhalt
    obtain ⟨q, stack', -, hsaved, hprev, hcons⟩ :=
      return_consistent h hD ho (by omega) (hhigh (by omega))
    have hsaved' : ((s.table.free o.pid).saved o.pid).owner = some ⟨o.term, q⟩ := hsaved
    have hprev' : (s.table.free o.pid).previous o.pid = q := hprev
    simp only [ProcessTable.returnToParent, TableSystem.haltTo, hsaved', hprev'] at hhalt
    obtain rfl := Option.some.inj hhalt
    exact ⟨stack', hcons⟩

theorem display_consistent {t : Fin 3} {s' : TableSystem} (hstep : s.step (.display t) = some s') :
    ∃ stack', Consistent D s' stack' := by
  simp only [TableSystem.step] at hstep
  split_ifs at hstep with hmasked
  obtain rfl := Option.some.inj hstep
  exact ⟨stack, display_scheduled h.scheduled hmasked t, h.shell,
    h.stacked.congr rfl rfl rfl rfl, h.top, h.bottom, h.unlaunched, h.rootless, h.runs, h.waits,
    h.page⟩

/-- The launch of the shell of the next terminal pushes it on an empty stack. -/
theorem launched_consistent (hlt : s.table.count < 3) (hok : s.table.shellOk = true)
    {p : Fin 6} (hfree : s.table.freeSlot = some p) (esp ebp : Nat) (inner : Context) :
    ∃ stack', Consistent D (s.tickTo ⟨esp, ebp, s.cpu⟩
      ((launchTable s.table ⟨s.table.count, hlt⟩ ⟨esp, ebp, s.cpu⟩).start p inner,
        .entered p)) stack' := by
  obtain ⟨n, hn⟩ : ∃ n : Fin 3, n = ⟨s.table.count, hlt⟩ := ⟨_, rfl⟩
  have hnval : n.val = s.table.count := by rw [hn]
  obtain ⟨hempty, hnoroot⟩ := h.unlaunched n (by omega)
  have hp := (freeSlot_spec hfree).1
  have hlaunch : Stacked D (launchTable s.table n ⟨esp, ebp, s.cpu⟩) s.parent stack :=
    h.stacked.congr rfl rfl rfl rfl
  have hpushed := hlaunch.push (c := inner) (x := none) (t := n) hp rfl
    (by rw [hempty]; intro q hq; cases hq)
  have hsched := launched_scheduled h.scheduled hlt p esp ebp inner
  rw [← hn] at hsched ⊢
  have hnum : ∀ u, u ≠ n →
      ((launchTable s.table n ⟨esp, ebp, s.cpu⟩).start p inner).processNum u =
        s.table.processNum u := by
    intro u hu
    simp [ProcessTable.start, launchTable, hu]
  refine ⟨_, hsched, fun _ => hok, hpushed, ?_, ?_, ?_, ?_, ?_, ?_, ?_⟩
  · intro u hu
    by_cases hun : u = n
    · subst hun
      simp [TableSystem.tickTo, ProcessTable.start, launchTable]
    · simp only [Function.update_of_ne hun, TableSystem.tickTo, hnum u hun]
      exact h.top u (by simp only [TableSystem.tickTo, ProcessTable.start, launchTable] at hu; omega)
  · intro u hu
    by_cases hun : u = n
    · subst hun
      simp [TableSystem.tickTo, ProcessTable.start, launchTable, hempty]
    · have hroot : Function.update s.root n (some p) u = s.root u := Function.update_of_ne hun _ _
      simp only [Function.update_of_ne hun]
      refine hroot.trans (h.bottom u ?_)
      simp only [TableSystem.tickTo, ProcessTable.start, launchTable] at hu
      omega
  · intro u hu
    simp only [TableSystem.tickTo, ProcessTable.start, launchTable] at hu
    have hun : u ≠ n := by
      rintro rfl
      omega
    have hroot : Function.update s.root n (some p) u = s.root u := Function.update_of_ne hun _ _
    simp only [Function.update_of_ne hun]
    obtain ⟨hstack, hnone⟩ := h.unlaunched u (by omega)
    exact ⟨hstack, hroot.trans hnone⟩
  · intro u q hq
    by_cases hqp : q = p
    · subst hqp
      exact Function.update_self _ _ _
    · refine (Function.update_of_ne hqp _ _).trans ?_
      by_cases hun : u = n
      · subst hun
        have hself : Function.update s.root u (some p) u = some p := Function.update_self _ _ _
        exact absurd (Option.some.inj (hself.symm.trans hq)).symm hqp
      · have hroot : Function.update s.root n (some p) u = s.root u :=
          Function.update_of_ne hun _ _
        exact h.rootless u q (hroot.symm.trans hq)
  · intro o ho
    obtain rfl := Option.some.inj ho
    simp [TableSystem.tickTo, ProcessTable.start, launchTable]
  · intro u o ho hne hu
    obtain rfl := Option.some.inj ho
    have hun : u ≠ n := hne
    have hult : u.val < s.table.count := by
      have hsucc : u.val < s.table.count + 1 := hu
      have hval : u.val ≠ n.val := fun he => hun (Fin.ext he)
      omega
    obtain ⟨o, ho', hterm, -⟩ := h.scheduled.running (by omega)
    obtain ⟨-, hactive⟩ := h.scheduled.launching (by omega) (by omega)
    have hslot : s.table.active = o.term := Fin.ext (by have := hterm (by omega); omega)
    simp only [TableSystem.tickTo, hnum u hun]
    simp only [ProcessTable.start, launchTable]
    rw [if_pos (by omega), hslot]
    exact h.waits_update ho' hult
  · intro o ho
    obtain rfl := Option.some.inj ho
    rfl

theorem done_consistent (hthree : s.table.count = 3) (esp ebp : Nat) :
    Consistent D (s.tickTo ⟨esp, ebp, s.cpu⟩
      ({ s.table with
          current := Function.update s.table.current 2 ⟨esp, ebp, s.cpu⟩
          masked := true
          active := 0
          count := 4 },
        .continued)) stack := by
  obtain ⟨o, ho, -, hnext⟩ := h.scheduled.running (by omega)
  have htwo : o.term = 2 := (hnext (by omega)).trans (h.scheduled.start (by omega))
  refine ⟨done_scheduled h.scheduled hthree esp ebp, fun _ => h.shell (by omega),
    h.stacked.congr rfl rfl rfl rfl, fun t _ => h.top t (by omega), fun t _ => h.bottom t (by omega),
    ?_, h.rootless, h.runs, ?_, h.page⟩
  · intro t ht
    have hfour : 4 ≤ t.val := ht
    omega
  · intro t o' ho' hne ht
    simp only [TableSystem.tickTo]
    rw [← htwo]
    exact h.waits_update ho (by omega)

theorem roundRobin_consistent (hfour : 3 < s.table.count) (esp ebp : Nat) :
    Consistent D (s.tickTo ⟨esp, ebp, s.cpu⟩
      ({ s.table with
          current := Function.update s.table.current s.table.next ⟨esp, ebp, s.cpu⟩
          next := s.table.next + 1
          masked := decide (s.table.next + 1 ≠ s.table.active)
          page := programPage (s.table.processNum (s.table.next + 1)) },
        .resumed (s.table.current (s.table.next + 1)))) stack := by
  obtain ⟨o, ho, -⟩ := h.scheduled.running (by omega)
  obtain ⟨hterm, hother⟩ := h.scheduled.next_not_running hfour ho
  -- the terminal that comes next waits for the process of its `process_num`
  have hresumed := h.waits (s.table.next + 1) o ho hother (by omega)
  have howner : ∀ o', (s.table.current (s.table.next + 1)).owner = some o' →
      o' = ⟨s.table.next + 1, s.table.processNum (s.table.next + 1)⟩ :=
    fun o' ho' => Option.some.inj (ho'.symm.trans hresumed)
  refine ⟨roundRobin_scheduled h.scheduled hfour esp ebp, h.shell,
    h.stacked.congr rfl rfl rfl rfl, h.top, h.bottom, h.unlaunched, h.rootless, ?_, ?_, ?_⟩
  · intro o' ho'
    obtain rfl := howner o' ho'
    rfl
  · intro t o' ho' hne ht
    simp only [TableSystem.tickTo]
    rw [← hterm]
    exact h.waits_update ho ht
  · intro o' ho'
    obtain rfl := howner o' ho'
    rfl

theorem launchFailed_of_tick (hlt : s.table.count < 3) (esp ebp : Nat) :
    LaunchFailed (s.tickTo ⟨esp, ebp, s.cpu⟩
      (launchTable s.table ⟨s.table.count, hlt⟩ ⟨esp, ebp, s.cpu⟩, .continued)) := by
  refine ⟨h.scheduled.activated, ⟨s.table.count, hlt⟩, ?_,
    (h.unlaunched ⟨s.table.count, hlt⟩ (le_refl _)).2⟩
  simp [TableSystem.tickTo, launchTable]

theorem tick_consistent {esp ebp innerEsp innerEbp : Nat} {s' : TableSystem}
    (hstep : s.step (.tick esp ebp innerEsp innerEbp) = some s') :
    (∃ stack', Consistent D s' stack') ∨
      LaunchFailed s' ∧ ¬ Launches s (.tick esp ebp innerEsp innerEbp) := by
  obtain rfl := Option.some.inj hstep
  have hact := h.scheduled.activated
  rcases lt_trichotomy s.table.count 3 with hlt | heq | hgt
  · by_cases hlaunch : s.table.shellOk = true ∧ s.table.freeSlot ≠ none
    · obtain ⟨hok, hsome⟩ := hlaunch
      obtain ⟨p, hfree⟩ := Option.ne_none_iff_exists'.mp hsome
      rw [tick_launched _ _ hact hlt hok hfree]
      exact Or.inl (launched_consistent h hlt hok hfree esp ebp _)
    · have hfail : s.table.shellOk = true → s.table.freeSlot = none :=
        fun hok => not_not.mp (fun hsome => hlaunch ⟨hok, hsome⟩)
      rw [tick_launch_failed _ _ hact hlt hfail]
      exact Or.inr ⟨launchFailed_of_tick h hlt esp ebp, fun hl => hlaunch (hl hlt)⟩
  · rw [tick_done _ _ hact heq]
    exact Or.inl ⟨stack, done_consistent h heq esp ebp⟩
  · rw [tick_roundRobin _ _ hact hgt]
    exact Or.inl ⟨stack, roundRobin_consistent h hgt esp ebp⟩

/-- A step keeps the system consistent, or it is a tick that should launch a shell and fails. -/
theorem step_consistent (hD : ∀ p : Fin 6, 3 ≤ p.val → D p) {e : TableEvent} {s' : TableSystem}
    (hC : StackGuard D s e) (hstep : s.step e = some s') :
    (∃ stack', Consistent D s' stack') ∨ LaunchFailed s' ∧ ¬ Launches s e := by
  cases e with
  | tick esp ebp innerEsp innerEbp => exact tick_consistent h hstep
  | display t => exact Or.inl (display_consistent h hstep)
  | execute valid esp ebp => exact Or.inl (execute_consistent h hC hstep)
  | halt slot esp ebp => exact Or.inl (halt_consistent h hD hC hstep)

end Steps

/-! ## A failed launch is final -/

theorem execute_counters (T : ProcessTable) (valid : Bool) (c : Context) :
    (T.execute valid c).1.activated = T.activated ∧ (T.execute valid c).1.count = T.count := by
  unfold ProcessTable.execute
  split_ifs
  · cases T.freeSlot with
    | none => exact ⟨rfl, rfl⟩
    | some p => exact ⟨rfl, rfl⟩
  · exact ⟨rfl, rfl⟩

theorem halt_counters (T : ProcessTable) (slot : Fin 6) (c : Context) :
    (T.halt slot c).1.activated = T.activated ∧ (T.halt slot c).1.count = T.count := by
  unfold ProcessTable.halt
  cases T.processTerm (T.number slot) with
  | none => exact ⟨rfl, rfl⟩
  | some term =>
      simp only
      split_ifs
      · obtain ⟨hact, hcount⟩ := execute_counters (T.free (T.processNum term)) T.shellOk c
        split <;> rename_i hexec <;> rw [hexec] at hact hcount <;> exact ⟨hact, hcount⟩
      · exact ⟨rfl, rfl⟩

section Failed

variable {s : TableSystem} (h : LaunchFailed s)
include h

theorem LaunchFailed.tick (esp ebp : Nat) (inner : Context) :
    LaunchFailed (s.tickTo ⟨esp, ebp, s.cpu⟩ (s.table.tick ⟨esp, ebp, s.cpu⟩ inner)) := by
  obtain ⟨hact, t, ht, hroot⟩ := h
  rcases lt_trichotomy s.table.count 3 with hlt | heq | hgt
  · have ht' : t.val < s.table.count + 1 := by omega
    by_cases hfail : s.table.shellOk = true → s.table.freeSlot = none
    · rw [tick_launch_failed _ _ hact hlt hfail]
      exact ⟨hact, t, ht', hroot⟩
    · obtain ⟨hok, hsome⟩ := Classical.not_imp.mp hfail
      obtain ⟨p, hfree⟩ := Option.ne_none_iff_exists'.mp hsome
      rw [tick_launched _ _ hact hlt hok hfree]
      have hne : t ≠ ⟨s.table.count, hlt⟩ := by
        rintro rfl
        exact lt_irrefl _ ht
      exact ⟨hact, t, ht', (Function.update_of_ne hne _ _).trans hroot⟩
  · rw [tick_done _ _ hact heq]
    exact ⟨hact, t, by simp only [TableSystem.tickTo]; omega, hroot⟩
  · rw [tick_roundRobin _ _ hact hgt]
    exact ⟨hact, t, ht, hroot⟩

theorem LaunchFailed.step {e : TableEvent} {s' : TableSystem} (hstep : s.step e = some s') :
    LaunchFailed s' := by
  cases e with
  | tick esp ebp innerEsp innerEbp =>
      obtain rfl := Option.some.inj hstep
      exact h.tick esp ebp _
  | display t =>
      simp only [TableSystem.step] at hstep
      split_ifs at hstep
      obtain rfl := Option.some.inj hstep
      exact h
  | execute valid esp ebp =>
      obtain ⟨hact, t, ht, hroot⟩ := h
      obtain ⟨o, -, rfl⟩ := Option.map_eq_some_iff.mp hstep
      obtain ⟨hact', hcount⟩ := execute_counters s.table valid ⟨esp, ebp, some o⟩
      rw [← hcount] at ht
      rw [← hact'] at hact
      cases hexec : s.table.execute valid ⟨esp, ebp, some o⟩ with
      | mk T r =>
          rw [hexec] at hact ht
          cases r with
          | none => exact ⟨hact, t, ht, hroot⟩
          | some p => exact ⟨hact, t, ht, hroot⟩
  | halt slot esp ebp =>
      obtain ⟨hact, t, ht, hroot⟩ := h
      obtain ⟨o, -, hblock⟩ := Option.bind_eq_some_iff.mp hstep
      obtain ⟨slot, -, hhalt⟩ := Option.bind_eq_some_iff.mp hblock
      obtain ⟨hact', hcount⟩ := halt_counters s.table slot ⟨esp, ebp, some o⟩
      rw [← hcount] at ht
      rw [← hact'] at hact
      obtain ⟨T, r, hr⟩ : ∃ T r, s.table.halt slot ⟨esp, ebp, some o⟩ = (T, r) := ⟨_, _, rfl⟩
      rw [hr] at hact ht hhalt
      cases r with
      | astray => cases hhalt
      | resumed c =>
          obtain rfl := Option.some.inj hhalt
          exact ⟨hact, t, ht, hroot⟩
      | entered p =>
          obtain rfl := Option.some.inj hhalt
          refine ⟨hact, t, ht, ?_⟩
          -- the root that is replaced was there, so it is another terminal's
          simp only
          split_ifs with hold
          · have hne : t ≠ o.term := by
              rintro rfl
              rw [hroot] at hold
              cases hold
            rw [Function.update_of_ne hne, hroot]
          · exact hroot

end Failed

end OopsOs
