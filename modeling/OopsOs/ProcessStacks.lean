import OopsOs.SavedContexts

/-!
# The process table as three stacks

What the process table is for is three stacks of processes, one for each
terminal: a root shell at the bottom, and on top of each process the one it
has started and waits for.  Starting a process pushes, ending one pops.

`Stacked` says that the occupied slots are such stacks and how the slots are
linked; `Consistent` adds that the tops of the stacks are the processes that
run or wait on the terminals.  The links are asked for on the slots in `D`
only, because a restarted shell has none.

The code keeps the two together only while the process that calls `execute`
runs on the displayed terminal, and while `halt` takes slots 0 to 2 for the
root shells and rightly so.  `StackGuard` is that condition on the steps.
-/

namespace OopsOs

open ByteMem Machine

abbrev Stacks := Fin 3 → List (Fin 6)

/-- Slot `p` was started by slot `q` on terminal `t`, and all records say so. -/
structure Link (T : ProcessTable) (parent : Fin 6 → Option (Fin 6)) (t : Fin 3) (p q : Fin 6) :
    Prop where
  previous : T.previous p = q
  saved : (T.saved p).owner = some ⟨t, q⟩
  parent : parent p = some q

structure Stacked (D : Fin 6 → Prop) (T : ProcessTable) (parent : Fin 6 → Option (Fin 6))
    (stack : Stacks) : Prop where
  nodup : ∀ t, (stack t).Nodup
  disjoint : ∀ t u, t ≠ u → ∀ p, p ∈ stack t → p ∉ stack u
  occupied : ∀ p, T.occupants p ≠ 0 ↔ ∃ t, p ∈ stack t
  number : ∀ t p, p ∈ stack t → T.number p = p
  linked : ∀ t, (stack t).IsChain (fun p q => D p → Link T parent t p q)

section Stacked

variable {D : Fin 6 → Prop} {T : ProcessTable} {parent : Fin 6 → Option (Fin 6)} {stack : Stacks}

theorem Stacked.not_mem_of_free (h : Stacked D T parent stack) {p : Fin 6}
    (hfree : T.occupants p = 0) (t : Fin 3) : p ∉ stack t := by
  intro hp
  exact (h.occupied p).mpr ⟨t, hp⟩ hfree

/-- Only four of the records matter. -/
theorem Stacked.congr (h : Stacked D T parent stack) {T' : ProcessTable}
    (hocc : T'.occupants = T.occupants) (hprev : T'.previous = T.previous)
    (hsaved : T'.saved = T.saved) (hnum : T'.number = T.number) :
    Stacked D T' parent stack := by
  refine ⟨h.nodup, h.disjoint, ?_, ?_, ?_⟩
  · rw [hocc]
    exact h.occupied
  · rw [hnum]
    exact h.number
  · intro t
    refine (h.linked t).imp (fun p q hold hD => ⟨?_, ?_, (hold hD).parent⟩)
    · rw [hprev]
      exact (hold hD).previous
    · rw [hsaved]
      exact (hold hD).saved

theorem mem_push_iff (stack : Stacks) (t : Fin 3) (p : Fin 6) (u : Fin 3) (q : Fin 6) :
    q ∈ Function.update stack t (p :: stack t) u ↔ (u = t ∧ q = p) ∨ q ∈ stack u := by
  by_cases hu : u = t
  · subst hu
    simp
  · simp [hu]

/-- A link between slots that were there before is not affected by a new process. -/
theorem Link.start {t : Fin 3} {q r p : Fin 6} (h : Link T parent t q r) (hne : q ≠ p)
    (c : Context) (x : Option (Fin 6)) :
    Link (T.start p c) (Function.update parent p x) t q r := by
  refine ⟨?_, ?_, ?_⟩
  · simpa [ProcessTable.start, hne] using h.previous
  · simpa [ProcessTable.start, hne] using h.saved
  · simpa [hne] using h.parent

/-- Starting a process pushes its slot. -/
theorem Stacked.push (h : Stacked D T parent stack) {p : Fin 6} (hfree : T.occupants p = 0)
    {c : Context} {x : Option (Fin 6)} {t : Fin 3} (ht : T.active = t)
    (hlink : ∀ q, (stack t).head? = some q → D p →
      T.processNum t = q ∧ c.owner = some ⟨t, q⟩ ∧ x = some q) :
    Stacked D (T.start p c) (Function.update parent p x)
      (Function.update stack t (p :: stack t)) := by
  have hnot := h.not_mem_of_free hfree
  have hmem := mem_push_iff stack t p
  refine ⟨?_, ?_, ?_, ?_, ?_⟩
  · intro u
    by_cases hu : u = t
    · subst hu
      simpa using ⟨hnot u, h.nodup u⟩
    · simpa [hu] using h.nodup u
  · intro u v huv q hq hq'
    rcases (hmem u q).mp hq with ⟨hu, hqp⟩ | hu
    · rcases (hmem v q).mp hq' with ⟨hv, -⟩ | hv
      · exact huv (hu.trans hv.symm)
      · exact hnot v (hqp ▸ hv)
    · rcases (hmem v q).mp hq' with ⟨-, hqp⟩ | hv
      · exact hnot u (hqp ▸ hu)
      · exact h.disjoint u v huv q hu hv
  · intro q
    simp only [hmem]
    by_cases hq : q = p
    · subst hq
      simp [ProcessTable.start]
    · simpa [ProcessTable.start, hq] using h.occupied q
  · intro u q hq
    by_cases hqp : q = p
    · subst hqp
      simp [ProcessTable.start]
    · rcases (hmem u q).mp hq with ⟨-, heq⟩ | hu
      · exact absurd heq hqp
      · simpa [ProcessTable.start, hqp] using h.number u q hu
  · intro u
    have hold : (stack u).IsChain (fun q r => D q →
        Link (T.start p c) (Function.update parent p x) u q r) := by
      refine (h.linked u).imp_of_mem_imp ?_
      intro q r hq _ hlinked hD
      have hne : q ≠ p := by
        rintro rfl
        exact hnot u hq
      exact (hlinked hD).start hne c x
    by_cases hu : u = t
    · subst hu
      rw [Function.update_self]
      refine hold.cons ?_
      intro q hq hD
      obtain ⟨hprev, howner, hparent⟩ := hlink q hq hD
      refine ⟨?_, ?_, ?_⟩
      · simpa [ProcessTable.start, ht] using hprev
      · simpa [ProcessTable.start] using howner
      · simpa using hparent
    · rw [Function.update_of_ne hu]
      exact hold

theorem Stacked.mem_pop_iff (h : Stacked D T parent stack) {t : Fin 3} {p : Fin 6}
    {rest : List (Fin 6)} (hstack : stack t = p :: rest) (u : Fin 3) (q : Fin 6) :
    q ∈ Function.update stack t rest u ↔ q ∈ stack u ∧ q ≠ p := by
  by_cases hu : u = t
  · subst hu
    have hnodup := h.nodup u
    rw [hstack, List.nodup_cons] at hnodup
    rw [Function.update_self, hstack]
    constructor
    · intro hq
      refine ⟨List.mem_cons_of_mem p hq, ?_⟩
      rintro rfl
      exact hnodup.1 hq
    · rintro ⟨hq, hne⟩
      exact (List.mem_cons.mp hq).resolve_left hne
  · rw [Function.update_of_ne hu]
    constructor
    · intro hq
      refine ⟨hq, ?_⟩
      rintro rfl
      exact h.disjoint u t hu q hq (by rw [hstack]; exact List.mem_cons_self)
    · exact fun hq => hq.1

/-- Ending a process pops its slot. -/
theorem Stacked.pop (h : Stacked D T parent stack) {t : Fin 3} {p : Fin 6} {rest : List (Fin 6)}
    (hstack : stack t = p :: rest) :
    Stacked D (T.free p) parent (Function.update stack t rest) := by
  have hnodup := h.nodup t
  rw [hstack, List.nodup_cons] at hnodup
  have hmem := h.mem_pop_iff hstack
  refine ⟨?_, ?_, ?_, ?_, ?_⟩
  · intro u
    by_cases hu : u = t
    · subst hu
      rw [Function.update_self]
      exact hnodup.2
    · rw [Function.update_of_ne hu]
      exact h.nodup u
  · intro u v huv q hq hq'
    exact h.disjoint u v huv q ((hmem u q).mp hq).1 ((hmem v q).mp hq').1
  · intro q
    simp only [hmem, ProcessTable.free]
    by_cases hq : q = p
    · subst hq
      simp
    · simpa [hq] using h.occupied q
  · intro u q hq
    exact h.number u q ((hmem u q).mp hq).1
  · intro u
    have hkeep : ∀ q r, (D q → Link T parent u q r) → D q → Link (T.free p) parent u q r :=
      fun q r hold hD => ⟨(hold hD).previous, (hold hD).saved, (hold hD).parent⟩
    by_cases hu : u = t
    · subst hu
      rw [Function.update_self]
      have htail := (h.linked u).tail
      rw [hstack] at htail
      exact htail.imp hkeep
    · rw [Function.update_of_ne hu]
      exact (h.linked u).imp hkeep

end Stacked

end OopsOs
