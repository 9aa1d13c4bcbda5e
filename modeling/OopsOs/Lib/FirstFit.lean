import Mathlib.Data.List.FinRange
import Mathlib.Data.Fin.Basic
import Mathlib.Order.Bounds.Basic

/-!
# The first entry of a table that meets a condition

A loop over the indices of a table that stops at the first entry that meets a
condition finds the least such index, and none exactly if there is none.
-/

namespace FirstFit

variable {n : Nat} {p : Fin n → Prop} [DecidablePred p]

theorem find?_eq_some_iff {i : Fin n} :
    (List.finRange n).find? (fun j => decide (p j)) = some i ↔ IsLeast {j | p j} i := by
  rw [List.find?_eq_some_iff_getElem]
  constructor
  · rintro ⟨hi, m, hm, hget, hbefore⟩
    have hmi : m = i.val := by
      rw [← hget]
      simp
    subst hmi
    refine ⟨by simpa using hi, ?_⟩
    intro j hj
    by_contra hlt
    have hji : j.val < i.val := by omega
    have := hbefore j.val hji
    simp only [List.getElem_finRange, Fin.cast_mk, Fin.eta, Bool.not_eq_true',
      decide_eq_false_iff_not] at this
    exact this hj
  · rintro ⟨hi, hleast⟩
    refine ⟨by simpa using hi, i.val, by simp, by simp, ?_⟩
    intro m hm
    simp only [List.getElem_finRange, Fin.cast_mk, Bool.not_eq_true', decide_eq_false_iff_not]
    intro hpm
    have := hleast hpm
    rw [Fin.le_def] at this
    simp only at this
    omega

theorem find?_eq_none_iff :
    (List.finRange n).find? (fun j => decide (p j)) = none ↔ ∀ j, ¬ p j := by
  simp [List.find?_eq_none]

end FirstFit
