import Mathlib.Data.List.Basic
import Mathlib.Data.List.Infix
import Mathlib.Tactic.Common

/-!
# Lines of a text

The lines of a text are its parts between the separators, `List.splitOn`.
`joined` goes the other way and keeps the unfinished line at the end apart.
`chosen` is what a filter over the lines writes; a text that is cut behind a
separator can be filtered piece by piece (`chosen_append_of_closed`).
-/

namespace Lines

variable {α β : Type*} {nl : α}

/-- Finished lines, each followed by the separator, and the unfinished line `p`. -/
def joined (nl : α) (ls : List (List α)) (p : List α) : List α := ls.flatMap (· ++ [nl]) ++ p

@[simp] theorem joined_nil (p : List α) : joined nl [] p = p := rfl

theorem joined_cons (l : List α) (ls : List (List α)) (p : List α) :
    joined nl (l :: ls) p = l ++ nl :: joined nl ls p := by
  simp [joined]

theorem joined_append (ls : List (List α)) (p q : List α) :
    joined nl ls p ++ q = joined nl ls (p ++ q) := by
  simp [joined]

theorem joined_eq_append (ls : List (List α)) (p : List α) :
    joined nl ls p = joined nl ls [] ++ p := by
  rw [joined_append, List.nil_append]

theorem joined_concat (ls : List (List α)) (l : List α) :
    joined nl (ls ++ [l]) [] = joined nl ls (l ++ [nl]) := by
  simp [joined]

/-- A text with an unfinished line does not end with the separator. -/
theorem joined_ne_closed {ls : List (List α)} {p : List α} (hp : nl ∉ p) (hne : p ≠ [] ∨ ls = [])
    (u : List α) : joined nl ls p ≠ u ++ [nl] := by
  rcases List.eq_nil_or_concat' p with rfl | ⟨q, c, rfl⟩
  · obtain rfl := hne.resolve_left (not_not.mpr rfl)
    simp
  · rw [← joined_append]
    intro h
    have hc : c = nl := List.singleton_inj.mp (List.append_inj_right' h rfl)
    exact hp (by simp [hc])

theorem length_le_length_joined (ls : List (List α)) (p : List α) :
    ls.length ≤ (joined nl ls p).length := by
  induction ls with
  | nil => exact Nat.zero_le _
  | cons l ls ih =>
      rw [joined_cons, List.length_append, List.length_cons, List.length_cons]
      omega

variable [DecidableEq α]

theorem splitOn_joined {ls : List (List α)} (hls : ∀ l ∈ ls, nl ∉ l) (q : List α) :
    (joined nl ls q).splitOn nl = ls ++ q.splitOn nl := by
  induction ls with
  | nil => rfl
  | cons l ls ih =>
      rw [joined_cons, List.splitOn_append_cons_self_of_not_mem (hls l (List.mem_cons_self ..)),
        ih (fun l' hl' => hls l' (List.mem_cons_of_mem l hl')), List.cons_append]

/-- Every text is a sequence of finished lines and an unfinished one. -/
theorem exists_joined (nl : α) (v : List α) :
    ∃ ls p, v = joined nl ls p ∧ (∀ l ∈ ls, nl ∉ l) ∧ nl ∉ p := by
  induction v with
  | nil => exact ⟨[], [], rfl, by simp, by simp⟩
  | cons c v ih =>
      obtain ⟨ls, p, rfl, hls, hp⟩ := ih
      by_cases hc : c = nl
      · exact ⟨[] :: ls, p, by rw [joined_cons, hc, List.nil_append], by simpa using hls, hp⟩
      · cases ls with
        | nil => exact ⟨[], c :: p, rfl, by simp, by simp [Ne.symm hc, hp]⟩
        | cons l ls =>
            refine ⟨(c :: l) :: ls, p, ?_, ?_, hp⟩
            · rw [joined_cons, joined_cons, List.cons_append]
            · intro l' hl'
              rcases List.mem_cons.mp hl' with rfl | hl'
              · simp [Ne.symm hc, hls l (List.mem_cons_self ..)]
              · exact hls l' (List.mem_cons_of_mem l hl')

/-- Two texts in sequence: the last line of the first one runs on into the second one. -/
theorem splitOn_append (nl : α) (v w : List α) :
    ∃ before x y behind, v.splitOn nl = before ++ [x] ∧ w.splitOn nl = y :: behind ∧
      (v ++ w).splitOn nl = before ++ (x ++ y) :: behind := by
  obtain ⟨ls, p, rfl, hls, hp⟩ := exists_joined nl v
  obtain ⟨ls', p', rfl, hls', hp'⟩ := exists_joined nl w
  rw [joined_append, splitOn_joined hls, splitOn_joined hls, splitOn_joined hls',
    List.splitOn_eq_singleton hp, List.splitOn_eq_singleton hp']
  cases ls' with
  | nil =>
      refine ⟨ls, p, p', [], rfl, rfl, ?_⟩
      rw [joined_nil, List.splitOn_eq_singleton (by simp [hp, hp'])]
  | cons l ls' =>
      refine ⟨ls, p, l, ls' ++ [p'], rfl, rfl, ?_⟩
      have hfirst : nl ∉ p ++ l := by simp [hp, hls' l (List.mem_cons_self ..)]
      rw [joined_cons, ← List.append_assoc, List.splitOn_append_cons_self_of_not_mem hfirst,
        splitOn_joined (fun l' hl' => hls' l' (List.mem_cons_of_mem l hl')),
        List.splitOn_eq_singleton hp']

/-- What has no separator lies within one line. -/
theorem exists_line_of_isInfix {l v : List α} (h : l <:+: v) (hl : nl ∉ l) :
    ∃ line ∈ v.splitOn nl, l <:+: line := by
  obtain ⟨u, w, rfl⟩ := h
  obtain ⟨before, x, y, behind, hu, hy, hsplit⟩ := splitOn_append nl u (l ++ w)
  obtain ⟨before', x', y', behind', hl', hw, hsplit'⟩ := splitOn_append nl l w
  rw [List.splitOn_eq_singleton hl] at hl'
  obtain ⟨rfl, hx'⟩ : before' = [] ∧ x' = l := by
    cases before' with
    | nil => exact ⟨rfl, by simpa using hl'.symm⟩
    | cons b before' => simp at hl'
  rw [hsplit', List.nil_append] at hy
  refine ⟨x ++ y, ?_, ?_⟩
  · rw [List.append_assoc, hsplit]
    simp
  · obtain ⟨rfl, -⟩ := List.cons.inj hy
    exact ⟨x, y', by rw [hx', List.append_assoc]⟩

/-! ## Filters over lines -/

/-- The lines that are selected, in order, each as `render` shows it. -/
def chosen (nl : α) (select : List α → Bool) (render : List α → List β) (v : List α) : List β :=
  ((v.splitOn nl).filter select).flatMap render

variable {select : List α → Bool} {render : List α → List β}

/-- What is shown for one line. -/
def shown (select : List α → Bool) (render : List α → List β) (l : List α) : List β :=
  if select l then render l else []

theorem chosen_eq (v : List α) :
    chosen nl select render v = (v.splitOn nl).flatMap (shown select render) := by
  unfold chosen
  induction v.splitOn nl with
  | nil => rfl
  | cons l ls ih =>
      rw [List.flatMap_cons, ← ih, List.filter_cons, shown]
      split_ifs
      · rw [List.flatMap_cons]
      · rfl

theorem chosen_line {l : List α} (hl : nl ∉ l) :
    chosen nl select render l = shown select render l := by
  rw [chosen_eq, List.splitOn_eq_singleton hl, List.flatMap_singleton]

theorem chosen_joined {ls : List (List α)} (hls : ∀ l ∈ ls, nl ∉ l) (q : List α) :
    chosen nl select render (joined nl ls q) =
      ls.flatMap (shown select render) ++ chosen nl select render q := by
  rw [chosen_eq, splitOn_joined hls, List.flatMap_append, ← chosen_eq]

theorem chosen_nil (hempty : select [] = false) : chosen nl select render [] = [] := by
  rw [chosen_line (by simp), shown, hempty]
  rfl

/-- A text that ends with a finished line can be filtered on its own. -/
theorem chosen_append_of_closed (hempty : select [] = false) (u v : List α) :
    chosen nl select render (u ++ [nl] ++ v) =
      chosen nl select render (u ++ [nl]) ++ chosen nl select render v := by
  have hclosed : ∀ w : List α, (u ++ nl :: w).splitOn nl = u.splitOn nl ++ w.splitOn nl :=
    fun w => List.splitOn_append_cons_self u w
  have hnil : ([] : List α).splitOn nl = [[]] := List.splitOn_nil nl
  rw [List.append_assoc, List.singleton_append, chosen_eq, chosen_eq, chosen_eq, hclosed, hclosed,
    List.flatMap_append, List.flatMap_append, hnil, List.flatMap_singleton, shown, hempty,
    if_neg Bool.false_ne_true, List.append_nil]

/-- The last line of a text, finished or not. -/
def lastLine (nl : α) (v : List α) : List α := (v.splitOn nl).getLastD []

def firstLine (nl : α) (v : List α) : List α := (v.splitOn nl).headD []

/-- What runs across the border of two texts is a line of the whole. -/
theorem lastLine_append_firstLine_mem (v w : List α) :
    lastLine nl v ++ firstLine nl w ∈ (v ++ w).splitOn nl := by
  obtain ⟨before, x, y, behind, hv, hw, hsplit⟩ := splitOn_append nl v w
  rw [lastLine, firstLine, hv, hw, hsplit]
  simp

theorem lastLine_concat {c : α} (hc : c ≠ nl) (v : List α) : lastLine nl (v ++ [c]) ≠ [] := by
  obtain ⟨before, x, y, behind, hv, hw, hsplit⟩ := splitOn_append nl v [c]
  rw [List.splitOn_eq_singleton (by simpa using Ne.symm hc)] at hw
  obtain ⟨rfl, rfl⟩ := List.cons.inj hw
  rw [lastLine, hsplit]
  simp

/--
Filtering two texts one after the other is filtering the whole if and only if
it is for the line that runs across the border.
-/
theorem chosen_append_iff (v w : List α) :
    chosen nl select render v ++ chosen nl select render w = chosen nl select render (v ++ w) ↔
      shown select render (lastLine nl v) ++ shown select render (firstLine nl w) =
        shown select render (lastLine nl v ++ firstLine nl w) := by
  obtain ⟨before, x, y, behind, hv, hw, hsplit⟩ := splitOn_append nl v w
  have hx : lastLine nl v = x := by simp [lastLine, hv]
  have hy : firstLine nl w = y := by simp [firstLine, hw]
  rw [chosen_eq, chosen_eq, chosen_eq, hx, hy, hv, hw, hsplit, List.flatMap_append,
    List.flatMap_append, List.flatMap_singleton, List.flatMap_cons, List.flatMap_cons,
    List.append_assoc, List.append_cancel_left_eq, ← List.append_assoc,
    List.append_cancel_right_eq]

theorem chosen_eq_nil_iff (hrender : ∀ l, render l ≠ []) (v : List α) :
    chosen nl select render v = [] ↔ ∀ l ∈ v.splitOn nl, select l = false := by
  rw [chosen_eq, List.flatMap_eq_nil_iff]
  refine forall₂_congr ?_
  intro l _
  rw [shown]
  cases select l with
  | false => simp
  | true => simp [hrender l]

end Lines
