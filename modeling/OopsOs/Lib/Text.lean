import Mathlib.Tactic
import Mathlib.Data.List.GetD
import Mathlib.Data.Nat.Digits.Lemmas

/-!
# Strings in arrays, and numerals

An array is a function from indices to bytes.  `Buffer.write` stores the bytes
of a list one after the other, `Buffer.Shows` says that they stand at an index,
and `StringAt` that they are the string, ended by a zero byte, there.
`Buffer.mirror` is the result of reversing a segment in place;
`Buffer.mirror_swap` is the step of the loop with two indices that does it.

The numeral of a number has its most significant digit first and no leading
zero.
-/

namespace ByteMem

abbrev Buffer := Nat → UInt8

/-! ## Writing lists -/

/-- The bytes of the list, stored from index `a` on. -/
def Buffer.write (s : Buffer) (a : Nat) (l : List UInt8) : Buffer :=
  fun x => if a ≤ x ∧ x < a + l.length then l.getD (x - a) 0 else s x

theorem Buffer.write_apply (s : Buffer) (a : Nat) (l : List UInt8) (x : Nat) :
    s.write a l x = if a ≤ x ∧ x < a + l.length then l.getD (x - a) 0 else s x := rfl

@[simp] theorem Buffer.write_nil (s : Buffer) (a : Nat) : s.write a [] = s := by
  funext x
  rw [Buffer.write_apply, if_neg (by simp)]

theorem Buffer.write_before (s : Buffer) {a x : Nat} (l : List UInt8) (h : x < a) :
    s.write a l x = s x := by
  rw [Buffer.write_apply, if_neg (by omega)]

theorem Buffer.write_after (s : Buffer) {a x : Nat} {l : List UInt8} (h : a + l.length ≤ x) :
    s.write a l x = s x := by
  rw [Buffer.write_apply, if_neg (by omega)]

theorem Buffer.write_at (s : Buffer) (a : Nat) {l : List UInt8} {j : Nat} (h : j < l.length) :
    s.write a l (a + j) = l.getD j 0 := by
  rw [Buffer.write_apply, if_pos (by omega), Nat.add_sub_cancel_left]

theorem Buffer.write_append (s : Buffer) (a : Nat) (l l' : List UInt8) :
    (s.write a l).write (a + l.length) l' = s.write a (l ++ l') := by
  funext x
  simp only [Buffer.write_apply, List.length_append]
  by_cases hlate : a + l.length ≤ x ∧ x < a + l.length + l'.length
  · rw [if_pos hlate, if_pos (by omega), List.getD_append_right _ _ _ _ (by omega)]
    congr 1
    omega
  · rw [if_neg hlate]
    by_cases hearly : a ≤ x ∧ x < a + l.length
    · rw [if_pos hearly, if_pos (by omega), List.getD_append _ _ _ _ (by omega)]
    · rw [if_neg hearly, if_neg (by omega)]

theorem Buffer.update_eq_write (s : Buffer) (a : Nat) (c : UInt8) :
    Function.update s a c = s.write a [c] := by
  funext x
  rw [Buffer.write_apply, Function.update_apply]
  by_cases hx : x = a
  · rw [if_pos hx, if_pos (by simp [hx]), hx, Nat.sub_self]
    rfl
  · rw [if_neg hx, if_neg (by simp only [List.length_singleton]; omega)]

theorem Buffer.write_cons (s : Buffer) (a : Nat) (c : UInt8) (l : List UInt8) :
    Buffer.write (Function.update s a c) (a + 1) l = s.write a (c :: l) := by
  rw [Buffer.update_eq_write]
  exact s.write_append a [c] l

/-! ## Strings -/

/-- The string at index `i`, followed by a zero byte. -/
structure StringAt (s : Buffer) (i : Nat) (l : List UInt8) : Prop where
  nonzero : ∀ c ∈ l, c ≠ 0
  bytes : ∀ j, j ≤ l.length → s (i + j) = l.getD j 0

theorem StringAt.head {s : Buffer} {i : Nat} {c : UInt8} {l : List UInt8}
    (h : StringAt s i (c :: l)) : s i = c ∧ c ≠ 0 :=
  ⟨h.bytes 0 (Nat.zero_le _), h.nonzero c (List.mem_cons_self ..)⟩

theorem StringAt.tail {s : Buffer} {i : Nat} {c : UInt8} {l : List UInt8}
    (h : StringAt s i (c :: l)) : StringAt s (i + 1) l := by
  refine ⟨fun d hd => h.nonzero d (List.mem_cons_of_mem c hd), ?_⟩
  intro j hj
  have hbyte := h.bytes (j + 1) (Nat.succ_le_succ hj)
  rwa [List.getD_cons_succ, ← Nat.add_assoc, Nat.add_right_comm] at hbyte

theorem StringAt.end_zero {s : Buffer} {i : Nat} {l : List UInt8} (h : StringAt s i l) :
    s (i + l.length) = 0 := by
  rw [h.bytes l.length (Nat.le_refl _), List.getD_eq_default _ _ (Nat.le_refl _)]

theorem StringAt.unique {s : Buffer} {i : Nat} {l l' : List UInt8} (h : StringAt s i l)
    (h' : StringAt s i l') : l = l' := by
  induction l generalizing i l' with
  | nil =>
      cases l' with
      | nil => rfl
      | cons c rest => exact absurd (h'.head.1.symm.trans h.end_zero) h'.head.2
  | cons c rest ih =>
      cases l' with
      | nil => exact absurd (h.head.1.symm.trans h'.end_zero) h.head.2
      | cons c' rest' => rw [h.head.1.symm.trans h'.head.1, ih h.tail h'.tail]

theorem stringAt_write (s : Buffer) (a : Nat) {l : List UInt8} (h : ∀ c ∈ l, c ≠ 0) :
    StringAt (s.write a (l ++ [0])) a l := by
  refine ⟨h, ?_⟩
  intro j hj
  rw [Buffer.write_at _ _ (by simp only [List.length_append, List.length_singleton]; omega)]
  rcases Nat.lt_or_ge j l.length with hlt | hge
  · rw [List.getD_append _ _ _ _ hlt]
  · obtain rfl : j = l.length := by omega
    simp

/-! ## What an array shows -/

/-- The bytes of the list, from index `a` on. -/
def Buffer.Shows (s : Buffer) (a : Nat) (l : List UInt8) : Prop :=
  ∀ j, j < l.length → s (a + j) = l.getD j 0

theorem Buffer.shows_write (s : Buffer) (a : Nat) (l : List UInt8) : (s.write a l).Shows a l :=
  fun _ hj => s.write_at a hj

theorem Buffer.Shows.congr {s s' : Buffer} {a : Nat} {l : List UInt8} (h : s.Shows a l)
    (hsame : ∀ x, a ≤ x → x < a + l.length → s' x = s x) : s'.Shows a l := by
  intro j hj
  rw [hsame _ (Nat.le_add_right _ _) (Nat.add_lt_add_left hj a)]
  exact h j hj

theorem Buffer.shows_append (s : Buffer) (a : Nat) (l l' : List UInt8) :
    s.Shows a (l ++ l') ↔ s.Shows a l ∧ s.Shows (a + l.length) l' := by
  constructor
  · intro h
    refine ⟨?_, ?_⟩
    · intro j hj
      rw [h j (by simp only [List.length_append]; omega), List.getD_append _ _ _ _ hj]
    · intro j hj
      rw [Nat.add_assoc, h (l.length + j) (by simp only [List.length_append]; omega),
        List.getD_append_right _ _ _ _ (Nat.le_add_right _ _), Nat.add_sub_cancel_left]
  · rintro ⟨hl, hl'⟩ j hj
    rcases Nat.lt_or_ge j l.length with hlt | hge
    · rw [hl j hlt, List.getD_append _ _ _ _ hlt]
    · rw [List.length_append] at hj
      have hbyte := hl' (j - l.length) (by omega)
      rw [List.getD_append_right _ _ _ _ hge, ← hbyte]
      congr 1
      omega

theorem Buffer.shows_cons (s : Buffer) (a : Nat) (c : UInt8) (l : List UInt8) :
    s.Shows a (c :: l) ↔ s a = c ∧ s.Shows (a + 1) l := by
  rw [← List.singleton_append, Buffer.shows_append]
  refine and_congr_left' ⟨fun h => h 0 (by simp), ?_⟩
  intro h j hj
  obtain rfl : j = 0 := by simpa using hj
  exact h

theorem Buffer.Shows.stringAt {s : Buffer} {a : Nat} {l : List UInt8} (h : s.Shows a l)
    (hnonzero : ∀ c ∈ l, c ≠ 0) (hend : s (a + l.length) = 0) : StringAt s a l := by
  refine ⟨hnonzero, ?_⟩
  intro j hj
  rcases Nat.lt_or_eq_of_le hj with hlt | rfl
  · exact h j hlt
  · rw [hend, List.getD_eq_default _ _ (Nat.le_refl _)]

theorem StringAt.cons {s : Buffer} {i : Nat} {c : UInt8} {l : List UInt8} (hc : c ≠ 0)
    (hbyte : s i = c) (h : StringAt s (i + 1) l) : StringAt s i (c :: l) := by
  refine ⟨?_, ?_⟩
  · intro d hd
    rcases List.mem_cons.mp hd with rfl | hmem
    · exact hc
    · exact h.nonzero d hmem
  · intro j hj
    cases j with
    | zero => exact hbyte
    | succ j =>
        rw [List.getD_cons_succ, ← h.bytes j (Nat.le_of_succ_le_succ hj)]
        congr 1
        omega

/-- The string in bytes that are followed by a zero byte ends at the first zero byte. -/
theorem Buffer.Shows.stringAt_takeWhile {s : Buffer} {a : Nat} {l : List UInt8}
    (h : s.Shows a l) (hend : s (a + l.length) = 0) :
    StringAt s a (l.takeWhile (fun c => c ≠ 0)) := by
  induction l generalizing a with
  | nil => exact h.stringAt (by simp) hend
  | cons c l ih =>
      obtain ⟨hbyte, htail⟩ := (Buffer.shows_cons s a c l).mp h
      by_cases hc : c = 0
      · rw [List.takeWhile_cons_of_neg (by simp [hc])]
        refine ⟨by simp, ?_⟩
        intro j hj
        obtain rfl : j = 0 := Nat.le_zero.mp hj
        exact hbyte.trans hc
      · rw [List.takeWhile_cons_of_pos (by simp [hc])]
        refine StringAt.cons hc hbyte (ih htail ?_)
        rw [← hend, List.length_cons]
        congr 1
        omega

/-! ## Reversing a segment -/

/-- The `n` bytes from `a` on in the opposite order. -/
def Buffer.mirror (s : Buffer) (a n : Nat) : Buffer :=
  fun x => if a ≤ x ∧ x < a + n then s (2 * a + n - 1 - x) else s x

/-- Two entries exchanged, the second one stored first. -/
def Buffer.swap (s : Buffer) (i j : Nat) : Buffer :=
  Function.update (Function.update s j (s i)) i (s j)

theorem Buffer.mirror_of_le_one (s : Buffer) (a : Nat) {n : Nat} (h : n ≤ 1) :
    s.mirror a n = s := by
  funext x
  unfold Buffer.mirror
  split_ifs with hx
  · congr 1
    omega
  · rfl

/-- One step from both ends. -/
theorem Buffer.mirror_swap (s : Buffer) (a n : Nat) :
    (s.swap a (a + n + 1)).mirror (a + 1) n = s.mirror a (n + 2) := by
  funext x
  unfold Buffer.mirror Buffer.swap
  simp only [Function.update_apply]
  by_cases hin : a + 1 ≤ x ∧ x < a + 1 + n
  · rw [if_pos hin, if_neg (by omega), if_neg (by omega), if_pos (by omega)]
    congr 1
    omega
  · rw [if_neg hin]
    by_cases hfirst : x = a
    · rw [if_pos hfirst, if_pos (by omega)]
      congr 1
      omega
    · rw [if_neg hfirst]
      by_cases hlast : x = a + n + 1
      · rw [if_pos hlast, if_pos (by omega)]
        congr 1
        omega
      · rw [if_neg hlast, if_neg (by omega)]

theorem Buffer.mirror_write (s : Buffer) (a : Nat) (l t : List UInt8) :
    (s.write a (l ++ t)).mirror a l.length = s.write a (l.reverse ++ t) := by
  funext x
  unfold Buffer.mirror
  simp only [Buffer.write_apply, List.length_append, List.length_reverse]
  by_cases hin : a ≤ x ∧ x < a + l.length
  · rw [if_pos hin, if_pos (by omega), if_pos (by omega), List.getD_append _ _ _ _ (by omega),
      List.getD_append _ _ _ _ (by simp only [List.length_reverse]; omega),
      List.getD_eq_getElem _ _ (by omega),
      List.getD_eq_getElem _ _ (by simp only [List.length_reverse]; omega), List.getElem_reverse]
    congr 1
    omega
  · rw [if_neg hin]
    by_cases hafter : a ≤ x ∧ x < a + (l.length + t.length)
    · rw [if_pos hafter, if_pos hafter, List.getD_append_right _ _ _ _ (by omega),
        List.getD_append_right _ _ _ _ (by simp only [List.length_reverse]; omega),
        List.length_reverse]
    · rw [if_neg hafter, if_neg hafter]

/-! ## Numerals -/

/-- The number that a sequence of digits denotes, most significant digit first. -/
def digitsValue (radix : Nat) (ds : List Nat) : Nat := ds.foldl (fun n d => n * radix + d) 0

theorem digitsValue_append (radix : Nat) (ds : List Nat) (d : Nat) :
    digitsValue radix (ds ++ [d]) = digitsValue radix ds * radix + d := by
  simp [digitsValue]

theorem digitsValue_reverse (radix : Nat) (ds : List Nat) :
    digitsValue radix ds.reverse = Nat.ofDigits radix ds := by
  induction ds with
  | nil => rfl
  | cons d ds ih =>
      rw [List.reverse_cons, digitsValue_append, ih, Nat.ofDigits_cons]
      ring

/-- The digits of a number, most significant first; zero has one digit. -/
def numeral (radix n : Nat) : List Nat := if n = 0 then [0] else (Nat.digits radix n).reverse

/-- The sequences of digits that are numerals: no leading zero, except for the number zero. -/
structure IsNumeral (radix : Nat) (ds : List Nat) : Prop where
  digits : ∀ d ∈ ds, d < radix
  nonempty : ds ≠ []
  leading : ds = [0] ∨ ds.head? ≠ some 0

theorem numeral_value (radix n : Nat) : digitsValue radix (numeral radix n) = n := by
  unfold numeral
  by_cases hn : n = 0
  · rw [if_pos hn, hn]
    simp [digitsValue]
  · rw [if_neg hn, digitsValue_reverse, Nat.ofDigits_digits]

theorem numeral_isNumeral {radix : Nat} (hr : 2 ≤ radix) (n : Nat) :
    IsNumeral radix (numeral radix n) := by
  unfold numeral
  by_cases hn : n = 0
  · rw [if_pos hn]
    exact ⟨by simp; omega, by simp, .inl rfl⟩
  · rw [if_neg hn]
    have hne : Nat.digits radix n ≠ [] := Nat.digits_ne_nil_iff_ne_zero.mpr hn
    refine ⟨?_, by simpa using hne, .inr ?_⟩
    · intro d hd
      exact Nat.digits_lt_base (by omega) (List.mem_reverse.mp hd)
    · rw [List.head?_reverse, List.getLast?_eq_some_getLast hne]
      intro h
      exact Nat.getLast_digit_ne_zero radix hn (Option.some.inj h)

theorem length_numeral_le {radix n k : Nat} (hr : 2 ≤ radix) (hk : 0 < k) (hn : n < radix ^ k) :
    (numeral radix n).length ≤ k := by
  unfold numeral
  by_cases hzero : n = 0
  · rw [if_pos hzero]
    exact hk
  · rw [if_neg hzero, List.length_reverse, Nat.digits_length_le_iff (by omega)]
    exact hn

end ByteMem
