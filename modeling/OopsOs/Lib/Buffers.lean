import OopsOs.Lib.ByteMem
import Mathlib.Data.List.GetD

/-!
# Stores into buffers, and strings in buffers

What a program writes is a list of stores, in program order.  `Mem.storeAll`
is the memory they leave; a block store is a run of stores to consecutive
addresses.

A string in an array of `n` bytes ends at its first zero byte or with the
array.  `textFrom s i n` is the string that starts at index `i` with `n` bytes
left.

A constant table is looked into by `List.getD`; a fact about a table as a whole
becomes one about its entries by `map_getD_congr`.
-/

namespace ByteMem

universe u v w

/-- Tables that agree under two functions agree entry by entry, if their defaults do. -/
theorem map_getD_congr {α : Type u} {β : Type v} {γ : Type w} {f : α → γ} {g : β → γ}
    {xs : List α} {ys : List β} (h : xs.map f = ys.map g) {d : α} {e : β} (hd : f d = g e)
    (n : Nat) : f (xs.getD n d) = g (ys.getD n e) := by
  calc f (xs.getD n d) = (xs.map f).getD n (f d) := (List.getD_map xs d f).symm
    _ = (ys.map g).getD n (g e) := by rw [h, hd]
    _ = g (ys.getD n e) := List.getD_map ys e g

/-! ## Lists of stores -/

/-- The memory after the stores of the list. -/
def Mem.storeAll (m : Mem) : List (Int × UInt8) → Mem
  | [] => m
  | st :: rest => (m.store st.1 st.2).storeAll rest

theorem Mem.storeAll_append (m : Mem) (xs ys : List (Int × UInt8)) :
    m.storeAll (xs ++ ys) = (m.storeAll xs).storeAll ys := by
  induction xs generalizing m with
  | nil =>
      rfl
  | cons st rest ih =>
      exact ih (m.store st.1 st.2)

/-- The stores of the bytes `f 0 .. f (n - 1)` to the addresses from `dst` on. -/
def blockStores (dst : Int) (f : Nat → UInt8) (n : Nat) : List (Int × UInt8) :=
  (List.range n).map (fun (i : Nat) => (dst + (i : Int), f i))

theorem mem_blockStores {dst : Int} {f : Nat → UInt8} {n : Nat} {st : Int × UInt8}
    (h : st ∈ blockStores dst f n) : dst ≤ st.1 ∧ st.1 < dst + n := by
  obtain ⟨i, hi, rfl⟩ := List.mem_map.mp h
  have := List.mem_range.mp hi
  simp only
  omega

theorem blockStores_succ (dst : Int) (f : Nat → UInt8) (n : Nat) :
    blockStores dst f (n + 1) = (dst, f 0) :: blockStores (dst + 1) (fun i => f (i + 1)) n := by
  unfold blockStores
  rw [List.range_succ_eq_map, List.map_cons, List.map_map]
  simp only [Nat.cast_zero, add_zero, List.cons.injEq, true_and]
  apply List.map_congr_left
  intro i _
  simp only [Function.comp_apply, Nat.succ_eq_add_one]
  push_cast
  rw [add_assoc, add_comm 1 (i : Int)]

theorem Mem.storeAll_blockStores (m : Mem) (dst : Int) (f : Nat → UInt8) (n : Nat) (a : Int) :
    m.storeAll (blockStores dst f n) a =
      if dst ≤ a ∧ a < dst + n then f (a - dst).toNat else m a := by
  induction n with
  | zero =>
      rw [if_neg (by omega)]
      rfl
  | succ n ih =>
      have hsplit : blockStores dst f (n + 1) =
          blockStores dst f n ++ [(dst + (n : Int), f n)] := by
        simp [blockStores, List.range_succ]
      rw [hsplit, Mem.storeAll_append]
      simp only [Mem.storeAll, Mem.store_apply, ih]
      by_cases hlast : a = dst + n
      · have hn : (a - dst).toNat = n := by omega
        rw [if_pos hlast, if_pos (by push_cast; omega), hn]
      · rw [if_neg hlast]
        by_cases hin : dst ≤ a ∧ a < dst + n
        · rw [if_pos hin, if_pos (by push_cast; omega)]
        · rw [if_neg hin, if_neg (by push_cast; omega)]

/-! ## Strings -/

/-- The string at index `i`: up to its zero byte, at most `n` bytes. -/
def textFrom (s : Nat → UInt8) (i : Nat) : Nat → List UInt8
  | 0 => []
  | n + 1 => if s i = 0 then [] else s i :: textFrom s (i + 1) n

theorem length_textFrom_le (s : Nat → UInt8) (i n : Nat) : (textFrom s i n).length ≤ n := by
  induction n generalizing i with
  | zero =>
      exact le_refl 0
  | succ n ih =>
      unfold textFrom
      split_ifs with hzero
      · exact Nat.zero_le _
      · exact Nat.succ_le_succ (ih (i + 1))

theorem ne_zero_of_mem_textFrom {s : Nat → UInt8} {i n : Nat} {c : UInt8}
    (hc : c ∈ textFrom s i n) : c ≠ 0 := by
  induction n generalizing i with
  | zero =>
      cases hc
  | succ n ih =>
      unfold textFrom at hc
      split_ifs at hc with hzero
      · cases hc
      · rcases List.mem_cons.mp hc with rfl | hrest
        · exact hzero
        · exact ih hrest

/-- The bytes of the string, and zeros after it. -/
theorem getD_textFrom (s : Nat → UInt8) (i n j : Nat) :
    (textFrom s i n).getD j 0 =
      if j < n ∧ ∀ m, m ≤ j → s (i + m) ≠ 0 then s (i + j) else 0 := by
  induction n generalizing i j with
  | zero =>
      rw [if_neg (by omega)]
      rfl
  | succ n ih =>
      unfold textFrom
      by_cases hzero : s i = 0
      · rw [if_pos hzero, if_neg (fun h => h.2 0 (Nat.zero_le j) hzero)]
        rfl
      · rw [if_neg hzero]
        cases j with
        | zero =>
            rw [if_pos ⟨Nat.succ_pos n, fun m hm => by rwa [Nat.le_zero.mp hm]⟩]
            rfl
        | succ j =>
            have hshift : (j < n ∧ ∀ m, m ≤ j → s (i + 1 + m) ≠ 0) ↔
                (j + 1 < n + 1 ∧ ∀ m, m ≤ j + 1 → s (i + m) ≠ 0) := by
              constructor
              · rintro ⟨hj, hall⟩
                refine ⟨by omega, ?_⟩
                intro m hm
                cases m with
                | zero => exact hzero
                | succ m =>
                    rw [← Nat.add_assoc, Nat.add_right_comm]
                    exact hall m (by omega)
              · rintro ⟨hj, hall⟩
                refine ⟨by omega, ?_⟩
                intro m hm
                rw [Nat.add_assoc, Nat.add_comm 1 m]
                exact hall (m + 1) (by omega)
            rw [List.getD_cons_succ, ih, Nat.add_assoc, Nat.add_comm 1 j]
            simp only [hshift]

/-- An array that shows a string without zero bytes, then a zero if there is room for one. -/
theorem textFrom_eq (s : Nat → UInt8) (l : List UInt8) (i n : Nat) (hlen : l.length ≤ n)
    (hnul : ∀ c ∈ l, c ≠ 0) (hs : ∀ j, j < n → s (i + j) = l.getD j 0) :
    textFrom s i n = l := by
  induction n generalizing i l with
  | zero =>
      exact (List.length_eq_zero_iff.mp (Nat.le_zero.mp hlen)).symm
  | succ n ih =>
      have hfirst := hs 0 (Nat.succ_pos n)
      rw [Nat.add_zero] at hfirst
      cases l with
      | nil =>
          have hzero : s i = 0 := hfirst
          unfold textFrom
          rw [if_pos hzero]
      | cons c cs =>
          have hc : s i ≠ 0 := by
            rw [hfirst]
            exact hnul c (List.mem_cons_self ..)
          unfold textFrom
          rw [if_neg hc, hfirst, ih cs (i + 1)]
          · rfl
          · simpa using hlen
          · exact fun c' hmem => hnul c' (List.mem_cons_of_mem c hmem)
          · intro j hj
            rw [Nat.add_assoc, Nat.add_comm 1 j]
            exact hs (j + 1) (Nat.succ_lt_succ hj)

end ByteMem
