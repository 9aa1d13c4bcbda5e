import Mathlib.Tactic

/-!
# Byte-addressed memory and counted loops

A memory is a function from addresses to bytes.  Addresses are integers, so
that the address arithmetic of a C program is written as it stands there; no
address computation in the developments that use this module wraps around.

`Mem.blit` is the specification of a block copy: the destination block shows
the old contents of the source block, everything else is unchanged.  A copy
that proceeds upwards in blocks is exact as long as it does not overwrite
source bytes that it still has to read, which is what `CopyUp` says.

`loop n f` is the counted loop `for (i = 0; i < n; i++)`.
-/

namespace ByteMem

universe u v

abbrev Mem := Int → UInt8

/-- One byte store. -/
def Mem.store (m : Mem) (a : Int) (v : UInt8) : Mem :=
  fun b => if b = a then v else m b

theorem Mem.store_apply (m : Mem) (a b : Int) (v : UInt8) :
    m.store a v b = if b = a then v else m b := rfl

/-- The result of an exact copy of `n` bytes from `src` to `dst`. -/
def Mem.blit (m : Mem) (dst src : Int) (n : Nat) : Mem :=
  fun a => if dst ≤ a ∧ a < dst + n then m (src + (a - dst)) else m a

theorem Mem.blit_apply (m : Mem) (dst src : Int) (n : Nat) (a : Int) :
    m.blit dst src n a =
      if dst ≤ a ∧ a < dst + n then m (src + (a - dst)) else m a := rfl

@[simp] theorem Mem.blit_zero (m : Mem) (dst src : Int) :
    m.blit dst src 0 = m := by
  funext a
  rw [Mem.blit_apply, if_neg (by omega)]

/-- Copying upwards never overwrites a source byte that is still to be read. -/
def CopyUp (dst src : Int) (n : Nat) : Prop :=
  dst ≤ src ∨ src + n ≤ dst

/-- An upward copy may be split into a first block and the rest. -/
theorem Mem.blit_blit (m : Mem) (dst src : Int) (w n : Nat)
    (h : CopyUp dst src (w + n)) :
    (m.blit dst src w).blit (dst + w) (src + w) n = m.blit dst src (w + n) := by
  funext a
  simp only [Mem.blit_apply]
  unfold CopyUp at h
  push_cast at h ⊢
  by_cases hlo : dst + w ≤ a ∧ a < dst + w + n
  · have hshift : src + w + (a - (dst + w)) = src + (a - dst) := by ring
    rw [if_pos hlo, hshift, if_neg (by omega), if_pos (by omega)]
  · rw [if_neg hlo]
    by_cases hw : dst ≤ a ∧ a < dst + w
    · rw [if_pos hw, if_pos (by omega)]
    · rw [if_neg hw, if_neg (by omega)]

theorem CopyUp.tail {dst src : Int} {w n : Nat} (h : CopyUp dst src (w + n)) :
    CopyUp (dst + w) (src + w) n := by
  unfold CopyUp at *
  push_cast at h
  omega

/-- A downward copy: the last byte first, then the rest, which must not have been overwritten. -/
theorem Mem.blit_store_last (m : Mem) {dst src : Int} (n : Nat) (h : src ≤ dst) :
    (m.store (dst + n) (m (src + n))).blit dst src n = m.blit dst src (n + 1) := by
  funext a
  simp only [Mem.blit_apply, Mem.store_apply]
  push_cast
  by_cases hlast : a = dst + n
  · subst hlast
    rw [if_neg (by omega), if_pos rfl, if_pos (by omega)]
    congr 1
    ring
  · by_cases hin : dst ≤ a ∧ a < dst + n
    · rw [if_pos hin, if_neg (by omega), if_pos (by omega)]
    · rw [if_neg hin, if_neg hlast, if_neg (by omega)]

/-- The counted loop `for (i = 0; i < n; i++) x = f i x`. -/
def loop {α : Type u} : Nat → (Nat → α → α) → α → α
  | 0, _, x => x
  | n + 1, f, x => f n (loop n f x)

/-- The invariant rule of the counted loop. -/
theorem loop_invariant {α : Type u} {f : Nat → α → α}
    (P : Nat → α → Prop) {n : Nat} {x : α}
    (h0 : P 0 x)
    (hstep : ∀ i y, i < n → P i y → P (i + 1) (f i y)) :
    P n (loop n f x) := by
  induction n with
  | zero => exact h0
  | succ n ih =>
      apply hstep n _ (Nat.lt_succ_self n)
      exact ih (fun i y hi hy => hstep i y (Nat.lt_succ_of_lt hi) hy)

/-- A projection that the bodies of two loops respect. -/
theorem loop_hom {α : Type u} {β : Type v} (g : α → β) {f : Nat → α → α} {f' : Nat → β → β}
    (h : ∀ i x, g (f i x) = f' i (g x)) (n : Nat) (x : α) :
    g (loop n f x) = loop n f' (g x) := by
  induction n with
  | zero => rfl
  | succ n ih => rw [loop, loop, h, ih]

/-! ## Memories that record their writes -/

/-- A memory and the addresses that have been written, in order. -/
structure Recorded where
  mem : Mem
  written : List Int

/-- The store of one byte. -/
def Recorded.store (z : Recorded) (a : Int) (v : UInt8) : Recorded :=
  ⟨z.mem.store a v, z.written ++ [a]⟩

/-- Every address written so far lies in `[base, base + n)`. -/
def Recorded.Within (z : Recorded) (base n : Int) : Prop :=
  ∀ a ∈ z.written, base ≤ a ∧ a < base + n

theorem Recorded.Within.store {z : Recorded} {base n a : Int} (h : z.Within base n)
    (hlo : base ≤ a) (hhi : a < base + n) (v : UInt8) : (z.store a v).Within base n := by
  intro b hb
  rcases List.mem_append.mp hb with hold | hnew
  · exact h b hold
  · rw [List.mem_singleton.mp hnew]
    exact ⟨hlo, hhi⟩

end ByteMem
