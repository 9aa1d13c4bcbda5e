import Mathlib.Logic.Function.Basic
import Mathlib.Data.List.Nodup
import Mathlib.Tactic.Common

/-!
# Descriptors as the processor reads them

A descriptor is eight bytes, taken here as one 64-bit word whose low byte
comes first in memory.  `gateOf` and `segmentOf` are the two readings of such
a word: an entry of the interrupt descriptor table, and a segment descriptor.
Both have their address in pieces.

`enter` is what the processor does with a gate when an interrupt comes: it
goes to the handler, or it raises a fault.
-/

namespace X86

/-- An entry of the interrupt descriptor table. -/
@[ext] structure Gate where
  offset : BitVec 32
  selector : BitVec 16
  type : BitVec 4
  nonsystem : BitVec 1
  dpl : BitVec 2
  present : BitVec 1
deriving DecidableEq, Repr

def gateOf (w : BitVec 64) : Gate where
  offset := w.extractLsb' 48 16 ++ w.extractLsb' 0 16
  selector := w.extractLsb' 16 16
  type := w.extractLsb' 40 4
  nonsystem := w.extractLsb' 44 1
  dpl := w.extractLsb' 45 2
  present := w.extractLsb' 47 1

/-- A segment descriptor. -/
@[ext] structure Segment where
  base : BitVec 32
  limit : BitVec 20
  type : BitVec 4
  nonsystem : BitVec 1
  dpl : BitVec 2
  present : BitVec 1
  available : BitVec 1
  long : BitVec 1
  big : BitVec 1
  granular : BitVec 1
deriving DecidableEq, Repr

def segmentOf (w : BitVec 64) : Segment where
  base := w.extractLsb' 56 8 ++ w.extractLsb' 32 8 ++ w.extractLsb' 16 16
  limit := w.extractLsb' 48 4 ++ w.extractLsb' 0 16
  type := w.extractLsb' 40 4
  nonsystem := w.extractLsb' 44 1
  dpl := w.extractLsb' 45 2
  present := w.extractLsb' 47 1
  available := w.extractLsb' 52 1
  long := w.extractLsb' 53 1
  big := w.extractLsb' 54 1
  granular := w.extractLsb' 55 1

/-- The number of bytes of a segment. -/
def Segment.size (s : Segment) : Nat :=
  if s.granular = 1 then (s.limit.toNat + 1) * 4096 else s.limit.toNat + 1

/-! ## Fields of a packed word -/

/-- A field that is masked out of a word and shifted down. -/
theorem masked_shifted {w s n : Nat} (x : BitVec w) {m : BitVec w}
    (h : ∀ i, i < n → m.getLsbD (s + i) = true) :
    ((x &&& m) >>> s).setWidth n = x.extractLsb' s n := by
  apply BitVec.eq_of_getLsbD_eq
  intro i hi
  rw [BitVec.getLsbD_setWidth, BitVec.getLsbD_ushiftRight, BitVec.getLsbD_and, h i hi,
    BitVec.getLsbD_extractLsb', Bool.and_true]

/-- The low field needs no shift. -/
theorem masked_low {w n : Nat} (x : BitVec w) {m : BitVec w}
    (h : ∀ i, i < n → m.getLsbD i = true) : (x &&& m).setWidth n = x.extractLsb' 0 n := by
  apply BitVec.eq_of_getLsbD_eq
  intro i hi
  rw [BitVec.getLsbD_setWidth, BitVec.getLsbD_and, h i hi, BitVec.getLsbD_extractLsb',
    Bool.and_true, Nat.zero_add]

/-! ## Interrupts -/

/-- Where an interrupt comes from: a device or the processor itself, or an `int` of a program. -/
inductive Source
  | hardware
  | software (cpl : BitVec 2)
deriving DecidableEq, Repr

/-- The handler, with the interrupt flag kept or cleared, or the vector of a fault. -/
inductive Entry
  | handler (selector : BitVec 16) (offset : BitVec 32) (keepsFlag : Bool)
  | fault (vector : Nat)
deriving DecidableEq, Repr

/-- The gate types are those of 32-bit interrupt gates and trap gates. -/
def enter (g : Gate) (source : Source) : Entry :=
  if g.nonsystem ≠ 0 ∨ (g.type ≠ 0xE ∧ g.type ≠ 0xF) then .fault 13
  else if (match source with
    | .hardware => false
    | .software cpl => decide (g.dpl < cpl)) = true then .fault 13
  else if g.present = 0 then .fault 11
  else .handler g.selector g.offset (decide (g.type = 0xF))

end X86

/-! ## Tables filled entry by entry -/

section Tables

universe u v w

variable {ι : Type u} {α : Type v} {β : Type w} [DecidableEq ι]

/-- A loop over a table leaves the entries alone that it does not come to. -/
theorem foldl_update_of_not_mem (key : α → ι) (g : α → β → β) {l : List α} {i : ι}
    (h : i ∉ l.map key) (f : ι → β) :
    l.foldl (fun f a => Function.update f (key a) (g a (f (key a)))) f i = f i := by
  induction l generalizing f with
  | nil => rfl
  | cons a l ih =>
      rw [List.map_cons, List.mem_cons, not_or] at h
      rw [List.foldl_cons, ih h.2, Function.update_of_ne h.1]

/-- An entry that the loop comes to once has been changed once. -/
theorem foldl_update_of_mem (key : α → ι) (g : α → β → β) {l : List α}
    (hl : (l.map key).Nodup) {a : α} (ha : a ∈ l) (f : ι → β) :
    l.foldl (fun f a => Function.update f (key a) (g a (f (key a)))) f (key a) =
      g a (f (key a)) := by
  induction l generalizing f with
  | nil => cases ha
  | cons b l ih =>
      rw [List.map_cons, List.nodup_cons] at hl
      rw [List.foldl_cons]
      rcases List.mem_cons.mp ha with rfl | ha
      · rw [foldl_update_of_not_mem key g hl.1, Function.update_self]
      · have hne : key a ≠ key b := fun he => hl.1 (he ▸ List.mem_map_of_mem ha)
        rw [ih hl.2 ha, Function.update_of_ne hne]

end Tables
