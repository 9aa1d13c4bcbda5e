import Mathlib.Data.List.Pairwise
import Mathlib.Order.Basic
import Mathlib.Tactic.Common

/-!
# A pair of 8259A interrupt controllers

The controller has eight lines, a mask, and a register of the lines whose
interrupts are in service.  A line of its own is let through if it is not
masked and no line of the same or of a higher priority is in service; line 0
has the highest priority.  The second controller of a pair hangs on line 2 of
the first one.

`Chip.command` and `Chip.data` are the writes to the two ports.  Of the
command words there are the one that starts the initialisation and the one
that ends the interrupt of a given line; all others leave the chip as it is
here.

`InService` ties the registers to the list of the interrupts that have been
taken and not ended: they are nested by priority, and at most one of them has
come through the slave.
-/

namespace Pic8259

/-- The initialisation words that the data port still waits for. -/
inductive Awaited
  | vectors
  | cascade
  | mode
deriving DecidableEq, Repr

structure Chip where
  mask : BitVec 8
  inService : BitVec 8
  vectors : BitVec 8
  awaited : List Awaited
deriving DecidableEq, Repr

namespace Chip

/-- The end of the interrupt on line `i`. -/
def endOf (c : Chip) (i : Nat) : Chip := { c with inService := c.inService &&& ~~~(1#8 <<< i) }

/-- A write to the command port: the first initialisation word, or a specific end of interrupt. -/
def command (c : Chip) (v : BitVec 8) : Chip :=
  if v.getLsbD 4 = true then
    { c with
      mask := 0
      inService := 0
      awaited := .vectors :: ((if v.getLsbD 1 = true then [] else [.cascade]) ++
        (if v.getLsbD 0 = true then [.mode] else [])) }
  else if v.extractLsb' 3 5 = 0b01100 then c.endOf (v.extractLsb' 0 3).toNat
  else c

/-- A write to the data port: the initialisation word it waits for, or the mask. -/
def data (c : Chip) (v : BitVec 8) : Chip :=
  match c.awaited with
  | [] => { c with mask := v }
  | .vectors :: rest => { c with vectors := v &&& 0xF8, awaited := rest }
  | _ :: rest => { c with awaited := rest }

/-- Line `i` gets through the mask and the priorities. -/
def LetsThrough (c : Chip) (i : Nat) : Prop :=
  c.awaited = [] ∧ c.mask.getLsbD i = false ∧ ∀ j, j ≤ i → c.inService.getLsbD j = false

/-- The processor takes the interrupt on line `i`. -/
def acknowledge (c : Chip) (i : Nat) : Chip := { c with inService := c.inService ||| (1#8 <<< i) }

/-- The vector that goes with line `i`. -/
def vector (c : Chip) (i : Nat) : BitVec 8 := c.vectors ||| BitVec.ofNat 8 i

theorem getLsbD_line {i : Nat} (hi : i < 8) (j : Nat) :
    (1#8 <<< i).getLsbD j = decide (j = i) := by
  rw [BitVec.getLsbD_shiftLeft, BitVec.getLsbD_one]
  by_cases hj : j = i
  · subst hj
    simp [hi]
  · simp [hj]
    omega

theorem inService_acknowledge (c : Chip) {i : Nat} (hi : i < 8) (j : Nat) :
    (c.acknowledge i).inService.getLsbD j = true ↔ j = i ∨ c.inService.getLsbD j = true := by
  simp only [acknowledge, BitVec.getLsbD_or, getLsbD_line hi, Bool.or_eq_true, decide_eq_true_eq]
  exact or_comm

theorem inService_endOf (c : Chip) {i : Nat} (hi : i < 8) (j : Nat) :
    (c.endOf i).inService.getLsbD j = true ↔ j ≠ i ∧ c.inService.getLsbD j = true := by
  simp only [endOf, BitVec.getLsbD_and, BitVec.getLsbD_not, getLsbD_line hi]
  by_cases hj : j < 8
  · simp [hj, and_comm]
  · simp [BitVec.getLsbD_of_ge c.inService j (by omega)]

end Chip

/-- The two controllers; the slave is on line 2 of the master. -/
structure Pair where
  master : Chip
  slave : Chip
deriving DecidableEq, Repr

namespace Pair

/-- A write to one of the four ports. -/
def out (p : Pair) (v : BitVec 8) : Nat → Pair
  | 0x20 => { p with master := p.master.command v }
  | 0x21 => { p with master := p.master.data v }
  | 0xA0 => { p with slave := p.slave.command v }
  | 0xA1 => { p with slave := p.slave.data v }
  | _ => p

/-- The master's line that line `n` of the pair comes in on. -/
def level (n : Fin 16) : Nat := if n.val < 8 then n.val else 2

/-- The interrupt of a device on line `n` gets to the processor. -/
def LetsThrough (p : Pair) (n : Fin 16) : Prop :=
  n.val ≠ 2 ∧ p.master.LetsThrough (level n) ∧ (8 ≤ n.val → p.slave.LetsThrough (n.val - 8))

def acknowledge (p : Pair) (n : Fin 16) : Pair where
  master := p.master.acknowledge (level n)
  slave := if n.val < 8 then p.slave else p.slave.acknowledge (n.val - 8)

def vector (p : Pair) (n : Fin 16) : BitVec 8 :=
  if n.val < 8 then p.master.vector n.val else p.slave.vector (n.val - 8)

/-- The end of the interrupt on line `n`, on both controllers if it came through the slave. -/
def endOf (p : Pair) (n : Fin 16) : Pair where
  master := p.master.endOf (level n)
  slave := if n.val < 8 then p.slave else p.slave.endOf (n.val - 8)

theorem level_lt (n : Fin 16) : level n < 8 := by
  unfold level
  split_ifs <;> omega

/-- The registers hold the interrupts that have been taken and not ended. -/
structure InService (p : Pair) (opened : List (Fin 16)) : Prop where
  master : ∀ j, p.master.inService.getLsbD j = true ↔ ∃ n ∈ opened, level n = j
  slave : ∀ j, p.slave.inService.getLsbD j = true ↔ ∃ n ∈ opened, n.val = j + 8
  nested : opened.Pairwise (fun n m => level n < level m)

section InService

variable {p : Pair} {opened : List (Fin 16)} (h : InService p opened)
include h

/-- What is let through is more urgent than all that is open. -/
theorem InService.level_lt_of_letsThrough {n : Fin 16} (hlets : p.LetsThrough n) :
    ∀ m ∈ opened, level n < level m := by
  intro m hm
  by_contra hle
  have hset := (h.master (level m)).mpr ⟨m, hm, rfl⟩
  rw [hlets.2.1.2.2 (level m) (Nat.not_lt.mp hle)] at hset
  cases hset

/-- Two open interrupts are not of the same level. -/
theorem InService.level_ne {n m : Fin 16} (hn : n ∈ opened) (hm : m ∈ opened) (hne : n ≠ m) :
    level n ≠ level m := by
  have hsymm : Std.Symm (fun n m : Fin 16 => level n ≠ level m) := ⟨fun _ _ hxy => hxy.symm⟩
  have hne' : opened.Pairwise (fun n m => level n ≠ level m) :=
    h.nested.imp (fun hlt => Nat.ne_of_lt hlt)
  exact hne'.forall hn hm hne

theorem InService.nodup : opened.Nodup := by
  refine h.nested.imp ?_
  rintro n m hlt rfl
  exact Nat.lt_irrefl _ hlt

/-- A line gets through if it is not masked and more urgent than all that is open. -/
theorem InService.letsThrough_iff (hmaster : p.master.awaited = [])
    (hslave : p.slave.awaited = []) (n : Fin 16) :
    p.LetsThrough n ↔ n.val ≠ 2 ∧ p.master.mask.getLsbD (level n) = false ∧
      (8 ≤ n.val → p.slave.mask.getLsbD (n.val - 8) = false) ∧
      ∀ m ∈ opened, level n < level m := by
  constructor
  · intro hlets
    exact ⟨hlets.1, hlets.2.1.2.1, fun h8 => (hlets.2.2 h8).2.1, h.level_lt_of_letsThrough hlets⟩
  · rintro ⟨hne, hmask, hsmask, hlt⟩
    refine ⟨hne, ⟨hmaster, hmask, ?_⟩, fun h8 => ⟨hslave, hsmask h8, ?_⟩⟩
    · intro j hj
      by_contra hset
      obtain ⟨m, hm, rfl⟩ := (h.master j).mp (Bool.not_eq_false _ ▸ hset)
      exact absurd (hlt m hm) (Nat.not_lt.mpr hj)
    · intro j hj
      by_contra hset
      obtain ⟨m, hm, hval⟩ := (h.slave j).mp (Bool.not_eq_false _ ▸ hset)
      have hless := hlt m hm
      -- both come through the slave, so they are of one level
      rw [level, level, if_neg (by omega), if_neg (by omega)] at hless
      exact Nat.lt_irrefl _ hless

theorem InService.acknowledge {n : Fin 16} (hlets : p.LetsThrough n) :
    InService (p.acknowledge n) (n :: opened) := by
  refine ⟨?_, ?_, List.pairwise_cons.mpr ⟨h.level_lt_of_letsThrough hlets, h.nested⟩⟩
  · intro j
    simp only [Pair.acknowledge, Chip.inService_acknowledge _ (level_lt n), h.master,
      List.mem_cons, exists_eq_or_imp]
    exact or_congr eq_comm Iff.rfl
  · intro j
    simp only [Pair.acknowledge, List.mem_cons, exists_eq_or_imp]
    split_ifs with h8
    · rw [h.slave]
      exact ⟨Or.inr, fun hor => hor.resolve_left (by omega)⟩
    · rw [Chip.inService_acknowledge _ (by omega), h.slave]
      exact or_congr (by omega) Iff.rfl

theorem InService.endOf {n : Fin 16} (hn : n ∈ opened) :
    InService (p.endOf n) (opened.erase n) := by
  have hmem : ∀ m, m ∈ opened.erase n ↔ m ≠ n ∧ m ∈ opened := fun m => h.nodup.mem_erase_iff
  refine ⟨?_, ?_, h.nested.sublist List.erase_sublist⟩
  · intro j
    simp only [Pair.endOf, Chip.inService_endOf _ (level_lt n), h.master, hmem]
    constructor
    · rintro ⟨hj, m, hm, rfl⟩
      exact ⟨m, ⟨fun he => hj (congrArg level he), hm⟩, rfl⟩
    · rintro ⟨m, ⟨hne, hm⟩, rfl⟩
      exact ⟨h.level_ne hm hn hne, m, hm, rfl⟩
  · intro j
    simp only [Pair.endOf, hmem]
    split_ifs with h8
    · rw [h.slave]
      constructor
      · rintro ⟨m, hm, hval⟩
        exact ⟨m, ⟨by omega, hm⟩, hval⟩
      · rintro ⟨m, ⟨-, hm⟩, hval⟩
        exact ⟨m, hm, hval⟩
    · rw [Chip.inService_endOf _ (by omega), h.slave]
      constructor
      · rintro ⟨hj, m, hm, hval⟩
        exact ⟨m, ⟨by omega, hm⟩, hval⟩
      · rintro ⟨m, ⟨hne, hm⟩, hval⟩
        exact ⟨by omega, m, hm, hval⟩

end InService

end Pair

end Pic8259
