import Mathlib.Tactic.Common
import Mathlib.Data.Nat.Bitwise

/-!
# The two-level page walk of a 32-bit processor

A linear address is translated by a directory of 1024 entries.  An entry with
the page-size bit maps a page of 4 MB, and only its bits 31 to 22 count as the
base; any other present entry leads to a table of 1024 entries that map pages
of 4 kB.  User code may use an address if all entries on the way say so.

Entries are built from an aligned base and a word of flags by a bitwise or;
`entry_bit`, `entry_frame` and `entry_largeFrame` take them apart again.
-/

namespace PageWalk

/-- Bit 0 of an entry. -/
def present (e : Nat) : Bool := e.testBit 0

/-- Bit 2 of an entry. -/
def user (e : Nat) : Bool := e.testBit 2

/-- Bit 7 of a directory entry: it maps a page of 4 MB. -/
def large (e : Nat) : Bool := e.testBit 7

/-- Where an address is mapped to, and whether user code may use it. -/
structure Mapping where
  physical : Nat
  user : Bool
deriving DecidableEq, Repr

/-- The second level of the walk, from a directory entry that does not map a page itself. -/
def walkTable (pde pte a : Nat) : Option Mapping :=
  if present pte then some ⟨pte / 2 ^ 12 * 2 ^ 12 + a % 2 ^ 12, user pde && user pte⟩ else none

/-- The walk; `table base` are the entries of the page table at the physical address `base`. -/
def translate (directory : Nat → Nat) (table : Nat → Nat → Nat) (a : Nat) : Option Mapping :=
  if present (directory (a / 2 ^ 22)) then
    if large (directory (a / 2 ^ 22)) then
      some ⟨directory (a / 2 ^ 22) / 2 ^ 22 * 2 ^ 22 + a % 2 ^ 22,
        user (directory (a / 2 ^ 22))⟩
    else
      walkTable (directory (a / 2 ^ 22))
        (table (directory (a / 2 ^ 22) / 2 ^ 12 * 2 ^ 12) (a / 2 ^ 12 % 2 ^ 10)) a
  else none

/-! ## Entries -/

section Entries

variable {base flags : Nat} (hbase : 2 ^ 12 ∣ base)
include hbase

/-- The flag bits of an entry are those of the word of flags. -/
theorem entry_bit {i : Nat} (hi : i < 12) : (base ||| flags).testBit i = flags.testBit i := by
  obtain ⟨c, rfl⟩ := hbase
  rw [Nat.testBit_or, Nat.testBit_two_pow_mul]
  simp [show ¬ 12 ≤ i by omega]

theorem entry_eq_add (hflags : flags < 2 ^ 12) : base ||| flags = base + flags := by
  obtain ⟨c, rfl⟩ := hbase
  exact (Nat.two_pow_add_eq_or_of_lt hflags c).symm

theorem entry_frame (hflags : flags < 2 ^ 12) : (base ||| flags) / 2 ^ 12 * 2 ^ 12 = base := by
  rw [entry_eq_add hbase hflags]
  omega

theorem entry_largeFrame (hflags : flags < 2 ^ 12) :
    (base ||| flags) / 2 ^ 22 * 2 ^ 22 = base / 2 ^ 22 * 2 ^ 22 := by
  rw [entry_eq_add hbase hflags]
  omega

theorem present_entry : present (base ||| flags) = flags.testBit 0 :=
  entry_bit hbase (by decide)

theorem user_entry : user (base ||| flags) = flags.testBit 2 :=
  entry_bit hbase (by decide)

theorem large_entry : large (base ||| flags) = flags.testBit 7 :=
  entry_bit hbase (by decide)

end Entries

/-! ## The walk through an entry -/

section Walk

variable {directory : Nat → Nat} {table : Nat → Nat → Nat} {a base flags : Nat}

/-- The directory entry is not present. -/
theorem translate_absent (h : present (directory (a / 2 ^ 22)) = false) :
    translate directory table a = none := by
  rw [translate, h]
  rfl

/-- The directory entry maps a page of 4 MB. -/
theorem translate_large (hentry : directory (a / 2 ^ 22) = base ||| flags)
    (hbase : 2 ^ 12 ∣ base) (hflags : flags < 2 ^ 12) (hpresent : flags.testBit 0 = true)
    (hlarge : flags.testBit 7 = true) :
    translate directory table a =
      some ⟨base / 2 ^ 22 * 2 ^ 22 + a % 2 ^ 22, flags.testBit 2⟩ := by
  rw [translate, hentry, present_entry hbase, large_entry hbase, hpresent, hlarge,
    entry_largeFrame hbase hflags, user_entry hbase]
  rfl

/-- The directory entry leads to the page table at `base`. -/
theorem translate_table (hentry : directory (a / 2 ^ 22) = base ||| flags)
    (hbase : 2 ^ 12 ∣ base) (hflags : flags < 2 ^ 12) (hpresent : flags.testBit 0 = true)
    (hlarge : flags.testBit 7 = false) :
    translate directory table a =
      walkTable (base ||| flags) (table base (a / 2 ^ 12 % 2 ^ 10)) a := by
  rw [translate, hentry, present_entry hbase, large_entry hbase, hpresent, hlarge,
    entry_frame hbase hflags]
  rfl

end Walk

end PageWalk
