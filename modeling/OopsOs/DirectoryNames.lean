import OopsOs.NameLookup
import Mathlib.Data.List.GetD

/-!
# A name read from the directory is found again

`directory_read` copies the 32 bytes of a name field, with zeros after the name,
and a name may fill all of them.  A caller that puts a NUL behind these 32 bytes
has the name as a string, and `read_dentry_by_name` looks it up: it stops at the
first slot that bears the name, which is the one it was read from, because the
names of the recorded entries differ.
-/

namespace OopsOs

open ByteMem

/-- `read_dentry_by_index`: its result and its stores into the caller's `dentry`. -/
def dentryByIndex (fs : Mem) (index : Int) : Int × Stores :=
  match readDentryByIndex fs index with
  | none => (-1, [])
  | some _ => (0, copyOut fs 0 (64 + 64 * index) 64)

/-- The caller's buffer after `directory_read`, with a NUL put behind the name field. -/
def terminatedBuffer (buf : Mem) (stores : Stores) : Mem := (buf.storeAll stores).store 32 0

/-- The string in a buffer of 33 bytes. -/
def bufferText (buf : Mem) : List UInt8 := textFrom (fun j => buf (j : Int)) 0 33

/-- The recorded names are not empty, and no two of them are the same. -/
structure DistinctNames (fs : Mem) (n : Nat) : Prop where
  nonempty : ∀ i, i < n → entryName fs i ≠ []
  distinct : ∀ i j, i < n → j < n → entryName fs i = entryName fs j → i = j

/-! ## The padded copy -/

theorem nameStores_eq_blockStores (name : Fin 32 → UInt8) :
    nameStores name = blockStores 0 (fun i =>
      if h : i < 32 then (if ∀ j : Fin 32, j.val ≤ i → name j ≠ 0 then name ⟨i, h⟩ else 0)
      else 0) 32 := by
  unfold nameStores blockStores
  rw [← List.map_coe_finRange_eq_range, List.map_map]
  apply List.map_congr_left
  intro i _
  simp only [Function.comp_apply, dif_pos i.isLt, zero_add]
  rfl

theorem entryName_getD (fs : Mem) (i : Nat) {j : Nat} (hj : j < 32) :
    (entryName fs i).getD j 0 =
      if ∀ m : Fin 32, m.val ≤ j → (dentryAt fs i).name m ≠ 0 then (dentryAt fs i).name ⟨j, hj⟩
      else 0 := by
  unfold entryName
  rw [getD_textFrom]
  have hcond : (j < 32 ∧ ∀ m, m ≤ j → fs (64 + 64 * (i : Int) + ((0 + m : Nat) : Int)) ≠ 0) ↔
      ∀ m : Fin 32, m.val ≤ j → (dentryAt fs i).name m ≠ 0 := by
    constructor
    · rintro ⟨-, hall⟩ m hm
      have := hall m.val hm
      rwa [Nat.zero_add] at this
    · intro hall
      refine ⟨hj, ?_⟩
      intro m hm
      rw [Nat.zero_add]
      exact hall ⟨m, by omega⟩ hm
  refine if_congr hcond ?_ rfl
  rw [Nat.zero_add]
  rfl

/-- The string that the caller has is the name of the entry. -/
theorem bufferText_nameStores (buf fs : Mem) (i : Nat) :
    bufferText (terminatedBuffer buf (nameStores (dentryAt fs i).name)) = entryName fs i := by
  have hlen : (entryName fs i).length ≤ 32 := length_textFrom_le _ 0 32
  apply textFrom_eq _ _ 0 33 (by omega)
  · intro c hc
    exact ne_zero_of_mem_textFrom hc
  · intro j hj
    rw [Nat.zero_add]
    unfold terminatedBuffer
    rw [Mem.store_apply]
    by_cases hlast : j = 32
    · rw [if_pos (by omega), List.getD_eq_default _ _ (by omega)]
    · have hj' : j < 32 := by omega
      rw [if_neg (by omega), nameStores_eq_blockStores, Mem.storeAll_blockStores,
        if_pos (by omega), entryName_getD fs i hj']
      have hidx : ((j : Int) - 0).toNat = j := by omega
      rw [hidx, dif_pos hj']

/-! ## The lookup -/

theorem dentryByIndex_eq (fs : Mem) {i : Nat} (hi : i ≤ 16) :
    dentryByIndex fs i = (0, copyOut fs 0 (64 + 64 * i) 64) := by
  unfold dentryByIndex readDentryByIndex
  rw [if_neg (by omega)]

theorem dentryByIndex_succeeds_iff (fs : Mem) (i : Nat) :
    (dentryByIndex fs i).1 = 0 ↔ i ≤ 16 := by
  by_cases hi : i ≤ 16
  · rw [dentryByIndex_eq fs hi]
    exact iff_of_true rfl hi
  · refine iff_of_false ?_ hi
    unfold dentryByIndex readDentryByIndex
    rw [if_pos (by omega)]
    exact Int.neg_ne_zero.mpr one_ne_zero

/-- An entry is the first slot that bears its name if the entries before it bear others. -/
theorem readDentryByName_entryName {fs : Mem} {i : Nat} (hi : i < 64)
    (hbefore : ∀ j, j < i → entryName fs j ≠ entryName fs i) :
    readDentryByName fs (entryName fs i) = some i := by
  apply (readDentryByName_eq_some_iff (fun c hc => ne_zero_of_mem_textFrom hc)
    (length_textFrom_le _ 0 32) i).mpr
  refine ⟨⟨hi, rfl⟩, ?_⟩
  rintro j ⟨-, hname⟩
  by_contra hlt
  exact hbefore j (not_le.mp hlt) hname

theorem directoryRead_delivers {k : Kernel} {pid : Fin 6} {fd : Fin 8} {i : Nat} (hi : i ≤ 16)
    (hpos : (descriptor k pid fd).filePos.toNat = i) :
    (directoryRead k pid fd).outcome = .returned 32 ∧
      (directoryRead k pid fd).stores = nameStores (dentryAt k.fs i).name := by
  have hentry : readDentryByIndex k.fs ((descriptor k pid fd).filePos.toNat : Int) =
      some (dentryAt k.fs i) := by
    rw [hpos, readDentryByIndex, if_neg (by omega), Int.toNat_natCast]
  unfold directoryRead
  simp only [hentry]
  exact ⟨trivial, trivial⟩

/--
The name that `directory_read` delivers at position `i`, for an index that
`read_dentry_by_index` accepts, is found by `read_dentry_by_name`, which copies
out the same entry.
-/
theorem lookups_agree (k : Kernel) (pid : Fin 6) (fd : Fin 8) (n i : Nat) (buf : Mem)
    (hcount : (n : Int) = numDirEntries k.fs) (hnames : DistinctNames k.fs n) (hi : i < n)
    (hindex : (dentryByIndex k.fs i).1 = 0)
    (hpos : (descriptor k pid fd).filePos.toNat = i) :
    (directoryRead k pid fd).outcome = .returned 32 ∧
      dentryByName k.fs
        (bufferText (terminatedBuffer buf (directoryRead k pid fd).stores)) =
          dentryByIndex k.fs i := by
  have hsmall := (dentryByIndex_succeeds_iff k.fs i).mp hindex
  obtain ⟨hout, hstores⟩ := directoryRead_delivers hsmall hpos
  refine ⟨hout, ?_⟩
  have hfind : readDentryByName k.fs (entryName k.fs i) = some i := by
    apply readDentryByName_entryName (by omega)
    intro j hj hname
    have := hnames.distinct j i (by omega) hi hname
    omega
  rw [hstores, bufferText_nameStores, dentryByName_some hfind, dentryByIndex_eq k.fs hsmall]

/-- An image with two names: 31 times and 32 times the letter `a`. -/
def fullNameImage : Mem := fun a =>
  if a = 0 then 2
  else if (64 ≤ a ∧ a < 95) ∨ (128 ≤ a ∧ a < 160) then 0x61
  else 0

theorem fullNameImage_names : DistinctNames fullNameImage 2 := by
  have hfirst : entryName fullNameImage 0 = List.replicate 31 0x61 := by decide +kernel
  have hsecond : entryName fullNameImage 1 = List.replicate 32 0x61 := by decide +kernel
  have hcases : ∀ i, i < 2 → i = 0 ∨ i = 1 := by omega
  constructor
  · intro i hi
    rcases hcases i hi with rfl | rfl
    · rw [hfirst]
      simp
    · rw [hsecond]
      simp
  · intro i j hi hj hname
    have hlen := congrArg List.length hname
    rcases hcases i hi with rfl | rfl <;> rcases hcases j hj with rfl | rfl
    · rfl
    · simp [hfirst, hsecond] at hlen
    · simp [hfirst, hsecond] at hlen
    · rfl

/-- Process 0 has read the first of the two names. -/
def listedOne : Kernel :=
  setDescriptor (Kernel.zero (fun _ => 0) fullNameImage) 0 2 ⟨.directoryTable, 0, 1, 1⟩

/-- The name that fills its field is found, not the shorter one before it. -/
theorem lookups_agree_full_name :
    (2 : Int) = numDirEntries listedOne.fs ∧
      dentryByName listedOne.fs (bufferText
        (terminatedBuffer (fun _ => 0xFF) (directoryRead listedOne 0 2).stores)) =
          (0, copyOut listedOne.fs 0 128 64) := by
  have hcount : ((2 : Nat) : Int) = numDirEntries listedOne.fs := by decide +kernel
  refine ⟨hcount, ?_⟩
  have hagree := (lookups_agree listedOne 0 2 2 1 (fun _ => 0xFF) hcount fullNameImage_names
    (by decide) ((dentryByIndex_succeeds_iff _ 1).mpr (by decide)) (by decide +kernel)).2
  rw [hagree, dentryByIndex_eq _ (by decide)]
  rfl

end OopsOs
