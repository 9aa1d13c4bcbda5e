import OopsOs.NameLookup
import OopsOs.ReadBounds
import OopsOs.Processes

/-!
# Which files are executed, and where they are loaded

`check_valid` is to accept executables only.  It joins the four comparisons
with the magic number by `&&`, so that one byte that agrees is enough.

`execute` copies an accepted file to `PROGRAM_IMAGE_OFFSET`, whatever its size;
the page that it has mapped there ends `0x3B8000` bytes further up.
-/

namespace OopsOs

open ByteMem

/-! ## The first four bytes of a file -/

theorem storedByte_eq_storeAll (stores : Stores) (j : Int) :
    storedByte stores j = Mem.storeAll (fun _ => 0) stores j := by
  have hgen : ∀ (stores : Stores) (m : Mem),
      stores.foldl (fun b st => if st.1 = j then st.2 else b) (m j) = m.storeAll stores j := by
    intro stores
    induction stores with
    | nil =>
        intro m
        rfl
    | cons st rest ih =>
        intro m
        rw [List.foldl_cons, Mem.storeAll, ← ih (m.store st.1 st.2), Mem.store_apply]
        simp only [eq_comm]
  exact hgen stores (fun _ => 0)

/-- `read_data` of the first four bytes, on any index node. -/
theorem readData_first_four (fs : Mem) (inode : Int) :
    readData fs inode 0 4 =
      some (min 4 (toU32 (fileSize fs inode)),
        sliceStores fs inode 0 (min 4 (toU32 (fileSize fs inode))).toNat) := by
  have hwrap : toU32 (toS32 (fileSize fs inode - 0)) = toU32 (fileSize fs inode) := by
    unfold toU32 toS32
    split_ifs <;> omega
  have hnonneg : 0 ≤ toU32 (fileSize fs inode) := by
    unfold toU32
    omega
  obtain ⟨n, hn⟩ : ∃ n : Nat, (n : Int) = min 4 (toU32 (fileSize fs inode)) :=
    ⟨(min 4 (toU32 (fileSize fs inode))).toNat, by omega⟩
  rw [← hn, Int.toNat_natCast]
  unfold readData
  simp only
  rw [hwrap]
  by_cases hempty : toU32 (fileSize fs inode) ≤ 0
  · have hzero : n = 0 := by omega
    rw [if_pos hempty, hzero]
    rfl
  · have hclamp : (if toU32 (4 + 0) > toU32 (fileSize fs inode) then toU32 (fileSize fs inode)
        else 4) = (n : Int) := by
      have hfour : toU32 (4 + 0) = 4 := by decide
      rw [hn, hfour]
      split_ifs <;> omega
    rw [if_neg hempty, hclamp]
    exact readDataLoop_eq fs inode _ 0 n (by omega) readDataFuel 0 0 0 (by omega) (by omega)
      (by omega) (by omega) (by unfold readDataFuel; omega)

/-! ## `check_valid` -/

/-- `DELETE`, `E`, `L`, `F`. -/
def magicNumber : List UInt8 := [0x7F, 0x45, 0x4C, 0x46]

/-- Byte `j` of the file in slot `i` is that of the magic number. -/
def HasMagicByte (fs : Mem) (i j : Nat) : Prop :=
  fileByte fs (toU32 (dentryAt fs i).inodeNum) j = magicNumber.getD j 0

instance (fs : Mem) (i j : Nat) : Decidable (HasMagicByte fs i j) :=
  inferInstanceAs (Decidable (_ = _))

/-- None of the first four bytes is that of the magic number. -/
def NoMagicByte (fs : Mem) (i : Nat) : Prop := ∀ j, j < 4 → ¬ HasMagicByte fs i j

instance (fs : Mem) (i : Nat) : Decidable (NoMagicByte fs i) :=
  inferInstanceAs (Decidable (∀ j, j < 4 → ¬ HasMagicByte fs i j))

/-- The file in slot `i` starts with the magic number. -/
def Executable (fs : Mem) (i : Nat) : Prop :=
  4 ≤ fileSize fs (dentryAt fs i).inodeNum ∧ ∀ j, j < 4 → HasMagicByte fs i j

theorem checkValid_none {fs : Mem} {fname : List UInt8} (h : readDentryByName fs fname = none) :
    checkValid fs fname = -1 := by
  unfold checkValid
  rw [h]

theorem storedByte_slice_four (fs : Mem) (inode : Int) (j : Nat) (hj : j < 4) :
    storedByte (sliceStores fs inode 0 4) j = fileByte fs inode j := by
  rw [storedByte_eq_storeAll, storeAll_sliceStores, if_pos (by omega), zero_add]

/-- The test of `check_valid` on the four bytes in its buffer. -/
theorem noMagicByte_iff (fs : Mem) (i : Nat) {buf : Stores}
    (hbuf : buf = sliceStores fs (toU32 (dentryAt fs i).inodeNum) 0 4) :
    (storedByte buf 0 ≠ 0x7F ∧ storedByte buf 1 ≠ 0x45 ∧ storedByte buf 2 ≠ 0x4C ∧
      storedByte buf 3 ≠ 0x46) ↔ NoMagicByte fs i := by
  subst hbuf
  have hbyte := storedByte_slice_four fs (toU32 (dentryAt fs i).inodeNum)
  have h0 := hbyte 0 (by decide)
  have h1 := hbyte 1 (by decide)
  have h2 := hbyte 2 (by decide)
  have h3 := hbyte 3 (by decide)
  constructor
  · rintro ⟨hne0, hne1, hne2, hne3⟩ j hj
    interval_cases j
    · exact fun hm => hne0 (h0.trans hm)
    · exact fun hm => hne1 (h1.trans hm)
    · exact fun hm => hne2 (h2.trans hm)
    · exact fun hm => hne3 (h3.trans hm)
  · intro hno
    refine ⟨?_, ?_, ?_, ?_⟩
    · exact fun hm => hno 0 (by decide) (h0.symm.trans hm)
    · exact fun hm => hno 1 (by decide) (h1.symm.trans hm)
    · exact fun hm => hno 2 (by decide) (h2.symm.trans hm)
    · exact fun hm => hno 3 (by decide) (h3.symm.trans hm)

/-- `check_valid` once the lookup has found slot `i`. -/
theorem checkValid_some {fs : Mem} {fname : List UInt8} {i : Nat}
    (h : readDentryByName fs fname = some i) :
    checkValid fs fname =
      if toU32 (fileSize fs (dentryAt fs i).inodeNum) < 4 ∨ NoMagicByte fs i then -1
      else (dentryAt fs i).inodeNum := by
  unfold checkValid
  rw [h]
  simp only [readData_first_four, fileSize_toU32]
  by_cases hshort : toU32 (fileSize fs (dentryAt fs i).inodeNum) < 4
  · rw [if_pos (by omega), if_pos (Or.inl hshort)]
  · have hfour : min 4 (toU32 (fileSize fs (dentryAt fs i).inodeNum)) = 4 := by omega
    have hcount : (4 : Int).toNat = 4 := rfl
    rw [hfour, if_neg (by omega), hcount]
    simp only [noMagicByte_iff fs i rfl, hshort, false_or]

/-! ## Only executables are executed -/

/-- The entry that the directory of `n` entries has under a name. -/
def IsNamed (fs : Mem) (n : Nat) (fname : List UInt8) (i : Nat) : Prop :=
  IsLeast {m | m < n ∧ entryName fs m = fname} i

/-- What `check_valid`, and `execute` by it, are to do with a name. -/
structure OnlyExecutables (fs : Mem) (n : Nat) (fname : List UInt8) : Prop where
  accepts : ∀ i, IsNamed fs n fname i → Executable fs i →
    checkValid fs fname = (dentryAt fs i).inodeNum
  refuses : (∀ i, IsNamed fs n fname i → ¬ Executable fs i) → checkValid fs fname = -1 ∧
    ∀ (k : Kernel) (cmd : List UInt8) (saved : Context), k.fs = fs → (parse cmd).1 = fname →
      (execute k cmd saved).2 = none

/--
The file in the slot that the lookup finds is told apart by one byte.  That
of a recorded entry is too short, or agrees with the magic number in all of
its first four bytes or in none.  A slot that is not recorded must not pass.
-/
def ToldByOneByte (fs : Mem) (n : Nat) (fname : List UInt8) : Prop :=
  ∀ i, readDentryByName fs fname = some i →
    if i < n then
      fileSize fs (dentryAt fs i).inodeNum < 4 ∨ NoMagicByte fs i ∨
        ∀ j, j < 4 → HasMagicByte fs i j
    else
      toU32 (fileSize fs (dentryAt fs i).inodeNum) < 4 ∨ NoMagicByte fs i ∨
        (dentryAt fs i).inodeNum = -1

section Check

variable {fs : Mem} {n : Nat} {fname : List UInt8}

/-- A name that `check_valid` refuses starts no process. -/
theorem execute_of_refused (h : checkValid fs fname = -1) (k : Kernel) (cmd : List UInt8)
    (saved : Context) (hfs : k.fs = fs) (hname : (parse cmd).1 = fname) :
    (execute k cmd saved).2 = none := by
  rcases execute_cases k cmd saved with ⟨-, text, hexec⟩ | ⟨pid, hvalid, -, -⟩
  · rw [hexec]
  · rw [hfs, hname] at hvalid
    exact absurd h hvalid

theorem IsNamed.unique {i j : Nat} (hi : IsNamed fs n fname i) (hj : IsNamed fs n fname j) :
    i = j :=
  IsLeast.unique hi hj

theorem not_isNamed_of_none (hnul : ∀ c ∈ fname, c ≠ 0) (hn : n ≤ 63)
    (h : readDentryByName fs fname = none) (i : Nat) : ¬ IsNamed fs n fname i := by
  rintro ⟨⟨hi, hname⟩, -⟩
  have hlen : fname.length ≤ 32 := hname ▸ length_textFrom_le _ 0 32
  exact (readDentryByName_eq_none_iff hnul hlen).mp h i (by omega) hname

/-- The entry the lookup finds is the named one if it is recorded, and else there is none. -/
theorem isNamed_iff_of_some (hnul : ∀ c ∈ fname, c ≠ 0) (hn : n ≤ 63) {i : Nat}
    (h : readDentryByName fs fname = some i) (m : Nat) : IsNamed fs n fname m ↔ m = i ∧ i < n := by
  have hlen : fname.length ≤ 32 := by
    by_contra hlong
    rw [readDentryByName_of_long hnul (by omega) fs] at h
    cases h
  have hleast := (readDentryByName_eq_some_iff hnul hlen i).mp h
  constructor
  · intro hm
    have hi := isLeast_recorded hn hleast ⟨m, hm.1⟩
    exact ⟨IsNamed.unique hm hi, hi.1.1⟩
  · rintro ⟨rfl, hlt⟩
    exact isLeast_recorded hn hleast ⟨m, hlt, hleast.1.2⟩

theorem onlyExecutables_of_refused (hno : ∀ i, IsNamed fs n fname i → ¬ Executable fs i)
    (h : checkValid fs fname = -1) : OnlyExecutables fs n fname :=
  ⟨fun i hi hexe => absurd hexe (hno i hi), fun _ => ⟨h, execute_of_refused h⟩⟩

/-- The recorded case: the two sides differ if some but not all four bytes agree. -/
theorem onlyExecutables_recorded (hnul : ∀ c ∈ fname, c ≠ 0) (hn : n ≤ 63) {i : Nat}
    (h : readDentryByName fs fname = some i) (hi : i < n)
    (hsize : 0 ≤ fileSize fs (dentryAt fs i).inodeNum)
    (hinode : 0 ≤ (dentryAt fs i).inodeNum) :
    OnlyExecutables fs n fname ↔
      (fileSize fs (dentryAt fs i).inodeNum < 4 ∨ NoMagicByte fs i ∨
        ∀ j, j < 4 → HasMagicByte fs i j) := by
  have hnamed := isNamed_iff_of_some hnul hn h
  obtain ⟨-, hmax⟩ := fileSize_range fs (dentryAt fs i).inodeNum
  have hvalue := checkValid_some h
  rw [toU32_of_nonneg hsize (by omega)] at hvalue
  by_cases hrefused : fileSize fs (dentryAt fs i).inodeNum < 4 ∨ NoMagicByte fs i
  · rw [if_pos hrefused] at hvalue
    refine iff_of_true (onlyExecutables_of_refused ?_ hvalue) ?_
    · rintro m hm ⟨hfour, hmagic⟩
      obtain ⟨rfl, -⟩ := (hnamed m).mp hm
      rcases hrefused with hshort | hno
      · omega
      · exact hno 0 (by decide) (hmagic 0 (by decide))
    · exact hrefused.imp_right Or.inl
  · rw [if_neg hrefused] at hvalue
    have hfour : 4 ≤ fileSize fs (dentryAt fs i).inodeNum := by
      by_contra hshort
      exact hrefused (Or.inl (by omega))
    constructor
    · intro hP
      by_contra hpartial
      have hnotexe : ∀ m, IsNamed fs n fname m → ¬ Executable fs m := by
        rintro m hm ⟨-, hmagic⟩
        obtain ⟨rfl, -⟩ := (hnamed m).mp hm
        exact hpartial (Or.inr (Or.inr hmagic))
      have hminus := (hP.refuses hnotexe).1
      omega
    · intro hcond
      have hmagic : ∀ j, j < 4 → HasMagicByte fs i j := by
        rcases hcond with hshort | hno | hmagic
        · exact absurd (Or.inl hshort) hrefused
        · exact absurd (Or.inr hno) hrefused
        · exact hmagic
      constructor
      · intro m hm _
        obtain ⟨rfl, -⟩ := (hnamed m).mp hm
        exact hvalue
      · intro hnone
        exact absurd ⟨hfour, hmagic⟩ (hnone i ((hnamed i).mpr ⟨rfl, hi⟩))

/-- The stray case: no entry has the name, so the answer is to be -1. -/
theorem onlyExecutables_stray (hnul : ∀ c ∈ fname, c ≠ 0) (hn : n ≤ 63) {i : Nat}
    (h : readDentryByName fs fname = some i) (hi : n ≤ i) :
    OnlyExecutables fs n fname ↔
      (toU32 (fileSize fs (dentryAt fs i).inodeNum) < 4 ∨ NoMagicByte fs i ∨
        (dentryAt fs i).inodeNum = -1) := by
  have hno : ∀ m, IsNamed fs n fname m → ¬ Executable fs m := by
    intro m hm
    have := ((isNamed_iff_of_some hnul hn h m).mp hm).2
    omega
  have hvalue := checkValid_some h
  constructor
  · intro hP
    have hminus := (hP.refuses hno).1
    by_cases hrefused : toU32 (fileSize fs (dentryAt fs i).inodeNum) < 4 ∨ NoMagicByte fs i
    · exact hrefused.imp_right Or.inl
    · rw [if_neg hrefused, hminus] at hvalue
      exact Or.inr (Or.inr hvalue.symm)
  · intro hcond
    apply onlyExecutables_of_refused hno
    rw [hvalue]
    split_ifs with hrefused
    · rfl
    · rcases hcond with hshort | hnone | hminus
      · exact absurd (Or.inl hshort) hrefused
      · exact absurd (Or.inr hnone) hrefused
      · exact hminus

/-- Only executables are executed, exactly if one byte tells them apart. -/
theorem onlyExecutables_iff_toldByOneByte (hwf : WellFormed fs)
    (hcount : (n : Int) = numDirEntries fs) (hn : n ≤ 63) (hnul : ∀ c ∈ fname, c ≠ 0) :
    OnlyExecutables fs n fname ↔ ToldByOneByte fs n fname := by
  cases hfind : readDentryByName fs fname with
  | none =>
      refine iff_of_true (onlyExecutables_of_refused ?_ (checkValid_none hfind)) ?_
      · intro i hi
        exact absurd hi (not_isNamed_of_none hnul hn hfind i)
      · intro i h
        rw [hfind] at h
        cases h
  | some i =>
      have htold : ToldByOneByte fs n fname ↔
          if i < n then
            fileSize fs (dentryAt fs i).inodeNum < 4 ∨ NoMagicByte fs i ∨
              ∀ j, j < 4 → HasMagicByte fs i j
          else
            toU32 (fileSize fs (dentryAt fs i).inodeNum) < 4 ∨ NoMagicByte fs i ∨
              (dentryAt fs i).inodeNum = -1 := by
        constructor
        · intro h
          exact h i hfind
        · intro h m hm
          rw [hfind] at hm
          cases hm
          exact h
      rw [htold]
      split_ifs with hi
      · obtain ⟨h0, h1⟩ := hwf.inodes i (by omega)
        exact onlyExecutables_recorded hnul hn hfind hi (hwf.sizes _ h0 h1).1 h0
      · exact onlyExecutables_stray hnul hn hfind (by omega)

end Check

theorem shellImage_wellFormed : WellFormed shellImage := by
  apply wellFormed_of_one_file (by decide +kernel) (by decide +kernel) (by decide +kernel)
  exact fileInImage_of_one_block (by decide +kernel) (by decide +kernel) (by decide +kernel)

/-- The file `shell` starts with all four bytes of the magic number. -/
theorem onlyExecutables_iff_toldByOneByte_shell :
    (1 : Int) = numDirEntries shellImage ∧ OnlyExecutables shellImage 1 shellCommand := by
  have hcount : ((1 : Nat) : Int) = numDirEntries shellImage := by decide +kernel
  have hfind : readDentryByName shellImage shellCommand = some 0 := by decide +kernel
  refine ⟨hcount, (onlyExecutables_iff_toldByOneByte shellImage_wellFormed hcount (by decide)
    (by simp [shellCommand])).mpr ?_⟩
  intro i hi
  rw [hfind] at hi
  cases hi
  right
  right
  decide +kernel

/-- An image with one file, `a`, of the text `HELLO`. -/
def helloImage : Mem := fun a =>
  if a = 0 ∨ a = 4 ∨ a = 8 then 1
  else if a = 64 then 0x61
  else if a = 96 then 2
  else if a = 4096 then 5
  else if 8192 ≤ a ∧ a < 8197 then [0x48, 0x45, 0x4C, 0x4C, 0x4F].getD (a - 8192).toNat 0
  else 0

theorem helloImage_wellFormed : WellFormed helloImage := by
  apply wellFormed_of_one_file (by decide +kernel) (by decide +kernel) (by decide +kernel)
  exact fileInImage_of_one_block (by decide +kernel) (by decide +kernel) (by decide +kernel)

/-- The text has the second and the third byte of the magic number, and is accepted. -/
theorem hello_text_accepted :
    WellFormed helloImage ∧ (1 : Int) = numDirEntries helloImage ∧
      checkValid helloImage [0x61] = 0 ∧ ¬ OnlyExecutables helloImage 1 [0x61] := by
  have hvalue : checkValid helloImage [0x61] = 0 := by decide +kernel
  have hfind : readDentryByName helloImage [0x61] = some 0 := by decide +kernel
  have hfirst : ¬ HasMagicByte helloImage 0 0 := by decide +kernel
  refine ⟨helloImage_wellFormed, by decide +kernel, hvalue, ?_⟩
  intro h
  have hno : ∀ i, IsNamed helloImage 1 [0x61] i → ¬ Executable helloImage i := by
    rintro i hi ⟨-, hmagic⟩
    obtain ⟨rfl, -⟩ := (isNamed_iff_of_some (by simp) (by decide) hfind i).mp hi
    exact hfirst (hmagic 0 (by decide))
  have hminus := (h.refuses hno).1
  omega

/-! ## Loading the image -/

def programImageOffset : Int := 0x08048000

/-- The stores of the first `read_data` of `execute`, by address. -/
def loadStores (fs : Mem) (inode : Int) : Option Stores :=
  (readData fs (toU32 inode) 0 (toU32 (fileSize fs inode))).map (fun r =>
    r.2.map (fun st => (programImageOffset + st.1, st.2)))

/-- The whole image goes into the part of the program page above the load address. -/
def LoadsInPage (fs : Mem) (inode : Int) : Prop :=
  ∃ stores, loadStores fs inode = some stores ∧
    ∀ st ∈ stores, 0x08048000 ≤ st.1 ∧ st.1 < 0x08400000

/-- The load writes as many bytes as the file has, from the load address on. -/
theorem readData_whole (fs : Mem) (inode : Int) :
    ∃ r stores, readData fs (toU32 inode) 0 (toU32 (fileSize fs inode)) = some (r, stores) ∧
      Covers stores (toU32 (fileSize fs inode)).toNat := by
  have hrange : 0 ≤ toU32 (fileSize fs inode) ∧ toU32 (fileSize fs inode) < 4294967296 := by
    unfold toU32
    omega
  by_cases hempty : toU32 (fileSize fs inode) ≤ 0
  · have hzero : (toU32 (fileSize fs inode)).toNat = 0 := by omega
    refine ⟨0, [], ?_, hzero ▸ Covers.nil⟩
    unfold readData
    simp only [fileSize_toU32]
    rw [if_pos hempty]
  · have hlength : readLength (fileSize fs inode) 0 (toU32 (fileSize fs inode)) =
        toU32 (fileSize fs inode) := by
      have hsum : toU32 (toU32 (fileSize fs inode) + 0) = toU32 (fileSize fs inode) := by
        rw [add_zero, toU32_of_nonneg hrange.1 hrange.2]
      unfold readLength
      rw [hsum, if_neg (lt_irrefl _)]
    obtain ⟨stores, hread, hcov⟩ := readData_covers fs (toU32 inode) 0 (toU32 (fileSize fs inode))
      (by rw [fileSize_toU32]; omega) hrange.1 hrange.2
    rw [fileSize_toU32, hlength] at hcov
    exact ⟨_, stores, hread, hcov⟩

/-- The addresses that the load writes: as many as the file has bytes. -/
theorem loadStores_addresses (fs : Mem) (inode : Int) :
    ∃ stores, loadStores fs inode = some stores ∧
      ∀ a : Int, a ∈ stores.map Prod.fst ↔
        programImageOffset ≤ a ∧ a < programImageOffset + toU32 (fileSize fs inode) := by
  obtain ⟨r, stores, hread, hcov⟩ := readData_whole fs inode
  refine ⟨stores.map (fun st => (programImageOffset + st.1, st.2)), ?_, ?_⟩
  · unfold loadStores
    rw [hread]
    rfl
  · intro a
    have hfst : (stores.map (fun st => (programImageOffset + st.1, st.2))).map Prod.fst =
        (stores.map Prod.fst).map (fun z => programImageOffset + z) := by
      rw [List.map_map, List.map_map]
      rfl
    rw [hfst, hcov, List.map_map, List.mem_map]
    constructor
    · rintro ⟨i, hi, rfl⟩
      have := List.mem_range.mp hi
      simp only [Function.comp_apply]
      omega
    · rintro ⟨hlo, hhi⟩
      refine ⟨(a - programImageOffset).toNat, List.mem_range.mpr (by omega), ?_⟩
      simp only [Function.comp_apply]
      omega

/-- The page has room for `0x3B8000` bytes above the load address. -/
theorem loadsInPage_iff (fs : Mem) (inode : Int) :
    LoadsInPage fs inode ↔ toU32 (fileSize fs inode) ≤ 0x3B8000 := by
  obtain ⟨stores, hload, haddr⟩ := loadStores_addresses fs inode
  have hoffset : programImageOffset = 0x08048000 := rfl
  unfold LoadsInPage
  rw [hload]
  constructor
  · rintro ⟨stores', hsome, hall⟩
    cases hsome
    by_contra hbig
    -- a larger file reaches the first byte of the next page
    obtain ⟨st, hst, hfst⟩ := List.mem_map.mp ((haddr 0x08400000).mpr ⟨by omega, by omega⟩)
    have := (hall st hst).2
    omega
  · intro hsize
    refine ⟨stores, rfl, ?_⟩
    intro st hst
    have := (haddr st.1).mp (List.mem_map_of_mem hst)
    omega

/-- The image of `shell`, with a size of one byte more than the page has room for. -/
def largeImage : Mem := fun a =>
  if a = 4096 then 0x01 else if a = 4097 then 0x80 else if a = 4098 then 0x3B else shellImage a

theorem largeImage_zero (a : Int) (hlo : 4100 ≤ a) (hhi : a < 8192) : largeImage a = 0 := by
  unfold largeImage shellImage
  simp only [show a ≠ 4096 by omega, show a ≠ 4097 by omega, show a ≠ 4098 by omega,
    show a ≠ 0 by omega, show a ≠ 4 by omega, show a ≠ 8 by omega, show a ≠ 96 by omega,
    show ¬ (64 ≤ a ∧ a < 69) by omega, show ¬ (8192 ≤ a ∧ a < 8196) by omega, or_self, if_false]

theorem largeImage_wellFormed : WellFormed largeImage := by
  have hsize : fileSize largeImage 0 = 0x3B8001 := by decide +kernel
  have hblocks : numDataBlocks largeImage = 1 := by decide +kernel
  apply wellFormed_of_one_file (by decide +kernel) (by decide +kernel) (by decide +kernel)
  constructor
  · rw [hsize]
    decide
  · intro j h0 h1
    rw [hsize] at h1
    have hblock : dataBlock largeImage 0 j = 0 := by
      have hnode : indexNode 0 = 4096 := by decide
      apply int32At_eq_zero
      intro b hlo hhi
      rw [hnode] at hlo hhi
      exact largeImage_zero b (by omega) (by omega)
    rw [hblock, hblocks]
    decide

/-- A file that `check_valid` accepts and that does not fit into its page. -/
theorem large_file_overruns_page :
    WellFormed largeImage ∧ checkValid largeImage shellCommand = 0 ∧
      ¬ LoadsInPage largeImage (checkValid largeImage shellCommand) := by
  have hvalue : checkValid largeImage shellCommand = 0 := by decide +kernel
  have hsize : toU32 (fileSize largeImage 0) = 0x3B8001 := by decide +kernel
  refine ⟨largeImage_wellFormed, hvalue, ?_⟩
  rw [hvalue]
  obtain ⟨stores, hload, haddr⟩ := loadStores_addresses largeImage 0
  rintro ⟨stores', hsome, hall⟩
  rw [hload] at hsome
  cases hsome
  obtain ⟨st, hst, hfst⟩ := List.mem_map.mp ((haddr 0x08400000).mpr
    ⟨by decide, by rw [hsize]; decide⟩)
  have := (hall st hst).2
  omega

end OopsOs
