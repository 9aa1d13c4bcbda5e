import OopsOs.ReadBounds
import OopsOs.FileSessions

/-!
# The file position of `file_read`, for every size argument

A size that is not negative is cut to the file, and the position moves by what
is read.  A negative one passes the signed comparison with the file size and
is then a length from `2^31` on.  Whether `read_data` cuts it depends on the
sum of length and position, which wraps exactly if the position is at least as
large as the size is below zero.
-/

namespace OopsOs

open ByteMem

/-- Descriptor `fd` is open on the regular file of entry `i`, at a position in the file. -/
structure OpenRegular (k : Kernel) (pid : Fin 6) (fd : Fin 8) (i : Nat) : Prop where
  wellFormed : WellFormed k.fs
  regular : RegularFile k.fs i
  flags : (descriptor k pid fd).flags = 1
  table : (descriptor k pid fd).descriptorOpPtr = .fileTable
  inode : (descriptor k pid fd).inodeNum = UInt32.ofInt (dentryAt k.fs i).inodeNum
  position : ((descriptor k pid fd).filePos.toNat : Int) ≤ fileSize k.fs (dentryAt k.fs i).inodeNum

/--
The call fails and leaves the position, or it returns a number of bytes that
the file still has, stores exactly these bytes and moves the position by that
number.
-/
def PositionKept (k : Kernel) (pid : Fin 6) (fd : Fin 8) (i : Nat) (r : ReadCall) : Prop :=
  (r.outcome = .returned (-1) ∧
    (descriptor r.kernel pid fd).filePos = (descriptor k pid fd).filePos) ∨
  ∃ v : Int, r.outcome = .returned v ∧ 0 ≤ v ∧
    v ≤ fileSize k.fs (dentryAt k.fs i).inodeNum - (descriptor k pid fd).filePos.toNat ∧
    r.stores = sliceStores k.fs (dentryAt k.fs i).inodeNum (descriptor k pid fd).filePos.toNat
      v.toNat ∧
    ((descriptor r.kernel pid fd).filePos.toNat : Int) = (descriptor k pid fd).filePos.toNat + v

/-- A negative size is less than the file size, and is passed on as a length from `2^31` on. -/
theorem fileRequest_of_negative {size nbytes : Int} (hsize : 0 ≤ size)
    (hmin : -2147483648 ≤ nbytes) (hneg : nbytes < 0) :
    fileRequest size nbytes = 4294967296 + nbytes := by
  unfold fileRequest toU32
  rw [if_neg (by omega)]
  omega

namespace OpenRegular

variable {k : Kernel} {pid : Fin 6} {fd : Fin 8} {i buf : Nat} {nbytes : Int}
variable (h : OpenRegular k pid fd i)
include h

theorem inode_range :
    0 ≤ (dentryAt k.fs i).inodeNum ∧ (dentryAt k.fs i).inodeNum < 2147483648 := by
  obtain ⟨h0, h1⟩ := h.wellFormed.inodes i h.regular.1
  have hnodes : numIndexNodes k.fs < 2147483648 := by
    unfold numIndexNodes int32At
    exact BitVec.toInt_lt
  omega

theorem size_range : 0 ≤ fileSize k.fs (dentryAt k.fs i).inodeNum ∧
    fileSize k.fs (dentryAt k.fs i).inodeNum ≤ 1023 * 4096 := by
  obtain ⟨h0, h1⟩ := h.wellFormed.inodes i h.regular.1
  exact (h.wellFormed.fileInImage h0 h1).size

theorem inode_signed :
    toS32 ((descriptor k pid fd).inodeNum.toNat : Int) = (dentryAt k.fs i).inodeNum := by
  obtain ⟨h0, h1⟩ := h.inode_range
  rw [h.inode, toNat_ofInt_of_lt h0 (by omega), toS32_of_small (by omega) h1]

/-- A read that returns the next `n` bytes of the file. -/
theorem positionKept_of_slice {n : Int} (hbuf : buf ≠ 0)
    (hdata : readData k.fs (toU32 (dentryAt k.fs i).inodeNum)
      ((descriptor k pid fd).filePos.toNat : Int)
      (fileRequest (fileSize k.fs (dentryAt k.fs i).inodeNum) nbytes) =
        some (n, sliceStores k.fs (dentryAt k.fs i).inodeNum
          (descriptor k pid fd).filePos.toNat n.toNat))
    (h0 : 0 ≤ n)
    (h1 : n ≤ fileSize k.fs (dentryAt k.fs i).inodeNum - (descriptor k pid fd).filePos.toNat)
    (hzero : n = 0 → ((descriptor k pid fd).filePos.toNat : Int) =
      fileSize k.fs (dentryAt k.fs i).inodeNum) :
    PositionKept k pid fd i (fileRead k pid fd buf nbytes) := by
  obtain ⟨hs0, hs1⟩ := h.size_range
  have hfix : n = if toU32 (fileSize k.fs (dentryAt k.fs i).inodeNum) >
      ((descriptor k pid fd).filePos.toNat : Int) ∧ n = 0 then nbytes else n := by
    rw [toU32_of_nonneg hs0 (by omega), if_neg]
    rintro ⟨hlt, hn⟩
    have := hzero hn
    omega
  rw [fileRead_eq_of_readData nbytes hbuf h.flags h.table h.inode_signed hdata hfix]
  right
  refine ⟨n, rfl, h0, h1, rfl, ?_⟩
  simp only [descriptor_setDescriptor_self]
  exact toNat_ofInt_of_lt (by omega) (by omega)

/-- A negative size below the position: the length is far past the end and is cut. -/
theorem positionKept_of_far (hbuf : buf ≠ 0) (hmin : -2147483648 ≤ nbytes)
    (hfar : ((descriptor k pid fd).filePos.toNat : Int) < -nbytes) :
    PositionKept k pid fd i (fileRead k pid fd buf nbytes) := by
  obtain ⟨hi0, hi1⟩ := h.inode_range
  obtain ⟨hs0, hs1⟩ := h.size_range
  have hpos := h.position
  have hrequest := fileRequest_of_negative h.size_range.1 hmin (by omega)
  have hdata := readData_eq k.fs (dentryAt k.fs i).inodeNum (descriptor k pid fd).filePos.toNat
    (4294967296 + nbytes) h.size_range (by omega) (by omega) (by omega)
  have hrest : min (4294967296 + nbytes) (fileSize k.fs (dentryAt k.fs i).inodeNum -
      (descriptor k pid fd).filePos.toNat) = fileSize k.fs (dentryAt k.fs i).inodeNum -
      (descriptor k pid fd).filePos.toNat := by
    omega
  rw [hrest, max_eq_right (by omega)] at hdata
  apply h.positionKept_of_slice hbuf
  · rw [hrequest, toU32_of_nonneg hi0 (by omega)]
    exact hdata
  · omega
  · exact le_refl _
  · intro hzero
    omega

/-- At the end of the file nothing is read, whatever the size. -/
theorem positionKept_of_end (hbuf : buf ≠ 0)
    (hend : ((descriptor k pid fd).filePos.toNat : Int) =
      fileSize k.fs (dentryAt k.fs i).inodeNum) :
    PositionKept k pid fd i (fileRead k pid fd buf nbytes) := by
  obtain ⟨hs0, hs1⟩ := h.size_range
  apply h.positionKept_of_slice (n := 0) hbuf
  · unfold readData
    simp only [fileSize_toU32]
    rw [toU32_of_nonneg hs0 (by omega), if_pos (by omega)]
    rfl
  · exact le_refl 0
  · omega
  · exact fun _ => hend

/-- The sum of length and position wraps, and the result is the negative size. -/
theorem fileRead_wraps (hbuf : buf ≠ 0) (hmin : -2147483648 ≤ nbytes) (hneg : nbytes < 0)
    (hnear : -nbytes ≤ ((descriptor k pid fd).filePos.toNat : Int))
    (hbefore : ((descriptor k pid fd).filePos.toNat : Int) <
      fileSize k.fs (dentryAt k.fs i).inodeNum) :
    (fileRead k pid fd buf nbytes).outcome = .returned nbytes ∧
      ((descriptor (fileRead k pid fd buf nbytes).kernel pid fd).filePos.toNat : Int) =
        (descriptor k pid fd).filePos.toNat + nbytes := by
  obtain ⟨hs0, hs1⟩ := h.size_range
  have hrequest := fileRequest_of_negative h.size_range.1 hmin (by omega)
  have hlength : readLength (fileSize k.fs (dentryAt k.fs i).inodeNum)
      (descriptor k pid fd).filePos.toNat (4294967296 + nbytes) = 4294967296 + nbytes := by
    unfold readLength toU32
    rw [if_neg (by omega)]
  have hsigned : toS32 (4294967296 + nbytes) = nbytes := by
    unfold toS32
    rw [if_neg (by omega)]
    omega
  obtain ⟨stores, hdata, -⟩ := readData_covers k.fs (toU32 (dentryAt k.fs i).inodeNum)
    (descriptor k pid fd).filePos.toNat (4294967296 + nbytes)
    (by rw [fileSize_toU32, toU32_of_nonneg hs0 (by omega)]; exact hbefore) (by omega) (by omega)
  rw [fileSize_toU32, hlength, hsigned, ← hrequest] at hdata
  rw [fileRead_eq_of_readData nbytes hbuf h.flags h.table h.inode_signed hdata
    (if_neg (by omega)).symm]
  refine ⟨rfl, ?_⟩
  simp only [descriptor_setDescriptor_self]
  exact toNat_ofInt_of_lt (by omega) (by omega)

end OpenRegular

/--
`file_read` keeps the position within the file exactly if the size is not
negative, or it is below zero by more than the position, or there is nothing
to read.
-/
theorem fileRead_positionKept_iff {k : Kernel} {pid : Fin 6} {fd : Fin 8} {i : Nat}
    (h : OpenRegular k pid fd i) (buf : Nat) (nbytes : Int) (hmin : -2147483648 ≤ nbytes)
    (hmax : nbytes < 2147483648) :
    PositionKept k pid fd i (fileRead k pid fd buf nbytes) ↔
      buf = 0 ∨ 0 ≤ nbytes ∨ ((descriptor k pid fd).filePos.toNat : Int) < -nbytes ∨
        ((descriptor k pid fd).filePos.toNat : Int) =
          fileSize k.fs (dentryAt k.fs i).inodeNum := by
  have hpos := h.position
  by_cases hbuf : buf = 0
  · refine iff_of_true ?_ (.inl hbuf)
    left
    unfold fileRead
    simp only
    rw [if_pos hbuf]
    simp [descriptor]
  by_cases hnonneg : 0 ≤ nbytes
  · refine iff_of_true ?_ (.inr (.inl hnonneg))
    obtain ⟨hi0, hi1⟩ := h.inode_range
    obtain ⟨hout, hstores, hnew⟩ := fileRead_regular k pid fd buf nbytes _ hbuf hnonneg hmax h.flags
      h.table h.inode hi0 hi1 h.size_range hpos
    right
    exact ⟨_, hout, by omega, min_le_right _ _, hstores, hnew⟩
  by_cases hfar : ((descriptor k pid fd).filePos.toNat : Int) < -nbytes
  · exact iff_of_true (h.positionKept_of_far hbuf hmin hfar) (.inr (.inr (.inl hfar)))
  by_cases hend : ((descriptor k pid fd).filePos.toNat : Int) =
      fileSize k.fs (dentryAt k.fs i).inodeNum
  · exact iff_of_true (h.positionKept_of_end hbuf hend) (.inr (.inr (.inr hend)))
  · refine iff_of_false ?_ (by omega)
    obtain ⟨hout, hnew⟩ := h.fileRead_wraps hbuf hmin (by omega) (by omega) (by omega)
    rintro (⟨-, hsame⟩ | ⟨v, hv, h0, -⟩)
    · rw [hsame] at hnew
      omega
    · rw [hout] at hv
      have hvn : nbytes = v := Outcome.returned.inj hv
      omega

/-- Process 0 has the file of three bytes open as descriptor 2, at position 1. -/
def openAtOne : Kernel :=
  setDescriptor (Kernel.zero (fun _ => 0) oneFileImage) 0 2 ⟨.fileTable, 0, 1, 1⟩

theorem openAtOne_regular : OpenRegular openAtOne 0 2 0 where
  wellFormed := oneFileImage_wellFormed
  regular := by
    unfold RegularFile
    decide +kernel
  flags := by decide +kernel
  table := by decide +kernel
  inode := by decide +kernel
  position := by decide +kernel

/-- A size of -2 reads the rest of the file. -/
theorem fileRead_positionKept_iff_minus_two :
    OpenRegular openAtOne 0 2 0 ∧
      PositionKept openAtOne 0 2 0 (fileRead openAtOne 0 2 1 (-2)) := by
  refine ⟨openAtOne_regular, ?_⟩
  apply (fileRead_positionKept_iff openAtOne_regular 1 (-2) (by decide) (by decide)).mpr
  right
  right
  left
  decide +kernel

/--
A size of -1 returns -1 and moves the position back by one.  The copy of 2^32 - 1
bytes before that is unbounded here; the machine has a page fault in it.
-/
theorem minus_one_moves_back :
    OpenRegular openAtOne 0 2 0 ∧
      (fileRead openAtOne 0 2 1 (-1)).outcome = .returned (-1) ∧
      (descriptor (fileRead openAtOne 0 2 1 (-1)).kernel 0 2).filePos.toNat = 0 ∧
      ¬ PositionKept openAtOne 0 2 0 (fileRead openAtOne 0 2 1 (-1)) := by
  have hpos : (descriptor openAtOne 0 2).filePos.toNat = 1 := by decide +kernel
  have hsize : fileSize openAtOne.fs (dentryAt openAtOne.fs 0).inodeNum = 3 := by decide +kernel
  have hone : (1 : Nat) ≠ 0 := by decide
  obtain ⟨hout, hnew⟩ := openAtOne_regular.fileRead_wraps hone (show -2147483648 ≤ (-1 : Int) by decide)
    (by decide) (by omega) (by omega)
  refine ⟨openAtOne_regular, hout, by omega, ?_⟩
  rintro (⟨-, hsame⟩ | ⟨v, hv, h0, -⟩)
  · rw [hsame] at hnew
    omega
  · rw [hout] at hv
    have hvn : -1 = v := Outcome.returned.inj hv
    omega

end OopsOs
