import OopsOs.FileSessions
import OopsOs.Lib.Buffers

/-!
# `read_data` delivers the slice it is asked for

`readData_eq` gives the stores of `read_data`.  Here they are carried out on
the caller's buffer: the buffer shows the bytes of the file, each of which
lies in a data block of the image, and is unchanged from the count on.
-/

namespace OopsOs

open ByteMem

/-- The address of byte `j` of a file. -/
def fileAddress (fs : Mem) (inode j : Int) : Int := blockAddr fs inode (j / 4096) + j % 4096

/-- The addresses of the image's data blocks. -/
def InDataBlocks (fs : Mem) (a : Int) : Prop :=
  4096 * (numIndexNodes fs + 1) ≤ a ∧ a < 4096 * (numIndexNodes fs + 1 + numDataBlocks fs)

theorem fileAddress_inDataBlocks {fs : Mem} {inode j : Int} (h : FileInImage fs inode)
    (h0 : 0 ≤ j) (h1 : j < fileSize fs inode) : InDataBlocks fs (fileAddress fs inode j) := by
  obtain ⟨hlo, hhi⟩ := h.blocks (j / 4096) (by omega) (by omega)
  unfold InDataBlocks fileAddress blockAddr
  constructor
  · omega
  · omega

theorem sliceStores_eq_blockStores (fs : Mem) (inode pos : Int) (n : Nat) :
    sliceStores fs inode pos n =
      blockStores 0 (fun i => fileByte fs inode (pos + (i : Int))) n := by
  simp [sliceStores, blockStores]

/-- The buffer after the stores of a slice. -/
theorem storeAll_sliceStores (buf fs : Mem) (inode pos : Int) (n : Nat) (j : Int) :
    buf.storeAll (sliceStores fs inode pos n) j =
      if 0 ≤ j ∧ j < n then fileByte fs inode (pos + j) else buf j := by
  rw [sliceStores_eq_blockStores, Mem.storeAll_blockStores, zero_add]
  split_ifs with hj
  · have hcast : (((j - 0).toNat : Nat) : Int) = j := by omega
    rw [hcast]
  · rfl

/--
`read_data` on a file that lies in the image.  Past the end it returns 0 and
stores nothing; before the end it returns the smaller of the length and what
is left, the buffer shows these bytes of the file, and no store goes further.
-/
theorem readData_returns_slice (fs buf : Mem) (inode offset length : Int)
    (hfile : FileInImage fs inode) (hoffset : 0 ≤ offset) (hlength : 0 ≤ length)
    (hsum : offset + length < 4294967296) :
    ∃ (r : Int) (stores : Stores), readData fs inode offset length = some (r, stores) ∧
      (fileSize fs inode ≤ offset → r = 0 ∧ stores = []) ∧
      (offset < fileSize fs inode →
        r = min length (fileSize fs inode - offset) ∧
        (∀ j, 0 ≤ j → j < r →
          buf.storeAll stores j = fileByte fs inode (offset + j) ∧
          InDataBlocks fs (fileAddress fs inode (offset + j))) ∧
        (∀ st ∈ stores, 0 ≤ st.1 ∧ st.1 < r)) := by
  obtain ⟨n, hn⟩ : ∃ n : Nat, n = (min length (fileSize fs inode - offset)).toNat := ⟨_, rfl⟩
  refine ⟨_, _, readData_eq fs inode offset length hfile.size hoffset hlength hsum, ?_, ?_⟩
  · intro hend
    have hzero : (min length (fileSize fs inode - offset)).toNat = 0 := by omega
    rw [hzero]
    exact ⟨by omega, rfl⟩
  · intro hbefore
    have hmax : max 0 (min length (fileSize fs inode - offset)) = n := by omega
    rw [← hn, hmax]
    refine ⟨by omega, ?_, ?_⟩
    · intro j h0 h1
      rw [storeAll_sliceStores, if_pos ⟨h0, h1⟩]
      exact ⟨rfl, fileAddress_inDataBlocks hfile (by omega) (by omega)⟩
    · intro st hst
      rw [sliceStores_eq_blockStores] at hst
      simpa using mem_blockStores hst

/-- An image with one file of 4098 bytes, in block 1 and then in block 0. -/
def twoBlockImage : Mem := fun a =>
  if a = 0 ∨ a = 4 then 1
  else if a = 8 then 2
  else if a = 64 then 0x61
  else if a = 96 then 2
  else if a = 4096 then 0x02
  else if a = 4097 then 0x10
  else if a = 4100 then 1
  else if a = 16382 then 0x77
  else if a = 16383 then 0x78
  else if a = 8192 then 0x79
  else if a = 8193 then 0x7A
  else 0

theorem twoBlockImage_file : FileInImage twoBlockImage 0 := by
  have hsize : fileSize twoBlockImage 0 = 4098 := by decide +kernel
  have hblocks : numDataBlocks twoBlockImage = 2 := by decide +kernel
  constructor
  · rw [hsize]
    decide
  · intro j h0 h1
    have hj : j = 0 ∨ j = 1 := by omega
    rw [hblocks]
    rcases hj with rfl | rfl
    · decide +kernel
    · decide +kernel

/-- A read of ten bytes from position 4094 crosses into the second block and stops at the end. -/
theorem readData_returns_slice_across_blocks :
    ∃ stores, readData twoBlockImage 0 4094 10 = some (4, stores) ∧
      Mem.storeAll (fun _ => 0) stores 1 = 0x78 ∧ Mem.storeAll (fun _ => 0) stores 2 = 0x79 ∧
      ∀ st ∈ stores, 0 ≤ st.1 ∧ st.1 < 4 := by
  have hsize : fileSize twoBlockImage 0 = 4098 := by decide +kernel
  obtain ⟨r, stores, hread, -, hbefore⟩ := readData_returns_slice twoBlockImage (fun _ => 0) 0 4094
    10 twoBlockImage_file (by decide) (by decide) (by decide)
  obtain ⟨hr, hbytes, hstores⟩ := hbefore (by omega)
  have hr4 : r = 4 := by omega
  subst hr4
  refine ⟨stores, hread, ?_, ?_, hstores⟩
  · rw [(hbytes 1 (by decide) (by decide)).1]
    decide +kernel
  · rw [(hbytes 2 (by decide) (by decide)).1]
    decide +kernel

end OopsOs
