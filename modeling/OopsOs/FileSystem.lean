import OopsOs.Kernel

/-!
# The read-only file system

The image is addressed from the boot block.  Directory entries of 64 bytes
start at offset 64, index nodes and data blocks are 4096 bytes each.  Nothing
separates these structures from each other, so that an index past the end of
one of them reads the next, as in the source.

Values of type `int` and `uint32_t` are integers; `toS32` and `toU32` are the
conversions between the two types.

A function that fills a caller's buffer returns the list of its stores, in
order, as offsets from the buffer pointer.  `readData_eq` is the
specification of `read_data`: its stores are exactly the bytes of the slice.
-/

namespace OopsOs

open ByteMem

/-- Conversion to `uint32_t`. -/
def toU32 (z : Int) : Int := z % 4294967296

/-- Conversion to `int`. -/
def toS32 (z : Int) : Int :=
  if z % 4294967296 < 2147483648 then z % 4294967296 else z % 4294967296 - 4294967296

theorem toU32_of_nonneg {z : Int} (h0 : 0 ≤ z) (h1 : z < 4294967296) : toU32 z = z := by
  unfold toU32
  omega

theorem toS32_of_small {z : Int} (h0 : -2147483648 ≤ z) (h1 : z < 2147483648) : toS32 z = z := by
  unfold toS32
  split_ifs <;> omega

/-- The `int` at address `a`, least significant byte first. -/
def int32At (m : Mem) (a : Int) : Int :=
  ((m (a + 3)).toBitVec ++ (m (a + 2)).toBitVec ++ (m (a + 1)).toBitVec ++ (m a).toBitVec).toInt

theorem int32At_eq_zero {m : Mem} {a : Int} (h : ∀ b, a ≤ b → b < a + 4 → m b = 0) :
    int32At m a = 0 := by
  unfold int32At
  rw [h a (by omega) (by omega), h (a + 1) (by omega) (by omega), h (a + 2) (by omega) (by omega),
    h (a + 3) (by omega) (by omega)]
  rfl

/-! ## Layout of the image -/

/-- `dentry_t` without the reserved words. -/
structure Dentry where
  name : Fin 32 → UInt8
  type : Int
  inodeNum : Int

def numDirEntries (fs : Mem) : Int := int32At fs 0
def numIndexNodes (fs : Mem) : Int := int32At fs 4
def numDataBlocks (fs : Mem) : Int := int32At fs 8

/-- `g_directory_entries[i]`. -/
def dentryAt (fs : Mem) (i : Nat) : Dentry :=
  { name := fun j => fs (64 + 64 * i + j.val)
    type := int32At fs (64 + 64 * i + 32)
    inodeNum := int32At fs (64 + 64 * i + 36) }

/-- The address `g_index_nodes + inode`; addresses wrap at 32 bits. -/
def indexNode (inode : Int) : Int := toU32 (4096 * (inode + 1))

/-- `g_index_nodes[inode].file_size`. -/
def fileSize (fs : Mem) (inode : Int) : Int := int32At fs (indexNode inode)

/-- `g_index_nodes[inode].data_block[j]`. -/
def dataBlock (fs : Mem) (inode j : Int) : Int := int32At fs (indexNode inode + 4 + 4 * j)

/-- Where `read_data` finds block `j` of a file. -/
def blockAddr (fs : Mem) (inode j : Int) : Int :=
  4096 * (numIndexNodes fs + 1) + dataBlock fs inode j * 4096

/-- Byte `j` of a file. -/
def fileByte (fs : Mem) (inode j : Int) : UInt8 :=
  fs (blockAddr fs inode (j / 4096) + j % 4096)

/--
An image as `createfs` lays it out: recorded directory entries name existing
index nodes, file sizes fit the 1023 block numbers of an index node, and the
block numbers that cover a file name existing blocks.
-/
structure WellFormed (fs : Mem) : Prop where
  inodes : ∀ i : Nat, (i : Int) < numDirEntries fs →
    0 ≤ (dentryAt fs i).inodeNum ∧ (dentryAt fs i).inodeNum < numIndexNodes fs
  sizes : ∀ inode : Int, 0 ≤ inode → inode < numIndexNodes fs →
    0 ≤ fileSize fs inode ∧ fileSize fs inode ≤ 1023 * 4096
  blocks : ∀ inode j : Int, 0 ≤ inode → inode < numIndexNodes fs →
    0 ≤ j → j * 4096 < fileSize fs inode →
    0 ≤ dataBlock fs inode j ∧ dataBlock fs inode j < numDataBlocks fs

/-- The file of an index node lies in the image: its size and the blocks that cover it. -/
structure FileInImage (fs : Mem) (inode : Int) : Prop where
  size : 0 ≤ fileSize fs inode ∧ fileSize fs inode ≤ 1023 * 4096
  blocks : ∀ j : Int, 0 ≤ j → j * 4096 < fileSize fs inode →
    0 ≤ dataBlock fs inode j ∧ dataBlock fs inode j < numDataBlocks fs

theorem WellFormed.fileInImage {fs : Mem} (h : WellFormed fs) {inode : Int} (h0 : 0 ≤ inode)
    (h1 : inode < numIndexNodes fs) : FileInImage fs inode where
  size := h.sizes inode h0 h1
  blocks := fun j => h.blocks inode j h0 h1

/-- A file of at most one block. -/
theorem fileInImage_of_one_block {fs : Mem} {inode : Int} (h0 : 0 ≤ fileSize fs inode)
    (h1 : fileSize fs inode ≤ 4096)
    (hblock : 0 ≤ dataBlock fs inode 0 ∧ dataBlock fs inode 0 < numDataBlocks fs) :
    FileInImage fs inode := by
  refine ⟨⟨h0, by omega⟩, ?_⟩
  intro j hj0 hj
  have hj' : j = 0 := by omega
  subst hj'
  exact hblock

/-- An image with one file in index node 0. -/
theorem wellFormed_of_one_file {fs : Mem} (hentries : numDirEntries fs = 1)
    (hnodes : numIndexNodes fs = 1) (hinode : (dentryAt fs 0).inodeNum = 0)
    (hfile : FileInImage fs 0) : WellFormed fs := by
  refine ⟨?_, ?_, ?_⟩
  · intro i hi
    have hi0 : i = 0 := by omega
    subst hi0
    rw [hinode, hnodes]
    decide
  · intro inode h0 h1
    have hinode0 : inode = 0 := by omega
    subst hinode0
    exact hfile.size
  · intro inode j h0 h1
    have hinode0 : inode = 0 := by omega
    subst hinode0
    exact hfile.blocks j

/-! ## Looking up names -/

/-- A string in memory: the bytes of the list, then zeros. -/
def cstr (l : List UInt8) : Nat → UInt8 := fun i => l.getD i 0

def strlen : List UInt8 → Nat
  | [] => 0
  | c :: cs => if c = 0 then 0 else strlen cs + 1

/-- The value of an `int8_t`. -/
def charValue (c : UInt8) : Int := if c.toNat < 128 then c.toNat else (c.toNat : Int) - 256

/-- The loop of `strncmp` at index `i` with `n` bytes left. -/
def strncmpFrom (s1 s2 : Nat → UInt8) (i : Nat) : Nat → Int
  | 0 => 0
  | n + 1 =>
      if s1 i ≠ s2 i ∨ s1 i = 0 then charValue (s1 i) - charValue (s2 i)
      else strncmpFrom s1 s2 (i + 1) n

def strncmp (s1 s2 : Nat → UInt8) (n : Nat) : Int := strncmpFrom s1 s2 0 n

/-- The loop of `read_dentry_by_name` at entry `i` with `n` entries left. -/
def findDentryFrom (fs : Mem) (fname : List UInt8) (i : Nat) : Nat → Option Nat
  | 0 => none
  | n + 1 =>
      if strncmp (cstr fname) (fun j => fs (64 + 64 * i + j)) 32 = 0 then some i
      else findDentryFrom fs fname (i + 1) n

/-- The entry that `read_dentry_by_name` copies out, by its index. -/
def readDentryByName (fs : Mem) (fname : List UInt8) : Option Nat :=
  if strlen fname > 32 then none else findDentryFrom fs fname 0 64

def readDentryByIndex (fs : Mem) (index : Int) : Option Dentry :=
  if index < 0 ∨ index > 16 then none else some (dentryAt fs index.toNat)

/-! ## Reading data -/

/-- Stores into a caller's buffer: offset from the buffer pointer and byte. -/
abbrev Stores := List (Int × UInt8)

/-- A block copy out of the image into the buffer. -/
def copyOut (fs : Mem) (dst src : Int) (n : Nat) : Stores :=
  (List.range n).map (fun (i : Nat) => (dst + (i : Int), fs (src + (i : Int))))

/-- The loop of `read_data`; `none` when the fuel is used up. -/
def readDataLoop (fs : Mem) (inode inodeSize length offsetDiv : Int) :
    Nat → Int → Int → Int → Stores → Option (Int × Stores)
  | 0, _, _, _, _ => none
  | fuel + 1, i, bytesRead, off, stores =>
      if bytesRead ≥ inodeSize ∧ toU32 bytesRead ≥ length then some (bytesRead, stores)
      else
        let addr := blockAddr fs inode (i + offsetDiv)
        let readEntire := 4096 - off
        let readBegin := addr + off
        let bytesRemaining := toS32 (length + off - bytesRead)
        if bytesRemaining < 4096 then
          let n := toU32 (length - bytesRead)
          some (toS32 (bytesRead + n), stores ++ copyOut fs bytesRead readBegin n.toNat)
        else
          readDataLoop fs inode inodeSize length offsetDiv fuel (i + 1)
            (bytesRead + readEntire) 0
            (stores ++ copyOut fs bytesRead readBegin readEntire.toNat)

/-- More turns than any 32-bit length needs at 4096 bytes a turn. -/
def readDataFuel : Nat := 1048578

def readData (fs : Mem) (inode offset length : Int) : Option (Int × Stores) :=
  let inodeSize := fileSize fs inode
  let offsetBytes := toS32 (inodeSize - offset)
  let off := offset % 4096
  let offsetDiv := offset / 4096
  if toU32 inodeSize ≤ offset then some (0, [])
  else
    let length :=
      if toU32 (length + offset) > toU32 inodeSize then toU32 offsetBytes else length
    readDataLoop fs inode inodeSize length offsetDiv readDataFuel 0 0 off []

/-! ## The slice that `read_data` delivers -/

/-- The stores that deliver `n` bytes of the file from position `pos` to the buffer. -/
def sliceStores (fs : Mem) (inode pos : Int) (n : Nat) : Stores :=
  (List.range n).map (fun (i : Nat) => ((i : Int), fileByte fs inode (pos + (i : Int))))

theorem sliceStores_add (fs : Mem) (inode pos : Int) (m n : Nat) :
    sliceStores fs inode pos (m + n) =
      sliceStores fs inode pos m ++
        (List.range n).map (fun (i : Nat) =>
          ((m : Int) + (i : Int), fileByte fs inode (pos + m + (i : Int)))) := by
  unfold sliceStores
  rw [List.range_add, List.map_append, List.map_map]
  apply congrArg
  apply List.map_congr_left
  intro i _
  simp only [Function.comp_apply]
  push_cast
  rw [add_assoc]

/-- A copy that stays inside one block delivers the file's bytes. -/
theorem copyOut_block (fs : Mem) (inode pos b j off : Int) (n : Nat)
    (hpos : pos + b = 4096 * j + off) (hoff : 0 ≤ off) (hn : off + n ≤ 4096) :
    copyOut fs b (blockAddr fs inode j + off) n =
      (List.range n).map (fun (i : Nat) => (b + (i : Int), fileByte fs inode (pos + b + (i : Int)))) := by
  unfold copyOut
  apply List.map_congr_left
  intro i hi
  have hi' : i < n := List.mem_range.mp hi
  have hdiv : (pos + b + i) / 4096 = j := by omega
  have hmod : (pos + b + i) % 4096 = off + i := by omega
  rw [fileByte, hdiv, hmod, add_assoc]

/--
The loop delivers the rest of the slice.  The invariant is that position
`pos + b` of the file is byte `off` of the block the next turn reads.
-/
theorem readDataLoop_eq (fs : Mem) (inode inodeSize pos : Int) (len : Nat)
    (hlen : (len : Int) < 2147479552) :
    ∀ (fuel : Nat) (i off : Int) (b : Nat), b ≤ len →
      pos + b = 4096 * (i + pos / 4096) + off → 0 ≤ off → off < 4096 →
      (len : Int) + off - b < 4096 * fuel →
      readDataLoop fs inode inodeSize len (pos / 4096) fuel i b off
          (sliceStores fs inode pos b) =
        some ((len : Int), sliceStores fs inode pos len)
  | 0, i, off, b, hb, hpos, hoff, hoff', hfuel => by
      omega
  | fuel + 1, i, off, b, hb, hpos, hoff, hoff', hfuel => by
      have hsplit : sliceStores fs inode pos len =
          sliceStores fs inode pos b ++ (List.range (len - b)).map
            (fun (i : Nat) => ((b : Int) + (i : Int), fileByte fs inode (pos + b + (i : Int)))) := by
        rw [← sliceStores_add]
        congr 1
        omega
      unfold readDataLoop
      rw [toU32_of_nonneg (by omega) (by omega)]
      by_cases hdone : (b : Int) ≥ inodeSize ∧ (b : Int) ≥ len
      · rw [if_pos hdone]
        have : b = len := by omega
        rw [this]
      · rw [if_neg hdone]
        simp only
        rw [toS32_of_small (by omega) (by omega)]
        by_cases hlast : (len : Int) + off - b < 4096
        · rw [if_pos hlast, toU32_of_nonneg (by omega) (by omega),
            toS32_of_small (by omega) (by omega)]
          have hn : ((len : Int) - b).toNat = len - b := by omega
          rw [hn, copyOut_block fs inode pos b _ off _ hpos hoff (by omega), ← hsplit]
          congr 2
          omega
        · rw [if_neg hlast]
          have hb' : ((b + (4096 - off).toNat : Nat) : Int) = b + (4096 - off) := by omega
          rw [copyOut_block fs inode pos b _ off _ hpos hoff (by omega), ← sliceStores_add,
            ← hb']
          apply readDataLoop_eq fs inode inodeSize pos len hlen fuel
          · omega
          · omega
          · omega
          · omega
          · push_cast at hfuel
            omega

/-- The length to read, cut down to the rest of the file. -/
theorem clampedLength_eq {size offset length : Int} (hoffset : 0 ≤ offset) (hbefore : offset < size)
    (hsize : size < 4294967296) :
    (if length + offset > size then toU32 (size - offset) else length) =
      min length (size - offset) := by
  split_ifs with hover
  · rw [toU32_of_nonneg (by omega) (by omega)]
    omega
  · omega

/-- `read_data` on a file whose size fits its index node: exactly the slice. -/
theorem readData_eq (fs : Mem) (inode offset length : Int)
    (hsize : 0 ≤ fileSize fs inode ∧ fileSize fs inode ≤ 1023 * 4096)
    (hoffset : 0 ≤ offset) (hlength : 0 ≤ length) (hsum : offset + length < 4294967296) :
    readData fs inode offset length =
      some (max 0 (min length (fileSize fs inode - offset)),
        sliceStores fs inode offset
          (min length (fileSize fs inode - offset)).toNat) := by
  obtain ⟨h0, h1⟩ := hsize
  unfold readData
  simp only
  rw [toU32_of_nonneg h0 (by omega)]
  by_cases hend : fileSize fs inode ≤ offset
  · rw [if_pos hend]
    have hmin : (min length (fileSize fs inode - offset)).toNat = 0 := by omega
    have hmax : max 0 (min length (fileSize fs inode - offset)) = 0 := by omega
    rw [hmin, hmax]
    rfl
  · rw [if_neg hend, toU32_of_nonneg (by omega) (by omega), toS32_of_small (by omega) (by omega)]
    obtain ⟨n, hn⟩ : ∃ n : Nat, (n : Int) = min length (fileSize fs inode - offset) :=
      ⟨(min length (fileSize fs inode - offset)).toNat, by omega⟩
    have hloop := readDataLoop_eq fs inode (fileSize fs inode) offset n (by omega)
      readDataFuel 0 (offset % 4096) 0 (by omega) (by omega) (by omega) (by omega)
      (by unfold readDataFuel; omega)
    rw [clampedLength_eq hoffset (by omega) (by omega), ← hn]
    have hmax : max 0 (n : Int) = n := by omega
    rw [hmax, Int.toNat_natCast]
    exact hloop

end OopsOs
