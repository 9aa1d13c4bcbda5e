import OopsOs.FileSystem

/-!
# The block numbers that `read_data` looks up

Every turn of the loop of `read_data` evaluates one entry of the index node's
`data_block`.  The loop is left as soon as a block is not read to its end; when
the read ends on a block boundary, its other exit compares the count with the
size of the whole file, which a read from a later position never reaches.  One
more turn follows then, and at the end of the file it looks up a block number
that the file does not have.

`readDataLoopTraced` is `readDataLoop` with the indices it evaluates.
-/

namespace OopsOs

open ByteMem

/-- `readDataLoop`, recording the index of each `data_block` entry it evaluates. -/
def readDataLoopTraced (fs : Mem) (inode inodeSize length offsetDiv : Int) :
    Nat → Int → Int → Int → Stores → List Int → Option ((Int × Stores) × List Int)
  | 0, _, _, _, _, _ => none
  | fuel + 1, i, bytesRead, off, stores, indices =>
      if bytesRead ≥ inodeSize ∧ toU32 bytesRead ≥ length then some ((bytesRead, stores), indices)
      else
        let addr := blockAddr fs inode (i + offsetDiv)
        let indices := indices ++ [i + offsetDiv]
        let readEntire := 4096 - off
        let readBegin := addr + off
        let bytesRemaining := toS32 (length + off - bytesRead)
        if bytesRemaining < 4096 then
          let n := toU32 (length - bytesRead)
          some ((toS32 (bytesRead + n), stores ++ copyOut fs bytesRead readBegin n.toNat), indices)
        else
          readDataLoopTraced fs inode inodeSize length offsetDiv fuel (i + 1)
            (bytesRead + readEntire) 0
            (stores ++ copyOut fs bytesRead readBegin readEntire.toNat) indices

def readDataTraced (fs : Mem) (inode offset length : Int) : Option ((Int × Stores) × List Int) :=
  let inodeSize := fileSize fs inode
  let offsetBytes := toS32 (inodeSize - offset)
  let off := offset % 4096
  let offsetDiv := offset / 4096
  if toU32 inodeSize ≤ offset then some ((0, []), [])
  else
    let length :=
      if toU32 (length + offset) > toU32 inodeSize then toU32 offsetBytes else length
    readDataLoopTraced fs inode inodeSize length offsetDiv readDataFuel 0 0 off [] []

theorem readDataLoopTraced_fst (fs : Mem) (inode inodeSize length offsetDiv : Int) (fuel : Nat)
    (i b off : Int) (stores : Stores) (indices : List Int) :
    (readDataLoopTraced fs inode inodeSize length offsetDiv fuel i b off stores indices).map
        Prod.fst =
      readDataLoop fs inode inodeSize length offsetDiv fuel i b off stores := by
  induction fuel generalizing i b off stores indices with
  | zero => rfl
  | succ fuel ih =>
      unfold readDataLoopTraced readDataLoop
      by_cases hdone : b ≥ inodeSize ∧ toU32 b ≥ length
      · rw [if_pos hdone, if_pos hdone]
        rfl
      · rw [if_neg hdone, if_neg hdone]
        simp only
        by_cases hlast : toS32 (length + off - b) < 4096
        · rw [if_pos hlast, if_pos hlast]
          rfl
        · rw [if_neg hlast, if_neg hlast]
          exact ih _ _ _ _ _

/-- The recording changes neither the result nor the stores. -/
theorem readDataTraced_fst (fs : Mem) (inode offset length : Int) :
    (readDataTraced fs inode offset length).map Prod.fst = readData fs inode offset length := by
  unfold readDataTraced readData
  simp only
  by_cases hend : toU32 (fileSize fs inode) ≤ offset
  · rw [if_pos hend, if_pos hend]
    rfl
  · rw [if_neg hend, if_neg hend]
    exact readDataLoopTraced_fst fs inode _ _ _ _ _ _ _ _ _

/-- The number of blocks of a file of `size` bytes. -/
def fileBlocks (size : Int) : Int := (size + 4095) / 4096

theorem fileBlocks_le {size : Int} (h : size ≤ 1023 * 4096) : fileBlocks size ≤ 1023 := by
  unfold fileBlocks
  omega

/-- All indices are those of blocks that a file of `size` bytes has. -/
def OwnIndices (size : Int) (indices : List Int) : Prop :=
  ∀ j ∈ indices, 0 ≤ j ∧ j < fileBlocks size

theorem ownIndices_append (size : Int) (indices : List Int) (j : Int) :
    OwnIndices size (indices ++ [j]) ↔
      OwnIndices size indices ∧ (0 ≤ j ∧ j < fileBlocks size) := by
  unfold OwnIndices
  simp only [List.mem_append, List.mem_singleton]
  constructor
  · intro h
    exact ⟨fun x hx => h x (.inl hx), h j (.inr rfl)⟩
  · rintro ⟨hold, hnew⟩ x (hx | rfl)
    · exact hold x hx
    · exact hnew

/-- Own blocks are blocks of the array. -/
theorem ownIndices_iff_in_array {size : Int} (hsize : size ≤ 1023 * 4096) (indices : List Int) :
    OwnIndices size indices ↔ ∀ j ∈ indices, 0 ≤ j ∧ j < fileBlocks size ∧ j < 1023 := by
  have hblocks := fileBlocks_le hsize
  unfold OwnIndices
  constructor
  · intro h j hj
    exact ⟨(h j hj).1, (h j hj).2, by linarith [(h j hj).2]⟩
  · intro h j hj
    exact ⟨(h j hj).1, (h j hj).2.1⟩

/-- A read that starts later in the file and ends with it, on a block boundary. -/
def EndsOnBoundary (size pos len : Int) : Prop :=
  0 < pos ∧ pos + len = size ∧ size % 4096 = 0

/--
From any turn on, the loop looks up own blocks only unless the read ends with
the file on a block boundary.  The invariant is the one of `readDataLoop_eq`;
the read count and the position agree on where the turn starts.
-/
theorem readDataLoopTraced_own (fs : Mem) (inode size pos : Int) (len : Nat)
    (hsize : size ≤ 1023 * 4096) (hpos : 0 ≤ pos) (hbefore : pos < size)
    (hlen : pos + len ≤ size) :
    ∀ (fuel : Nat) (i off : Int) (b : Nat) (stores : Stores) (indices : List Int), b ≤ len →
      0 ≤ i → pos + b = 4096 * (i + pos / 4096) + off → 0 ≤ off → off < 4096 →
      (len : Int) + off - b < 4096 * fuel →
      ∃ r indices', readDataLoopTraced fs inode size len (pos / 4096) fuel i b off stores indices =
          some (r, indices') ∧
        (OwnIndices size indices' ↔ OwnIndices size indices ∧ ¬ EndsOnBoundary size pos len)
  | 0, i, off, b, stores, indices, hb, hi, heq, hoff, hoff', hfuel => by
      omega
  | fuel + 1, i, off, b, stores, indices, hb, hi, heq, hoff, hoff', hfuel => by
      unfold readDataLoopTraced
      rw [toU32_of_nonneg (by omega) (by omega)]
      by_cases hdone : (b : Int) ≥ size ∧ (b : Int) ≥ len
      · rw [if_pos hdone]
        -- the whole file has been read from its start
        have hstart : ¬ EndsOnBoundary size pos len := by
          unfold EndsOnBoundary
          omega
        exact ⟨_, _, rfl, by simp [hstart]⟩
      · rw [if_neg hdone]
        simp only
        rw [toS32_of_small (by omega) (by omega)]
        by_cases hlast : (len : Int) + off - b < 4096
        · rw [if_pos hlast]
          refine ⟨_, _, rfl, ?_⟩
          rw [ownIndices_append]
          have hown : (0 ≤ i + pos / 4096 ∧ i + pos / 4096 < fileBlocks size) ↔
              ¬ EndsOnBoundary size pos len := by
            unfold fileBlocks EndsOnBoundary
            omega
          rw [hown]
        · rw [if_neg hlast]
          have hb' : ((b + (4096 - off).toNat : Nat) : Int) = b + (4096 - off) := by omega
          rw [← hb']
          obtain ⟨r, indices', hrun, hiff⟩ := readDataLoopTraced_own fs inode size pos len hsize
            hpos hbefore hlen fuel (i + 1) 0 (b + (4096 - off).toNat)
            (stores ++ copyOut fs b (blockAddr fs inode (i + pos / 4096) + off)
              (4096 - off).toNat)
            (indices ++ [i + pos / 4096]) (by omega) (by omega) (by omega) (by omega) (by omega)
            (by push_cast at hfuel; omega)
          refine ⟨r, indices', hrun, ?_⟩
          have hown : 0 ≤ i + pos / 4096 ∧ i + pos / 4096 < fileBlocks size := by
            unfold fileBlocks
            omega
          rw [hiff, ownIndices_append]
          simp [hown]

/-- Every entry that the loop evaluates is one of the file's own, hence one of the array. -/
def ConsultsOwnBlocks (fs : Mem) (inode offset length : Int) : Prop :=
  ∃ r indices, readDataTraced fs inode offset length = some (r, indices) ∧
    ∀ j ∈ indices, 0 ≤ j ∧ j < fileBlocks (fileSize fs inode) ∧ j < 1023

theorem consults_own_blocks_iff (fs : Mem) (inode offset length : Int) (hfs : WellFormed fs)
    (hinode : 0 ≤ inode ∧ inode < numIndexNodes fs) (hoffset : 0 ≤ offset) (hlength : 0 ≤ length)
    (hsum : offset + length < 4294967296) :
    ConsultsOwnBlocks fs inode offset length ↔
      ¬ (0 < offset ∧ offset < fileSize fs inode ∧ fileSize fs inode ≤ offset + length ∧
        fileSize fs inode % 4096 = 0) := by
  obtain ⟨h0, h1⟩ := hfs.sizes inode hinode.1 hinode.2
  unfold ConsultsOwnBlocks
  simp only [← ownIndices_iff_in_array h1]
  unfold readDataTraced
  simp only
  rw [toU32_of_nonneg h0 (by omega)]
  by_cases hend : fileSize fs inode ≤ offset
  · rw [if_pos hend]
    constructor
    · intro _
      omega
    · intro _
      exact ⟨_, _, rfl, by simp [OwnIndices]⟩
  · rw [if_neg hend, toU32_of_nonneg (by omega) (by omega), toS32_of_small (by omega) (by omega)]
    obtain ⟨n, hn⟩ : ∃ n : Nat, (n : Int) = min length (fileSize fs inode - offset) :=
      ⟨(min length (fileSize fs inode - offset)).toNat, by omega⟩
    obtain ⟨r, indices, hrun, hiff⟩ := readDataLoopTraced_own fs inode (fileSize fs inode) offset n
      h1 hoffset (by omega) (by omega) readDataFuel 0 (offset % 4096) 0 [] [] (by omega) (by omega)
      (by omega) (by omega) (by omega) (by unfold readDataFuel; omega)
    rw [clampedLength_eq hoffset (by omega) (by omega), ← hn]
    have hboundary : EndsOnBoundary (fileSize fs inode) offset n ↔
        (0 < offset ∧ offset < fileSize fs inode ∧ fileSize fs inode ≤ offset + length ∧
          fileSize fs inode % 4096 = 0) := by
      unfold EndsOnBoundary
      omega
    rw [← hboundary]
    constructor
    · rintro ⟨r', indices', hrun', hown'⟩
      rw [show ((0 : Nat) : Int) = 0 from rfl] at hrun
      rw [hrun] at hrun'
      obtain ⟨-, rfl⟩ := Prod.mk.inj (Option.some.inj hrun')
      exact (hiff.mp hown').2
    · intro hok
      exact ⟨r, indices, hrun, hiff.mpr ⟨by simp [OwnIndices], hok⟩⟩

/-- An image with one file of the greatest size; all its blocks are block 0. -/
def largestFileImage : Mem := fun a =>
  if a = 0 ∨ a = 4 ∨ a = 8 then 1
  else if a = 64 then 0x61
  else if a = 96 then 2
  else if a = 4097 then 0xF0
  else if a = 4098 then 0x3F
  else 0

theorem largestFileImage_size : fileSize largestFileImage 0 = 1023 * 4096 := by
  decide +kernel

theorem largestFileImage_wellFormed : WellFormed largestFileImage := by
  have hblocks : numDataBlocks largestFileImage = 1 := by decide +kernel
  refine wellFormed_of_one_file (by decide +kernel) (by decide +kernel) (by decide +kernel) ?_
  refine ⟨by rw [largestFileImage_size]; decide, ?_⟩
  intro j h0 h1
  rw [largestFileImage_size] at h1
  have hzero : dataBlock largestFileImage 0 j = 0 := by
    apply int32At_eq_zero
    intro b hlo hhi
    rw [show indexNode 0 = 4096 by decide] at hlo
    unfold largestFileImage
    rw [if_neg (by omega), if_neg (by omega), if_neg (by omega), if_neg (by omega),
      if_neg (by omega)]
  rw [hzero, hblocks]
  decide

theorem consults_own_blocks_iff_first_byte :
    WellFormed largestFileImage ∧ ConsultsOwnBlocks largestFileImage 0 0 1 := by
  refine ⟨largestFileImage_wellFormed, ?_⟩
  rw [consults_own_blocks_iff largestFileImage 0 0 1 largestFileImage_wellFormed
    (by decide +kernel) (by decide) (by decide) (by decide)]
  decide +kernel

/-- Reading the last byte of the greatest file looks up entry 1023, past the end of the array. -/
theorem last_byte_consults_past_array :
    WellFormed largestFileImage ∧
    (readDataTraced largestFileImage 0 (1023 * 4096 - 1) 1).map Prod.snd = some [1022, 1023] ∧
    ¬ ConsultsOwnBlocks largestFileImage 0 (1023 * 4096 - 1) 1 := by
  have hindices : (readDataTraced largestFileImage 0 (1023 * 4096 - 1) 1).map Prod.snd =
      some [1022, 1023] := by decide +kernel
  refine ⟨largestFileImage_wellFormed, hindices, ?_⟩
  rintro ⟨r, indices, hrun, hown⟩
  rw [hrun] at hindices
  obtain rfl := Option.some.inj hindices
  exact absurd (hown 1023 (by simp)).2.2 (by decide)

end OopsOs
