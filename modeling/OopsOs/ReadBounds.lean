import OopsOs.FileReads

/-!
# When `read` respects the caller's buffer

`read` fronts four drivers.  `file_read` and `rtc_read` keep to the caller's
`nbytes`; `terminal_read` stores the whole line with a newline and a NUL, and
`directory_read` a name field of 32 bytes, whatever `nbytes` says.
`read_within_iff` is the exact condition, driver by driver.
-/

namespace OopsOs

open ByteMem

/--
All stores go into `buf[0 .. nbytes)`, and the result is -1 or at most
`nbytes`.  Of a jump through a pointer that is no table nothing is known.
-/
def WithinBuffer (nbytes : Int) (r : ReadCall) : Prop :=
  (∀ st ∈ r.stores, 0 ≤ st.1 ∧ st.1 < nbytes) ∧
  match r.outcome with
  | .returned v => v = -1 ∨ (0 ≤ v ∧ v ≤ nbytes)
  | .waiting => True
  | .wild => False

theorem withinBuffer_nil {nbytes : Int} {k : Kernel} {v : Int}
    (hv : v = -1 ∨ (0 ≤ v ∧ v ≤ nbytes)) :
    WithinBuffer nbytes ⟨k, [], .returned v⟩ :=
  ⟨by simp, hv⟩

theorem withinBuffer_waiting (nbytes : Int) (k : Kernel) :
    WithinBuffer nbytes ⟨k, [], .waiting⟩ :=
  ⟨by simp, trivial⟩

/-- The stores go to the offsets `0 .. n - 1`. -/
def Covers (stores : Stores) (n : Nat) : Prop :=
  stores.map Prod.fst = (List.range n).map (fun (i : Nat) => (i : Int))

theorem Covers.append {stores : Stores} {b : Nat} (h : Covers stores b) (fs : Mem) (src : Int)
    (n : Nat) : Covers (stores ++ copyOut fs b src n) (b + n) := by
  unfold Covers at *
  rw [List.map_append, h, List.range_add, List.map_append, copyOut, List.map_map, List.map_map]
  apply congrArg
  apply List.map_congr_left
  intro i _
  simp

theorem Covers.nil : Covers [] 0 := rfl

/-- Stores to the offsets below `n` are within a buffer exactly if it has `n` bytes. -/
theorem Covers.within_iff {stores : Stores} {n : Nat} {nbytes : Int} (h : Covers stores n)
    (h0 : 0 ≤ nbytes) :
    (∀ st ∈ stores, 0 ≤ st.1 ∧ st.1 < nbytes) ↔ (n : Int) ≤ nbytes := by
  have hmem : ∀ z : Int, z ∈ stores.map Prod.fst ↔ 0 ≤ z ∧ z < n := by
    intro z
    rw [h, List.mem_map]
    constructor
    · rintro ⟨i, hi, rfl⟩
      have := List.mem_range.mp hi
      omega
    · rintro ⟨hz0, hz1⟩
      exact ⟨z.toNat, List.mem_range.mpr (by omega), by omega⟩
  constructor
  · intro hall
    by_contra hlt
    obtain ⟨st, hst, hfst⟩ := List.mem_map.mp ((hmem nbytes).mpr ⟨h0, by omega⟩)
    have := (hall st hst).2
    omega
  · intro hn st hst
    have := (hmem st.1).mp (List.mem_map_of_mem hst)
    omega

/-! ## What `read_data` stores, on any image -/

/--
For a length below `2^31` the loop stores to the offsets below the length.
The remaining count may wrap to a negative number near that bound, which ends
the loop with one copy of all that is left.
-/
theorem readDataLoop_covers (fs : Mem) (inode inodeSize div : Int) (len : Nat)
    (hlen : (len : Int) < 2147483648) :
    ∀ (fuel : Nat) (i off : Int) (b : Nat) (stores : Stores), b ≤ len → 0 ≤ off → off < 4096 →
      (len : Int) + off - b < 4096 * fuel → Covers stores b →
      ∃ stores', readDataLoop fs inode inodeSize len div fuel i b off stores =
          some ((len : Int), stores') ∧ Covers stores' len
  | 0, i, off, b, stores, hb, hoff, hoff', hfuel, hcov => by
      omega
  | fuel + 1, i, off, b, stores, hb, hoff, hoff', hfuel, hcov => by
      unfold readDataLoop
      rw [toU32_of_nonneg (by omega) (by omega)]
      by_cases hdone : (b : Int) ≥ inodeSize ∧ (b : Int) ≥ len
      · rw [if_pos hdone]
        have hbl : b = len := by omega
        subst hbl
        exact ⟨stores, rfl, hcov⟩
      · rw [if_neg hdone]
        simp only
        by_cases hlast : toS32 ((len : Int) + off - b) < 4096
        · rw [if_pos hlast, toU32_of_nonneg (by omega) (by omega),
            toS32_of_small (by omega) (by omega)]
          have hn : ((len : Int) - b).toNat = len - b := by omega
          have hsum : (b : Int) + (len - b) = len := by omega
          have hcov' := hcov.append fs (blockAddr fs inode (i + div) + off) (len - b)
          rw [Nat.add_sub_of_le hb] at hcov'
          rw [hn, hsum]
          exact ⟨_, rfl, hcov'⟩
        · rw [if_neg hlast]
          have hrest : (len : Int) + off - b ≥ 4096 := by
            unfold toS32 at hlast
            split_ifs at hlast <;> omega
          have hb' : ((b + (4096 - off).toNat : Nat) : Int) = b + (4096 - off) := by omega
          rw [← hb']
          apply readDataLoop_covers fs inode inodeSize div len hlen fuel
          · omega
          · omega
          · omega
          · push_cast at hfuel
            omega
          · exact hcov.append fs _ _

/-- From `2^31` on the remaining count is negative at once: one copy of the whole length. -/
theorem readDataLoop_long (fs : Mem) (inode inodeSize div off : Int) (len fuel : Nat)
    (hlong : 2147483648 ≤ (len : Int)) (hlen : (len : Int) < 4294967296)
    (hoff : 0 ≤ off) (hoff' : off < 4096) :
    readDataLoop fs inode inodeSize len div (fuel + 1) 0 0 off [] =
      some (toS32 len, copyOut fs 0 (blockAddr fs inode (0 + div) + off) len) := by
  have hlast : toS32 ((len : Int) + off - 0) < 4096 := by
    unfold toS32
    split_ifs <;> omega
  unfold readDataLoop
  rw [if_neg (by rw [toU32_of_nonneg (by omega) (by omega)]; omega)]
  simp only
  rw [if_pos hlast, toU32_of_nonneg (by omega) (by omega), sub_zero, zero_add, Int.toNat_natCast,
    List.nil_append]

/-- The length that `read_data` goes on with. -/
def readLength (size offset length : Int) : Int :=
  if toU32 (length + offset) > toU32 size then toU32 (toS32 (size - offset)) else length

theorem readData_covers (fs : Mem) (inode offset length : Int)
    (hpos : offset < toU32 (fileSize fs inode))
    (h0 : 0 ≤ length) (h1 : length < 4294967296) :
    ∃ stores, readData fs inode offset length =
        some (toS32 (readLength (fileSize fs inode) offset length), stores) ∧
      Covers stores (readLength (fileSize fs inode) offset length).toNat := by
  have hrange : 0 ≤ readLength (fileSize fs inode) offset length ∧
      readLength (fileSize fs inode) offset length < 4294967296 := by
    unfold readLength toU32
    split_ifs <;> omega
  obtain ⟨len, hlen⟩ : ∃ len : Nat,
      (len : Int) = readLength (fileSize fs inode) offset length :=
    ⟨(readLength (fileSize fs inode) offset length).toNat, by omega⟩
  unfold readData
  simp only
  rw [if_neg (by omega), ← readLength, ← hlen, Int.toNat_natCast]
  by_cases hlong : 2147483648 ≤ (len : Int)
  · rw [show readDataFuel = 1048577 + 1 from rfl,
      readDataLoop_long fs inode _ _ _ len _ hlong (by omega) (by omega) (by omega)]
    have hcov := Covers.nil.append fs (blockAddr fs inode (0 + offset / 4096) + offset % 4096) len
    rw [List.nil_append, Nat.zero_add] at hcov
    exact ⟨_, rfl, hcov⟩
  · rw [toS32_of_small (by omega) (by omega)]
    exact readDataLoop_covers fs inode _ _ len (by omega) readDataFuel 0 (offset % 4096) 0 []
      (by omega) (by omega) (by omega) (by unfold readDataFuel; omega) Covers.nil

/-! ## The drivers -/

/--
The file sizes that `file_read` copes with.  A size that is not negative is
always one; a negative one, which no image that `createfs` writes holds, is
taken for a length near `2^32`.
-/
def FileFits (size pos nbytes : Int) : Prop :=
  0 ≤ size ∨ toU32 size ≤ pos ∨
    (0 < pos ∧ toU32 size + pos < 4294967296 ∧ toU32 size - pos ≤ nbytes)

theorem fileSize_range (fs : Mem) (inode : Int) :
    -2147483648 ≤ fileSize fs inode ∧ fileSize fs inode < 2147483648 := by
  unfold fileSize int32At
  exact ⟨BitVec.le_toInt _, BitVec.toInt_lt⟩

theorem fileSize_toU32 (fs : Mem) (inode : Int) : fileSize fs (toU32 inode) = fileSize fs inode := by
  unfold fileSize indexNode toU32
  congr 1
  omega

/-- The arithmetic of the two length clamps. -/
theorem readLength_le_iff {size pos nbytes : Int} (h0 : 0 ≤ nbytes) (h1 : nbytes < 2147483648)
    (hs0 : -2147483648 ≤ size) (hs1 : size < 2147483648) (hp0 : 0 ≤ pos) (hp1 : pos < toU32 size) :
    readLength size pos (fileRequest size nbytes) ≤ nbytes ↔ FileFits size pos nbytes := by
  have hwrap : toU32 (toS32 (size - pos)) = toU32 (size - pos) := by
    unfold toU32 toS32
    split_ifs <;> omega
  unfold readLength fileRequest FileFits
  rw [hwrap]
  unfold toU32 at *
  split_ifs <;> omega

theorem readLength_nonneg (size pos nbytes : Int) :
    0 ≤ readLength size pos (fileRequest size nbytes) := by
  unfold readLength fileRequest toU32
  split_ifs <;> omega

theorem fileRead_within_iff (k : Kernel) (pid : Fin 6) (fd : Fin 8) (buf : Nat) (nbytes : Int)
    (hbuf : buf ≠ 0) (h0 : 0 ≤ nbytes) (h1 : nbytes < 2147483648)
    (htable : (descriptor k pid fd).descriptorOpPtr = .fileTable) :
    WithinBuffer nbytes (fileRead k pid fd buf nbytes) ↔
      ((descriptor k pid fd).flags = 1 →
        FileFits (fileSize k.fs (toS32 ((descriptor k pid fd).inodeNum.toNat : Int)))
          ((descriptor k pid fd).filePos.toNat : Int) nbytes) := by
  by_cases hflags : (descriptor k pid fd).flags = 1
  · obtain ⟨inode, hinode⟩ : ∃ z, toS32 ((descriptor k pid fd).inodeNum.toNat : Int) = z := ⟨_, rfl⟩
    obtain ⟨hs0, hs1⟩ := fileSize_range k.fs inode
    have hreq : 0 ≤ fileRequest (fileSize k.fs inode) nbytes ∧
        fileRequest (fileSize k.fs inode) nbytes < 4294967296 := by
      unfold fileRequest toU32
      omega
    rw [hinode]
    by_cases hend : toU32 (fileSize k.fs inode) ≤ ((descriptor k pid fd).filePos.toNat : Int)
    · -- at or past the end nothing is stored and the result stays 0
      have hdata : readData k.fs (toU32 inode) ((descriptor k pid fd).filePos.toNat : Int)
          (fileRequest (fileSize k.fs inode) nbytes) = some (0, []) := by
        unfold readData
        rw [fileSize_toU32]
        simp only
        rw [if_pos hend]
      obtain ⟨hstores, hout⟩ := fileRead_of_readData nbytes hbuf hflags htable hinode hdata
      rw [if_neg (by omega)] at hout
      refine iff_of_true ⟨by simp [hstores], ?_⟩ (fun _ => .inr (.inl hend))
      rw [hout]
      exact .inr ⟨le_refl 0, h0⟩
    · have hpos : ((descriptor k pid fd).filePos.toNat : Int) < toU32 (fileSize k.fs inode) := by
        omega
      obtain ⟨stores, hdata, hcov⟩ := readData_covers k.fs (toU32 inode)
        ((descriptor k pid fd).filePos.toNat : Int) (fileRequest (fileSize k.fs inode) nbytes)
        (by rw [fileSize_toU32]; exact hpos) hreq.1 hreq.2
      rw [fileSize_toU32] at hdata hcov
      obtain ⟨hstores, hout⟩ := fileRead_of_readData nbytes hbuf hflags htable hinode hdata
      have hlen0 := readLength_nonneg (fileSize k.fs inode)
        ((descriptor k pid fd).filePos.toNat : Int) nbytes
      have hiff := hcov.within_iff h0
      rw [Int.toNat_of_nonneg hlen0,
        readLength_le_iff h0 h1 hs0 hs1 (Int.natCast_nonneg _) hpos] at hiff
      unfold WithinBuffer
      rw [hstores, hout, hiff]
      constructor
      · rintro ⟨hfits, -⟩ _
        exact hfits
      · intro hfits
        refine ⟨hfits hflags, ?_⟩
        have hle := (readLength_le_iff h0 h1 hs0 hs1 (Int.natCast_nonneg _) hpos).mpr (hfits hflags)
        rw [toS32_of_small (by omega) (by omega)]
        split_ifs <;> omega
  · refine iff_of_true ?_ (fun h => absurd h hflags)
    unfold fileRead
    simp only
    rw [if_neg hbuf, if_pos (by simpa using hflags)]
    exact withinBuffer_nil (.inl rfl)

/-- The line that is picked up leaves room for its newline and its NUL. -/
def LineFits (k : Kernel) (nbytes : Int) : Prop :=
  nbytes = 0 ∨
    ((k.terminal k.activeTerminal).readFlag = 1 →
      0 ≤ (k.terminal k.activeTerminal).readIndex ∧
        (k.terminal k.activeTerminal).readIndex + 2 ≤ nbytes)

theorem lineStores_within_iff (T : Terminal) (nbytes : Int) :
    (∀ st ∈ lineStores T, 0 ≤ st.1 ∧ st.1 < nbytes) ↔
      0 ≤ T.readIndex ∧ T.readIndex + 2 ≤ nbytes := by
  unfold lineStores
  constructor
  · intro hall
    have hnewline := hall (T.readIndex, 0x0A) (by simp)
    have hnul := hall (T.readIndex + 1, 0) (by simp)
    simp only at hnewline hnul
    omega
  · rintro ⟨hlo, hhi⟩ st hst
    simp only [List.mem_append, List.mem_map, List.mem_range, List.mem_cons, List.not_mem_nil,
      or_false] at hst
    rcases hst with ⟨i, hi, rfl⟩ | rfl | rfl
    · simp only
      omega
    · simp only
      omega
    · simp only
      omega

theorem terminalRead_within_iff (interrupts : Kernel → Kernel) (k : Kernel) (buffer : Nat)
    (nbytes : Int) (hbuf : buffer ≠ 0) (h0 : 0 ≤ nbytes) :
    WithinBuffer nbytes (terminalRead interrupts k buffer nbytes) ↔
      LineFits (polledLine interrupts k) nbytes := by
  unfold terminalRead LineFits
  rw [if_neg (by omega)]
  by_cases hzero : nbytes = 0
  · rw [if_pos hzero]
    exact iff_of_true (withinBuffer_nil (by omega)) (.inl hzero)
  · rw [if_neg hzero]
    simp only [hzero, false_or]
    by_cases hflag : ((polledLine interrupts k).terminal
        (polledLine interrupts k).activeTerminal).readFlag = 1
    · rw [if_pos hflag]
      unfold WithinBuffer
      simp only [lineStores_within_iff]
      constructor
      · rintro ⟨hfits, -⟩ _
        exact hfits
      · intro hfits
        have hfits := hfits hflag
        exact ⟨hfits, by omega⟩
    · rw [if_neg hflag]
      exact iff_of_true (withinBuffer_waiting nbytes _) (fun h => absurd h hflag)

theorem nameStores_covers (name : Fin 32 → UInt8) : Covers (nameStores name) 32 := by
  unfold Covers nameStores
  rw [List.map_map]
  rfl

theorem directoryRead_within_iff (k : Kernel) (pid : Fin 6) (fd : Fin 8) (nbytes : Int)
    (h0 : 0 ≤ nbytes) :
    WithinBuffer nbytes (directoryRead k pid fd) ↔
      (32 ≤ nbytes ∨ 16 < (descriptor k pid fd).filePos.toNat) := by
  unfold directoryRead
  simp only
  by_cases hpast : 16 < (descriptor k pid fd).filePos.toNat
  · have hnone : readDentryByIndex k.fs ((descriptor k pid fd).filePos.toNat : Int) = none := by
      unfold readDentryByIndex
      rw [if_pos (by omega)]
    rw [hnone]
    exact iff_of_true (withinBuffer_nil (by omega)) (.inr hpast)
  · have hsome : readDentryByIndex k.fs ((descriptor k pid fd).filePos.toNat : Int) =
        some (dentryAt k.fs (descriptor k pid fd).filePos.toNat) := by
      unfold readDentryByIndex
      rw [if_neg (by omega), Int.toNat_natCast]
    rw [hsome]
    unfold WithinBuffer
    simp only [(nameStores_covers _).within_iff h0]
    omega

/-! ## The system call -/

/-- The condition under which the driver behind a descriptor keeps to the buffer. -/
def FitsBuffer (interrupts : Kernel → Kernel) (k : Kernel) (pid : Fin 6) (fd : Fin 8)
    (nbytes : Int) : Prop :=
  let k := pointStdin k pid fd
  let d := descriptor k pid fd
  match d.descriptorOpPtr with
  | .termTable => LineFits (polledLine interrupts k) nbytes
  | .rtcTable => True
  | .directoryTable => 32 ≤ nbytes ∨ 16 < d.filePos.toNat
  | .fileTable =>
      d.flags = 1 → FileFits (fileSize k.fs (toS32 (d.inodeNum.toNat : Int))) d.filePos.toNat nbytes
  | .null => False
  | .word _ => False

/--
`read` on a descriptor in use keeps to `buf[0 .. nbytes)` exactly if it fails
on the null pointer or on descriptor 1, or its driver's condition holds.
-/
theorem read_within_buffer_iff (interrupts : Kernel → Kernel) (k : Kernel) (pid : Fin 6)
    (fd : Fin 8) (buf : Nat) (nbytes : Int) (huse : (descriptor k pid fd).flags ≠ 0)
    (h0 : 0 ≤ nbytes) (h1 : nbytes < 2147483648) :
    WithinBuffer nbytes (read interrupts k pid fd buf nbytes) ↔
      (buf = 0 ∨ fd = 1 ∨ FitsBuffer interrupts k pid fd nbytes) := by
  unfold read
  rw [fdIndex_val]
  simp only
  by_cases hbuf : buf = 0
  · rw [if_pos (by simp [hbuf])]
    exact iff_of_true (withinBuffer_nil (.inl rfl)) (.inl hbuf)
  by_cases hout : fd = 1
  · rw [if_pos (by simp [hout])]
    exact iff_of_true (withinBuffer_nil (.inl rfl)) (.inr (.inl hout))
  rw [if_neg (by simp [huse, hbuf, hout])]
  simp only [hbuf, hout, false_or, FitsBuffer]
  cases htable : (descriptor (pointStdin k pid fd) pid fd).descriptorOpPtr with
  | termTable => exact terminalRead_within_iff interrupts _ buf nbytes hbuf h0
  | rtcTable =>
      refine iff_of_true ?_ trivial
      unfold rtcRead
      simp only
      split_ifs
      · exact withinBuffer_nil (.inr ⟨le_refl 0, h0⟩)
      · exact withinBuffer_waiting nbytes _
  | directoryTable => exact directoryRead_within_iff _ pid fd nbytes h0
  | fileTable => exact fileRead_within_iff _ pid fd buf nbytes hbuf h0 h1 htable
  | null => exact iff_of_false (fun h => h.2) (fun h => h)
  | word w => exact iff_of_false (fun h => h.2) (fun h => h)

/-- Process 0 on terminal 0, after `ab` and Enter have been typed there. -/
def typedLine : Kernel :=
  (initPcb (Kernel.zero (fun _ => 0) (fun _ => 0)) 0).modifyTerminal 0 (fun T =>
    { T with
      keyboardBuffer := fun i => if i = 0 then 0x61 else if i = 1 then 0x62 else 0
      readIndex := 2
      readFlag := 1 })

/-- A buffer of four bytes holds the line with its newline and NUL. -/
theorem read_within_buffer_iff_four :
    (descriptor typedLine 0 0).flags ≠ 0 ∧ WithinBuffer 4 (read id typedLine 0 0 1 4) := by
  have huse : (descriptor typedLine 0 0).flags ≠ 0 := by decide
  refine ⟨huse, ?_⟩
  apply (read_within_buffer_iff id typedLine 0 0 1 4 huse (by decide) (by decide)).mpr
  right
  right
  exact .inr (fun _ => ⟨by decide, by decide⟩)

/-- A buffer of two bytes does not: the call stores four bytes and returns 3. -/
theorem read_overruns_buffer_of_two :
    (descriptor typedLine 0 0).flags ≠ 0 ∧
      (read id typedLine 0 0 1 2).stores = [(0, 0x61), (1, 0x62), (2, 0x0A), (3, 0)] ∧
      (read id typedLine 0 0 1 2).outcome = .returned 3 ∧
      ¬ WithinBuffer 2 (read id typedLine 0 0 1 2) := by
  refine ⟨by decide, rfl, rfl, ?_⟩
  rintro ⟨-, hresult⟩
  have hthree : (3 : Int) = -1 ∨ ((0 : Int) ≤ 3 ∧ (3 : Int) ≤ 2) := hresult
  omega

end OopsOs
