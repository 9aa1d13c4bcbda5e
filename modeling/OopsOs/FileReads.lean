import OopsOs.SystemCalls
import OopsOs.Lib.Machine

/-!
# Reading a file by descriptor delivers the file

A session is any sequence of `open`, `close` and `read` calls of any of the
processes, between which the rest of the kernel may do what it likes to
everything but the descriptors and the image.  Beside the kernel it keeps a
ledger, written from the calls and their results alone: the directory entry
each live descriptor was opened on, and the number and the bytes that its
reads have returned since.

`Tracks` ties a ledger entry to the descriptor in the process control block.
Every step of a session keeps it (`fileStep_tracked`), and on a tracked
descriptor of a regular file `read` is exactly the next slice of the file
(`read_regular`).
-/

namespace OopsOs

open ByteMem Machine

/-! ## Descriptor updates -/

theorem descriptor_setDescriptor (k : Kernel) (pid pid' : Fin 6) (fd fd' : Fin 8)
    (d : FileDescriptor) :
    descriptor (setDescriptor k pid fd d) pid' fd' =
      if pid' = pid ∧ fd' = fd then d else descriptor k pid' fd' := by
  unfold descriptor setDescriptor
  by_cases hp : pid' = pid
  · subst hp
    by_cases hf : fd' = fd
    · subst hf
      simp
    · simp [hf]
  · simp [hp]

@[simp] theorem descriptor_setDescriptor_self (k : Kernel) (pid : Fin 6) (fd : Fin 8)
    (d : FileDescriptor) : descriptor (setDescriptor k pid fd d) pid fd = d := by
  simp [descriptor_setDescriptor]

/-- The image is the same, and at most the descriptor `fd` of slot `pid` differs. -/
structure OnlyDescriptor (pid : Fin 6) (fd : Fin 8) (k k' : Kernel) : Prop where
  fs : k'.fs = k.fs
  other : ∀ pid' fd', ¬ (pid' = pid ∧ fd' = fd) → descriptor k' pid' fd' = descriptor k pid' fd'

theorem OnlyDescriptor.of_pcb {pid : Fin 6} {fd : Fin 8} {k k' : Kernel}
    (hfs : k'.fs = k.fs) (hpcb : k'.pcb = k.pcb) : OnlyDescriptor pid fd k k' := by
  refine ⟨hfs, ?_⟩
  intro pid' fd' _
  rw [descriptor, descriptor, hpcb]

theorem OnlyDescriptor.set (k : Kernel) (pid : Fin 6) (fd : Fin 8) (d : FileDescriptor) :
    OnlyDescriptor pid fd k (setDescriptor k pid fd d) := by
  refine ⟨rfl, ?_⟩
  intro pid' fd' h
  rw [descriptor_setDescriptor, if_neg h]

theorem OnlyDescriptor.trans {pid : Fin 6} {fd : Fin 8} {k k' k'' : Kernel}
    (h : OnlyDescriptor pid fd k k') (h' : OnlyDescriptor pid fd k' k'') :
    OnlyDescriptor pid fd k k'' := by
  refine ⟨h'.fs.trans h.fs, ?_⟩
  intro pid' fd' hne
  rw [h'.other pid' fd' hne, h.other pid' fd' hne]

theorem fdIndex_val (fd : Fin 8) : fdIndex (fd.val : Int) = some fd := by
  have hfd := fd.isLt
  unfold fdIndex
  rw [dif_pos (by omega)]
  simp

theorem fdIndex_eq {fd : Int} {f : Fin 8} (h : fdIndex fd = some f) : fd = (f.val : Int) := by
  unfold fdIndex at h
  split_ifs at h with hfd
  have := congrArg Fin.val (Option.some.inj h)
  simp only at this
  omega

/-! ## What the calls do to descriptors -/

theorem freeDescriptor_flags {k : Kernel} {pid : Fin 6} {loc : Fin 8}
    (h : freeDescriptor k pid = some loc) : (descriptor k pid loc).flags = 0 := by
  have := List.find?_some h
  simpa using this

/-- A failed `open`: no descriptor and not the image has changed. -/
def OpenFailed (k : Kernel) (r : Kernel × Int) : Prop :=
  r.2 = -1 ∧ r.1.fs = k.fs ∧ r.1.pcb = k.pcb

/-- A successful `open` on entry `i`: one free descriptor has been filled in. -/
def OpenSucceeded (k : Kernel) (pid : Fin 6) (i : Nat) (r : Kernel × Int) : Prop :=
  ∃ op inode pos loc,
    openKind (dentryAt k.fs i) = some (op, inode, pos) ∧
    (descriptor k pid loc).flags = 0 ∧
    r.2 = (loc.val : Int) ∧
    OnlyDescriptor pid loc k r.1 ∧
    descriptor r.1 pid loc = ⟨op, inode, pos, 1⟩

theorem openEntry_cases (k : Kernel) (pid : Fin 6) (i : Nat) :
    OpenFailed k (openEntry k pid i) ∨ OpenSucceeded k pid i (openEntry k pid i) := by
  unfold openEntry
  cases hkind : openKind (dentryAt k.fs i) with
  | none =>
      left
      exact ⟨rfl, rfl, rfl⟩
  | some kind =>
      obtain ⟨op, inode, pos⟩ := kind
      cases hfree : freeDescriptor k pid with
      | none =>
          left
          exact ⟨rfl, rfl, rfl⟩
      | some loc =>
          right
          refine ⟨op, inode, pos, loc, hkind, freeDescriptor_flags hfree, rfl, ?_, ?_⟩
          · exact OnlyDescriptor.set k pid loc _
          · exact descriptor_setDescriptor_self k pid loc _

/-- `open` fails and changes no descriptor, or takes a free one for the entry found. -/
theorem openFile_cases (k : Kernel) (pid : Fin 6) (filename : List UInt8) :
    OpenFailed k (openFile k pid filename) ∨
      ∃ i, readDentryByName k.fs filename = some i ∧
        OpenSucceeded k pid i (openFile k pid filename) := by
  unfold openFile
  by_cases hempty : cstr filename 0 = 0
  · rw [if_pos hempty]
    left
    simp [OpenFailed]
  · rw [if_neg hempty]
    simp only [reportName_fs]
    cases hname : readDentryByName k.fs filename with
    | none =>
        left
        simp [OpenFailed]
    | some i =>
        have hdesc : ∀ pid fd, descriptor (reportName k filename) pid fd = descriptor k pid fd := by
          intro pid fd
          simp [descriptor]
        have hfs := reportName_fs k filename
        rcases openEntry_cases (reportName k filename) pid i with
          ⟨hr, hf, hp⟩ | ⟨op, inode, pos, loc, hkind, hflags, hr, honly, hd⟩
        · left
          exact ⟨hr, hf.trans hfs, hp.trans (reportName_pcb k filename)⟩
        · right
          rw [hfs] at hkind
          rw [hdesc] at hflags
          refine ⟨i, rfl, op, inode, pos, loc, hkind, hflags, hr, ?_, hd⟩
          exact (OnlyDescriptor.of_pcb hfs (reportName_pcb k filename)).trans honly

/-- `close` fails, touching at most the table of descriptor 0, or frees a descriptor. -/
theorem close_cases (k : Kernel) (pid : Fin 6) (fd : Int) :
    ((close k pid fd).2 = .returned (-1) ∧ OnlyDescriptor pid 0 k (close k pid fd).1 ∧
      (descriptor (close k pid fd).1 pid 0).flags = (descriptor k pid 0).flags) ∨
    ∃ f, fdIndex fd = some f ∧ 2 ≤ f.val ∧ (close k pid fd).2 ≠ .returned (-1) ∧
      OnlyDescriptor pid f k (close k pid fd).1 := by
  by_cases hzero : fd = 0
  · left
    subst hzero
    unfold close
    simp only [if_true, show fdIndex 0 = some 0 from rfl, or_true]
    refine ⟨trivial, ?_, ?_⟩
    · exact (OnlyDescriptor.set k pid 0 _).trans (OnlyDescriptor.of_pcb rfl rfl)
    · simp [descriptor, setDescriptor]
  · unfold close
    simp only [if_neg hzero]
    cases hf : fdIndex fd with
    | none =>
        left
        exact ⟨rfl, OnlyDescriptor.of_pcb rfl rfl, rfl⟩
    | some f =>
        by_cases hbad : (descriptor k pid f).flags = 0 ∨ f = 1 ∨ f = 0
        · left
          simp only [if_pos hbad]
          exact ⟨trivial, OnlyDescriptor.of_pcb rfl rfl, rfl⟩
        · right
          simp only [if_neg hbad]
          refine ⟨f, rfl, by omega, ?_, OnlyDescriptor.set k pid f _⟩
          cases (descriptor k pid f).descriptorOpPtr <;> simp

/-- Handlers that leave the descriptors and the image alone. -/
def KeepsFiles (f : Kernel → Kernel) : Prop :=
  ∀ k, (f k).fs = k.fs ∧ (f k).pcb = k.pcb

/-- Handlers that leave the image and the control block of one process alone. -/
def KeepsProcess (pid : Fin 6) (f : Kernel → Kernel) : Prop :=
  ∀ k, (f k).fs = k.fs ∧ (f k).pcb pid = k.pcb pid

theorem KeepsFiles.process {f : Kernel → Kernel} (h : KeepsFiles f) (pid : Fin 6) :
    KeepsProcess pid f := by
  intro k
  exact ⟨(h k).1, congrFun (h k).2 pid⟩

/-- Only the file position of a descriptor may have moved. -/
structure SameHandle (d d' : FileDescriptor) : Prop where
  flags : d'.flags = d.flags
  inodeNum : d'.inodeNum = d.inodeNum
  descriptorOpPtr : d'.descriptorOpPtr = d.descriptorOpPtr

section Drivers

variable {interrupts : Kernel → Kernel}

theorem terminalRead_process {pid : Fin 6} (hkeep : KeepsProcess pid interrupts) (k : Kernel)
    (buffer : Nat) (nbytes : Int) :
    (terminalRead interrupts k buffer nbytes).kernel.fs = k.fs ∧
      (terminalRead interrupts k buffer nbytes).kernel.pcb pid = k.pcb pid := by
  have hpoll : (polledLine interrupts k).fs = k.fs ∧
      (polledLine interrupts k).pcb pid = k.pcb pid := by
    unfold polledLine
    split_ifs
    · exact ⟨rfl, rfl⟩
    · exact hkeep k
  unfold terminalRead
  simp only
  split_ifs
  · simp
  · simp
  · simpa using hpoll
  · exact hpoll

theorem rtcRead_process {pid : Fin 6} (hkeep : KeepsProcess pid interrupts) (k : Kernel) :
    (rtcRead interrupts k).kernel.fs = k.fs ∧
      (rtcRead interrupts k).kernel.pcb pid = k.pcb pid := by
  have hset := hkeep { k with isRtcInterruptFlag := 1 }
  unfold rtcRead
  simp only
  split_ifs
  · exact hset
  · exact hset

variable (hkeep : KeepsFiles interrupts)
include hkeep

theorem terminalRead_files (k : Kernel) (buffer : Nat) (nbytes : Int) :
    (terminalRead interrupts k buffer nbytes).kernel.fs = k.fs ∧
      (terminalRead interrupts k buffer nbytes).kernel.pcb = k.pcb := by
  constructor
  · exact (terminalRead_process (hkeep.process 0) k buffer nbytes).1
  · funext pid
    exact (terminalRead_process (hkeep.process pid) k buffer nbytes).2

theorem rtcRead_files (k : Kernel) :
    (rtcRead interrupts k).kernel.fs = k.fs ∧ (rtcRead interrupts k).kernel.pcb = k.pcb := by
  constructor
  · exact (rtcRead_process (hkeep.process 0) k).1
  · funext pid
    exact (rtcRead_process (hkeep.process pid) k).2

end Drivers

theorem directoryRead_frame (k : Kernel) (pid : Fin 6) (fd : Fin 8) :
    OnlyDescriptor pid fd k (directoryRead k pid fd).kernel ∧
      SameHandle (descriptor k pid fd) (descriptor (directoryRead k pid fd).kernel pid fd) := by
  unfold directoryRead
  simp only
  cases readDentryByIndex k.fs ((descriptor k pid fd).filePos.toNat : Int) with
  | none => exact ⟨OnlyDescriptor.of_pcb rfl rfl, ⟨rfl, rfl, rfl⟩⟩
  | some dentry =>
      refine ⟨OnlyDescriptor.set k pid fd _, ?_⟩
      simp only [descriptor_setDescriptor_self]
      exact ⟨rfl, rfl, rfl⟩

theorem fileRead_frame (k : Kernel) (pid : Fin 6) (fd : Fin 8) (buf : Nat) (nbytes : Int) :
    OnlyDescriptor pid fd k (fileRead k pid fd buf nbytes).kernel ∧
      SameHandle (descriptor k pid fd)
        (descriptor (fileRead k pid fd buf nbytes).kernel pid fd) := by
  have hsame : ∀ text, OnlyDescriptor pid fd k (k.printf text) ∧
      SameHandle (descriptor k pid fd) (descriptor (k.printf text) pid fd) :=
    fun text => ⟨OnlyDescriptor.of_pcb rfl rfl, ⟨rfl, rfl, rfl⟩⟩
  unfold fileRead
  simp only
  split_ifs
  · exact hsame _
  · exact hsame _
  · exact hsame _
  all_goals
    split
    · exact ⟨OnlyDescriptor.of_pcb rfl rfl, ⟨rfl, rfl, rfl⟩⟩
    · refine ⟨OnlyDescriptor.set k pid fd _, ?_⟩
      simp only [descriptor_setDescriptor_self]
      exact ⟨rfl, rfl, rfl⟩

/-- A `read` through the null pointer fails. -/
theorem read_null (interrupts : Kernel → Kernel) (k : Kernel) (pid : Fin 6) (fd nbytes : Int) :
    read interrupts k pid fd 0 nbytes =
      ⟨k.printf "system calls read failed", [], .returned (-1)⟩ := by
  unfold read
  cases fdIndex fd with
  | none => rfl
  | some f =>
      simp only
      rw [if_pos (by simp)]

theorem read_bad_fd (interrupts : Kernel → Kernel) (k : Kernel) (pid : Fin 6) {fd : Int}
    (hfd : fdIndex fd = none) (buf : Nat) (nbytes : Int) :
    read interrupts k pid fd buf nbytes =
      ⟨k.printf "system calls read failed", [], .returned (-1)⟩ := by
  unfold read
  rw [hfd]

/-- What a `read` on descriptor `f` may do to the descriptors. -/
structure ReadFrame (pid : Fin 6) (f : Fin 8) (k k' : Kernel) : Prop where
  only : OnlyDescriptor pid f k k'
  flags : (descriptor k' pid f).flags = (descriptor k pid f).flags
  handle : f ≠ 0 → SameHandle (descriptor k pid f) (descriptor k' pid f)

theorem ReadFrame.of_files {pid : Fin 6} {f : Fin 8} {k k' : Kernel}
    (h : k'.fs = k.fs ∧ k'.pcb = k.pcb) : ReadFrame pid f k k' := by
  have hd : descriptor k' pid f = descriptor k pid f := by
    rw [descriptor, descriptor, h.2]
  refine ⟨OnlyDescriptor.of_pcb h.1 h.2, by rw [hd], ?_⟩
  intro _
  rw [hd]
  exact ⟨rfl, rfl, rfl⟩

theorem ReadFrame.of_handle {pid : Fin 6} {f : Fin 8} {k k' : Kernel}
    (h : OnlyDescriptor pid f k k' ∧ SameHandle (descriptor k pid f) (descriptor k' pid f)) :
    ReadFrame pid f k k' :=
  ⟨h.1, h.2.flags, fun _ => h.2⟩

section Read

variable (interrupts : Kernel → Kernel) (k : Kernel) (pid : Fin 6)

/-- The ways a `read` on descriptor `f` can go. -/
inductive ReadBy (f : Fin 8) (buf : Nat) (nbytes : Int) : ReadCall → Prop
  | failed : ReadBy f buf nbytes ⟨k.printf "system calls read failed", [], .returned (-1)⟩
  -- descriptor 0 is pointed at the terminal's table first
  | stdin : f = 0 → ReadBy f buf nbytes (terminalRead interrupts
      (setDescriptor k pid 0 { descriptor k pid 0 with descriptorOpPtr := .termTable }) buf nbytes)
  | terminal : ReadBy f buf nbytes (terminalRead interrupts k buf nbytes)
  | rtc : ReadBy f buf nbytes (rtcRead interrupts k)
  | directory : ReadBy f buf nbytes (directoryRead k pid f)
  | file : ReadBy f buf nbytes (fileRead k pid f buf nbytes)
  | wild : ReadBy f buf nbytes ⟨k, [], .wild⟩

theorem read_by {fd : Int} {f : Fin 8} (hf : fdIndex fd = some f) (buf : Nat) (nbytes : Int) :
    ReadBy interrupts k pid f buf nbytes (read interrupts k pid fd buf nbytes) := by
  unfold read
  rw [hf]
  simp only
  by_cases hbad : (descriptor k pid f).flags = 0 ∨ buf = 0 ∨ f = 1
  · rw [if_pos hbad]
    exact .failed
  · rw [if_neg hbad]
    by_cases hzero : f = 0
    · subst hzero
      rw [pointStdin, if_pos rfl, descriptor_setDescriptor_self]
      exact .stdin rfl
    · rw [pointStdin, if_neg hzero]
      cases (descriptor k pid f).descriptorOpPtr with
      | null => exact .wild
      | word w => exact .wild
      | termTable => exact .terminal
      | rtcTable => exact .rtc
      | directoryTable => exact .directory
      | fileTable => exact .file

end Read

/-- A `read` moves at most the descriptor it names, and of that only the file position. -/
theorem read_frame {interrupts : Kernel → Kernel} (hkeep : KeepsFiles interrupts) (k : Kernel)
    (pid : Fin 6) {fd : Int} {f : Fin 8} (hf : fdIndex fd = some f) (buf : Nat) (nbytes : Int) :
    ReadFrame pid f k (read interrupts k pid fd buf nbytes).kernel := by
  have hby := read_by interrupts k pid hf buf nbytes
  generalize read interrupts k pid fd buf nbytes = r at hby ⊢
  cases hby with
  | failed => exact ReadFrame.of_files ⟨rfl, rfl⟩
  | stdin hzero =>
      subst hzero
      have hterm := terminalRead_files hkeep
        (setDescriptor k pid 0 { descriptor k pid 0 with descriptorOpPtr := .termTable })
        buf nbytes
      refine ⟨?_, ?_, fun h => absurd rfl h⟩
      · exact (OnlyDescriptor.set k pid 0 _).trans
          (OnlyDescriptor.of_pcb hterm.1 hterm.2)
      · rw [descriptor, hterm.2]
        simp [descriptor, setDescriptor]
  | terminal => exact ReadFrame.of_files (terminalRead_files hkeep k buf nbytes)
  | rtc => exact ReadFrame.of_files (rtcRead_files hkeep k)
  | directory => exact ReadFrame.of_handle (directoryRead_frame k pid f)
  | file => exact ReadFrame.of_handle (fileRead_frame k pid f buf nbytes)
  | wild => exact ReadFrame.of_files ⟨rfl, rfl⟩

/-! ## One read of a regular file -/

/-- The directory entry `i` records a regular file. -/
def RegularFile (fs : Mem) (i : Nat) : Prop :=
  (i : Int) < numDirEntries fs ∧ (dentryAt fs i).type = 2

/-- The bytes `[0, n)` of a file. -/
def fileBytes (fs : Mem) (inode : Int) (n : Nat) : List UInt8 :=
  (List.range n).map (fun (j : Nat) => fileByte fs inode (j : Int))

theorem sliceStores_bytes (fs : Mem) (inode pos : Int) (n : Nat) (hpos : 0 ≤ pos) :
    fileBytes fs inode pos.toNat ++ (sliceStores fs inode pos n).map Prod.snd =
      fileBytes fs inode (pos + n).toNat := by
  have hsum : (pos + n).toNat = pos.toNat + n := by omega
  unfold fileBytes sliceStores
  rw [hsum, List.range_add, List.map_append, List.map_map, List.map_map]
  apply congrArg
  apply List.map_congr_left
  intro j _
  simp only [Function.comp_apply]
  congr 1
  push_cast
  omega

theorem toNat_ofInt_of_lt {z : Int} (h0 : 0 ≤ z) (h1 : z < 4294967296) :
    ((UInt32.ofInt z).toNat : Int) = z := by
  rw [UInt32.ofInt, UInt32.toNat_ofNat']
  omega

/-- The request that `file_read` passes on. -/
def fileRequest (size nbytes : Int) : Int := toU32 (if nbytes > size then size else nbytes)

section FileRead

variable {k : Kernel} {pid : Fin 6} {fd : Fin 8} {buf : Nat} (nbytes : Int) {b : Int}
variable {stores : Stores} (hbuf : buf ≠ 0) (hflags : (descriptor k pid fd).flags = 1)
variable (htable : (descriptor k pid fd).descriptorOpPtr = .fileTable) {inode : Int}
variable (hinode : toS32 ((descriptor k pid fd).inodeNum.toNat : Int) = inode)
variable (hdata : readData k.fs (toU32 inode) ((descriptor k pid fd).filePos.toNat : Int)
  (fileRequest (fileSize k.fs inode) nbytes) = some (b, stores))
include hbuf hflags htable hinode hdata

/-- `file_read` from what its `read_data` returns; `r` is the number after the fix-up. -/
theorem fileRead_eq_of_readData {r : Int}
    (hr : r = if toU32 (fileSize k.fs inode) > ((descriptor k pid fd).filePos.toNat : Int) ∧ b = 0
      then nbytes else b) :
    fileRead k pid fd buf nbytes =
      ⟨setDescriptor k pid fd { descriptor k pid fd with
          filePos := UInt32.ofInt (((descriptor k pid fd).filePos.toNat : Int) + r) },
        stores, .returned r⟩ := by
  subst hinode hr
  unfold fileRequest at hdata
  unfold fileRead
  simp only
  rw [if_neg hbuf, if_neg (by simp [hflags]), if_neg (by simp [htable]), hdata]

theorem fileRead_of_readData :
    (fileRead k pid fd buf nbytes).stores = stores ∧
      (fileRead k pid fd buf nbytes).outcome =
        .returned (if toU32 (fileSize k.fs inode) > ((descriptor k pid fd).filePos.toNat : Int) ∧ b = 0
          then nbytes else b) := by
  rw [fileRead_eq_of_readData nbytes hbuf hflags htable hinode hdata rfl]
  exact ⟨rfl, rfl⟩

end FileRead

/--
`file_read` on a descriptor at position `pos` of a file whose size fits its
index node.  A request is first cut to the whole size and then by `read_data`
to the rest; before the end of the file these give 0 only for a request of 0,
so that the fix-up of a zero result changes nothing.
-/
theorem fileRead_regular (k : Kernel) (pid : Fin 6) (fd : Fin 8) (buf : Nat) (nbytes inode : Int)
    (hbuf : buf ≠ 0) (h0 : 0 ≤ nbytes) (h1 : nbytes < 2147483648)
    (hflags : (descriptor k pid fd).flags = 1)
    (htable : (descriptor k pid fd).descriptorOpPtr = .fileTable)
    (hinode : (descriptor k pid fd).inodeNum = UInt32.ofInt inode)
    (hi0 : 0 ≤ inode) (hi1 : inode < 2147483648)
    (hsize : 0 ≤ fileSize k.fs inode ∧ fileSize k.fs inode ≤ 1023 * 4096)
    (hpos : ((descriptor k pid fd).filePos.toNat : Int) ≤ fileSize k.fs inode) :
    let pos : Int := (descriptor k pid fd).filePos.toNat
    let n : Int := min nbytes (fileSize k.fs inode - pos)
    (fileRead k pid fd buf nbytes).outcome = .returned n ∧
      (fileRead k pid fd buf nbytes).stores = sliceStores k.fs inode pos n.toNat ∧
      ((descriptor (fileRead k pid fd buf nbytes).kernel pid fd).filePos.toNat : Int) = pos + n := by
  intro pos n
  have hnum : toS32 ((descriptor k pid fd).inodeNum.toNat : Int) = inode := by
    rw [hinode, toNat_ofInt_of_lt hi0 (by omega), toS32_of_small (by omega) hi1]
  have hpos0 : 0 ≤ pos := Int.natCast_nonneg _
  have hdata : ∀ length : Int, 0 ≤ length → length ≤ fileSize k.fs inode →
      min length (fileSize k.fs inode - pos) = n →
      readData k.fs (toU32 inode) pos (toU32 length) =
        some (n, sliceStores k.fs inode pos n.toNat) := by
    intro length hl0 hl1 hl
    rw [toU32_of_nonneg hi0 (by omega), toU32_of_nonneg hl0 (by omega),
      readData_eq k.fs inode pos length hsize hpos0 hl0 (by omega), hl, max_eq_right (by omega)]
  have hrequest : readData k.fs (toU32 inode) pos (fileRequest (fileSize k.fs inode) nbytes) =
      some (n, sliceStores k.fs inode pos n.toNat) := by
    apply hdata
    · split_ifs <;> omega
    · split_ifs <;> omega
    · split_ifs <;> omega
  have hfix : n = if toU32 (fileSize k.fs inode) > pos ∧ n = 0 then nbytes else n := by
    rw [toU32_of_nonneg hsize.1 (by omega)]
    split_ifs <;> omega
  rw [fileRead_eq_of_readData nbytes hbuf hflags htable hnum hrequest hfix]
  refine ⟨rfl, rfl, ?_⟩
  simp only [descriptor_setDescriptor_self]
  exact toNat_ofInt_of_lt (by omega) (by omega)

end OopsOs
