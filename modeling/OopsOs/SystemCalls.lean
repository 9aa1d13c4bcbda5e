import OopsOs.FileSystem
import OopsOs.Terminal

/-!
# The file system calls and the drivers behind them

`open`, `close`, `read` and `write` of `systemcalls.c` for the process of a given
slot, with the `read` and `write` functions of the four drivers they dispatch to.

Two of the drivers wait for an interrupt in a loop.  A read therefore takes
the kernel function `interrupts` that stands for all the handlers that run
while it waits; every state of the kernel that a waiting loop can see is
reached that way.  A loop whose condition still does not hold goes on waiting,
and the call has not ended.
-/

namespace OopsOs

open ByteMem

/-- How a call ends. -/
inductive Outcome
  | returned (value : Int)
  /-- It still waits for an interrupt. -/
  | waiting
  /-- It went through a `descriptor_op_ptr` that is none of the four tables. -/
  | wild
deriving DecidableEq, Repr

/-- What a `read` leaves: the kernel, the stores into the caller's buffer, the end. -/
structure ReadCall where
  kernel : Kernel
  stores : Stores
  outcome : Outcome

/-! ## Descriptors of a process -/

/-- `get_pcb()->file_descriptor_array[fd]` in the process of slot `pid`. -/
def descriptor (k : Kernel) (pid : Fin 6) (fd : Fin 8) : FileDescriptor :=
  (k.pcb pid).fileDescriptorArray fd

def setDescriptor (k : Kernel) (pid : Fin 6) (fd : Fin 8) (d : FileDescriptor) : Kernel :=
  { k with
    pcb := Function.update k.pcb pid
      { k.pcb pid with
        fileDescriptorArray := Function.update (k.pcb pid).fileDescriptorArray fd d } }

/-- The test `fd < FD_MIN || fd > FD_MAX`. -/
def fdIndex (fd : Int) : Option (Fin 8) :=
  if h : 0 ≤ fd ∧ fd ≤ 7 then some ⟨fd.toNat, by omega⟩ else none

/-- `init_pcb`, on the slot `pid`. -/
def initPcb (k : Kernel) (pid : Fin 6) : Kernel :=
  { k with
    pcb := Function.update k.pcb pid
      { k.pcb pid with
        fileDescriptorArray := fun fd =>
          if fd.val < 2 then ⟨.termTable, 0, 0, 1⟩ else ⟨.null, 0, 0, 0⟩
        processNum := pid } }

/-- `populate_pcb`. -/
def populatePcb (k : Kernel) (pid : Fin 6) (loc : Fin 8) (flags inodeNum : UInt32)
    (tablePtr : OpPtr) (filePos : UInt32) : Kernel :=
  setDescriptor k pid loc ⟨tablePtr, inodeNum, filePos, flags⟩

/-! ## Opening and closing -/

/-- The message that `read_dentry_by_name` prints on a name that is too long. -/
def reportName (k : Kernel) (fname : List UInt8) : Kernel :=
  if strlen fname > 32 then k.printf "read dentry by name inputs invalid " else k

@[simp] theorem reportName_fs (k : Kernel) (fname : List UInt8) :
    (reportName k fname).fs = k.fs := by
  unfold reportName
  split_ifs
  · simp
  · rfl

@[simp] theorem reportName_pcb (k : Kernel) (fname : List UInt8) :
    (reportName k fname).pcb = k.pcb := by
  unfold reportName
  split_ifs
  · simp
  · rfl

/-- The `switch` on the type of the entry: table, index node and file position. -/
def openKind (d : Dentry) : Option (OpPtr × UInt32 × UInt32) :=
  if d.type = 0 then some (.rtcTable, 0, UInt32.ofInt (-1))
  else if d.type = 1 then some (.directoryTable, 0, 0)
  else if d.type = 2 then some (.fileTable, UInt32.ofInt d.inodeNum, 0)
  else none

/-- The first descriptor whose flags are zero. -/
def freeDescriptor (k : Kernel) (pid : Fin 6) : Option (Fin 8) :=
  (List.finRange 8).find? (fun fd => (descriptor k pid fd).flags = 0)

/-- `open` from the switch on: the first free descriptor is filled in. -/
def openEntry (k : Kernel) (pid : Fin 6) (i : Nat) : Kernel × Int :=
  match openKind (dentryAt k.fs i) with
  | none => (k, -1)
  | some (tablePtr, indexNodeNum, filePos) =>
      match freeDescriptor k pid with
      | none => (k, -1)
      | some loc =>
          (populatePcb k pid loc 1 indexNodeNum tablePtr filePos, (loc.val : Int))

/-- `open`; the `open` functions of the three tables change no kernel variable. -/
def openFile (k : Kernel) (pid : Fin 6) (filename : List UInt8) : Kernel × Int :=
  if cstr filename 0 = 0 then (k.printf "invalid filename input to system calls open", -1)
  else
    let k := reportName k filename
    match readDentryByName k.fs filename with
    | none => (k.printf "read dentry by name failed : system calls open", -1)
    | some i => openEntry k pid i

/-- `close`; the `close` functions of the four tables return 0. -/
def close (k : Kernel) (pid : Fin 6) (fd : Int) : Kernel × Outcome :=
  let k :=
    if fd = 0 then setDescriptor k pid 0 { descriptor k pid 0 with descriptorOpPtr := .termTable }
    else k
  match fdIndex fd with
  | none => (k.printf "system calls close failed", .returned (-1))
  | some fd =>
      if (descriptor k pid fd).flags = 0 ∨ fd = 1 ∨ fd = 0 then
        (k.printf "system calls close failed", .returned (-1))
      else
        (setDescriptor k pid fd { descriptor k pid fd with flags := 0 },
          match (descriptor k pid fd).descriptorOpPtr with
          | .null => .wild
          | .word _ => .wild
          | _ => .returned 0)

/-! ## The drivers' `read` functions -/

/-- The state in which the waiting loop of `terminal_read` looks at `read_flag` last. -/
def polledLine (interrupts : Kernel → Kernel) (k : Kernel) : Kernel :=
  if (k.terminal k.activeTerminal).readFlag = 1 then k else interrupts k

/-- The stores of `terminal_read`: the typed characters, a newline and a NUL. -/
def lineStores (T : Terminal) : Stores :=
  (List.range T.readIndex.toNat).map (fun (i : Nat) => ((i : Int), T.keyboardBuffer (i : Int)))
    ++ [(T.readIndex, 0x0A), (T.readIndex + 1, 0)]

/-- `terminal_read`, without interrupts after the waiting loop. -/
def terminalRead (interrupts : Kernel → Kernel) (k : Kernel) (buffer : Nat) (nbytes : Int) :
    ReadCall :=
  if buffer = 0 ∨ nbytes < 0 then ⟨k.printf "fail", [], .returned (-1)⟩
  else if nbytes = 0 then ⟨k.printf "no bytes", [], .returned 0⟩
  else
    let k := polledLine interrupts k
    let T := k.terminal k.activeTerminal
    if T.readFlag = 1 then
      ⟨k.modifyTerminal k.activeTerminal (fun T =>
          { T with readIndex := T.readIndex + 1, readFlag := 0 }),
        lineStores T, .returned (T.readIndex + 1)⟩
    else ⟨k, [], .waiting⟩

def rtcRead (interrupts : Kernel → Kernel) (k : Kernel) : ReadCall :=
  let k := interrupts { k with isRtcInterruptFlag := 1 }
  if k.isRtcInterruptFlag = 0 then ⟨k, [], .returned 0⟩ else ⟨k, [], .waiting⟩

/-- The two loops of `strncpy` with the count 32: a name, then zeros. -/
def nameStores (name : Fin 32 → UInt8) : Stores :=
  (List.finRange 32).map (fun i =>
    ((i.val : Int), if ∀ j : Fin 32, j ≤ i → name j ≠ 0 then name i else 0))

def directoryRead (k : Kernel) (pid : Fin 6) (fd : Fin 8) : ReadCall :=
  let d := descriptor k pid fd
  match readDentryByIndex k.fs (d.filePos.toNat : Int) with
  | none => ⟨k, [], .returned 0⟩
  | some dentry =>
      ⟨setDescriptor k pid fd { d with filePos := d.filePos + 1 },
        nameStores dentry.name, .returned 32⟩

/--
`file_read`.  A result of 0 before the end of the file becomes `nbytes`; the
comparison with the file position is one of unsigned words.
-/
def fileRead (k : Kernel) (pid : Fin 6) (fd : Fin 8) (buf : Nat) (nbytes : Int) : ReadCall :=
  let d := descriptor k pid fd
  let inodeNumber := toS32 (d.inodeNum.toNat : Int)
  let lengthOfCurrNode := fileSize k.fs inodeNumber
  if buf = 0 then ⟨k.printf "buffer in file read is empty ", [], .returned (-1)⟩
  else if d.flags ≠ 1 then ⟨k.printf "pcb not in use ", [], .returned (-1)⟩
  else if d.descriptorOpPtr = .null then
    ⟨k.printf "file descriptor arrays op table pointer is null", [], .returned (-1)⟩
  else
    let fileOffset : Int := d.filePos.toNat
    let length := if nbytes > lengthOfCurrNode then lengthOfCurrNode else nbytes
    match readData k.fs (toU32 inodeNumber) fileOffset (toU32 length) with
    | none => ⟨k, [], .waiting⟩
    | some (bytesRead, stores) =>
        let numberOfBytesRead :=
          if toU32 lengthOfCurrNode > fileOffset ∧ bytesRead = 0 then nbytes else bytesRead
        ⟨setDescriptor k pid fd
            { d with filePos := UInt32.ofInt (fileOffset + numberOfBytesRead) },
          stores, .returned numberOfBytesRead⟩

/-- The table of descriptor 0 is set before it is used. -/
def pointStdin (k : Kernel) (pid : Fin 6) (fd : Fin 8) : Kernel :=
  if fd = 0 then setDescriptor k pid 0 { descriptor k pid 0 with descriptorOpPtr := .termTable }
  else k

/-- `read`, called by the process of slot `pid`. -/
def read (interrupts : Kernel → Kernel) (k : Kernel) (pid : Fin 6) (fd : Int) (buf : Nat)
    (nbytes : Int) : ReadCall :=
  match fdIndex fd with
  | none => ⟨k.printf "system calls read failed", [], .returned (-1)⟩
  | some fd =>
      if (descriptor k pid fd).flags = 0 ∨ buf = 0 ∨ fd = 1 then
        ⟨k.printf "system calls read failed", [], .returned (-1)⟩
      else
        let k := pointStdin k pid fd
        match (descriptor k pid fd).descriptorOpPtr with
        | .termTable => terminalRead interrupts k buf nbytes
        | .rtcTable => rtcRead interrupts k
        | .directoryTable => directoryRead k pid fd
        | .fileTable => fileRead k pid fd buf nbytes
        | .null => ⟨k, [], .wild⟩
        | .word _ => ⟨k, [], .wild⟩

/-! ## Writing -/

/-- `frequency_options` of `rtc_write`. -/
def frequencyOptions : List Int := [1024, 512, 256, 128, 64, 32, 16, 8, 4, 2]

/-- The loop of `rtc_write`: the rate that belongs to a frequency, or 0. -/
def rtcRate (interruptRate : Int) : Nat :=
  ((frequencyOptions.findIdx? (fun f => interruptRate = f)).map (fun i => i + 6)).getD 0

/-- `rtc_write`; the rate goes to the clock, and no kernel variable changes. -/
def rtcWrite (buffer : Option (Nat → UInt8)) (nbytes : Int) : Int :=
  match buffer with
  | none => -1
  | some buffer =>
      if nbytes ≠ 4 then -1
      else if rtcRate (int32At (fun a => buffer a.toNat) 0) ≤ 2 ∨
          rtcRate (int32At (fun a => buffer a.toNat) 0) > 15 then -1
      else 0

/--
`write`, called by the process of slot `pid`; `buf` is `none` for the null
pointer.  The file system is read-only: its two `write` functions return 0.
-/
def write (k : Kernel) (pid : Fin 6) (fd : Int) (buf : Option (Nat → UInt8)) (nbytes : Int) :
    Kernel × Outcome :=
  match fdIndex fd with
  | none => (k.printf "system calls write failed", .returned (-1))
  | some fd =>
      if (descriptor k pid fd).flags = 0 ∨ fd = 0 ∨ buf.isNone = true then
        (k.printf "system calls write failed", .returned (-1))
      else
        match (descriptor k pid fd).descriptorOpPtr with
        | .termTable => ((terminalWrite k buf nbytes).1, .returned (terminalWrite k buf nbytes).2)
        | .rtcTable => (k, .returned (rtcWrite buf nbytes))
        | .directoryTable => (k, .returned 0)
        | .fileTable => (k, .returned 0)
        | .null => (k, .wild)
        | .word _ => (k, .wild)

end OopsOs
