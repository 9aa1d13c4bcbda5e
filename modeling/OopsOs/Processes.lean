import OopsOs.SystemCalls

/-!
# `execute` and `halt`

The two system calls that start and end processes.  The process table is
spread over `pcb_occupants`, `process_previous` and `terminal[].process_num`;
`execute` goes by `active_terminal`, the displayed terminal, and `halt` looks
for the terminal whose `process_num` is the halting process.

The program image is copied into user memory, which is not part of the kernel
record; what is kept of it is the page directory entry that maps it.
-/

namespace OopsOs

open ByteMem

def eightMb : Nat := 0x800000
def eightKb : Nat := 0x2000
def fourMb : Nat := 0x400000

/-- The page directory entry of the program page of process `pid`. -/
def programPage (pid : Fin 6) : Nat := (eightMb + fourMb * pid.val) ||| 0x87

/-- The top of the kernel stack of process `pid`. -/
def kernelStack (pid : Fin 6) : Nat := eightMb - eightKb * pid.val - 4

theorem programPage_injective : Function.Injective programPage := by
  decide

/-- The address of the control block of slot `pid`, at the bottom of its kernel stack. -/
def pcbAddress (pid : Fin 6) : Nat := eightMb - eightKb * (pid.val + 1)

/-- `get_pcb` with `esp` in the stack pointer. -/
def getPcb (esp : Nat) : Nat := esp &&& 0xFFFFE000

/-- The slot whose control block `get_pcb` finds. -/
def pcbSlot (esp : Nat) : Option (Fin 6) :=
  (List.finRange 6).find? (fun pid => getPcb esp = pcbAddress pid)

/-- From the top of a kernel stack `get_pcb` finds the control block of that stack. -/
theorem pcbSlot_kernelStack (pid : Fin 6) : pcbSlot (kernelStack pid) = some pid := by
  revert pid
  decide

/-! ## Command lines and executables -/

/-- `parse`: the file name up to the first blank, and what follows that blank. -/
def parse (cmd : List UInt8) : List UInt8 × List UInt8 :=
  let text := cmd.takeWhile (fun c => c ≠ 0)
  (text.takeWhile (fun c => c ≠ 0x20), (text.dropWhile (fun c => c ≠ 0x20)).drop 1)

/-- Byte `j` of a zeroed buffer after the stores. -/
def storedByte (stores : Stores) (j : Int) : UInt8 :=
  stores.foldl (fun b st => if st.1 = j then st.2 else b) 0

/--
`check_valid`: the index node of an executable file, or -1.  A file is refused
only if all four bytes of the magic number differ.
-/
def checkValid (fs : Mem) (fname : List UInt8) : Int :=
  match readDentryByName fs fname with
  | none => -1
  | some i =>
      match readData fs (toU32 (dentryAt fs i).inodeNum) 0 4 with
      | none => -1
      | some (bytesRead, buf) =>
          if bytesRead ≠ 4 then -1
          else if storedByte buf 0 ≠ 0x7F ∧ storedByte buf 1 ≠ 0x45 ∧ storedByte buf 2 ≠ 0x4C ∧
              storedByte buf 3 ≠ 0x46 then -1
          else (dentryAt fs i).inodeNum

/-! ## Starting a process -/

/-- The first slot that is not occupied. -/
def freeSlot (k : Kernel) : Option (Fin 6) :=
  (List.finRange 6).find? (fun i => k.pcbOccupants i = 0)

/-- The slot is taken in the name of the displayed terminal. -/
def allocateSlot (k : Kernel) (pid : Fin 6) : Kernel :=
  let k :=
    { k with
      pcbOccupants := Function.update k.pcbOccupants pid (-1)
      processPrevious := Function.update k.processPrevious pid
        (k.terminal k.activeTerminal).processNum }
  k.modifyTerminal k.activeTerminal (fun T => { T with processNum := pid })

/--
The rest of `execute`: paging, process control block, TSS and the saved
context.  `go_to_ring_three` stores ESP and EBP, sixteen bytes further down,
over the first two words of the block.
-/
def enterProcess (k : Kernel) (pid : Fin 6) (args : List UInt8) (saved : Context) : Kernel :=
  let k := { k with pDirectory := Function.update k.pDirectory 32 (programPage pid) }
  let k := initPcb k pid
  let k :=
    { k with
      esp0 := kernelStack pid
      pcb := Function.update k.pcb pid
        { k.pcb pid with
          saved := saved
          arguments := fun i => if i < 32 then args.getD i 0 else (k.pcb pid).arguments i } }
  setDescriptor k pid 0
    { descriptor k pid 0 with
      descriptorOpPtr := .word (saved.esp - 16)
      inodeNum := UInt32.ofNat (saved.esp - 16) }

/--
`execute`, with the ESP and EBP it saves; the slot of the process it enters,
or `none` when it returns -1.
-/
def execute (k : Kernel) (cmd : List UInt8) (saved : Context) : Kernel × Option (Fin 6) :=
  let fileName := (parse cmd).1
  let k := reportName k fileName
  if checkValid k.fs fileName = -1 then (k.printf "curr i node number is invalid | ", none)
  else
    match freeSlot k with
    | none => (k.printf "too many processes, ", none)
    | some pid => (enterProcess (allocateSlot k pid) pid (parse cmd).2 saved, some pid)

/-- Everything that `execute` can do. -/
theorem execute_cases (k : Kernel) (cmd : List UInt8) (saved : Context) :
    ((checkValid k.fs (parse cmd).1 = -1 ∨ freeSlot k = none) ∧
      ∃ text, execute k cmd saved = ((reportName k (parse cmd).1).printf text, none)) ∨
    ∃ pid, checkValid k.fs (parse cmd).1 ≠ -1 ∧ freeSlot k = some pid ∧
      execute k cmd saved =
        (enterProcess (allocateSlot (reportName k (parse cmd).1) pid) pid (parse cmd).2 saved,
          some pid) := by
  have hfree : freeSlot (reportName k (parse cmd).1) = freeSlot k := by
    have hoccupants : (reportName k (parse cmd).1).pcbOccupants = k.pcbOccupants := by
      unfold reportName
      split_ifs
      · simp
      · rfl
    unfold freeSlot
    rw [hoccupants]
  unfold execute
  simp only [reportName_fs, hfree]
  split_ifs with hvalid
  · left
    exact ⟨Or.inl hvalid, _, rfl⟩
  · cases freeSlot k with
    | none =>
        left
        exact ⟨Or.inr rfl, _, rfl⟩
    | some pid =>
        right
        exact ⟨pid, hvalid, rfl, rfl⟩

/-- The command line `shell`. -/
def shellCommand : List UInt8 := [0x73, 0x68, 0x65, 0x6C, 0x6C]

/-- An image with one file, `shell`, that consists of the magic number of an executable. -/
def shellImage : Mem := fun a =>
  if a = 0 ∨ a = 4 ∨ a = 8 then 1
  else if 64 ≤ a ∧ a < 69 then shellCommand.getD (a - 64).toNat 0
  else if a = 96 then 2
  else if a = 4096 then 4
  else if 8192 ≤ a ∧ a < 8196 then [0x7F, 0x45, 0x4C, 0x46].getD (a - 8192).toNat 0
  else 0

theorem shellImage_valid : checkValid shellImage (parse shellCommand).1 ≠ -1 := by
  decide +kernel

/-! ## Ending a process -/

/-- How `halt` leaves: into a restarted shell, back to a saved context, or astray. -/
inductive HaltEnd
  | entered (pid : Fin 6)
  | resumed (c : Context)
  /-- No terminal has the process: `terminal[-1]` is used. -/
  | astray

/-- The loop over descriptors 2 to 7; `close` frees them, and no driver's `close` does more. -/
def closeDescriptors (k : Kernel) (slot : Fin 6) : Kernel :=
  { k with
    pcb := Function.update k.pcb slot
      { k.pcb slot with
        fileDescriptorArray := fun fd =>
          if 2 ≤ fd.val then { descriptor k slot fd with flags := 0, descriptorOpPtr := .null }
          else descriptor k slot fd } }

/-- The first terminal whose `process_num` is `pid`. -/
def processTerm (k : Kernel) (pid : Fin 6) : Option (Fin 3) :=
  (List.finRange 3).find? (fun i => (k.terminal i).processNum = pid)

/-- The way back to the parent, by `process_previous` and the context saved by `execute`. -/
def returnToParent (k : Kernel) (slot : Fin 6) (term : Fin 3) (pid : Fin 6) :
    Kernel × HaltEnd :=
  let k := k.modifyTerminal term (fun T => { T with processNum := k.processPrevious pid })
  ({ k with
      pDirectory := Function.update k.pDirectory 32 (programPage (k.terminal term).processNum)
      esp0 := (k.pcb slot).saved.esp },
    .resumed (k.pcb slot).saved)

/-- `halt` by the process of slot `slot`, with the ESP and EBP a restart saves. -/
def halt (k : Kernel) (slot : Fin 6) (saved : Context) : Kernel × HaltEnd :=
  let k := closeDescriptors k slot
  match processTerm k (k.pcb slot).processNum with
  | none => (k, .astray)
  | some term =>
      let pid := (k.terminal term).processNum
      let k := { k with pcbOccupants := Function.update k.pcbOccupants pid 0 }
      if pid = 0 ∨ pid = 1 ∨ pid = 2 then
        match execute (k.printf "Restarting Shell\n") shellCommand saved with
        | (k, some new) => (k, .entered new)
        | (k, none) => returnToParent k slot term pid
      else returnToParent k slot term pid

/-- The kernel after `halt` has closed the descriptors and freed the slot of terminal `term`. -/
def freedKernel (k : Kernel) (slot : Fin 6) (term : Fin 3) : Kernel :=
  { closeDescriptors k slot with
    pcbOccupants := Function.update k.pcbOccupants (k.terminal term).processNum 0 }

/-- The `execute("shell")` of `halt`. -/
def restartShell (k : Kernel) (slot : Fin 6) (term : Fin 3) (saved : Context) :
    Kernel × Option (Fin 6) :=
  execute ((freedKernel k slot term).printf "Restarting Shell\n") shellCommand saved

/-- Everything that `halt` can do. -/
theorem halt_cases (k : Kernel) (slot : Fin 6) (saved : Context) :
    (processTerm k (k.pcb slot).processNum = none ∧
      halt k slot saved = (closeDescriptors k slot, .astray)) ∨
    ∃ term, processTerm k (k.pcb slot).processNum = some term ∧
      ((3 ≤ (k.terminal term).processNum.val ∧
        halt k slot saved =
          returnToParent (freedKernel k slot term) slot term (k.terminal term).processNum) ∨
      ((k.terminal term).processNum.val < 3 ∧
        ((∃ k', restartShell k slot term saved = (k', none) ∧
          halt k slot saved = returnToParent k' slot term (k.terminal term).processNum) ∨
        ∃ k' new, restartShell k slot term saved = (k', some new) ∧
          halt k slot saved = (k', .entered new)))) := by
  have hnum : ((closeDescriptors k slot).pcb slot).processNum = (k.pcb slot).processNum := by
    simp [closeDescriptors]
  have hterm : processTerm (closeDescriptors k slot) = processTerm k := rfl
  unfold halt
  simp only [hnum, hterm]
  cases processTerm k (k.pcb slot).processNum with
  | none =>
      left
      exact ⟨rfl, rfl⟩
  | some term =>
      right
      refine ⟨term, rfl, ?_⟩
      simp only
      have hfreed : ({ closeDescriptors k slot with
          pcbOccupants := Function.update (closeDescriptors k slot).pcbOccupants
            ((closeDescriptors k slot).terminal term).processNum 0 } : Kernel) =
          freedKernel k slot term := rfl
      have hpid : ((closeDescriptors k slot).terminal term).processNum =
          (k.terminal term).processNum := rfl
      rw [hfreed, hpid]
      split_ifs with hlow
      · right
        refine ⟨by omega, ?_⟩
        unfold restartShell
        cases hexec : execute ((freedKernel k slot term).printf "Restarting Shell\n")
            shellCommand saved with
        | mk k' r =>
            cases r with
            | none =>
                left
                exact ⟨k', rfl, rfl⟩
            | some new =>
                right
                exact ⟨k', new, rfl, rfl⟩
      · left
        exact ⟨by omega, rfl⟩

end OopsOs
