import OopsOs.Console

/-!
# The global state of the kernel

The variables of the C files, one record field each, under the names of the
source.  Fields that no modelled function reads are left out
(`shell_process_num`, `previous_process_num`, `process_activated`, `rtc_lock`
of `terminal_t`, `is_visible`).

A saved register context is the pair ESP, EBP that the kernel stores; it also
carries the process whose context it is.  That tag is carried along by every
copy, and no kernel function looks at it.
-/

namespace OopsOs

open ByteMem

/-! The numbers of terminals, of process slots and of file descriptors of a process. -/

instance terminalsNeZero : NeZero 3 := ⟨by decide⟩

instance slotsNeZero : NeZero 6 := ⟨by decide⟩

instance descriptorsNeZero : NeZero 8 := ⟨by decide⟩

/-- The process a context belongs to: the terminal it runs on and its slot. -/
structure Owner where
  term : Fin 3
  pid : Fin 6
deriving DecidableEq, Repr

/-- ESP and EBP, with the process they were taken from. -/
structure Context where
  esp : Nat
  ebp : Nat
  owner : Option Owner
deriving DecidableEq, Repr

/-- `file_op_jmp_table *`: null, one of the four tables, or some other word. -/
inductive OpPtr
  | null
  | termTable
  | rtcTable
  | directoryTable
  | fileTable
  | word (w : Nat)
deriving DecidableEq, Repr

/-- `file_descriptor_t`. -/
structure FileDescriptor where
  descriptorOpPtr : OpPtr
  inodeNum : UInt32
  filePos : UInt32
  flags : UInt32
deriving DecidableEq, Repr

/-- `pcb_t`; `saved` is the pair of fields `esp`, `ebp`. -/
structure Pcb where
  fileDescriptorArray : Fin 8 → FileDescriptor
  saved : Context
  processNum : Fin 6
  arguments : Nat → UInt8

/-- `terminal_t`; `current` is the pair of fields `current_esp`, `current_ebp`. -/
structure Terminal where
  xPosition : Int
  yPosition : Int
  keyboardBuffer : Int → UInt8
  bufferIndex : Int
  readIndex : Int
  readFlag : Int
  processNum : Fin 6
  videoMemoryStorageLocation : Int
  current : Context

structure Kernel where
  -- lib.c
  console : Console
  -- terminal.h
  terminal : Fin 3 → Terminal
  activeTerminal : Fin 3
  -- schedule.h
  currentRunningProcessCount : Nat
  nextTerminalInSchedule : Fin 3
  scheduleActivated : Bool
  -- systemcalls.c
  pcbOccupants : Fin 6 → Int
  processPrevious : Fin 6 → Fin 6
  pcb : Fin 6 → Pcb
  -- paging.h and the TSS
  pDirectory : Nat → Nat
  esp0 : Nat
  -- i8259.c
  masterBitMask : BitVec 8
  slaveBitMask : BitVec 8
  -- keyboard.c
  shiftStatus : Bool
  altStatus : Bool
  capsStatus : Bool
  ctrlStatus : Bool
  leftRightCursorCounter : Int
  leftRightCursorOffsetter : Int
  -- rtc.c
  isRtcInterruptFlag : Int
  -- the file system image, addressed from `g_b_block`
  fs : Mem

namespace Kernel

@[simps -fullyApplied] def modifyTerminal (k : Kernel) (t : Fin 3) (f : Terminal → Terminal) : Kernel :=
  { k with terminal := Function.update k.terminal t (f (k.terminal t)) }

@[simps -fullyApplied] def setMem (k : Kernel) (m : Mem) : Kernel :=
  { k with console := { k.console with mem := m } }

/-- A console function as a kernel function. -/
@[simps -fullyApplied] def onConsole (k : Kernel) (f : Console → Console) : Kernel :=
  { k with console := f k.console }

/-- `active_terminal = t`. -/
@[simps -fullyApplied] def setActive (k : Kernel) (t : Fin 3) : Kernel :=
  { k with activeTerminal := t }

/-- `printf` of a text without conversions. -/
@[simps! -fullyApplied] def printf (k : Kernel) (text : String) : Kernel :=
  k.onConsole (fun s => s.puts text)

end Kernel

/-! ## Zeroed globals -/

def Context.zero : Context := ⟨0, 0, none⟩

def FileDescriptor.zero : FileDescriptor := ⟨.null, 0, 0, 0⟩

def Pcb.zero : Pcb := ⟨fun _ => .zero, .zero, 0, fun _ => 0⟩

def Terminal.zero : Terminal := ⟨0, 0, fun _ => 0, 0, 0, 0, 0, 0, .zero⟩

/-- The globals before `entry` runs, over the given video memory and file system image. -/
def Kernel.zero (mem fs : Mem) : Kernel where
  console := ⟨0xB8000, mem, 0, 0⟩
  terminal := fun _ => .zero
  activeTerminal := 0
  currentRunningProcessCount := 0
  nextTerminalInSchedule := 0
  scheduleActivated := false
  pcbOccupants := fun _ => 0
  processPrevious := fun _ => 0
  pcb := fun _ => .zero
  pDirectory := fun _ => 0
  esp0 := 0
  masterBitMask := 0
  slaveBitMask := 0
  shiftStatus := false
  altStatus := false
  capsStatus := false
  ctrlStatus := false
  leftRightCursorCounter := 0
  leftRightCursorOffsetter := 0
  isRtcInterruptFlag := 0
  fs := fs

/-- All globals, the video memory and the image zero. -/
def bareKernel : Kernel := Kernel.zero (fun _ => 0) (fun _ => 0)

/-! ## The interrupt controller -/

/-- The word `irq_num << 1` that `enable_irq` and `disable_irq` use as a mask. -/
def irqMask (line : Nat) : BitVec 32 := BitVec.ofNat 32 line <<< 1

def enableIrq (k : Kernel) (irqNum : Nat) : Kernel :=
  if irqNum ≥ 16 then k.printf "Invalid irq number"
  else if irqNum > 8 then
    { k with
      slaveBitMask := (~~~(irqMask (irqNum - 8)) &&& k.slaveBitMask.setWidth 32).setWidth 8 }
  else
    { k with
      masterBitMask := (~~~(irqMask irqNum) &&& k.masterBitMask.setWidth 32).setWidth 8 }

/-- The slave branch takes the master's mask, as the source does. -/
def disableIrq (k : Kernel) (irqNum : Nat) : Kernel :=
  if irqNum ≥ 16 then k.printf "Invalid irq number"
  else if irqNum > 8 then
    { k with
      slaveBitMask := (irqMask (irqNum - 8) ||| k.masterBitMask.setWidth 32).setWidth 8 }
  else
    { k with
      masterBitMask := (irqMask irqNum ||| k.masterBitMask.setWidth 32).setWidth 8 }

/-- Line 1, the keyboard's, is masked. -/
def KeyboardMasked (k : Kernel) : Prop := k.masterBitMask.getLsbD 1 = true

instance (k : Kernel) : Decidable (KeyboardMasked k) :=
  inferInstanceAs (Decidable (_ = _))

theorem disableIrq_keyboard (k : Kernel) :
    disableIrq k 1 =
      { k with masterBitMask := (irqMask 1 ||| k.masterBitMask.setWidth 32).setWidth 8 } := by
  simp [disableIrq]

theorem enableIrq_keyboard (k : Kernel) :
    enableIrq k 1 =
      { k with masterBitMask := (~~~(irqMask 1) &&& k.masterBitMask.setWidth 32).setWidth 8 } := by
  simp [enableIrq]

theorem keyboardMasked_disableIrq (k : Kernel) : KeyboardMasked (disableIrq k 1) := by
  simp [disableIrq_keyboard, KeyboardMasked, irqMask]

theorem not_keyboardMasked_enableIrq (k : Kernel) : ¬ KeyboardMasked (enableIrq k 1) := by
  simp [enableIrq_keyboard, KeyboardMasked, irqMask]

end OopsOs
