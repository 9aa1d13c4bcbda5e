import OopsOs.Kernel
import OopsOs.BlockCopy

/-!
# The three terminals: storage pages, background output and switching

`terminal.c` keeps a storage page and a cursor for each terminal that is not
displayed, and a second copy of the console functions that writes into such a
page.  `save_and_switch_term` of `systemcalls.c` exchanges the displayed page
with a stored one.

A terminal has one logical screen at any time, which is the console's when the
terminal is active and the stored one otherwise.
-/

namespace OopsOs

open ByteMem

@[simp] def video : Int := 0xB8000
@[simp] def fourKb : Nat := 4096
@[simp] def buffSize : Int := 128

/-- One turn of the loop of `terminal_open`. -/
def openTerminal (k : Kernel) (j : Fin 3) : Kernel :=
  let k := k.modifyTerminal j (fun T =>
    { T with
      videoMemoryStorageLocation := video + fourKb * ((j.val : Int) + 1)
      xPosition := 0
      yPosition := 0
      keyboardBuffer := fun i => if 0 ≤ i ∧ i < buffSize then 0 else T.keyboardBuffer i
      bufferIndex := 0
      readIndex := 0
      readFlag := 0
      current := ⟨0, 0, none⟩ })
  k.setMem (clearCells k.console.mem (k.terminal j).videoMemoryStorageLocation)

def terminalOpen (k : Kernel) : Kernel :=
  openTerminal (openTerminal (openTerminal k 0) 1) 2

/-! ## Output to a terminal that is not displayed -/

/-- The rows are taken from the storage page of the active terminal. -/
def activeTerminalScrollUp (k : Kernel) (numOfActive : Fin 3) : Kernel :=
  let k := k.setMem (scrollRows k.console.mem
    (k.terminal numOfActive).videoMemoryStorageLocation
    (k.terminal k.activeTerminal).videoMemoryStorageLocation)
  k.modifyTerminal numOfActive (fun T =>
    { T with xPosition := 0, yPosition := numRows - 1 })

def activeTerminalHandleEnter (k : Kernel) (numOfActive : Fin 3) : Kernel :=
  let k := k.modifyTerminal numOfActive (fun T =>
    { T with yPosition := T.yPosition + 1, xPosition := 0 })
  if (k.terminal numOfActive).yPosition = numRows then
    activeTerminalScrollUp k numOfActive
  else k

def activeTerminalHandleTab (k : Kernel) (numOfActive : Fin 3) : Kernel :=
  if (k.terminal numOfActive).xPosition < numCols - 8 then
    k.modifyTerminal numOfActive (fun T => { T with xPosition := T.xPosition + 8 })
  else
    let k := k.modifyTerminal numOfActive (fun T =>
      { T with yPosition := T.yPosition + 1, xPosition := 8 })
    if (k.terminal numOfActive).yPosition = numRows then
      activeTerminalScrollUp k numOfActive
    else k

/-- The store of one cell at the stored cursor of a terminal. -/
def storeAtPosition (k : Kernel) (t : Fin 3) (c : UInt8) : Kernel :=
  let T := k.terminal t
  k.setMem (storeCell k.console.mem T.videoMemoryStorageLocation
    (cellOffset T.xPosition T.yPosition) c)

/-- At column 0 the test is on `screen_y`, the displayed terminal's row. -/
def activeTerminalHandleBackspace (k : Kernel) (numOfActive : Fin 3) : Kernel :=
  let k :=
    if (k.terminal numOfActive).xPosition > 0 then
      k.modifyTerminal numOfActive (fun T => { T with xPosition := T.xPosition - 1 })
    else if k.console.screenY > 0 then
      k.modifyTerminal numOfActive (fun T =>
        { T with xPosition := numCols - 1, yPosition := T.yPosition - 1 })
    else k
  storeAtPosition k numOfActive blank

/-- The end-of-row test is on `screen_x`, the displayed terminal's column. -/
def activeTerminalHandleNormalChar (k : Kernel) (numOfActive : Fin 3) (c : UInt8) : Kernel :=
  let k := storeAtPosition k numOfActive c
  if k.console.screenX = numCols - 1 then
    let k := k.modifyTerminal numOfActive (fun T =>
      { T with xPosition := 0, yPosition := T.yPosition + 1 })
    if (k.terminal numOfActive).yPosition = numRows then
      activeTerminalScrollUp k numOfActive
    else k
  else
    k.modifyTerminal numOfActive (fun T => { T with xPosition := T.xPosition + 1 })

def activeTerminalPutc (k : Kernel) (numOfActive : Fin 3) (c : UInt8) : Kernel :=
  if c = 0x0A ∨ c = 0x0D then activeTerminalHandleEnter k numOfActive
  else if c = 0x09 then activeTerminalHandleTab k numOfActive
  else if c = 0x08 then activeTerminalHandleBackspace k numOfActive
  else activeTerminalHandleNormalChar k numOfActive c

/-- One character of `terminal_write`. -/
def terminalPutc (k : Kernel) (c : UInt8) : Kernel :=
  if c = 0 then k
  else if k.currentRunningProcessCount < 3 ∨ k.nextTerminalInSchedule = k.activeTerminal then
    k.onConsole (fun s => s.putc c)
  else
    activeTerminalPutc k k.nextTerminalInSchedule c

/-- `terminal_write`; `buffer` is `none` for the null pointer. -/
def terminalWrite (k : Kernel) (buffer : Option (Nat → UInt8)) (nbytes : Int) : Kernel × Int :=
  match buffer with
  | none => (k, -1)
  | some buffer =>
      if nbytes < 0 then (k, -1)
      else if (k.terminal k.activeTerminal).bufferIndex = buffSize then (k, 0)
      else (loop nbytes.toNat (fun i k => terminalPutc k (buffer i)) k, nbytes)

/-! ## Switching terminals -/

/-- The two `memcpy` calls of `save_and_switch_term`. -/
def switchCopies (k : Kernel) (newActive : Fin 3) : Mem :=
  let m := memcpy k.console.mem
    (k.terminal k.activeTerminal).videoMemoryStorageLocation video fourKb
  memcpy m video (k.terminal newActive).videoMemoryStorageLocation fourKb

def saveAndSwitchTerm (k : Kernel) (newActive : Fin 3) : Kernel :=
  if newActive = k.activeTerminal then k
  else
    let k := k.setMem (switchCopies k newActive)
    let k := k.modifyTerminal k.activeTerminal (fun T =>
      { T with yPosition := k.console.screenY, xPosition := k.console.screenX })
    let k := k.onConsole (fun s =>
      { s with
        screenY := (k.terminal newActive).yPosition
        screenX := (k.terminal newActive).xPosition })
    k.setActive newActive

/-- The storage pages are where `terminal_open` puts them, and nothing moves them. -/
structure Laid (k : Kernel) : Prop where
  videoMem : k.console.videoMem = video
  storage : ∀ t, (k.terminal t).videoMemoryStorageLocation = video + 4096 * ((t.val : Int) + 1)

/-- The screen kept for a terminal that is not displayed. -/
def storedScreen (k : Kernel) (t : Fin 3) : Screen :=
  ⟨page k.console.mem (k.terminal t).videoMemoryStorageLocation,
    (k.terminal t).xPosition, (k.terminal t).yPosition⟩

/-- The one screen a terminal has at any time. -/
def logicalScreen (k : Kernel) (t : Fin 3) : Screen :=
  if t = k.activeTerminal then k.console.screen else storedScreen k t

end OopsOs
