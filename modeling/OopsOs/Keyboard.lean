import OopsOs.Terminal

/-!
# The keyboard handler

`keyboard_handler` of `keyboard.c` for one scan code, with the four character
tables.  Everything it does goes to the active terminal, and the combination
of Alt with a function key makes another terminal the active one.
-/

namespace OopsOs

open ByteMem

/-! ## The character tables -/

def ascii (text : String) : List UInt8 :=
  text.toList.map (fun c => UInt8.ofNat c.toNat)

/--
A table from scan codes to characters.  The four tables of the source differ
in the rows of the main block only; from the function keys on, entries other
than those of the keypad's minus and plus are zero.
-/
def scancodeTable (digits top home bottom : String) : List UInt8 :=
  [0, 27] ++ ascii digits ++ [0x08, 0x09] ++ ascii top ++ [0x0A, 0] ++ ascii home ++ [0] ++
    ascii bottom ++ [0] ++ ascii "*" ++ [0] ++ ascii " " ++ [0] ++ List.replicate 15 0 ++
    ascii "-" ++ [0, 0, 0] ++ ascii "+"

def keyboardScancodeRegular : List UInt8 :=
  scancodeTable "1234567890-=" "qwertyuiop[]" "asdfghjkl;\x27\x60" "\\zxcvbnm,./"

def keyboardScancodeShift : List UInt8 :=
  scancodeTable "!@#$%^&*()_+" "QWERTYUIOP\x7b\x7d" "ASDFGHJKL:\"~" "|ZXCVBNM<>?"

def keyboardScancodeCaps : List UInt8 :=
  scancodeTable "1234567890-=" "QWERTYUIOP[]" "ASDFGHJKL;\x27\x60" "\\ZXCVBNM,./"

def keyboardScancodeShiftAndCaps : List UInt8 :=
  scancodeTable "!@#$%^&*()_+" "qwertyuiop\x7b\x7d" "asdfghjkl:\"~" "|zxcvbnm<>?"

/-- `keypress_handler`. -/
def keypressHandler (k : Kernel) (keypress : Nat) : UInt8 :=
  if 0 < keypress ∧ keypress < 128 then
    if k.shiftStatus = true ∧ k.capsStatus = false then keyboardScancodeShift.getD keypress 0
    else if k.shiftStatus = false ∧ k.capsStatus = true then keyboardScancodeCaps.getD keypress 0
    else if k.shiftStatus = true ∧ k.capsStatus = true then
      keyboardScancodeShiftAndCaps.getD keypress 0
    else keyboardScancodeRegular.getD keypress 0
  else 0

/-! ## The keys -/

/-- ENTER: the line of the active terminal is published through `read_index` and `read_flag`. -/
def keyEnter (k : Kernel) : Kernel :=
  let k := k.onConsole (fun s => s.putc 0x0A)
  let k := k.modifyTerminal k.activeTerminal (fun T =>
    { T with readIndex := T.bufferIndex, readFlag := 1, bufferIndex := 0 })
  { k with leftRightCursorCounter := 0, leftRightCursorOffsetter := 0 }

def keyBackspace (k : Kernel) : Kernel :=
  let k :=
    if (k.terminal k.activeTerminal).bufferIndex < 0 then
      k.modifyTerminal k.activeTerminal (fun T => { T with bufferIndex := 0 })
    else k
  if (k.terminal k.activeTerminal).bufferIndex > 0 then
    let k := k.onConsole (fun s => s.putc 0x08)
    let k := k.modifyTerminal k.activeTerminal (fun T =>
      { T with bufferIndex := T.bufferIndex - 1 })
    { k with leftRightCursorOffsetter := k.leftRightCursorOffsetter + 1 }
  else k

def keyLeft (k : Kernel) : Kernel :=
  if (k.terminal k.activeTerminal).bufferIndex ≤ 0 then k
  else
    let k :=
      if (k.terminal k.activeTerminal).bufferIndex > k.leftRightCursorCounter then
        { k with leftRightCursorCounter := (k.terminal k.activeTerminal).bufferIndex }
      else k
    let k := k.modifyTerminal k.activeTerminal (fun T =>
      { T with bufferIndex := T.bufferIndex - 1 })
    k.onConsole (fun s => { s with screenX := s.screenX - 1 })

/-- RIGHT moves past the typed characters as well: only the column is looked at. -/
def keyRight (k : Kernel) : Kernel :=
  if (k.leftRightCursorCounter + k.leftRightCursorOffsetter).tmod numCols ≤ k.console.screenX then k
  else
    let k :=
      if k.leftRightCursorOffsetter > 0 then
        { k with leftRightCursorOffsetter := k.leftRightCursorOffsetter - 1 }
      else k
    let k := k.modifyTerminal k.activeTerminal (fun T =>
      { T with bufferIndex := T.bufferIndex + 1 })
    k.onConsole (fun s => { s with screenX := s.screenX + 1 })

/-- The counters of the arrow keys. -/
@[simps -fullyApplied console] def setCounters (k : Kernel) (counter offsetter : Int) : Kernel :=
  { k with leftRightCursorCounter := counter, leftRightCursorOffsetter := offsetter }

/-- The index of the active terminal and the column of the cursor, moved together. -/
@[simps! -fullyApplied terminal activeTerminal leftRightCursorCounter leftRightCursorOffsetter
  console_screenX]
def moveIndex (k : Kernel) (d : Int) : Kernel :=
  (k.modifyTerminal k.activeTerminal (fun T => { T with bufferIndex := T.bufferIndex + d })).onConsole
    (fun s => { s with screenX := s.screenX + d })

/-- LEFT in a line that is not empty. -/
theorem keyLeft_of_pos {k : Kernel} (h : 0 < (k.terminal k.activeTerminal).bufferIndex) :
    keyLeft k =
      moveIndex
        (setCounters k (max k.leftRightCursorCounter (k.terminal k.activeTerminal).bufferIndex)
          k.leftRightCursorOffsetter) (-1) := by
  unfold keyLeft
  rw [if_neg (by omega)]
  split_ifs with hcounter
  · rw [max_eq_right (by omega)]
    rfl
  · rw [max_eq_left (by omega)]
    rfl

theorem keyLeft_of_nonpos {k : Kernel} (h : (k.terminal k.activeTerminal).bufferIndex ≤ 0) :
    keyLeft k = k := if_pos h

/-- RIGHT before the column of the counters. -/
theorem keyRight_of_lt {k : Kernel}
    (h : k.console.screenX < (k.leftRightCursorCounter + k.leftRightCursorOffsetter).tmod 80) :
    keyRight k =
      moveIndex
        (setCounters k k.leftRightCursorCounter
          (if k.leftRightCursorOffsetter > 0 then k.leftRightCursorOffsetter - 1
            else k.leftRightCursorOffsetter)) 1 := by
  unfold keyRight numCols
  rw [if_neg (not_le.mpr h)]
  split_ifs with hoffset
  · rfl
  · rfl

theorem keyRight_of_le {k : Kernel}
    (h : (k.leftRightCursorCounter + k.leftRightCursorOffsetter).tmod 80 ≤ k.console.screenX) :
    keyRight k = k := if_pos h

/-- The three function keys under Alt. -/
def switchKey (k : Kernel) (scancode : Nat) : Kernel :=
  if scancode = 59 then (saveAndSwitchTerm k 0).setActive 0
  else if scancode = 60 then (saveAndSwitchTerm k 1).setActive 1
  else if scancode = 61 then (saveAndSwitchTerm k 2).setActive 2
  else k

/-- A character that is neither a control key nor Ctrl-L goes to the line buffer. -/
def typeChar (k : Kernel) (c : UInt8) : Kernel :=
  if (k.terminal k.activeTerminal).bufferIndex < 128 then
    let pos := (k.terminal k.activeTerminal).bufferIndex
    let k := k.modifyTerminal k.activeTerminal (fun T =>
      { T with keyboardBuffer := Function.update T.keyboardBuffer pos c })
    let k := (terminalWrite k
      (some (fun i => (k.terminal k.activeTerminal).keyboardBuffer (pos + i))) 1).1
    k.modifyTerminal k.activeTerminal (fun T => { T with bufferIndex := T.bufferIndex + 1 })
  else k

/-- The character at the index of the active terminal's buffer. -/
def storeTyped (k : Kernel) (c : UInt8) : Kernel :=
  k.modifyTerminal k.activeTerminal (fun T =>
    { T with keyboardBuffer := Function.update T.keyboardBuffer T.bufferIndex c })

/-- The index moved on. -/
def countTyped (k : Kernel) : Kernel :=
  k.modifyTerminal k.activeTerminal (fun T => { T with bufferIndex := T.bufferIndex + 1 })

/-- With room in the buffer, a character is stored, printed and counted. -/
theorem typeChar_of_room {k : Kernel} (c : UInt8)
    (h : (k.terminal k.activeTerminal).bufferIndex < 128) :
    typeChar k c = countTyped (terminalPutc (storeTyped k c) c) := by
  have hroom : (k.terminal k.activeTerminal).bufferIndex ≠ 128 := by omega
  unfold typeChar
  rw [if_pos h]
  simp only [terminalWrite, loop, Kernel.modifyTerminal_terminal, Kernel.modifyTerminal_activeTerminal,
    Function.update_self, buffSize, if_neg hroom, Int.toNat_one]
  simp only [Nat.cast_zero, add_zero, Function.update_self]
  rfl

theorem typeChar_full {k : Kernel} (c : UInt8)
    (h : ¬ (k.terminal k.activeTerminal).bufferIndex < 128) : typeChar k c = k := if_neg h

/-- The default branch of the handler. -/
def keyDefault (k : Kernel) (scancode : Nat) : Kernel :=
  let k := if k.altStatus = true then switchKey k scancode else k
  let c := keypressHandler k scancode
  if c = 0 then k
  else if k.ctrlStatus = true ∧ (c = 0x6C ∨ c = 0x4C) then k.onConsole Console.clear
  else typeChar k c

def keyboardHandler (k : Kernel) (scancode : Nat) : Kernel :=
  match scancode with
  | 29 => { k with ctrlStatus := true }
  | 157 => { k with ctrlStatus := false }
  | 54 => { k with shiftStatus := true }
  | 182 => { k with shiftStatus := false }
  | 42 => { k with shiftStatus := true }
  | 170 => { k with shiftStatus := false }
  | 56 => { k with altStatus := true }
  | 184 => { k with altStatus := false }
  | 58 => { k with capsStatus := !k.capsStatus }
  | 28 => keyEnter k
  | 15 => k.onConsole (fun s => s.putc 0x09)
  | 14 => keyBackspace k
  | 72 => k
  | 80 => k
  | 75 => keyLeft k
  | 77 => keyRight k
  | 0 => k
  | code => keyDefault k code

/-- The scan codes one after the other. -/
def pressKeys (k : Kernel) (codes : List Nat) : Kernel := codes.foldl keyboardHandler k

@[simp] theorem pressKeys_nil (k : Kernel) : pressKeys k [] = k := rfl

@[simp] theorem pressKeys_cons (k : Kernel) (code : Nat) (codes : List Nat) :
    pressKeys k (code :: codes) = pressKeys (keyboardHandler k code) codes := rfl

theorem pressKeys_append (k : Kernel) (codes codes' : List Nat) :
    pressKeys k (codes ++ codes') = pressKeys (pressKeys k codes) codes' :=
  List.foldl_append

/-- The codes without a branch of their own. -/
theorem keyboardHandler_default (k : Kernel) {code : Nat}
    (h : code ∉ [29, 157, 54, 182, 42, 170, 56, 184, 58, 28, 15, 14, 72, 80, 75, 77, 0]) :
    keyboardHandler k code = keyDefault k code := by
  unfold keyboardHandler
  split <;> first | rfl | exact absurd (by decide) h

/-- The tables agree with the key positions of the function keys: they type nothing. -/
theorem keypressHandler_functionKey (k : Kernel) {code : Nat} (h : 59 ≤ code ∧ code ≤ 61) :
    keypressHandler k code = 0 := by
  obtain ⟨hlo, hhi⟩ := h
  have hcode : code = 59 ∨ code = 60 ∨ code = 61 := by omega
  unfold keypressHandler
  rcases hcode with rfl | rfl | rfl <;> split_ifs <;> rfl

end OopsOs
