import OopsOs.LineInput
import OopsOs.Modifiers
import OopsOs.Lib.Buffers

/-!
# The line editor

`Editor` is what the keyboard is for while a line is typed: a list of
characters to which keys append and of which Backspace drops the last.  It knows
the cell of the screen its first character stands in, and that cell goes up by a
row when the last cell of the screen has been filled.

The handler keeps the same line three times over: in the buffer up to the
index, as the distance of the cursor from the first cell, and in the cells
between the two.
-/

namespace OopsOs

open ByteMem

/-! ## Characters of keys -/

/-- The table that `keypress_handler` looks into. -/
def keyTable : Bool → Bool → List UInt8
  | true, false => keyboardScancodeShift
  | false, true => keyboardScancodeCaps
  | true, true => keyboardScancodeShiftAndCaps
  | false, false => keyboardScancodeRegular

/-- The character of a key under the two flags. -/
def keyChar (shift caps : Bool) (code : Nat) : UInt8 :=
  if 0 < code ∧ code < 128 then (keyTable shift caps).getD code 0 else 0

theorem keypressHandler_eq (k : Kernel) (code : Nat) :
    keypressHandler k code = keyChar k.shiftStatus k.capsStatus code := by
  unfold keypressHandler keyChar
  cases k.shiftStatus <;> cases k.capsStatus <;> rfl

/-- A key with a character, other than Backspace, Tab and Enter. -/
def CharacterKey (code : Nat) : Prop :=
  code ∉ [14, 15, 28] ∧ ∃ k, keypressHandler k code ≠ 0

/-- A shift key, Caps Lock, Backspace or a character key. -/
def EditingKey (code : Nat) : Prop :=
  code ∈ [42, 54, 170, 182, 58, 14] ∨ CharacterKey code

/-- The four tables have characters for the same keys. -/
theorem keyTable_zeros : ∀ shift caps,
    (keyTable shift caps).map (fun c => decide (c = 0)) =
      (keyTable false false).map (fun c => decide (c = 0)) := by
  decide +kernel

/-- The characters that move the cursor without being drawn are those of three keys. -/
theorem keyTable_controls : ∀ shift caps,
    (keyTable shift caps).map (fun c => decide (c ∈ [0x08, 0x09, 0x0A, 0x0D])) =
      (List.range 79).map (fun code => decide (code ∈ [14, 15, 28])) := by
  decide +kernel

theorem keyChar_eq_zero_iff (shift caps : Bool) (code : Nat) :
    keyChar shift caps code = 0 ↔ keyChar false false code = 0 := by
  have hzeros := map_getD_congr (keyTable_zeros shift caps) (d := 0) (e := 0) rfl code
  rw [decide_eq_decide] at hzeros
  unfold keyChar
  split_ifs
  · exact hzeros
  · exact Iff.rfl

section Character

variable {code : Nat} (h : CharacterKey code)
include h

theorem CharacterKey.ne_zero (shift caps : Bool) : keyChar shift caps code ≠ 0 := by
  obtain ⟨-, k, hk⟩ := h
  rw [keypressHandler_eq] at hk
  intro hzero
  exact hk ((keyChar_eq_zero_iff _ _ code).mpr ((keyChar_eq_zero_iff shift caps code).mp hzero))

/-- It has no branch of its own in the handler. -/
theorem CharacterKey.not_mem :
    code ∉ [29, 157, 54, 182, 42, 170, 56, 184, 58, 28, 15, 14, 72, 80, 75, 77, 0] := by
  have hall : ∀ n ∈ [29, 157, 54, 182, 42, 170, 56, 184, 58, 28, 15, 14, 72, 80, 75, 77, 0],
      n ∉ [14, 15, 28] → keyChar false false n = 0 := by decide +kernel
  intro hmem
  exact h.ne_zero false false (hall code hmem h.1)

/-- It types a character that `putc` draws. -/
theorem CharacterKey.drawn (shift caps : Bool) :
    keyChar shift caps code ∉ [0x08, 0x09, 0x0A, 0x0D] := by
  have hcontrols := map_getD_congr (keyTable_controls shift caps) (d := 0) (e := 79) rfl code
  rw [decide_eq_decide] at hcontrols
  unfold keyChar
  split_ifs
  · rw [hcontrols]
    by_cases hcode : code < 79
    · rw [List.getD_eq_getElem _ _ (by simpa using hcode), List.getElem_range]
      exact h.1
    · rw [List.getD_eq_default _ _ (by simpa using hcode)]
      decide
  · decide

/-- Without Ctrl and Alt it is typed. -/
theorem CharacterKey.handler {k : Kernel} (hctrl : k.ctrlStatus = false)
    (halt : k.altStatus = false) :
    keyboardHandler k code = typeChar k (keyChar k.shiftStatus k.capsStatus code) := by
  rw [keyboardHandler_default k h.not_mem]
  unfold keyDefault
  simp only [halt, hctrl, Bool.false_eq_true, if_false, false_and]
  rw [keypressHandler_eq, if_neg (h.ne_zero k.shiftStatus k.capsStatus)]

end Character

theorem EditingKey.ne {code : Nat} (h : EditingKey code) {n : Nat}
    (hn : n ∈ [29, 157, 56, 184]) : code ≠ n := by
  rintro rfl
  rcases h with hlisted | hchar
  · simp only [List.mem_cons, List.not_mem_nil, or_false] at hn hlisted
    omega
  · have hnone := hchar.not_mem
    simp only [List.mem_cons, List.not_mem_nil, or_false, not_or] at hn hnone
    omega

/-! ## The reference editor -/

/-- A line on the screen, of at most 128 characters, with room for the cursor after it. -/
structure Editor where
  line : List UInt8
  start : Nat
  shift : Bool
  caps : Bool
  short : line.length ≤ 128
  fits : start + line.length < 2000

namespace Editor

/-- One more character; the screen scrolls when it fills the last cell. -/
def append (e : Editor) (c : UInt8) (h : e.line.length < 128) : Editor where
  line := e.line ++ [c]
  start := if e.start + e.line.length + 1 = 2000 then e.start - 80 else e.start
  shift := e.shift
  caps := e.caps
  short := by simpa using h
  fits := by
    have hfits := e.fits
    rw [List.length_append, List.length_singleton]
    split_ifs with hlast
    · omega
    · omega

def dropLast (e : Editor) : Editor where
  line := e.line.dropLast
  start := e.start
  shift := e.shift
  caps := e.caps
  short := by
    have := e.short
    rw [List.length_dropLast]
    omega
  fits := by
    have := e.fits
    rw [List.length_dropLast]
    omega

/-- A full line takes no more characters. -/
def type (e : Editor) (c : UInt8) : Editor :=
  if h : e.line.length < 128 then e.append c h else e

def press (e : Editor) (code : Nat) : Editor :=
  if code = 42 ∨ code = 54 then { e with shift := true }
  else if code = 170 ∨ code = 182 then { e with shift := false }
  else if code = 58 then { e with caps := !e.caps }
  else if code = 14 then e.dropLast
  else e.type (keyChar e.shift e.caps code)

theorem press_shift (e : Editor) (code : Nat) :
    (e.press code).shift =
      if code = 42 ∨ code = 54 then true
      else if code = 170 ∨ code = 182 then false
      else e.shift := by
  unfold press type
  split_ifs <;> rfl

theorem press_caps (e : Editor) (code : Nat) :
    (e.press code).caps = if code = 58 then !e.caps else e.caps := by
  unfold press type
  split_ifs <;> first | rfl | omega

/-- The empty line at the cursor. -/
def empty (k : Kernel) (h : k.console.screen.InBounds) : Editor where
  line := []
  start := (80 * k.console.screenY + k.console.screenX).toNat
  shift := k.shiftStatus
  caps := k.capsStatus
  short := by simp
  fits := by
    obtain ⟨hx0, hx1, hy0, hy1⟩ := h
    simp only [Console.screen_x, Console.screen_y] at hx0 hx1 hy0 hy1
    rw [List.length_nil]
    omega

end Editor

/-! ## The line on the screen -/

/-- The cells from number `start` on show the characters. -/
def ShowsLine (m : Mem) (base : Int) (start : Nat) (line : List UInt8) : Prop :=
  ∀ i : Fin line.length,
    m (base + 2 * (start + i)) = line.get i ∧ m (base + 2 * (start + i) + 1) = attrib

section Cells

variable {m : Mem} {base : Int} {start : Nat} {line : List UInt8}

theorem ShowsLine.append (h : ShowsLine m base start line) (c : UInt8) {off : Int}
    (hoff : off = 2 * (start + line.length)) :
    ShowsLine (storeCell m base off c) base start (line ++ [c]) := by
  rintro ⟨i, hi⟩
  rw [List.length_append, List.length_singleton] at hi
  simp only [storeCell_apply, List.get_eq_getElem]
  by_cases hlast : i = line.length
  · subst hlast
    refine ⟨?_, ?_⟩
    · rw [if_neg (by omega), if_pos (by omega), List.getElem_concat_length rfl]
    · rw [if_pos (by omega)]
  · have hlt : i < line.length := by omega
    obtain ⟨hchar, hattr⟩ := h ⟨i, hlt⟩
    refine ⟨?_, ?_⟩
    · rw [if_neg (by omega), if_neg (by omega), List.getElem_append_left hlt]
      exact hchar
    · rw [if_neg (by omega), if_neg (by omega)]
      exact hattr

/-- A store into the last cell leaves the line before it. -/
theorem ShowsLine.dropLast (h : ShowsLine m base start line) (c : UInt8) {off : Int}
    (hoff : off + 2 = 2 * (start + line.length)) :
    ShowsLine (storeCell m base off c) base start line.dropLast := by
  rintro ⟨i, hi⟩
  rw [List.length_dropLast] at hi
  have hlt : i < line.length := by omega
  obtain ⟨hchar, hattr⟩ := h ⟨i, hlt⟩
  simp only [storeCell_apply, List.get_eq_getElem, List.getElem_dropLast]
  refine ⟨?_, ?_⟩
  · rw [if_neg (by omega), if_neg (by omega)]
    exact hchar
  · rw [if_neg (by omega), if_neg (by omega)]
    exact hattr

/-- A scroll moves the line up by a row. -/
theorem ShowsLine.scroll (h : ShowsLine m base start line) (hlow : 80 ≤ start)
    (hhigh : start + line.length ≤ 2000) :
    ShowsLine (scrollRows m base base) base (start - 80) line := by
  rintro ⟨i, hi⟩
  obtain ⟨hchar, -⟩ := h ⟨i, hi⟩
  simp only at hchar ⊢
  rw [scrollRows_apply _ (pagesApart_self base), scrollRows_apply _ (pagesApart_self base),
    if_pos (by omega), if_pos (by omega)]
  unfold scrolledByte
  refine ⟨?_, ?_⟩
  · rw [if_neg (by omega), if_pos (by omega), ← hchar]
    congr 1
    omega
  · rw [if_pos (by omega)]

end Cells

/-- The console shows the line, with the cursor after its last character. -/
structure ShowsEditor (e : Editor) (s : Console) : Prop where
  column : 0 ≤ s.screenX ∧ s.screenX < 80
  cursor : 80 * s.screenY + s.screenX = e.start + e.line.length
  cells : ShowsLine s.mem s.videoMem e.start e.line

section Screen

variable {e : Editor} {s : Console} (h : ShowsEditor e s)
include h

theorem ShowsEditor.cellOffset : cellOffset s.screenX s.screenY = 2 * (e.start + e.line.length) := by
  rw [cellOffset_eq, ← h.cursor]
  ring

theorem ShowsEditor.append {c : UInt8} (hc : c ∉ [0x08, 0x09, 0x0A, 0x0D])
    (hroom : e.line.length < 128) : ShowsEditor (e.append c hroom) (s.putc c) := by
  simp only [List.mem_cons, List.not_mem_nil, or_false, not_or] at hc
  obtain ⟨h08, h09, h0A, h0D⟩ := hc
  obtain ⟨hx0, hx1⟩ := h.column
  have hcursor := h.cursor
  have hfits := e.fits
  have hlength : (e.line ++ [c]).length = e.line.length + 1 := by simp
  have hstored := h.cells.append c h.cellOffset
  rw [Console.putc_eq_run]
  unfold plan
  rw [if_neg (by simp [h0A, h0D]), if_neg h09, if_neg h08]
  by_cases hend : s.screenX = 79
  · rw [if_pos hend]
    unfold Plan.nextRow
    by_cases hlast : s.screenY + 1 = 25
    · -- the character fills the last cell of the screen
      have hfull : e.start + e.line.length + 1 = 2000 := by omega
      have hscrolled := hstored.scroll (by omega) (by omega)
      rw [if_pos hlast]
      refine ⟨⟨le_refl 0, by simp [Plan.run]⟩, ?_, ?_⟩
      · simp only [Editor.append, Plan.run, if_pos hfull]
        omega
      · simp only [Editor.append, Plan.run, Plan.apply, Plan.write, if_pos hfull, if_true]
        exact hscrolled
    · have hroom' : ¬ e.start + e.line.length + 1 = 2000 := by omega
      rw [if_neg hlast]
      refine ⟨⟨le_refl 0, by simp [Plan.run]⟩, ?_, ?_⟩
      · simp only [Editor.append, Plan.run, if_neg hroom']
        omega
      · simp only [Editor.append, Plan.run, Plan.apply, Plan.write, if_neg hroom']
        exact hstored
  · have hroom' : ¬ e.start + e.line.length + 1 = 2000 := by omega
    rw [if_neg hend]
    refine ⟨?_, ?_, ?_⟩
    · simp only [Plan.run]
      omega
    · simp only [Editor.append, Plan.run, if_neg hroom']
      omega
    · simp only [Editor.append, Plan.run, Plan.apply, Plan.write, if_neg hroom']
      exact hstored

theorem ShowsEditor.dropLast (hline : 0 < e.line.length) : ShowsEditor e.dropLast (s.putc 0x08) := by
  obtain ⟨hx0, hx1⟩ := h.column
  have hcursor := h.cursor
  have hlength : e.line.dropLast.length = e.line.length - 1 := List.length_dropLast
  rw [Console.putc_eq_run]
  unfold plan
  rw [if_neg (by decide), if_neg (by decide), if_pos rfl]
  by_cases hx : s.screenX > 0
  · rw [if_pos hx]
    refine ⟨?_, ?_, ?_⟩
    · simp only [Plan.run]
      omega
    · simp only [Editor.dropLast, Plan.run]
      omega
    · simp only [Editor.dropLast, Plan.run, Plan.apply, Plan.write]
      refine h.cells.dropLast blank ?_
      rw [cellOffset_eq]
      omega
  · -- the line goes on in the row above, since the cursor is after its first cell
    have hy : s.screenY > 0 := by omega
    rw [if_neg hx, if_pos hy]
    refine ⟨⟨by simp [Plan.run], by simp [Plan.run]⟩, ?_, ?_⟩
    · simp only [Editor.dropLast, Plan.run]
      omega
    · simp only [Editor.dropLast, Plan.run, Plan.apply, Plan.write]
      refine h.cells.dropLast blank ?_
      rw [cellOffset_eq]
      omega

end Screen

/-! ## The line in the buffer -/

theorem Line.typed_char {l : Line} (h0 : 0 ≤ l.index) (hroom : l.index < 128) (c : UInt8) :
    (l.press (.char c)).typed = l.typed ++ [c] := by
  have hsucc : (l.index + 1).toNat = l.index.toNat + 1 := by omega
  have hkept : ∀ j ∈ List.range l.index.toNat,
      Function.update l.buffer l.index c (j : Int) = l.buffer j := by
    intro j hj
    rw [List.mem_range] at hj
    rw [Function.update_of_ne (by omega)]
  simp only [Line.press, if_pos hroom, Line.typed, hsucc]
  rw [List.range_succ, List.map_append, List.map_congr_left hkept]
  simp [Int.toNat_of_nonneg h0]

theorem Line.typed_backspace (l : Line) : (l.press .backspace).typed = l.typed.dropLast := by
  have hpred : (max 0 (l.index - 1)).toNat = l.index.toNat - 1 := by omega
  simp only [Line.press, Line.typed, hpred]
  cases l.index.toNat with
  | zero => rfl
  | succ n => simp [List.range_succ]

/-- The characters that a published line has for its reader. -/
def Line.published (l : Line) : List UInt8 :=
  (List.range l.readIndex.toNat).map (fun j : Nat => l.buffer j)

/-! ## The two editors -/

/-- On terminal `t`, the active one, buffer, cursor and screen agree with the editor. -/
structure Agrees (t : Fin 3) (e : Editor) (k : Kernel) : Prop where
  active : k.activeTerminal = t
  index : (k.line t).index = e.line.length
  buffer : (k.line t).typed = e.line
  screen : ShowsEditor e k.console

/-- ENTER has published the line of terminal `t` and emptied its buffer. -/
structure Publishes (t : Fin 3) (line : List UInt8) (k : Kernel) : Prop where
  readIndex : (k.line t).readIndex = line.length
  readFlag : (k.line t).readFlag = 1
  published : (k.line t).published = line
  index : (k.line t).index = 0

/-- The editors agree, and the keyboard is in the state that editing keys keep. -/
structure Editing (t : Fin 3) (e : Editor) (k : Kernel) : Prop extends Agrees t e k where
  shift : k.shiftStatus = e.shift
  caps : k.capsStatus = e.caps
  ctrl : k.ctrlStatus = false
  alt : k.altStatus = false
  foreground : k.currentRunningProcessCount < 3 ∨ k.nextTerminalInSchedule = t

/-- On the displayed terminal a typed character goes through `putc`. -/
theorem typeChar_foreground {k : Kernel} {c : UInt8}
    (hshown : k.currentRunningProcessCount < 3 ∨ k.nextTerminalInSchedule = k.activeTerminal)
    (hc : c ≠ 0) (hroom : (k.terminal k.activeTerminal).bufferIndex < 128) :
    (typeChar k c).console = k.console.putc c := by
  rw [typeChar_of_room c hroom]
  unfold terminalPutc
  rw [if_neg hc, if_pos (by exact hshown)]
  rfl

section Step

variable {t : Fin 3} {e : Editor} {k : Kernel} (h : Editing t e k)
include h

/-- A key that only sets a flag. -/
theorem Editing.agrees_flags {e' : Editor} {k' : Kernel} (hline : e'.line = e.line)
    (hstart : e'.start = e.start) (hactive : k'.activeTerminal = k.activeTerminal)
    (hlines : k'.line = k.line) (hconsole : k'.console = k.console) : Agrees t e' k' := by
  refine ⟨hactive.trans h.active, ?_, ?_, ?_, ?_, ?_⟩
  · rw [hlines, hline]
    exact h.index
  · rw [hlines, hline]
    exact h.buffer
  · rw [hconsole]
    exact h.screen.column
  · rw [hconsole, hline, hstart]
    exact h.screen.cursor
  · rw [hconsole, hline, hstart]
    exact h.screen.cells

theorem Editing.agrees_type {c : UInt8} (hc : c ≠ 0) (hdrawn : c ∉ [0x08, 0x09, 0x0A, 0x0D]) :
    Agrees t (e.type c) (typeChar k c) := by
  have hactive := h.active
  subst hactive
  have hindex : (k.terminal k.activeTerminal).bufferIndex = e.line.length := h.index
  unfold Editor.type
  split_ifs with hroom
  · have hroom' : (k.terminal k.activeTerminal).bufferIndex < 128 := by omega
    have hlt : (k.line k.activeTerminal).index < 128 := hroom'
    have hpressed := typeChar_pressed k c
    have hline : (typeChar k c).line k.activeTerminal = (k.line k.activeTerminal).press (.char c) := by
      rw [hpressed.line, Function.update_self]
    refine ⟨hpressed.active, ?_, ?_, ?_⟩
    · rw [hline, Line.press, if_pos hlt, h.index]
      simp [Editor.append]
    · rw [hline, Line.typed_char (by rw [h.index]; omega) hlt, h.buffer]
      rfl
    · rw [typeChar_foreground h.foreground hc hroom']
      exact h.screen.append hdrawn hroom
  · rw [typeChar_full c (by omega)]
    exact h.toAgrees

theorem Editing.agrees_backspace : Agrees t e.dropLast (keyBackspace k) := by
  have hactive := h.active
  subst hactive
  have hindex : (k.terminal k.activeTerminal).bufferIndex = e.line.length := h.index
  have hpressed := keyBackspace_pressed k
  have hline : (keyBackspace k).line k.activeTerminal = (k.line k.activeTerminal).press .backspace := by
    rw [hpressed.line, Function.update_self]
  refine ⟨hpressed.active, ?_, ?_, ?_⟩
  · rw [hline, Line.press, h.index]
    simp only [Editor.dropLast, List.length_dropLast]
    omega
  · rw [hline, Line.typed_backspace, h.buffer]
    rfl
  · have hneg : ¬ (k.terminal k.activeTerminal).bufferIndex < 0 := by omega
    unfold keyBackspace
    simp only [if_neg hneg]
    by_cases hpos : 0 < e.line.length
    · rw [if_pos (by omega)]
      exact h.screen.dropLast hpos
    · have hnil : e.line = [] := List.eq_nil_of_length_eq_zero (by omega)
      rw [if_neg (by omega)]
      refine ⟨h.screen.column, ?_, ?_⟩
      · rw [h.screen.cursor]
        simp [Editor.dropLast, hnil]
      · have hcells := h.screen.cells
        simpa [Editor.dropLast, hnil] using hcells

theorem Editing.agrees_press {code : Nat} (hcode : EditingKey code) :
    Agrees t (e.press code) (keyboardHandler k code) := by
  rcases hcode with hlisted | hchar
  · simp only [List.mem_cons, List.not_mem_nil, or_false] at hlisted
    rcases hlisted with rfl | rfl | rfl | rfl | rfl | rfl
    · exact h.agrees_flags rfl rfl rfl rfl rfl
    · exact h.agrees_flags rfl rfl rfl rfl rfl
    · exact h.agrees_flags rfl rfl rfl rfl rfl
    · exact h.agrees_flags rfl rfl rfl rfl rfl
    · exact h.agrees_flags rfl rfl rfl rfl rfl
    · exact h.agrees_backspace
  · have hnone := hchar.not_mem
    simp only [List.mem_cons, List.not_mem_nil, or_false, not_or] at hnone
    obtain ⟨-, -, h54, h182, h42, h170, -, -, h58, -, -, h14, -⟩ := hnone
    have hpress : e.press code = e.type (keyChar e.shift e.caps code) := by
      simp [Editor.press, h42, h54, h170, h182, h58, h14]
    rw [hpress, hchar.handler h.ctrl h.alt, h.shift, h.caps]
    exact h.agrees_type (hchar.ne_zero e.shift e.caps) (hchar.drawn e.shift e.caps)

theorem Editing.press {code : Nat} (hcode : EditingKey code) :
    Editing t (e.press code) (keyboardHandler k code) := by
  have hagrees := h.agrees_press hcode
  have hstatus := keyboardHandler_status k code
  have hsame := keyboardHandler_same k code
  refine ⟨hagrees, ?_, ?_, ?_, ?_, ?_⟩
  · rw [hstatus.shift, Editor.press_shift, h.shift]
  · rw [hstatus.caps, Editor.press_caps, h.caps]
  · rw [hstatus.ctrl, h.ctrl]
    exact holdStep_of_ne (hcode.ne (by decide))
  · rw [hstatus.alt, h.alt]
    exact holdStep_of_ne (hcode.ne (by decide))
  · rw [hsame.count, hsame.next]
    exact h.foreground

end Step

/-- From the empty line on, every sequence of editing keys. -/
theorem Editing.run {t : Fin 3} {e : Editor} {k : Kernel} (h : Editing t e k) {codes : List Nat}
    (hcodes : ∀ code ∈ codes, EditingKey code) :
    Editing t (codes.foldl Editor.press e) (pressKeys k codes) := by
  induction codes generalizing e k with
  | nil => exact h
  | cons code codes ih =>
      have hfirst := hcodes code List.mem_cons_self
      exact ih (h.press hfirst) (fun c hc => hcodes c (List.mem_cons_of_mem code hc))

theorem editing_empty {k : Kernel}
    (hempty : (k.terminal k.activeTerminal).bufferIndex = 0)
    (hshown : k.currentRunningProcessCount < 3 ∨ k.nextTerminalInSchedule = k.activeTerminal)
    (hctrl : k.ctrlStatus = false) (halt : k.altStatus = false)
    (hcursor : k.console.screen.InBounds) :
    Editing k.activeTerminal (Editor.empty k hcursor) k := by
  have hindex : (k.line k.activeTerminal).index = 0 := hempty
  obtain ⟨hx0, hx1, hy0, hy1⟩ := id hcursor
  simp only [Console.screen_x, Console.screen_y] at hx0 hx1 hy0 hy1
  refine ⟨⟨rfl, hindex, ?_, ⟨hx0, hx1⟩, ?_, ?_⟩, rfl, rfl, hctrl, halt, hshown⟩
  · simp [Line.typed, hindex, Editor.empty]
  · simp only [Editor.empty, List.length_nil]
    omega
  · rintro ⟨i, hi⟩
    exact absurd hi (Nat.not_lt_zero i)

theorem Agrees.enter {t : Fin 3} {e : Editor} {k : Kernel} (h : Agrees t e k) :
    Publishes t e.line (keyboardHandler k 28) := by
  have hactive := h.active
  subst hactive
  have hpressed : Pressed k .enter (keyboardHandler k 28) := keyEnter_pressed k
  have hline : (keyboardHandler k 28).line k.activeTerminal =
      (k.line k.activeTerminal).press .enter := by
    rw [hpressed.line, Function.update_self]
  refine ⟨?_, ?_, ?_, ?_⟩
  · rw [hline]
    exact h.index
  · rw [hline]
    rfl
  · rw [hline]
    exact h.buffer
  · rw [hline]
    rfl

/--
From an empty line on the terminal that is displayed and written to, without
Ctrl and Alt, the buffer, the cursor and the screen agree with the editor after
every sequence of editing keys, and ENTER publishes the editor's line.
-/
theorem line_editor_agrees {k : Kernel}
    (hempty : (k.terminal k.activeTerminal).bufferIndex = 0)
    (hshown : k.currentRunningProcessCount < 3 ∨ k.nextTerminalInSchedule = k.activeTerminal)
    (hctrl : k.ctrlStatus = false) (halt : k.altStatus = false)
    (hcursor : k.console.screen.InBounds)
    {codes : List Nat} (hcodes : ∀ code ∈ codes, EditingKey code) :
    Agrees k.activeTerminal (codes.foldl Editor.press (Editor.empty k hcursor))
        (pressKeys k codes) ∧
      Publishes k.activeTerminal (codes.foldl Editor.press (Editor.empty k hcursor)).line
        (keyboardHandler (pressKeys k codes) 28) := by
  have hrun := (editing_empty hempty hshown hctrl halt hcursor).run hcodes
  exact ⟨hrun.toAgrees, hrun.toAgrees.enter⟩

/-- The cursor in the last cell of the screen. -/
def atLastCell : Kernel :=
  { bareKernel with console := { bareKernel.console with screenX := 79, screenY := 24 } }

theorem atLastCell_inBounds : atLastCell.console.screen.InBounds := by
  simp [atLastCell, Console.screen, Screen.InBounds]

/-- Shift and a letter, another letter, and Backspace: the screen has scrolled under the line. -/
theorem line_editor_agrees_scrolls :
    (([42, 30, 170, 31, 14].foldl Editor.press
        (Editor.empty atLastCell atLastCell_inBounds)).line = [0x41] ∧
      ([42, 30, 170, 31, 14].foldl Editor.press
        (Editor.empty atLastCell atLastCell_inBounds)).start = 1919) ∧
      Agrees 0 ([42, 30, 170, 31, 14].foldl Editor.press
        (Editor.empty atLastCell atLastCell_inBounds)) (pressKeys atLastCell [42, 30, 170, 31, 14]) := by
  have hcodes : ∀ code ∈ [42, 30, 170, 31, 14], EditingKey code := by
    have hletter : ∀ code ∈ [30, 31], CharacterKey code := by
      intro code hcode
      refine ⟨?_, bareKernel, ?_⟩
      · revert code
        decide
      · revert code
        decide
    intro code hcode
    simp only [List.mem_cons, List.not_mem_nil, or_false] at hcode
    rcases hcode with rfl | rfl | rfl | rfl | rfl
    · exact Or.inl (by decide)
    · exact Or.inr (hletter 30 (by decide))
    · exact Or.inl (by decide)
    · exact Or.inr (hletter 31 (by decide))
    · exact Or.inl (by decide)
  refine ⟨by decide +kernel, ?_⟩
  exact (line_editor_agrees (k := atLastCell) rfl (Or.inl (by decide)) rfl rfl atLastCell_inBounds
    hcodes).1

end OopsOs
