import OopsOs.KeyboardBounds
import OopsOs.LineEditor
import OopsOs.TypeAhead

/-!
# LEFT and RIGHT

LEFT moves the index of the line and the cursor back by one.  RIGHT should undo
that.  It decides by two counters, the furthest index that LEFT has been pressed
at and the number of erased characters, and compares their sum, modulo the width
of the screen, with the column of the cursor.

`Counts` are the three numbers that the arrow keys work on.  What a key does to
them depends on them alone, and two states with other counters can be told apart
by further keys.
-/

namespace OopsOs

open ByteMem Machine

/-! ## The counters -/

/-- The index of the active line, and the two counters. -/
@[ext] structure Counts where
  index : Int
  counter : Int
  offsetter : Int
deriving DecidableEq

def Kernel.counts (k : Kernel) : Counts :=
  ⟨(k.line k.activeTerminal).index, k.leftRightCursorCounter, k.leftRightCursorOffsetter⟩

namespace Counts

def press (n : Counts) : LineKey → Counts
  | .enter => ⟨0, 0, 0⟩
  | .char _ => if n.index < 128 then { n with index := n.index + 1 } else n
  | .backspace =>
      ⟨max 0 (n.index - 1), n.counter, if 0 < n.index then n.offsetter + 1 else n.offsetter⟩
  | .left => if n.index ≤ 0 then n else ⟨n.index - 1, max n.counter n.index, n.offsetter⟩
  | .right =>
      ⟨n.index + 1, n.counter, if n.offsetter > 0 then n.offsetter - 1 else n.offsetter⟩
  | .display _ => n
  | .other => n

end Counts

theorem keyBackspace_counters (k : Kernel) :
    (keyBackspace k).leftRightCursorCounter = k.leftRightCursorCounter ∧
      (keyBackspace k).leftRightCursorOffsetter =
        if 0 < (k.line k.activeTerminal).index then k.leftRightCursorOffsetter + 1
        else k.leftRightCursorOffsetter := by
  have hindex : (k.line k.activeTerminal).index = (k.terminal k.activeTerminal).bufferIndex := rfl
  unfold keyBackspace
  rw [hindex]
  by_cases hneg : (k.terminal k.activeTerminal).bufferIndex < 0
  · have hpos : ¬ 0 < (k.terminal k.activeTerminal).bufferIndex := by omega
    simp [hneg, hpos]
  · by_cases hpos : 0 < (k.terminal k.activeTerminal).bufferIndex
    · simp [hneg, hpos]
    · simp [hneg, hpos]

/-- What a key does to the counters. -/
theorem KeyEffect.counters {k k' : Kernel} {key : LineKey} (h : KeyEffect k key k') :
    k'.leftRightCursorCounter = (k.counts.press key).counter ∧
      k'.leftRightCursorOffsetter = (k.counts.press key).offsetter := by
  cases h with
  | flags _ _ _ hcounter hoffsetter => exact ⟨hcounter, hoffsetter⟩
  | tab => exact ⟨rfl, rfl⟩
  | clear => exact ⟨rfl, rfl⟩
  | enter => exact ⟨rfl, rfl⟩
  | backspace => exact keyBackspace_counters k
  | left =>
      by_cases hpos : 0 < k.counts.index
      · rw [keyLeft_of_pos hpos, Counts.press, if_neg (not_le.mpr hpos)]
        exact ⟨rfl, rfl⟩
      · rw [keyLeft_of_nonpos (not_lt.mp hpos), Counts.press, if_pos (not_lt.mp hpos)]
        exact ⟨rfl, rfl⟩
  | right hmoves =>
      rw [keyRight_of_lt (not_le.mp hmoves)]
      exact ⟨rfl, rfl⟩
  | display t =>
      have hsame := (saveAndSwitchTerm_outputs k t).keyboard
      exact ⟨hsame.counter, hsame.offsetter⟩
  | char c _ =>
      have hsame := (typeChar_outputs k c).keyboard
      unfold Counts.press
      simp only
      split_ifs
      · exact ⟨hsame.counter, hsame.offsetter⟩
      · exact ⟨hsame.counter, hsame.offsetter⟩

theorem Line.press_counts (l : Line) (c o : Int) (key : LineKey) :
    (l.press key).index = (Counts.press ⟨l.index, c, o⟩ key).index := by
  cases key with
  | char b =>
      unfold Line.press Counts.press
      simp only
      split_ifs <;> rfl
  | left =>
      unfold Line.press Counts.press
      simp only
      split_ifs <;> rfl
  | _ => rfl

/-- Without a switch of the terminal, a key acts on the three numbers alone. -/
theorem counts_keyboardHandler {k : Kernel} {code : Nat}
    (hstays : (lineKey k code).activeTerminal k.activeTerminal = k.activeTerminal) :
    (keyboardHandler k code).counts = k.counts.press (lineKey k code) := by
  have hpressed := keyboardHandler_pressed k code
  obtain ⟨hcounter, hoffsetter⟩ := (keyboardHandler_effect k code).counters
  have hactive := hpressed.active.trans hstays
  refine Counts.ext ?_ hcounter hoffsetter
  show ((keyboardHandler k code).line (keyboardHandler k code).activeTerminal).index = _
  rw [hactive, hpressed.line, Function.update_self]
  exact Line.press_counts _ _ _ _

/-! ## States that can be reached -/

/-- No index of a line is negative, and no counter is. -/
structure Counting (k : Kernel) : Prop where
  index : ∀ t, 0 ≤ (k.line t).index
  counter : 0 ≤ k.leftRightCursorCounter
  offsetter : 0 ≤ k.leftRightCursorOffsetter

theorem Counts.press_nonneg {n : Counts} (hcounter : 0 ≤ n.counter) (hoffsetter : 0 ≤ n.offsetter)
    (key : LineKey) : 0 ≤ (n.press key).counter ∧ 0 ≤ (n.press key).offsetter := by
  unfold Counts.press
  cases key with
  | enter => exact ⟨le_refl 0, le_refl 0⟩
  | char c =>
      simp only
      split_ifs
      · exact ⟨hcounter, hoffsetter⟩
      · exact ⟨hcounter, hoffsetter⟩
  | backspace =>
      refine ⟨hcounter, ?_⟩
      simp only
      split_ifs <;> omega
  | left =>
      simp only
      split_ifs
      · exact ⟨hcounter, hoffsetter⟩
      · exact ⟨le_max_of_le_left hcounter, hoffsetter⟩
  | right =>
      refine ⟨hcounter, ?_⟩
      simp only
      split_ifs <;> omega
  | display t => exact ⟨hcounter, hoffsetter⟩
  | other => exact ⟨hcounter, hoffsetter⟩

theorem Counting.press {k : Kernel} (h : Counting k) (code : Nat) :
    Counting (keyboardHandler k code) := by
  obtain ⟨hcounter, hoffsetter⟩ := (keyboardHandler_effect k code).counters
  obtain ⟨hcounter', hoffsetter'⟩ :=
    Counts.press_nonneg (n := k.counts) h.counter h.offsetter (lineKey k code)
  refine ⟨?_, ?_, ?_⟩
  · intro t
    rw [(keyboardHandler_pressed k code).line]
    by_cases ht : t = k.activeTerminal
    · subst ht
      rw [Function.update_self]
      exact Line.press_index (h.index _)
    · rw [Function.update_of_ne ht]
      exact h.index t
  · rw [hcounter]
    exact hcounter'
  · rw [hoffsetter]
    exact hoffsetter'

/-- Output, `terminal_read` and ticks change no index and no counter. -/
theorem Counting.of_same {k k' : Kernel} (h : Counting k)
    (hindex : ∀ t, (k'.line t).index = (k.line t).index)
    (hcounter : k'.leftRightCursorCounter = k.leftRightCursorCounter)
    (hoffsetter : k'.leftRightCursorOffsetter = k.leftRightCursorOffsetter) : Counting k' := by
  refine ⟨?_, ?_, ?_⟩
  · intro t
    rw [hindex]
    exact h.index t
  · rw [hcounter]
    exact h.counter
  · rw [hoffsetter]
    exact h.offsetter

theorem terminalRead_counting {k : Kernel} (h : Counting k) (buffer : Nat) (nbytes : Int) :
    Counting (terminalRead id k buffer nbytes).kernel := by
  rcases terminalRead_cases k buffer nbytes with ⟨text, hprinted⟩ | ⟨-, hread⟩ | hsame
  · rw [hprinted]
    exact h.of_same (fun _ => rfl) rfl rfl
  · rw [hread]
    refine h.of_same ?_ rfl rfl
    intro t
    rw [line_modifyTerminal]
    by_cases ht : t = k.activeTerminal
    · subst ht
      rw [Function.update_self]
      rfl
    · rw [Function.update_of_ne ht]
  · rw [hsame]
    exact h

theorem printf_keyboard (k : Kernel) (text : String) : SameKeyboard k (k.printf text) :=
  (Outputs.onConsole k _).keyboard

theorem execute_keyboard (k : Kernel) (cmd : List UInt8) (saved : Context) :
    SameKeyboard k (execute k cmd saved).1 := by
  have hreported : SameKeyboard k (reportName k (parse cmd).1) := by
    unfold reportName
    split_ifs
    · exact printf_keyboard k _
    · exact ⟨rfl, rfl, rfl, rfl, rfl, rfl⟩
  rcases execute_cases k cmd saved with ⟨-, text, heq⟩ | ⟨pid, -, -, heq⟩
  · rw [heq]
    exact hreported.trans (printf_keyboard _ text)
  · rw [heq]
    exact hreported.trans ⟨rfl, rfl, rfl, rfl, rfl, rfl⟩

theorem launchKernel_keyboard (k : Kernel) (n : Fin 3) (c : Context) :
    SameKeyboard k (launchKernel k n c) := by
  unfold launchKernel
  simp only
  split_ifs
  · have hsaved : SameKeyboard k (saveContext k k.activeTerminal c) :=
      ⟨rfl, rfl, rfl, rfl, rfl, rfl⟩
    exact hsaved.trans ((saveAndSwitchTerm_outputs _ n).keyboard.trans ⟨rfl, rfl, rfl, rfl, rfl, rfl⟩)
  · exact (saveAndSwitchTerm_outputs k n).keyboard.trans ⟨rfl, rfl, rfl, rfl, rfl, rfl⟩

theorem maskKeyboard_keyboard (k : Kernel) : SameKeyboard k (maskKeyboard k) := by
  unfold maskKeyboard
  rw [disableIrq_keyboard, enableIrq_keyboard]
  split_ifs
  · exact ⟨rfl, rfl, rfl, rfl, rfl, rfl⟩
  · exact ⟨rfl, rfl, rfl, rfl, rfl, rfl⟩

/-- A tick changes none of the variables of the keyboard. -/
theorem pitHandler_keyboard (k : Kernel) (c inner : Context) :
    SameKeyboard k (pitHandler k c inner).1 := by
  have hmasked : SameKeyboard k (disableIrq k 0x01) := by
    rw [disableIrq_keyboard]
    exact ⟨rfl, rfl, rfl, rfl, rfl, rfl⟩
  unfold pitHandler scheduleHandling
  refine hmasked.trans ?_
  generalize disableIrq k 0x01 = k
  split_ifs with hact hlt hthree
  · rw [launchShell_eq]
    exact (launchKernel_keyboard k ⟨_, hlt⟩ c).trans (execute_keyboard _ _ inner)
  · have hcounted : SameKeyboard k { saveContext k 2 c with
        currentRunningProcessCount := (saveContext k 2 c).currentRunningProcessCount + 1 } :=
      ⟨rfl, rfl, rfl, rfl, rfl, rfl⟩
    exact hcounted.trans (saveAndSwitchTerm_outputs _ 0).keyboard
  · have hnext : SameKeyboard k { saveContext k k.nextTerminalInSchedule c with
        nextTerminalInSchedule :=
          (saveContext k k.nextTerminalInSchedule c).nextTerminalInSchedule + 1 } :=
      ⟨rfl, rfl, rfl, rfl, rfl, rfl⟩
    exact hnext.trans ((maskKeyboard_keyboard _).trans ⟨rfl, rfl, rfl, rfl, rfl, rfl⟩)
  · exact printf_keyboard k _

theorem keyboardStep_counting (k : Kernel) (e : KeyboardEvent) (k' : Kernel) (h : Counting k)
    (_ : anyStep k e) (hstep : keyboardStep k e = some k') : Counting k' := by
  cases e with
  | key code =>
      obtain rfl := Option.some.inj hstep
      exact h.press code
  | write buffer nbytes =>
      obtain rfl := Option.some.inj hstep
      have hline := (terminalWrite_input k buffer nbytes).line
      have hkeyboard := (terminalWrite_outputs k buffer nbytes).keyboard
      exact h.of_same (fun t => by rw [hline]) hkeyboard.counter hkeyboard.offsetter
  | read buffer nbytes =>
      obtain rfl := Option.some.inj hstep
      exact terminalRead_counting h buffer nbytes
  | tick c inner =>
      obtain rfl := Option.some.inj hstep
      have hkeyboard := pitHandler_keyboard k c inner
      have hline := line_pitHandler k c inner
      exact h.of_same (fun t => by rw [hline]) hkeyboard.counter hkeyboard.offsetter

theorem keyboardInitialize_counting {k : Kernel} (hcounter : k.leftRightCursorCounter = 0)
    (hoffsetter : k.leftRightCursorOffsetter = 0) : Counting (keyboardInitialize k) := by
  refine ⟨fun t => (keyboardInitialize_lines k t).index.1, ?_, ?_⟩
  · show 0 ≤ (enableIrq k 0x01).leftRightCursorCounter
    rw [enableIrq_keyboard]
    exact hcounter.ge
  · show 0 ≤ (enableIrq k 0x01).leftRightCursorOffsetter
    rw [enableIrq_keyboard]
    exact hoffsetter.ge

/-! ## Telling two states apart -/

theorem lineKey_letter (k : Kernel) : ∃ c, lineKey k 30 = .char c := by
  have hchar : ∀ shift caps, keyChar shift caps 30 ≠ 0 ∧ keyChar shift caps 30 ≠ 0x6C ∧
      keyChar shift caps 30 ≠ 0x4C := by decide +kernel
  obtain ⟨hzero, hl, hL⟩ := hchar k.shiftStatus k.capsStatus
  refine ⟨keypressHandler k 30, ?_⟩
  rw [← keypressHandler_eq] at hzero hl hL
  show defaultKey k 30 = _
  simp [defaultKey, hzero, hl, hL]

theorem counts_letter (k : Kernel) {j : Int} (hj : j < 128) {c o : Int} (h : k.counts = ⟨j, c, o⟩) :
    (keyboardHandler k 30).counts = ⟨j + 1, c, o⟩ := by
  obtain ⟨b, hb⟩ := lineKey_letter k
  rw [counts_keyboardHandler (by rw [hb]; rfl), hb, h, Counts.press, if_pos hj]

theorem counts_backspace (k : Kernel) {j : Int} (hj : 0 < j) {c o : Int} (h : k.counts = ⟨j, c, o⟩) :
    (keyboardHandler k 14).counts = ⟨j - 1, c, o + 1⟩ := by
  have hmax : max 0 (j - 1) = j - 1 := max_eq_right (by omega)
  rw [counts_keyboardHandler (show (lineKey k 14).activeTerminal k.activeTerminal = _ from rfl), h]
  show Counts.press ⟨j, c, o⟩ .backspace = _
  simp only [Counts.press, if_pos hj, hmax]

theorem counts_left (k : Kernel) {j : Int} (hj : 0 < j) {c o : Int} (h : k.counts = ⟨j, c, o⟩) :
    (keyboardHandler k 75).counts = ⟨j - 1, max c j, o⟩ := by
  rw [counts_keyboardHandler (show (lineKey k 75).activeTerminal k.activeTerminal = _ from rfl), h]
  show Counts.press ⟨j, c, o⟩ .left = _
  simp only [Counts.press, if_neg (not_le.mpr hj)]

/-- Keys that leave the terminal displayed, whether Alt is down or not. -/
def OneTerminal (codes : List Nat) : Prop := ∀ code ∈ codes, code ∉ [59, 60, 61]

theorem OneTerminal.cons {code : Nat} {codes : List Nat} (hcode : code ∉ [59, 60, 61])
    (h : OneTerminal codes) : OneTerminal (code :: codes) := by
  intro c hc
  rcases List.mem_cons.mp hc with rfl | hrest
  · exact hcode
  · exact h c hrest

/-- Typing and erasing counts up the erased characters, in any two states in step. -/
theorem exists_keys_raising (n : Nat) {k k' : Kernel} {j c o c' o' : Int} (hj : 0 ≤ j)
    (h : k.counts = ⟨j, c, o⟩) (h' : k'.counts = ⟨j, c', o'⟩) :
    ∃ keys j', OneTerminal keys ∧ (pressKeys k keys).counts = ⟨j', c, o + n⟩ ∧
      (pressKeys k' keys).counts = ⟨j', c', o' + n⟩ := by
  induction n generalizing k k' j o o' with
  | zero => exact ⟨[], j, by simp [OneTerminal], by simpa using h, by simpa using h'⟩
  | succ n ih =>
      have hsucc : ∀ o : Int, o + (n + 1 : Nat) = o + 1 + n := by
        intro o
        push_cast
        ring
      rw [hsucc, hsucc]
      by_cases hroom : j < 128
      · have hback : j + 1 - 1 = j := by ring
        have hk := counts_backspace _ (by omega) (counts_letter k hroom h)
        have hk' := counts_backspace _ (by omega) (counts_letter k' hroom h')
        rw [hback] at hk hk'
        obtain ⟨keys, j', hone, hkeys, hkeys'⟩ := ih hj hk hk'
        exact ⟨30 :: 14 :: keys, j', (hone.cons (by decide)).cons (by decide), hkeys, hkeys'⟩
      · have hk := counts_backspace k (by omega) h
        have hk' := counts_backspace k' (by omega) h'
        obtain ⟨keys, j', hone, hkeys, hkeys'⟩ := ih (by omega) hk hk'
        exact ⟨14 :: keys, j', hone.cons (by decide), hkeys, hkeys'⟩

/-- Ctrl-L. -/
def clearKeys : List Nat := [29, 38, 157]

theorem clearKeys_effect (k : Kernel) :
    (pressKeys k clearKeys).console.screenX = 0 ∧
      (pressKeys k clearKeys).leftRightCursorCounter = k.leftRightCursorCounter ∧
      (pressKeys k clearKeys).leftRightCursorOffsetter = k.leftRightCursorOffsetter := by
  have hchar : ∀ shift caps, keyChar shift caps 38 ≠ 0 ∧
      (keyChar shift caps 38 = 0x6C ∨ keyChar shift caps 38 = 0x4C) := by decide +kernel
  obtain ⟨hzero, hl⟩ := hchar k.shiftStatus k.capsStatus
  have hcleared : keyboardHandler { k with ctrlStatus := true } 38 =
      Kernel.onConsole { k with ctrlStatus := true } Console.clear := by
    have hkey : keypressHandler { k with ctrlStatus := true } 38 =
        keyChar k.shiftStatus k.capsStatus 38 := keypressHandler_eq _ 38
    rw [keyboardHandler_default _ (by decide)]
    unfold keyDefault
    have hsame : (if ({ k with ctrlStatus := true } : Kernel).altStatus = true then
        switchKey { k with ctrlStatus := true } 38 else { k with ctrlStatus := true }) =
        { k with ctrlStatus := true } := by
      split_ifs
      · rfl
      · rfl
    simp only [hsame, hkey, if_neg hzero, hl, and_true, if_true]
  have hall : pressKeys k clearKeys =
      { Kernel.onConsole { k with ctrlStatus := true } Console.clear with ctrlStatus := false } := by
    show keyboardHandler (keyboardHandler { k with ctrlStatus := true } 38) 157 = _
    rw [hcleared]
    rfl
  rw [hall]
  exact ⟨rfl, rfl, rfl⟩

/-- RIGHT at column 0 goes by whether the sum of the counters is a multiple of the width. -/
theorem right_after_clear (k : Kernel) :
    (pressKeys k (clearKeys ++ [77])).console.screenX =
      if (k.leftRightCursorCounter + k.leftRightCursorOffsetter).tmod 80 ≤ 0 then 0 else 1 := by
  obtain ⟨hx, hcounter, hoffsetter⟩ := clearKeys_effect k
  rw [pressKeys_append]
  show (keyRight (pressKeys k clearKeys)).console.screenX = _
  split_ifs with hzero
  · rw [keyRight_of_le (by rw [hx, hcounter, hoffsetter]; exact hzero), hx]
  · rw [keyRight_of_lt (by rw [hx, hcounter, hoffsetter]; omega)]
    show (pressKeys k clearKeys).console.screenX + 1 = 1
    rw [hx]
    rfl

/-- States whose counters have sums in different columns are told apart. -/
theorem exists_keys_of_sums {k k' : Kernel} {j c o c' o' : Int} (hj : 0 ≤ j)
    (h : k.counts = ⟨j, c, o⟩) (h' : k'.counts = ⟨j, c', o'⟩)
    (hsum : 0 ≤ c + o) (hsum' : 0 ≤ c' + o') (hne : (c + o) % 80 ≠ (c' + o') % 80) :
    ∃ keys, OneTerminal keys ∧
      (pressKeys k keys).console.screenX ≠ (pressKeys k' keys).console.screenX := by
  obtain ⟨n, hn⟩ : ∃ n : Nat, (c + o + n) % 80 = 0 := ⟨(80 - (c + o) % 80).toNat, by omega⟩
  obtain ⟨keys, j', hone, hkeys, hkeys'⟩ := exists_keys_raising n hj h h'
  obtain ⟨-, hcounter, hoffsetter⟩ := Counts.ext_iff.mp hkeys
  obtain ⟨-, hcounter', hoffsetter'⟩ := Counts.ext_iff.mp hkeys'
  simp only [Kernel.counts] at hcounter hoffsetter hcounter' hoffsetter'
  have hall : OneTerminal (keys ++ (clearKeys ++ [77])) := by
    intro code hcode
    rcases List.mem_append.mp hcode with hkey | hclear
    · exact hone code hkey
    · have hcodes : ∀ code ∈ clearKeys ++ [77], code ∉ [59, 60, 61] := by decide
      exact hcodes code hclear
  refine ⟨keys ++ (clearKeys ++ [77]), hall, ?_⟩
  rw [pressKeys_append k keys, pressKeys_append k' keys, right_after_clear, right_after_clear, hcounter,
    hoffsetter, hcounter', hoffsetter', Int.tmod_eq_emod_of_nonneg (by omega),
    Int.tmod_eq_emod_of_nonneg (by omega), if_pos (by omega), if_neg (by omega)]
  decide

/-! ## LEFT and then RIGHT -/

/-- The same cursor, and the same line if ENTER comes next. -/
structure SameEditing (k k' : Kernel) : Prop where
  x : k'.console.screenX = k.console.screenX
  y : k'.console.screenY = k.console.screenY
  readIndex : ((keyboardHandler k' 28).line k'.activeTerminal).readIndex =
    ((keyboardHandler k 28).line k.activeTerminal).readIndex
  published : ((keyboardHandler k' 28).line k'.activeTerminal).published =
    ((keyboardHandler k 28).line k.activeTerminal).published

/--
Nothing has been erased since the last RIGHT could count it, LEFT has been
pressed as far out before, and the cursor is not past the column of the counter.
-/
def Cancels (k : Kernel) : Prop :=
  k.leftRightCursorOffsetter = 0 ∧
    (k.terminal k.activeTerminal).bufferIndex ≤ k.leftRightCursorCounter ∧
    k.console.screenX ≤ k.leftRightCursorCounter.tmod 80

theorem moveIndex_back (k : Kernel) : moveIndex (moveIndex k (-1)) 1 = k := by
  have hterminal : (moveIndex (moveIndex k (-1)) 1).terminal = k.terminal := by
    funext t
    by_cases ht : t = k.activeTerminal
    · subst ht
      simp
    · simp [ht]
  have hx : k.console.screenX + -1 + 1 = k.console.screenX := by ring
  have hconsole : (moveIndex (moveIndex k (-1)) 1).console = k.console := by
    show { k.console with screenX := k.console.screenX + -1 + 1 } = k.console
    rw [hx]
  calc moveIndex (moveIndex k (-1)) 1 =
        { k with
          console := (moveIndex (moveIndex k (-1)) 1).console
          terminal := (moveIndex (moveIndex k (-1)) 1).terminal } := rfl
    _ = k := by rw [hterminal, hconsole]

section Pair

variable {k : Kernel} (hpos : 0 < (k.terminal k.activeTerminal).bufferIndex)
include hpos

theorem leftRight_of_cancels (h : Cancels k) : pressKeys k [75, 77] = k := by
  obtain ⟨hoffsetter, hindex, hcolumn⟩ := h
  have hmax : max k.leftRightCursorCounter (k.terminal k.activeTerminal).bufferIndex =
      k.leftRightCursorCounter := max_eq_left hindex
  have hleft : keyLeft k = moveIndex k (-1) := by
    rw [keyLeft_of_pos hpos, hmax]
    rfl
  show keyRight (keyLeft k) = k
  rw [hleft, keyRight_of_lt, moveIndex_leftRightCursorOffsetter, hoffsetter, if_neg (by decide)]
  · have hsame : setCounters (moveIndex k (-1)) (moveIndex k (-1)).leftRightCursorCounter 0 =
        moveIndex k (-1) := by
      rw [← hoffsetter]
      rfl
    rw [hsame, moveIndex_back]
  · simp only [moveIndex_console_screenX, moveIndex_leftRightCursorCounter,
      moveIndex_leftRightCursorOffsetter, hoffsetter, add_zero]
    omega

/-- Either RIGHT does not move, or only the counters are not what they were. -/
theorem leftRight_cases {i c o : Int} (h : k.counts = ⟨i, c, o⟩) :
    (pressKeys k [75, 77]).console.screenX = k.console.screenX - 1 ∨
      k.console.screenX ≤ (max c i + o).tmod 80 ∧
        (pressKeys k [75, 77]).counts = ⟨i, max c i, if o > 0 then o - 1 else o⟩ := by
  obtain ⟨hi, hc, ho⟩ := Counts.ext_iff.mp h
  simp only [Kernel.counts] at hi hc ho
  have hleft := keyLeft_of_pos hpos
  have hx : (keyLeft k).console.screenX = k.console.screenX - 1 := by
    rw [hleft]
    rfl
  have hcounts : (keyLeft k).counts = ⟨i - 1, max c i, o⟩ := counts_left k (hi ▸ hpos) h
  obtain ⟨-, hcounter, hoffsetter⟩ := Counts.ext_iff.mp hcounts
  simp only [Kernel.counts] at hcounter hoffsetter
  by_cases hmoves : (max c i + o).tmod 80 ≤ k.console.screenX - 1
  · left
    have hstays : keyRight (keyLeft k) = keyLeft k := by
      apply keyRight_of_le
      rw [hcounter, hoffsetter, hx]
      exact hmoves
    show (keyRight (keyLeft k)).console.screenX = _
    rw [hstays, hx]
  · right
    have hkey : lineKey (keyLeft k) 77 = .right := by
      apply if_neg
      rw [hcounter, hoffsetter, hx]
      exact hmoves
    have hboth : (keyboardHandler (keyLeft k) 77).counts = (keyLeft k).counts.press .right := by
      rw [counts_keyboardHandler (by rw [hkey]; rfl), hkey]
    refine ⟨by omega, ?_⟩
    show (keyboardHandler (keyLeft k) 77).counts = _
    rw [hboth, hcounts]
    simp [Counts.press]

/-- Other counters than before are found out. -/
theorem exists_keys_after_leftRight (hcounting : Counting k) {k' : Kernel} {i c o : Int}
    (h : k.counts = ⟨i, c, o⟩) (h' : k'.counts = ⟨i, max c i, if o > 0 then o - 1 else o⟩)
    (hne : ¬ (o = 0 ∧ i ≤ c)) :
    ∃ keys, OneTerminal keys ∧
      (pressKeys k keys).console.screenX ≠ (pressKeys k' keys).console.screenX := by
  obtain ⟨hi, hc, ho⟩ := Counts.ext_iff.mp h
  simp only [Kernel.counts] at hi hc ho
  have hi0 : 0 < i := hi ▸ hpos
  have hc0 : 0 ≤ c := hc ▸ hcounting.counter
  have ho0 : 0 ≤ o := ho ▸ hcounting.offsetter
  by_cases hoffset : o > 0
  · -- LEFT makes the one counter equal, and the other one differs by one
    rw [if_pos hoffset] at h'
    have hk := counts_left k hi0 h
    have hk' := counts_left k' hi0 h'
    obtain ⟨keys, hone, hkeys⟩ := exists_keys_of_sums (by omega) hk hk' (by omega) (by omega)
      (by omega)
    exact ⟨75 :: keys, hone.cons (by decide), hkeys⟩
  · have hzero : o = 0 := by omega
    subst hzero
    rw [if_neg hoffset, max_eq_right (by omega)] at h'
    by_cases hfirst : i = 1
    · exact exists_keys_of_sums (by omega) h h' (by omega) (by omega) (by omega)
    · -- Backspace and LEFT make the furthest index depend on the one before
      have hk := counts_left _ (by omega) (counts_backspace k hi0 h)
      have hk' := counts_left _ (by omega) (counts_backspace k' hi0 h')
      obtain ⟨keys, hone, hkeys⟩ := exists_keys_of_sums (by omega) hk hk' (by omega) (by omega)
        (by omega)
      exact ⟨14 :: 75 :: keys, (hone.cons (by decide)).cons (by decide), hkeys⟩

/-- The pair is neutral for all further keys exactly if it leaves the state as it was. -/
theorem leftRight_neutral_iff (hcounting : Counting k) :
    (∀ keys, OneTerminal keys →
      SameEditing (pressKeys k keys) (pressKeys (pressKeys k [75, 77]) keys)) ↔ Cancels k := by
  constructor
  · intro hsame
    obtain ⟨i, c, o, hcounts⟩ : ∃ i c o, k.counts = ⟨i, c, o⟩ := ⟨_, _, _, rfl⟩
    obtain ⟨hi, hc, ho⟩ := Counts.ext_iff.mp hcounts
    have hindex : (k.terminal k.activeTerminal).bufferIndex = i := hi
    simp only [Kernel.counts] at hc ho
    rcases leftRight_cases hpos hcounts with hstays | ⟨hcolumn, hcounts'⟩
    · have hx : (pressKeys k [75, 77]).console.screenX = k.console.screenX :=
        (hsame [] (by simp [OneTerminal])).x
      omega
    · have hold : o = 0 ∧ i ≤ c := by
        by_contra hne
        obtain ⟨keys, hone, hkeys⟩ := exists_keys_after_leftRight hpos hcounting hcounts hcounts' hne
        exact hkeys (hsame keys hone).x.symm
      obtain ⟨hzero, hle⟩ := hold
      rw [max_eq_left hle, hzero, add_zero] at hcolumn
      unfold Cancels
      rw [hc, ho, hindex]
      exact ⟨hzero, hle, hcolumn⟩
  · intro hcancels keys _
    rw [leftRight_of_cancels hpos hcancels]
    exact ⟨rfl, rfl, rfl, rfl⟩

end Pair

/--
In every state that is reached from `keyboard_initialize` by keys, output,
`terminal_read` and ticks and in which LEFT moves, an inserted LEFT and RIGHT
make no difference to the cursor and to the published line, whatever keys follow
on this terminal, exactly if no erased character is still counted, LEFT has been
pressed as far out before, and the cursor is not past the column of the counter.
-/
theorem insert_left_right_iff {k₀ k : Kernel} (hcounter : k₀.leftRightCursorCounter = 0)
    (hoffsetter : k₀.leftRightCursorOffsetter = 0) {es : List KeyboardEvent}
    (hrun : Run keyboardStep anyStep (keyboardInitialize k₀) es k)
    (hmoves : 0 < (k.terminal k.activeTerminal).bufferIndex) :
    (∀ after, OneTerminal after →
      SameEditing (pressKeys k after) (pressKeys k ([75, 77] ++ after))) ↔ Cancels k := by
  have hcounting := hrun.invariant keyboardStep_counting
    (keyboardInitialize_counting hcounter hoffsetter)
  rw [← leftRight_neutral_iff hmoves hcounting]
  refine forall_congr' (fun after => ?_)
  rw [pressKeys_append]

/-- The second LEFT and RIGHT in a line of one character at the start of a row. -/
theorem insert_left_right_iff_second :
    Cancels (pressKeys (keyboardInitialize bareKernel) [30, 75, 77]) ∧
      ∀ after, OneTerminal after →
        SameEditing (pressKeys (pressKeys (keyboardInitialize bareKernel) [30, 75, 77]) after)
          (pressKeys (pressKeys (keyboardInitialize bareKernel) [30, 75, 77]) ([75, 77] ++ after)) := by
  have hcancels : Cancels (pressKeys (keyboardInitialize bareKernel) [30, 75, 77]) :=
    ⟨by decide +kernel, by decide +kernel, by decide +kernel⟩
  refine ⟨hcancels, ?_⟩
  exact (insert_left_right_iff rfl rfl (run_keys _ [30, 75, 77]) (by decide +kernel)).mpr hcancels

/-- The prompt of the shell. -/
def shellPrompt : Nat → UInt8 := fun i => (ascii "391OS> ").getD i 0

/-- Two characters typed after the prompt. -/
def typedAtPrompt : Kernel :=
  pressKeys (terminalWrite (keyboardInitialize bareKernel) (some shellPrompt) 7).1 [30, 31]

/-- RIGHT does not move, and ENTER publishes one character of the two. -/
theorem left_right_at_prompt :
    Run keyboardStep anyStep (keyboardInitialize bareKernel)
        [.write (some shellPrompt) 7, .key 30, .key 31] typedAtPrompt ∧
      0 < (typedAtPrompt.terminal typedAtPrompt.activeTerminal).bufferIndex ∧
      typedAtPrompt.console.screenX = 9 ∧
      (pressKeys typedAtPrompt [75, 77]).console.screenX = 8 ∧
      ((pressKeys typedAtPrompt [28]).line 0).published = [0x61, 0x73] ∧
      ((pressKeys typedAtPrompt ([75, 77] ++ [28])).line 0).published = [0x61] ∧
      ¬ ∀ after, OneTerminal after →
        SameEditing (pressKeys typedAtPrompt after) (pressKeys typedAtPrompt ([75, 77] ++ after)) := by
  have hbefore : typedAtPrompt.console.screenX = 9 := by decide +kernel
  have hinserted : (pressKeys typedAtPrompt [75, 77]).console.screenX = 8 := by decide +kernel
  have hrun : Run keyboardStep anyStep (keyboardInitialize bareKernel)
      [.write (some shellPrompt) 7, .key 30, .key 31] typedAtPrompt :=
    Run.cons trivial rfl (run_keys _ [30, 31])
  refine ⟨hrun, by decide +kernel, hbefore, hinserted, by decide +kernel, by decide +kernel, ?_⟩
  intro hsame
  have hx := (hsame [] (by simp [OneTerminal])).x
  rw [pressKeys_nil, List.append_nil, hbefore, hinserted] at hx
  exact absurd hx (by decide)

end OopsOs
