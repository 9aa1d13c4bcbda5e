import OopsOs.ProcessFrames
import OopsOs.Switching

/-!
# Typed lines

The keyboard handler and `terminal_read` share four fields of each terminal:
the line buffer, the position of the next character, and `read_index` and
`read_flag`, by which ENTER publishes a line.  `Line` is that part of a
terminal.  A key changes at most the line of the active terminal, in one of
the ways of `LineKey`; the rest of the kernel does not change lines at all.

`terminal_read` is interrupted by keys and by the timer, so it is modelled one
statement at a time.  Every statement of it goes by `active_terminal`.  A key
is handled as a whole.
-/

namespace OopsOs

open ByteMem

@[ext] structure Line where
  buffer : Int → UInt8
  index : Int
  readIndex : Int
  readFlag : Int

def Terminal.line (T : Terminal) : Line :=
  ⟨T.keyboardBuffer, T.bufferIndex, T.readIndex, T.readFlag⟩

def Kernel.line (k : Kernel) (t : Fin 3) : Line := (k.terminal t).line

/-- The characters before the position of the next one. -/
def Line.typed (l : Line) : List UInt8 :=
  (List.range l.index.toNat).map (fun j : Nat => l.buffer j)

/-! ## Keys -/

/-- What a key is to the lines. -/
inductive LineKey
  | enter
  | char (c : UInt8)
  | backspace
  | left
  | right
  | display (t : Fin 3)
  | other
deriving DecidableEq

def defaultKey (k : Kernel) (code : Nat) : LineKey :=
  if k.altStatus = true ∧ code = 59 then .display 0
  else if k.altStatus = true ∧ code = 60 then .display 1
  else if k.altStatus = true ∧ code = 61 then .display 2
  else if keypressHandler k code = 0 then .other
  else if k.ctrlStatus = true ∧ (keypressHandler k code = 0x6C ∨ keypressHandler k code = 0x4C) then
    .other
  else .char (keypressHandler k code)

def lineKey (k : Kernel) (scancode : Nat) : LineKey :=
  match scancode with
  | 29 => .other
  | 157 => .other
  | 54 => .other
  | 182 => .other
  | 42 => .other
  | 170 => .other
  | 56 => .other
  | 184 => .other
  | 58 => .other
  | 28 => .enter
  | 15 => .other
  | 14 => .backspace
  | 72 => .other
  | 80 => .other
  | 75 => .left
  | 77 =>
      if (k.leftRightCursorCounter + k.leftRightCursorOffsetter).tmod numCols ≤ k.console.screenX
      then .other
      else .right
  | 0 => .other
  | code => defaultKey k code

/-- The effect of a key on the line of the active terminal. -/
def Line.press (l : Line) : LineKey → Line
  | .enter => { l with readIndex := l.index, readFlag := 1, index := 0 }
  | .char c =>
      if l.index < 128 then
        { l with buffer := Function.update l.buffer l.index c, index := l.index + 1 }
      else l
  | .backspace => { l with index := max 0 (l.index - 1) }
  | .left => if l.index ≤ 0 then l else { l with index := l.index - 1 }
  | .right => { l with index := l.index + 1 }
  | .display _ => l
  | .other => l

/-- The active terminal after a key. -/
def LineKey.activeTerminal (active : Fin 3) : LineKey → Fin 3
  | .display t => t
  | _ => active

/-! ## What leaves the lines alone -/

theorem line_modifyTerminal (k : Kernel) (t : Fin 3) (f : Terminal → Terminal) :
    (k.modifyTerminal t f).line = Function.update k.line t (f (k.terminal t)).line := by
  funext u
  by_cases hu : u = t
  · subst hu
    simp [Kernel.line]
  · simp [Kernel.line, hu]

/-- The same lines, and the same active terminal. -/
structure SameInput (k k' : Kernel) : Prop where
  line : k'.line = k.line
  active : k'.activeTerminal = k.activeTerminal

namespace SameInput

variable {k k' k'' : Kernel}

theorem refl (k : Kernel) : SameInput k k := ⟨rfl, rfl⟩

theorem trans (h : SameInput k k') (h' : SameInput k' k'') : SameInput k k'' :=
  ⟨h'.line.trans h.line, h'.active.trans h.active⟩

theorem modifyTerminal (k : Kernel) (t : Fin 3) {f : Terminal → Terminal}
    (hf : ∀ T, (f T).line = T.line) : SameInput k (k.modifyTerminal t f) := by
  refine ⟨?_, rfl⟩
  rw [line_modifyTerminal, hf]
  exact Function.update_eq_self t k.line

theorem onConsole (k : Kernel) (f : Console → Console) : SameInput k (k.onConsole f) := ⟨rfl, rfl⟩

theorem printf (k : Kernel) (text : String) : SameInput k (k.printf text) := onConsole k _

theorem setMem (k : Kernel) (m : Mem) : SameInput k (k.setMem m) := ⟨rfl, rfl⟩

theorem ite {p : Prop} [Decidable p] {k₁ k₂ : Kernel} (h₁ : SameInput k k₁)
    (h₂ : SameInput k k₂) : SameInput k (if p then k₁ else k₂) := by
  split_ifs
  · exact h₁
  · exact h₂

end SameInput

theorem activeTerminalScrollUp_input (k : Kernel) (t : Fin 3) :
    SameInput k (activeTerminalScrollUp k t) := by
  unfold activeTerminalScrollUp
  exact (SameInput.setMem k _).trans (SameInput.modifyTerminal _ t (fun _ => rfl))

theorem activeTerminalHandleEnter_input (k : Kernel) (t : Fin 3) :
    SameInput k (activeTerminalHandleEnter k t) := by
  have hmove := SameInput.modifyTerminal k t (f := fun T =>
    { T with yPosition := T.yPosition + 1, xPosition := 0 }) (fun _ => rfl)
  unfold activeTerminalHandleEnter
  exact SameInput.ite (hmove.trans (activeTerminalScrollUp_input _ t)) hmove

theorem activeTerminalHandleTab_input (k : Kernel) (t : Fin 3) :
    SameInput k (activeTerminalHandleTab k t) := by
  have hmove := SameInput.modifyTerminal k t (f := fun T =>
    { T with yPosition := T.yPosition + 1, xPosition := 8 }) (fun _ => rfl)
  unfold activeTerminalHandleTab
  refine SameInput.ite ?_ (SameInput.ite ?_ hmove)
  · exact SameInput.modifyTerminal k t (fun _ => rfl)
  · exact hmove.trans (activeTerminalScrollUp_input _ t)

theorem activeTerminalHandleBackspace_input (k : Kernel) (t : Fin 3) :
    SameInput k (activeTerminalHandleBackspace k t) := by
  unfold activeTerminalHandleBackspace
  refine SameInput.trans (SameInput.ite ?_ (SameInput.ite ?_ ?_)) (SameInput.setMem _ _)
  · exact SameInput.modifyTerminal k t (fun _ => rfl)
  · exact SameInput.modifyTerminal k t (fun _ => rfl)
  · exact SameInput.refl k

theorem activeTerminalHandleNormalChar_input (k : Kernel) (t : Fin 3) (c : UInt8) :
    SameInput k (activeTerminalHandleNormalChar k t c) := by
  have hstore : SameInput k (storeAtPosition k t c) := SameInput.setMem k _
  have hrow := hstore.trans (SameInput.modifyTerminal (storeAtPosition k t c) t (f := fun T =>
    { T with xPosition := 0, yPosition := T.yPosition + 1 }) (fun _ => rfl))
  unfold activeTerminalHandleNormalChar
  refine SameInput.ite (SameInput.ite ?_ hrow) ?_
  · exact hrow.trans (activeTerminalScrollUp_input _ t)
  · exact hstore.trans (SameInput.modifyTerminal _ t (fun _ => rfl))

theorem activeTerminalPutc_input (k : Kernel) (t : Fin 3) (c : UInt8) :
    SameInput k (activeTerminalPutc k t c) := by
  unfold activeTerminalPutc
  refine SameInput.ite ?_ (SameInput.ite ?_ (SameInput.ite ?_ ?_))
  · exact activeTerminalHandleEnter_input k t
  · exact activeTerminalHandleTab_input k t
  · exact activeTerminalHandleBackspace_input k t
  · exact activeTerminalHandleNormalChar_input k t c

theorem terminalPutc_input (k : Kernel) (c : UInt8) : SameInput k (terminalPutc k c) := by
  unfold terminalPutc
  refine SameInput.ite (SameInput.refl k) (SameInput.ite ?_ ?_)
  · exact SameInput.onConsole k _
  · exact activeTerminalPutc_input k _ c

/-- `terminal_write` leaves what is being typed alone. -/
theorem terminalWrite_input (k : Kernel) (buffer : Option (Nat → UInt8)) (nbytes : Int) :
    SameInput k (terminalWrite k buffer nbytes).1 := by
  unfold terminalWrite
  cases buffer with
  | none => exact SameInput.refl k
  | some buffer =>
      simp only
      split_ifs
      · exact SameInput.refl k
      · exact SameInput.refl k
      · refine loop_invariant (fun _ k' => SameInput k k') (SameInput.refl k) ?_
        intro i k' _ hk'
        exact hk'.trans (terminalPutc_input k' (buffer i))

theorem line_saveAndSwitchTerm (k : Kernel) (n : Fin 3) : (saveAndSwitchTerm k n).line = k.line := by
  unfold saveAndSwitchTerm
  split_ifs
  · rfl
  · funext t
    by_cases ht : t = k.activeTerminal <;> simp [Kernel.line, Terminal.line, ht]

theorem reportName_input (k : Kernel) (fname : List UInt8) : SameInput k (reportName k fname) := by
  unfold reportName
  exact SameInput.ite (SameInput.printf k _) (SameInput.refl k)

theorem execute_input (k : Kernel) (cmd : List UInt8) (saved : Context) :
    SameInput k (execute k cmd saved).1 := by
  have hreport := reportName_input k (parse cmd).1
  unfold execute
  simp only
  split_ifs
  · exact hreport.trans (SameInput.printf _ _)
  · cases freeSlot (reportName k (parse cmd).1) with
    | none => exact hreport.trans (SameInput.printf _ _)
    | some pid =>
        have htaken := SameInput.modifyTerminal (reportName k (parse cmd).1)
          (reportName k (parse cmd).1).activeTerminal
          (f := fun T => { T with processNum := pid }) (fun _ => rfl)
        exact hreport.trans ⟨htaken.line, htaken.active⟩

theorem saveContext_input (k : Kernel) (t : Fin 3) (c : Context) :
    SameInput k (saveContext k t c) := by
  unfold saveContext
  exact SameInput.modifyTerminal k t (fun _ => rfl)

theorem maskKeyboard_input (k : Kernel) : SameInput k (maskKeyboard k) := by
  unfold maskKeyboard
  rw [disableIrq_keyboard, enableIrq_keyboard]
  exact SameInput.ite ⟨rfl, rfl⟩ ⟨rfl, rfl⟩

theorem line_launchShell (k : Kernel) (n : Fin 3) (c inner : Context) :
    (launchShell k n c inner).1.line = k.line := by
  obtain ⟨k₁, hk₁⟩ : ∃ k₁,
      (if k.currentRunningProcessCount ≠ 0 then saveContext k k.activeTerminal c else k) = k₁ :=
    ⟨_, rfl⟩
  have hsaved : SameInput k k₁ := by
    rw [← hk₁]
    exact SameInput.ite (saveContext_input k _ c) (SameInput.refl k)
  obtain ⟨k₂, hk₂⟩ : ∃ k₂, { (saveAndSwitchTerm k₁ n).setActive n with
      currentRunningProcessCount :=
        ((saveAndSwitchTerm k₁ n).setActive n).currentRunningProcessCount + 1 } = k₂ := ⟨_, rfl⟩
  have hswitched : k₂.line = k.line := by
    rw [← hk₂]
    exact (line_saveAndSwitchTerm k₁ n).trans hsaved.line
  have hexec := (execute_input k₂ shellCommand inner).line.trans hswitched
  unfold launchShell
  simp only [hk₁, hk₂]
  obtain ⟨k₃, r, hr⟩ : ∃ k₃ r, execute k₂ shellCommand inner = (k₃, r) := ⟨_, _, rfl⟩
  rw [hr] at hexec ⊢
  cases r with
  | none => exact hexec
  | some pid => exact hexec

/-- A tick changes no line. -/
theorem line_pitHandler (k : Kernel) (c inner : Context) :
    (pitHandler k c inner).1.line = k.line := by
  have hmasked : (disableIrq k 0x01).line = k.line := by
    rw [disableIrq_keyboard]
    rfl
  unfold pitHandler scheduleHandling
  rw [← hmasked]
  generalize disableIrq k 0x01 = k
  split_ifs with hact hlt hthree
  · exact line_launchShell k ⟨_, hlt⟩ c inner
  · have hsaved := (saveContext_input k 2 c).line
    unfold launchesDone
    exact (line_saveAndSwitchTerm _ 0).trans hsaved
  · have hsaved := (saveContext_input k k.nextTerminalInSchedule c).line
    unfold roundRobin
    exact (maskKeyboard_input _).line.trans hsaved
  · exact (SameInput.printf k _).line

/-! ## What a key does to the lines -/

/-- The key `key` pressed in `k` has led to `k'`. -/
structure Pressed (k : Kernel) (key : LineKey) (k' : Kernel) : Prop where
  line : k'.line = Function.update k.line k.activeTerminal ((k.line k.activeTerminal).press key)
  active : k'.activeTerminal = key.activeTerminal k.activeTerminal

theorem Pressed.other {k k' : Kernel} (h : SameInput k k') : Pressed k .other k' := by
  refine ⟨?_, h.active⟩
  rw [h.line]
  exact (Function.update_eq_self k.activeTerminal k.line).symm

theorem Pressed.display {k k' : Kernel} {t : Fin 3} (hline : k'.line = k.line)
    (hactive : k'.activeTerminal = t) : Pressed k (.display t) k' := by
  refine ⟨?_, hactive⟩
  rw [hline]
  exact (Function.update_eq_self k.activeTerminal k.line).symm

theorem Pressed.of_line {k k' : Kernel} {key : LineKey}
    (hself : k'.line k.activeTerminal = (k.line k.activeTerminal).press key)
    (hother : ∀ t, t ≠ k.activeTerminal → k'.line t = k.line t)
    (hactive : k'.activeTerminal = key.activeTerminal k.activeTerminal) : Pressed k key k' := by
  refine ⟨funext fun t => ?_, hactive⟩
  by_cases ht : t = k.activeTerminal
  · rw [ht, hself, Function.update_self]
  · rw [hother t ht, Function.update_of_ne ht]

theorem keyEnter_pressed (k : Kernel) : Pressed k .enter (keyEnter k) := by
  refine Pressed.of_line ?_ ?_ rfl
  · simp [keyEnter, Kernel.line, Terminal.line, Line.press]
  · intro t ht
    simp [keyEnter, Kernel.line, Terminal.line, ht]

theorem keyBackspace_pressed (k : Kernel) : Pressed k .backspace (keyBackspace k) := by
  have hmax : ∀ i : Int, max 0 (i - 1) = if i < 0 then 0 else if i > 0 then i - 1 else i := by
    intro i
    split_ifs <;> omega
  unfold keyBackspace
  by_cases hneg : (k.terminal k.activeTerminal).bufferIndex < 0
  · refine Pressed.of_line ?_ ?_ ?_
    · simp [Kernel.line, Terminal.line, Line.press, hmax, hneg]
    · intro t ht
      simp [Kernel.line, Terminal.line, hneg, ht]
    · simp [hneg, LineKey.activeTerminal]
  · by_cases hpos : (k.terminal k.activeTerminal).bufferIndex > 0
    · refine Pressed.of_line ?_ ?_ ?_
      · simp [Kernel.line, Terminal.line, Line.press, hmax, hneg, hpos]
      · intro t ht
        simp [Kernel.line, Terminal.line, hneg, hpos, ht]
      · simp [hneg, hpos, LineKey.activeTerminal]
    · refine Pressed.of_line ?_ ?_ ?_
      · simp [Kernel.line, Terminal.line, Line.press, hmax, hneg, hpos]
      · intro t ht
        simp [hneg, hpos]
      · simp [hneg, hpos, LineKey.activeTerminal]

theorem line_moveIndex (k : Kernel) (d : Int) :
    (moveIndex k d).line = Function.update k.line k.activeTerminal
      { k.line k.activeTerminal with index := (k.line k.activeTerminal).index + d } :=
  line_modifyTerminal k k.activeTerminal (fun T => { T with bufferIndex := T.bufferIndex + d })

theorem keyLeft_pressed (k : Kernel) : Pressed k .left (keyLeft k) := by
  by_cases hpos : 0 < (k.line k.activeTerminal).index
  · rw [keyLeft_of_pos hpos]
    refine ⟨?_, rfl⟩
    rw [line_moveIndex, Line.press, if_neg (not_le.mpr hpos)]
    rfl
  · rw [keyLeft_of_nonpos (not_lt.mp hpos)]
    refine Pressed.of_line ?_ (fun _ _ => rfl) rfl
    exact (if_pos (not_lt.mp hpos)).symm

theorem keyRight_pressed {k : Kernel}
    (hmoves : ¬ (k.leftRightCursorCounter + k.leftRightCursorOffsetter).tmod numCols ≤
      k.console.screenX) : Pressed k .right (keyRight k) := by
  rw [keyRight_of_lt (not_le.mp hmoves)]
  refine ⟨?_, rfl⟩
  rw [line_moveIndex]
  rfl

theorem line_storeTyped (k : Kernel) (c : UInt8) :
    (storeTyped k c).line = Function.update k.line k.activeTerminal
      { k.line k.activeTerminal with
        buffer := Function.update (k.line k.activeTerminal).buffer
          (k.line k.activeTerminal).index c } :=
  line_modifyTerminal k k.activeTerminal _

theorem line_countTyped (k : Kernel) :
    (countTyped k).line = Function.update k.line k.activeTerminal
      { k.line k.activeTerminal with index := (k.line k.activeTerminal).index + 1 } :=
  line_modifyTerminal k k.activeTerminal _

theorem typeChar_pressed (k : Kernel) (c : UInt8) : Pressed k (.char c) (typeChar k c) := by
  by_cases hroom : (k.line k.activeTerminal).index < 128
  · have hprinted := terminalPutc_input (storeTyped k c) c
    have hactive : (terminalPutc (storeTyped k c) c).activeTerminal = k.activeTerminal :=
      hprinted.active
    rw [typeChar_of_room c hroom]
    refine ⟨?_, hactive⟩
    rw [line_countTyped, hactive, hprinted.line, line_storeTyped, Function.update_self,
      Function.update_idem, Line.press, if_pos hroom]
  · rw [typeChar_full c hroom]
    refine Pressed.of_line ?_ (fun _ _ => rfl) rfl
    exact (if_neg hroom).symm

theorem switchKey_of_ne (k : Kernel) {code : Nat} (h : ¬ (59 ≤ code ∧ code ≤ 61)) :
    switchKey k code = k := by
  unfold switchKey
  rw [if_neg (by omega), if_neg (by omega), if_neg (by omega)]

/--
What a key does, beside what it is to the lines: it sets a flag or nothing, or
runs one of the functions for keys.
-/
inductive KeyEffect (k : Kernel) : LineKey → Kernel → Prop
  | flags {k' : Kernel} (hconsole : k'.console = k.console) (hterminal : k'.terminal = k.terminal)
      (hactive : k'.activeTerminal = k.activeTerminal)
      (hcounter : k'.leftRightCursorCounter = k.leftRightCursorCounter)
      (hoffsetter : k'.leftRightCursorOffsetter = k.leftRightCursorOffsetter) :
      KeyEffect k .other k'
  | tab : KeyEffect k .other (k.onConsole (fun s => s.putc 0x09))
  | clear : KeyEffect k .other (k.onConsole Console.clear)
  | enter : KeyEffect k .enter (keyEnter k)
  | backspace : KeyEffect k .backspace (keyBackspace k)
  | left : KeyEffect k .left (keyLeft k)
  | right
      (hmoves : ¬ (k.leftRightCursorCounter + k.leftRightCursorOffsetter).tmod numCols ≤
        k.console.screenX) :
      KeyEffect k .right (keyRight k)
  | display (t : Fin 3) : KeyEffect k (.display t) (saveAndSwitchTerm k t)
  | char (c : UInt8) (hc : c ≠ 0) : KeyEffect k (.char c) (typeChar k c)

theorem setActive_self {k : Kernel} {t : Fin 3} (h : k.activeTerminal = t) : k.setActive t = k := by
  subst h
  rfl

theorem setActive_saveAndSwitchTerm (k : Kernel) (t : Fin 3) :
    (saveAndSwitchTerm k t).setActive t = saveAndSwitchTerm k t :=
  setActive_self (saveAndSwitchTerm_activeTerminal k t)

theorem keyRight_effect (k : Kernel) :
    KeyEffect k
      (if (k.leftRightCursorCounter + k.leftRightCursorOffsetter).tmod numCols ≤ k.console.screenX
        then .other else .right)
      (keyRight k) := by
  split_ifs with hcolumn
  · unfold keyRight
    rw [if_pos hcolumn]
    exact KeyEffect.flags rfl rfl rfl rfl rfl
  · exact KeyEffect.right hcolumn

theorem keyDefault_effect (k : Kernel) (code : Nat) :
    KeyEffect k (defaultKey k code) (keyDefault k code) := by
  by_cases hfunction : k.altStatus = true ∧ 59 ≤ code ∧ code ≤ 61
  · obtain ⟨halt, hcode⟩ := hfunction
    have hkeys : code = 59 ∨ code = 60 ∨ code = 61 := by omega
    have hnone := keypressHandler_functionKey (switchKey k code) hcode
    unfold keyDefault
    simp only [if_pos halt, if_pos hnone]
    rcases hkeys with rfl | rfl | rfl
    · simpa [defaultKey, halt, switchKey, setActive_saveAndSwitchTerm] using KeyEffect.display 0
    · simpa [defaultKey, halt, switchKey, setActive_saveAndSwitchTerm] using KeyEffect.display 1
    · simpa [defaultKey, halt, switchKey, setActive_saveAndSwitchTerm] using KeyEffect.display 2
  · have hsame : (if k.altStatus = true then switchKey k code else k) = k := by
      split_ifs with halt
      · exact switchKey_of_ne k (fun hcode => hfunction ⟨halt, hcode⟩)
      · rfl
    have hother : ∀ n, 59 ≤ n → n ≤ 61 → ¬ (k.altStatus = true ∧ code = n) := by
      rintro n hlow hhigh ⟨halt, rfl⟩
      exact hfunction ⟨halt, hlow, hhigh⟩
    unfold keyDefault defaultKey
    simp only [hsame, hother 59 (by decide) (by decide), hother 60 (by decide) (by decide),
      hother 61 (by decide) (by decide), if_false]
    split_ifs with hzero
    · exact KeyEffect.flags rfl rfl rfl rfl rfl
    · exact KeyEffect.clear
    · exact KeyEffect.char _ hzero

theorem keyboardHandler_effect (k : Kernel) (scancode : Nat) :
    KeyEffect k (lineKey k scancode) (keyboardHandler k scancode) := by
  unfold keyboardHandler
  split
  · exact KeyEffect.flags rfl rfl rfl rfl rfl
  · exact KeyEffect.flags rfl rfl rfl rfl rfl
  · exact KeyEffect.flags rfl rfl rfl rfl rfl
  · exact KeyEffect.flags rfl rfl rfl rfl rfl
  · exact KeyEffect.flags rfl rfl rfl rfl rfl
  · exact KeyEffect.flags rfl rfl rfl rfl rfl
  · exact KeyEffect.flags rfl rfl rfl rfl rfl
  · exact KeyEffect.flags rfl rfl rfl rfl rfl
  · exact KeyEffect.flags rfl rfl rfl rfl rfl
  · exact KeyEffect.enter
  · exact KeyEffect.tab
  · exact KeyEffect.backspace
  · exact KeyEffect.flags rfl rfl rfl rfl rfl
  · exact KeyEffect.flags rfl rfl rfl rfl rfl
  · exact KeyEffect.left
  · exact keyRight_effect k
  · exact KeyEffect.flags rfl rfl rfl rfl rfl
  · have hdefault : lineKey k scancode = defaultKey k scancode := by
      unfold lineKey
      split <;> first | contradiction | rfl
    rw [hdefault]
    exact keyDefault_effect k _

theorem KeyEffect.pressed {k k' : Kernel} {key : LineKey} (h : KeyEffect k key k') :
    Pressed k key k' := by
  cases h with
  | flags _ hterminal hactive _ _ =>
      refine Pressed.other ⟨?_, hactive⟩
      unfold Kernel.line
      rw [hterminal]
  | tab => exact Pressed.other (SameInput.onConsole k _)
  | clear => exact Pressed.other (SameInput.onConsole k _)
  | enter => exact keyEnter_pressed k
  | backspace => exact keyBackspace_pressed k
  | left => exact keyLeft_pressed k
  | right hmoves => exact keyRight_pressed hmoves
  | display t =>
      exact Pressed.display (line_saveAndSwitchTerm k t) (saveAndSwitchTerm_activeTerminal k t)
  | char c _ => exact typeChar_pressed k c

/-- Every key changes the lines as `lineKey` says. -/
theorem keyboardHandler_pressed (k : Kernel) (scancode : Nat) :
    Pressed k (lineKey k scancode) (keyboardHandler k scancode) :=
  (keyboardHandler_effect k scancode).pressed

/-! ## `terminal_read` -/

/--
Where a call of `terminal_read` is: in the loop that waits for `read_flag`, at
the test or the body of the copy loop, or at one of the statements after it.
-/
inductive ReadPhase
  | idle
  | polling
  | testing (i : Nat)
  | copying (i : Nat)
  | newline
  | increment
  | terminator
  | clearing
  | returning
deriving DecidableEq

/-- A call of `terminal_read`, with the buffer of its caller. -/
structure Reader where
  phase : ReadPhase
  buffer : Int → UInt8

/-- The checks of the arguments; `buffer` is `none` for the null pointer. -/
def callRead (k : Kernel) (r : Reader) (buffer : Option (Int → UInt8)) (nbytes : Int) :
    Kernel × Reader :=
  match buffer with
  | none => (k.printf "fail", r)
  | some buffer =>
      if nbytes < 0 then (k.printf "fail", r)
      else if nbytes = 0 then (k.printf "no bytes", r)
      else (k, ⟨.polling, buffer⟩)

/-- The next statement of `terminal_read`. -/
def readStep (k : Kernel) (r : Reader) : Kernel × Reader :=
  let T := k.terminal k.activeTerminal
  match r.phase with
  | .idle => (k, r)
  | .polling => (k, if T.readFlag = 1 then { r with phase := .testing 0 } else r)
  | .testing i => (k, { r with phase := if (i : Int) < T.readIndex then .copying i else .newline })
  | .copying i =>
      (k, ⟨.testing (i + 1), Function.update r.buffer i (T.keyboardBuffer i)⟩)
  | .newline => (k, ⟨.increment, Function.update r.buffer T.readIndex 0x0A⟩)
  | .increment =>
      (k.modifyTerminal k.activeTerminal (fun T => { T with readIndex := T.readIndex + 1 }),
        { r with phase := .terminator })
  | .terminator => (k, ⟨.clearing, Function.update r.buffer T.readIndex 0⟩)
  | .clearing =>
      (k.modifyTerminal k.activeTerminal (fun T => { T with readFlag := 0 }),
        { r with phase := .returning })
  | .returning => (k, { r with phase := .idle })

/-- The bytes that a return at this point gives the caller. -/
def returnedBytes (k : Kernel) (r : Reader) : List UInt8 :=
  (List.range (k.line k.activeTerminal).readIndex.toNat).map (fun j : Nat => r.buffer j)

/-- The effect of a statement of `terminal_read` on the line it goes by. -/
def Line.read (l : Line) : ReadPhase → Line
  | .increment => { l with readIndex := l.readIndex + 1 }
  | .clearing => { l with readFlag := 0 }
  | _ => l

theorem readStep_line (k : Kernel) (r : Reader) :
    (readStep k r).1.line =
      Function.update k.line k.activeTerminal ((k.line k.activeTerminal).read r.phase) := by
  have hsame : k.line = Function.update k.line k.activeTerminal (k.line k.activeTerminal) :=
    (Function.update_eq_self k.activeTerminal k.line).symm
  unfold readStep
  cases r.phase with
  | increment =>
      simp only [line_modifyTerminal]
      rfl
  | clearing =>
      simp only [line_modifyTerminal]
      rfl
  | _ => exact hsame

theorem readStep_activeTerminal (k : Kernel) (r : Reader) :
    (readStep k r).1.activeTerminal = k.activeTerminal := by
  unfold readStep
  cases r.phase <;> rfl

theorem callRead_input (k : Kernel) (r : Reader) (buffer : Option (Int → UInt8)) (nbytes : Int) :
    SameInput k (callRead k r buffer nbytes).1 := by
  unfold callRead
  cases buffer with
  | none => exact SameInput.printf k _
  | some buffer =>
      simp only
      split_ifs
      · exact SameInput.printf k _
      · exact SameInput.printf k _
      · exact SameInput.refl k

end OopsOs
