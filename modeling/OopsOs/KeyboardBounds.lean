import OopsOs.LineInput
import OopsOs.ProgramOutput
import OopsOs.Lib.Machine

/-!
# The bounds of the keyboard state

The index of a line buffer, the length of a published line and the cursor are
changed by the keys, by output and by `terminal_read`.  Most of the functions
keep them in bounds by themselves.  Three do not: LEFT goes below column 0 where
`handle_backspace` goes to the row above, RIGHT counts past the end of the line
buffer, and output to a terminal that is not displayed tests the cursor of the
one that is.

The runs here are those in which no step does one of the three.  The terminal
that output goes to changes with the timer ticks.
-/

namespace OopsOs

open ByteMem Machine

/-! ## Cursors on the screen -/

namespace Sound

variable {k k' : Kernel}

/-- The same screens up to their contents. -/
theorem of_cursors (h : Sound k) (hvideo : k'.console.videoMem = k.console.videoMem)
    (hstorage : ∀ t, (k'.terminal t).videoMemoryStorageLocation =
      (k.terminal t).videoMemoryStorageLocation)
    (hin : ∀ t, (logicalScreen k' t).InBounds) : Sound k' := by
  refine ⟨⟨hvideo.trans h.laid.videoMem, ?_⟩, hin⟩
  intro t
  rw [hstorage, h.laid.storage]

/-- The console and the stored cursors and pages are the same. -/
theorem of_same (h : Sound k) (hconsole : k'.console = k.console)
    (hactive : k'.activeTerminal = k.activeTerminal)
    (hstored : ∀ t, (k'.terminal t).xPosition = (k.terminal t).xPosition ∧
      (k'.terminal t).yPosition = (k.terminal t).yPosition ∧
      (k'.terminal t).videoMemoryStorageLocation =
        (k.terminal t).videoMemoryStorageLocation) : Sound k' := by
  refine h.of_cursors (by rw [hconsole]) (fun t => (hstored t).2.2) ?_
  intro t
  have hin := h.inBounds t
  unfold logicalScreen at hin ⊢
  rw [hactive, hconsole]
  split_ifs at hin ⊢
  · exact hin
  · obtain ⟨hx, hy, -⟩ := hstored t
    unfold Screen.InBounds storedScreen at hin ⊢
    simp only [hx, hy]
    exact hin

theorem modifyTerminal (h : Sound k) (t : Fin 3) {f : Terminal → Terminal}
    (hx : ∀ T, (f T).xPosition = T.xPosition) (hy : ∀ T, (f T).yPosition = T.yPosition)
    (hstorage : ∀ T, (f T).videoMemoryStorageLocation = T.videoMemoryStorageLocation) :
    Sound (k.modifyTerminal t f) := by
  refine h.of_same rfl rfl ?_
  intro u
  by_cases hu : u = t
  · subst hu
    simp [hx, hy, hstorage]
  · simp [hu]

/-- A move of the displayed cursor. -/
theorem moveCursor (h : Sound k) {x : Int} (hx : 0 ≤ x ∧ x < 80) :
    Sound (k.onConsole (fun s => { s with screenX := x })) := by
  refine h.of_cursors rfl (fun _ => rfl) ?_
  intro t
  have hin := h.inBounds t
  have hconsole := h.console_inBounds
  unfold logicalScreen at hin ⊢
  rw [Kernel.onConsole_activeTerminal]
  split_ifs at hin ⊢
  · exact ⟨hx.1, hx.2, hconsole.2.2⟩
  · exact hin

/-- A stored page and cursor. -/
theorem setStored (h : Sound k) (t : Fin 3) (m : Mem) {x y : Int}
    (hx : 0 ≤ x ∧ x < 80) (hy : 0 ≤ y ∧ y < 25) : Sound (setStored k t m x y) := by
  refine h.of_cursors rfl (fun u => setStored_storage k t m x y u) ?_
  intro u
  have hin := h.inBounds u
  have hconsole := h.console_inBounds
  unfold logicalScreen at hin ⊢
  rw [setStored_activeTerminal]
  split_ifs at hin ⊢
  · exact hconsole
  · by_cases hu : u = t
    · subst hu
      simp only [storedScreen, setStored_terminal_self]
      exact ⟨hx.1, hx.2, hy⟩
    · simpa [storedScreen, OopsOs.setStored, hu, Screen.InBounds] using hin

end Sound

/-! ## Output -/

/--
A byte leaves the cursor `(x, y)` of a terminal that is not displayed on the
screen; `(sx, sy)` is the displayed cursor.
-/
def KeepsCursor (sx sy x y : Int) (c : UInt8) : Prop :=
  (Printable c → sx = 79 ∨ x < 79) ∧ (c = 0x08 → 0 < x ∨ sy ≤ 0 ∨ 0 < y)

instance (sx sy x y : Int) (c : UInt8) : Decidable (KeepsCursor sx sy x y c) :=
  inferInstanceAs (Decidable (_ ∧ _))

/-- Every byte does so, at the cursor that the bytes before it have left. -/
def KeepsCursors (sx sy : Int) : Int → Int → List UInt8 → Prop
  | _, _, [] => True
  | x, y, c :: cs =>
      KeepsCursor sx sy x y c ∧
        KeepsCursors sx sy (backgroundPlan x y sx sy c).x (backgroundPlan x y sx sy c).y cs

instance (sx sy : Int) : ∀ (x y : Int) (bytes : List UInt8), Decidable (KeepsCursors sx sy x y bytes)
  | _, _, [] => isTrue trivial
  | x, y, c :: cs =>
      have := instDecidableKeepsCursors sx sy (backgroundPlan x y sx sy c).x
        (backgroundPlan x y sx sy c).y cs
      inferInstanceAs (Decidable (_ ∧ _))

/-- Output of the bytes stays on the screen of the terminal it goes to. -/
def OutputKept (k : Kernel) (bytes : List UInt8) : Prop :=
  (k.currentRunningProcessCount < 3 ∨ k.nextTerminalInSchedule = k.activeTerminal) ∨
    KeepsCursors k.console.screenX k.console.screenY
      (k.terminal k.nextTerminalInSchedule).xPosition
      (k.terminal k.nextTerminalInSchedule).yPosition bytes

instance (k : Kernel) (bytes : List UInt8) : Decidable (OutputKept k bytes) :=
  inferInstanceAs (Decidable (_ ∨ _))

theorem nextRow_cursor {cell : Option (Int × Int × UInt8)} {x y : Int}
    (hx : 0 ≤ x ∧ x < 80) (hy : 0 ≤ y ∧ y < 25) :
    (0 ≤ (Plan.nextRow cell x y).x ∧ (Plan.nextRow cell x y).x < 80) ∧
      0 ≤ (Plan.nextRow cell x y).y ∧ (Plan.nextRow cell x y).y < 25 := by
  unfold Plan.nextRow
  split_ifs
  · simp
  · simp only
    omega

/-- The cursor of the copy stays on the screen exactly if the byte keeps it there. -/
theorem backgroundPlan_cursor_iff {x y : Int} (sx sy : Int) (c : UInt8)
    (hx : 0 ≤ x ∧ x < 80) (hy : 0 ≤ y ∧ y < 25) :
    ((0 ≤ (backgroundPlan x y sx sy c).x ∧ (backgroundPlan x y sx sy c).x < 80) ∧
      0 ≤ (backgroundPlan x y sx sy c).y ∧ (backgroundPlan x y sx sy c).y < 25) ↔
      KeepsCursor sx sy x y c := by
  unfold KeepsCursor Printable backgroundPlan
  by_cases hnewline : c = 0x0A ∨ c = 0x0D
  · have hback : c ≠ 0x08 := by
      rintro rfl
      exact absurd hnewline (by decide)
    rw [if_pos hnewline]
    exact iff_of_true (nextRow_cursor (by omega) hy) ⟨fun h => absurd hnewline h.1, fun h => absurd h hback⟩
  · rw [if_neg hnewline]
    by_cases htab : c = 0x09
    · have hback : c ≠ 0x08 := by
        rintro rfl
        exact absurd htab (by decide)
      rw [if_pos htab]
      refine iff_of_true ?_ ⟨fun h => absurd htab h.2.1, fun h => absurd h hback⟩
      split_ifs
      · simp only
        omega
      · exact nextRow_cursor (by omega) hy
    · rw [if_neg htab]
      by_cases hback : c = 0x08
      · have hnot : ¬ (¬ (c = 0x0A ∨ c = 0x0D) ∧ c ≠ 0x09 ∧ c ≠ 0x08) := fun h => h.2.2 hback
        rw [if_pos hback]
        split_ifs with hcol hrow
        · exact iff_of_true (by simp only; omega) ⟨fun h => absurd h hnot, fun _ => Or.inl hcol⟩
        · simp only
          constructor
          · intro hin
            exact ⟨fun h => absurd h hnot, fun _ => Or.inr (Or.inr (by omega))⟩
          · rintro ⟨-, hkept⟩
            have := hkept hback
            omega
        · exact iff_of_true (by simp only; omega)
            ⟨fun h => absurd h hnot, fun _ => Or.inr (Or.inl (by omega))⟩
      · have hprint : ¬ (c = 0x0A ∨ c = 0x0D) ∧ c ≠ 0x09 ∧ c ≠ 0x08 := ⟨hnewline, htab, hback⟩
        rw [if_neg hback]
        split_ifs with hend
        · exact iff_of_true (nextRow_cursor (by omega) hy)
            ⟨fun _ => Or.inl hend, fun h => absurd h hback⟩
        · simp only
          constructor
          · intro hin
            exact ⟨fun _ => Or.inr (by omega), fun h => absurd h hback⟩
          · rintro ⟨hkept, -⟩
            have := hkept hprint
            omega

theorem scheduledPutc_shown {k : Kernel}
    (hshown : k.currentRunningProcessCount < 3 ∨ k.nextTerminalInSchedule = k.activeTerminal)
    (c : UInt8) : scheduledPutc k c = k.onConsole (fun s => s.putc c) := if_pos hshown

theorem scheduledPutc_stored {k : Kernel}
    (hhidden : ¬ (k.currentRunningProcessCount < 3 ∨ k.nextTerminalInSchedule = k.activeTerminal))
    (c : UInt8) :
    scheduledPutc k c =
      (backgroundPlan (k.terminal k.nextTerminalInSchedule).xPosition
        (k.terminal k.nextTerminalInSchedule).yPosition k.console.screenX k.console.screenY
        c).runStored k k.nextTerminalInSchedule
        (k.terminal k.activeTerminal).videoMemoryStorageLocation := by
  unfold scheduledPutc
  rw [if_neg hhidden, activeTerminalPutc_eq_runStored]

/-- One byte of output. -/
theorem scheduledPutc_sound {k : Kernel} (h : Sound k) {c : UInt8} {cs : List UInt8}
    (hkept : OutputKept k (c :: cs)) :
    Sound (scheduledPutc k c) ∧ OutputKept (scheduledPutc k c) cs := by
  by_cases hshown : k.currentRunningProcessCount < 3 ∨ k.nextTerminalInSchedule = k.activeTerminal
  · rw [scheduledPutc_shown hshown]
    exact ⟨h.step (.write (.putc c)), Or.inl hshown⟩
  · obtain ⟨hkeeps, hrest⟩ := hkept.resolve_left hshown
    rw [scheduledPutc_stored hshown]
    have hne : k.nextTerminalInSchedule ≠ k.activeTerminal := fun heq => hshown (Or.inr heq)
    have hin := h.inBounds k.nextTerminalInSchedule
    unfold logicalScreen at hin
    rw [if_neg hne] at hin
    obtain ⟨hx0, hx1, hy⟩ := hin
    obtain ⟨hx', hy'⟩ := (backgroundPlan_cursor_iff k.console.screenX k.console.screenY c
      ⟨hx0, hx1⟩ hy).mpr hkeeps
    refine ⟨h.setStored _ _ hx' hy', Or.inr ?_⟩
    unfold Plan.runStored
    simpa [setStored] using hrest

theorem printed_sound {k : Kernel} (h : Sound k) {bytes : List UInt8} (hkept : OutputKept k bytes) :
    Sound (bytes.foldl scheduledPutc k) := by
  induction bytes generalizing k with
  | nil => exact h
  | cons c cs ih =>
      obtain ⟨hsound, hrest⟩ := scheduledPutc_sound h hkept
      exact ih hsound hrest

/-- `terminal_write` goes through the bytes other than NUL, unless the line buffer is full. -/
theorem terminalWrite_sound {k : Kernel} (h : Sound k) {buffer : Nat → UInt8} {nbytes : Int}
    (hkept : (k.terminal k.activeTerminal).bufferIndex ≠ 128 →
      OutputKept k (nonNul buffer nbytes.toNat)) :
    Sound (terminalWrite k (some buffer) nbytes).1 := by
  unfold terminalWrite
  by_cases hneg : nbytes < 0
  · simp only [if_pos hneg]
    exact h
  · simp only [if_neg hneg]
    by_cases hfull : (k.terminal k.activeTerminal).bufferIndex = buffSize
    · simp only [if_pos hfull]
      exact h
    · simp only [if_neg hfull, loop_terminalPutc]
      exact printed_sound h (hkept hfull)

/-! ## Keys -/

theorem OutputKept.modifyTerminal {k : Kernel} {bytes : List UInt8} (h : OutputKept k bytes)
    (t : Fin 3) {f : Terminal → Terminal} (hx : ∀ T, (f T).xPosition = T.xPosition)
    (hy : ∀ T, (f T).yPosition = T.yPosition) : OutputKept (k.modifyTerminal t f) bytes := by
  unfold OutputKept at h ⊢
  by_cases ht : k.nextTerminalInSchedule = t
  · simpa [ht, hx, hy] using h
  · simpa [ht] using h

theorem typeChar_sound {k : Kernel} (h : Sound k) {c : UInt8} (hc : c ≠ 0)
    (hkept : (k.terminal k.activeTerminal).bufferIndex < 128 → OutputKept k [c]) :
    Sound (typeChar k c) := by
  by_cases hroom : (k.terminal k.activeTerminal).bufferIndex < 128
  · have hstored : Sound (storeTyped k c) :=
      h.modifyTerminal _ (fun _ => rfl) (fun _ => rfl) (fun _ => rfl)
    have hkept' : OutputKept (storeTyped k c) [c] :=
      (hkept hroom).modifyTerminal _ (fun _ => rfl) (fun _ => rfl)
    rw [typeChar_of_room c hroom, terminalPutc_eq, if_neg hc]
    exact (scheduledPutc_sound hstored hkept').1.modifyTerminal _ (fun _ => rfl) (fun _ => rfl)
      (fun _ => rfl)
  · rw [typeChar_full c hroom]
    exact h

theorem keyBackspace_sound {k : Kernel} (h : Sound k) : Sound (keyBackspace k) := by
  obtain ⟨k₁, hk₁⟩ : ∃ k₁, (if (k.terminal k.activeTerminal).bufferIndex < 0 then
      k.modifyTerminal k.activeTerminal (fun T => { T with bufferIndex := 0 }) else k) = k₁ :=
    ⟨_, rfl⟩
  have hclamped : Sound k₁ := by
    rw [← hk₁]
    split_ifs
    · exact h.modifyTerminal _ (fun _ => rfl) (fun _ => rfl) (fun _ => rfl)
    · exact h
  unfold keyBackspace
  simp only [hk₁]
  split_ifs
  · have hprinted : Sound (k₁.onConsole (fun s => s.putc 0x08)) := hclamped.step (.write (.putc 0x08))
    have hcounted := hprinted.modifyTerminal k₁.activeTerminal
      (f := fun T => { T with bufferIndex := T.bufferIndex - 1 }) (fun _ => rfl) (fun _ => rfl)
      (fun _ => rfl)
    exact hcounted.of_same rfl rfl (fun _ => ⟨rfl, rfl, rfl⟩)
  · exact hclamped

theorem keyEnter_sound {k : Kernel} (h : Sound k) : Sound (keyEnter k) := by
  have hprinted : Sound (k.onConsole (fun s => s.putc 0x0A)) := h.step (.write (.putc 0x0A))
  have hpublished := hprinted.modifyTerminal k.activeTerminal
    (f := fun T => { T with readIndex := T.bufferIndex, readFlag := 1, bufferIndex := 0 })
    (fun _ => rfl) (fun _ => rfl) (fun _ => rfl)
  exact hpublished.of_same rfl rfl (fun _ => ⟨rfl, rfl, rfl⟩)

theorem moveIndex_sound {k : Kernel} (h : Sound k) {d : Int}
    (hx : 0 ≤ k.console.screenX + d ∧ k.console.screenX + d < 80) : Sound (moveIndex k d) := by
  have hindex := h.modifyTerminal k.activeTerminal
    (f := fun T => { T with bufferIndex := T.bufferIndex + d }) (fun _ => rfl) (fun _ => rfl)
    (fun _ => rfl)
  exact hindex.moveCursor hx

theorem setCounters_sound {k : Kernel} (h : Sound k) (counter offsetter : Int) :
    Sound (setCounters k counter offsetter) :=
  h.of_same rfl rfl (fun _ => ⟨rfl, rfl, rfl⟩)

/-- LEFT at column 0 leaves the screen. -/
theorem keyLeft_sound {k : Kernel} (h : Sound k)
    (hcolumn : 0 < (k.terminal k.activeTerminal).bufferIndex → 0 < k.console.screenX) :
    Sound (keyLeft k) := by
  obtain ⟨-, hx, -⟩ := h.console_inBounds
  rw [Console.screen_x] at hx
  by_cases hpos : 0 < (k.terminal k.activeTerminal).bufferIndex
  · have hx0 := hcolumn hpos
    rw [keyLeft_of_pos hpos]
    refine moveIndex_sound (setCounters_sound h _ _) ?_
    rw [setCounters_console]
    omega
  · rw [keyLeft_of_nonpos (by omega)]
    exact h

/-- RIGHT stops before the last column. -/
theorem keyRight_sound {k : Kernel} (h : Sound k) : Sound (keyRight k) := by
  obtain ⟨hx0, -⟩ := h.console_inBounds
  rw [Console.screen_x] at hx0
  by_cases hmoves : k.console.screenX <
      (k.leftRightCursorCounter + k.leftRightCursorOffsetter).tmod 80
  · have hlast : (k.leftRightCursorCounter + k.leftRightCursorOffsetter).tmod 80 < 80 :=
      Int.tmod_lt_of_pos _ (by decide)
    rw [keyRight_of_lt hmoves]
    refine moveIndex_sound (setCounters_sound h _ _) ?_
    rw [setCounters_console]
    omega
  · rw [keyRight_of_le (by omega)]
    exact h

/-- What a key has to keep to by itself for the cursors to stay on the screens. -/
def KeyKept (k : Kernel) : LineKey → Prop
  | .left => 0 < (k.line k.activeTerminal).index → 0 < k.console.screenX
  | .right => (k.line k.activeTerminal).index < 128
  | .char c => (k.line k.activeTerminal).index < 128 → OutputKept k [c]
  | _ => True

instance (k : Kernel) : ∀ key, Decidable (KeyKept k key)
  | .left => inferInstanceAs (Decidable (_ → _))
  | .right => inferInstanceAs (Decidable (_ < _))
  | .char _ => inferInstanceAs (Decidable (_ → _))
  | .enter => isTrue trivial
  | .backspace => isTrue trivial
  | .display _ => isTrue trivial
  | .other => isTrue trivial

theorem keyboardHandler_sound {k : Kernel} (h : Sound k) {code : Nat}
    (hkept : KeyKept k (lineKey k code)) : Sound (keyboardHandler k code) := by
  have heffect := keyboardHandler_effect k code
  generalize lineKey k code = key at hkept heffect
  generalize keyboardHandler k code = k' at heffect
  cases heffect with
  | flags hconsole hterminal hactive _ _ =>
      refine h.of_same hconsole hactive ?_
      intro t
      rw [hterminal]
      exact ⟨rfl, rfl, rfl⟩
  | tab => exact h.step (.write (.putc 0x09))
  | clear => exact h.step (.write .clear)
  | enter => exact keyEnter_sound h
  | backspace => exact keyBackspace_sound h
  | left => exact keyLeft_sound h hkept
  | right _ => exact keyRight_sound h
  | display t => exact h.step (.switch t)
  | char c hc => exact typeChar_sound h hc hkept

/-! ## Lines in bounds -/

/-- A line that has been published and not been read is one character shorter. -/
structure Line.InBounds (l : Line) : Prop where
  index : 0 ≤ l.index ∧ l.index ≤ 128
  readIndex : l.readIndex ≤ 129
  unread : l.readFlag = 1 → l.readIndex ≤ 128

theorem Line.InBounds.press {l : Line} (h : l.InBounds) {key : LineKey}
    (hright : key = .right → l.index < 128) : (l.press key).InBounds := by
  obtain ⟨⟨hlow, hhigh⟩, hread, hunread⟩ := h
  cases key with
  | enter =>
      exact ⟨by simp [Line.press], by simp only [Line.press]; omega, fun _ => hhigh⟩
  | char c =>
      unfold Line.press
      simp only
      split_ifs
      · exact ⟨by simp only; omega, hread, hunread⟩
      · exact ⟨⟨hlow, hhigh⟩, hread, hunread⟩
  | backspace => exact ⟨by simp only [Line.press]; omega, hread, hunread⟩
  | left =>
      unfold Line.press
      simp only
      split_ifs
      · exact ⟨⟨hlow, hhigh⟩, hread, hunread⟩
      · exact ⟨by simp only; omega, hread, hunread⟩
  | right =>
      have := hright rfl
      exact ⟨by simp only [Line.press]; omega, hread, hunread⟩
  | display t => exact ⟨⟨hlow, hhigh⟩, hread, hunread⟩
  | other => exact ⟨⟨hlow, hhigh⟩, hread, hunread⟩

/-! ## Runs -/

/--
A scan code, a call of `terminal_write`, a call of `terminal_read` that is not
interrupted, or a timer tick, after which output may go to another terminal.
-/
inductive KeyboardEvent
  | key (scancode : Nat)
  | write (buffer : Option (Nat → UInt8)) (nbytes : Int)
  | read (buffer : Nat) (nbytes : Int)
  | tick (c inner : Context)

def keyboardStep (k : Kernel) : KeyboardEvent → Option Kernel
  | .key scancode => some (keyboardHandler k scancode)
  | .write buffer nbytes => some (terminalWrite k buffer nbytes).1
  | .read buffer nbytes => some (terminalRead id k buffer nbytes).kernel
  | .tick c inner => some (pitHandler k c inner).1

/-- Keys alone. -/
theorem run_keys (k : Kernel) (codes : List Nat) :
    Run keyboardStep anyStep k (codes.map .key) (pressKeys k codes) := by
  induction codes generalizing k with
  | nil => exact Run.nil k
  | cons code codes ih => exact Run.cons trivial rfl (ih (keyboardHandler k code))

/-- The step does not leave the bounds by itself. -/
def KeepsBounds (k : Kernel) : KeyboardEvent → Prop
  | .key scancode => KeyKept k (lineKey k scancode)
  | .write none _ => True
  | .write (some buffer) nbytes =>
      (k.line k.activeTerminal).index ≠ 128 → OutputKept k (nonNul buffer nbytes.toNat)
  | .read _ _ => True
  | .tick _ _ => True

/-- The keyboard state is in bounds; the cursor of the displayed terminal is the console's. -/
structure KeyboardInBounds (k : Kernel) : Prop where
  index : ∀ t, 0 ≤ (k.terminal t).bufferIndex ∧ (k.terminal t).bufferIndex ≤ 128
  readIndex : ∀ t, (k.terminal t).readIndex ≤ 129
  cursor : ∀ t, (logicalScreen k t).InBounds
  console : 0 ≤ k.console.screenX ∧ k.console.screenX < 80 ∧
    0 ≤ k.console.screenY ∧ k.console.screenY < 25

/-- The invariant of the runs. -/
structure Bounded (k : Kernel) : Prop where
  sound : Sound k
  lines : ∀ t, (k.line t).InBounds

theorem Bounded.inBounds {k : Kernel} (h : Bounded k) : KeyboardInBounds k :=
  ⟨fun t => (h.lines t).index, fun t => (h.lines t).readIndex, h.sound.inBounds,
    h.sound.console_inBounds⟩

theorem printf_sound {k : Kernel} (h : Sound k) (text : String) : Sound (k.printf text) := by
  have hbytes : ∀ (bytes : List UInt8) {k : Kernel}, Sound k →
      Sound (k.onConsole (fun s => bytes.foldl Console.putc s)) := by
    intro bytes
    induction bytes with
    | nil => exact fun hk => hk
    | cons c cs ih => exact fun hk => ih (hk.step (.write (.putc c)))
  exact hbytes _ h

theorem keyboardHandler_bounded {k : Kernel} (h : Bounded k) {code : Nat}
    (hkept : KeyKept k (lineKey k code)) : Bounded (keyboardHandler k code) := by
  refine ⟨keyboardHandler_sound h.sound hkept, ?_⟩
  intro t
  rw [(keyboardHandler_pressed k code).line]
  by_cases ht : t = k.activeTerminal
  · subst ht
    rw [Function.update_self]
    refine (h.lines _).press ?_
    intro hright
    rw [hright] at hkept
    exact hkept
  · rw [Function.update_of_ne ht]
    exact h.lines t

/-- The stored cursor after a character for a terminal that is not displayed. -/
theorem typeChar_stored {k : Kernel} {c : UInt8} (hc : c ≠ 0)
    (hroom : (k.terminal k.activeTerminal).bufferIndex < 128)
    (hhidden : ¬ (k.currentRunningProcessCount < 3 ∨ k.nextTerminalInSchedule = k.activeTerminal)) :
    ((typeChar k c).terminal k.nextTerminalInSchedule).xPosition =
        (backgroundPlan (k.terminal k.nextTerminalInSchedule).xPosition
          (k.terminal k.nextTerminalInSchedule).yPosition k.console.screenX k.console.screenY c).x ∧
      ((typeChar k c).terminal k.nextTerminalInSchedule).yPosition =
        (backgroundPlan (k.terminal k.nextTerminalInSchedule).xPosition
          (k.terminal k.nextTerminalInSchedule).yPosition k.console.screenX k.console.screenY c).y := by
  have hne : k.nextTerminalInSchedule ≠ k.activeTerminal := fun heq => hhidden (Or.inr heq)
  rw [typeChar_of_room c hroom, terminalPutc_eq, if_neg hc,
    scheduledPutc_stored (k := storeTyped k c) hhidden]
  simp [countTyped, storeTyped, Plan.runStored, setStored, hne]

/-- Where a key does not keep to its condition, the state after it is out of bounds. -/
theorem keyKept_of_inBounds {k : Kernel} (h : Sound k) {code : Nat}
    (hin : KeyboardInBounds (keyboardHandler k code)) : KeyKept k (lineKey k code) := by
  have heffect := keyboardHandler_effect k code
  have hactive := (keyboardHandler_pressed k code).active
  generalize lineKey k code = key at heffect hactive ⊢
  generalize keyboardHandler k code = k' at heffect hin hactive
  cases heffect with
  | left =>
      intro hpos
      have hx := hin.console.1
      rw [keyLeft_of_pos hpos] at hx
      simp only [moveIndex_console_screenX, setCounters_console] at hx
      omega
  | right hmoves =>
      have hline := (keyRight_pressed hmoves).line
      have hindex : ((keyRight k).line k.activeTerminal).index ≤ 128 := (hin.index k.activeTerminal).2
      rw [hline, Function.update_self] at hindex
      exact Int.add_one_le_iff.mp hindex
  | char c hc =>
      intro hroom
      by_cases hshown : k.currentRunningProcessCount < 3 ∨ k.nextTerminalInSchedule = k.activeTerminal
      · exact Or.inl hshown
      · have hne : k.nextTerminalInSchedule ≠ k.activeTerminal := fun heq => hshown (Or.inr heq)
        have hstays : (typeChar k c).activeTerminal = k.activeTerminal := hactive
        obtain ⟨hx, hy⟩ := typeChar_stored hc hroom hshown
        have hbefore := h.inBounds k.nextTerminalInSchedule
        have hafter := hin.cursor k.nextTerminalInSchedule
        unfold logicalScreen at hbefore hafter
        rw [if_neg hne] at hbefore
        rw [hstays, if_neg hne] at hafter
        obtain ⟨hx0, hx1, hy0⟩ := hbefore
        unfold Screen.InBounds storedScreen at hafter
        simp only [hx, hy] at hafter
        have hkept := (backgroundPlan_cursor_iff k.console.screenX k.console.screenY c
          ⟨hx0, hx1⟩ hy0).mp ⟨⟨hafter.1, hafter.2.1⟩, hafter.2.2⟩
        exact Or.inr ⟨hkept, trivial⟩
  | flags _ _ _ _ _ => trivial
  | tab => trivial
  | clear => trivial
  | enter => trivial
  | backspace => trivial
  | display t => trivial

theorem terminalWrite_bounded {k : Kernel} (h : Bounded k) {buffer : Option (Nat → UInt8)}
    {nbytes : Int} (hkept : KeepsBounds k (.write buffer nbytes)) :
    Bounded (terminalWrite k buffer nbytes).1 := by
  refine ⟨?_, ?_⟩
  · cases buffer with
    | none => exact h.sound
    | some buffer => exact terminalWrite_sound h.sound hkept
  · rw [(terminalWrite_input k buffer nbytes).line]
    exact h.lines

/-- What a call of `terminal_read` that is not interrupted does to the kernel. -/
theorem terminalRead_cases (k : Kernel) (buffer : Nat) (nbytes : Int) :
    (∃ text, (terminalRead id k buffer nbytes).kernel = k.printf text) ∨
      ((k.line k.activeTerminal).readFlag = 1 ∧
        (terminalRead id k buffer nbytes).kernel =
          k.modifyTerminal k.activeTerminal (fun T =>
            { T with readIndex := T.readIndex + 1, readFlag := 0 })) ∨
      (terminalRead id k buffer nbytes).kernel = k := by
  have hpolled : polledLine id k = k := by
    unfold polledLine
    split_ifs <;> rfl
  unfold terminalRead
  simp only [hpolled]
  split_ifs with hargs hnone hflag
  · exact Or.inl ⟨_, rfl⟩
  · exact Or.inl ⟨_, rfl⟩
  · exact Or.inr (Or.inl ⟨hflag, rfl⟩)
  · exact Or.inr (Or.inr rfl)

theorem terminalRead_bounded {k : Kernel} (h : Bounded k) (buffer : Nat) (nbytes : Int) :
    Bounded (terminalRead id k buffer nbytes).kernel := by
  rcases terminalRead_cases k buffer nbytes with ⟨text, hprinted⟩ | ⟨hflag, hread⟩ | hsame
  · rw [hprinted]
    exact ⟨printf_sound h.sound text, h.lines⟩
  · rw [hread]
    refine ⟨h.sound.modifyTerminal _ (fun _ => rfl) (fun _ => rfl) (fun _ => rfl), ?_⟩
    intro t
    rw [line_modifyTerminal]
    by_cases ht : t = k.activeTerminal
    · subst ht
      have hlong := (h.lines k.activeTerminal).unread hflag
      rw [Function.update_self]
      refine ⟨(h.lines k.activeTerminal).index, ?_, fun hone => absurd hone zero_ne_one⟩
      show (k.line k.activeTerminal).readIndex + 1 ≤ 129
      omega
    · rw [Function.update_of_ne ht]
      exact h.lines t
  · rw [hsame]
    exact h

/-! ### Timer ticks -/

theorem execute_sound {k : Kernel} (h : Sound k) (cmd : List UInt8) (saved : Context) :
    Sound (execute k cmd saved).1 := by
  have hreported : Sound (reportName k (parse cmd).1) := by
    unfold reportName
    split_ifs
    · exact printf_sound h _
    · exact h
  rcases execute_cases k cmd saved with ⟨-, text, heq⟩ | ⟨pid, -, -, heq⟩
  · rw [heq]
    exact printf_sound hreported text
  · have htaken := hreported.modifyTerminal (reportName k (parse cmd).1).activeTerminal
      (f := fun T => { T with processNum := pid }) (fun _ => rfl) (fun _ => rfl) (fun _ => rfl)
    rw [heq]
    exact htaken.of_same rfl rfl (fun _ => ⟨rfl, rfl, rfl⟩)

theorem launchKernel_sound {k : Kernel} (h : Sound k) (n : Fin 3) (c : Context) :
    Sound (launchKernel k n c) := by
  obtain ⟨k₁, hk₁⟩ : ∃ k₁,
      (if k.currentRunningProcessCount ≠ 0 then saveContext k k.activeTerminal c else k) = k₁ :=
    ⟨_, rfl⟩
  have hsaved : Sound k₁ := by
    rw [← hk₁]
    split_ifs
    · exact h.modifyTerminal _ (fun _ => rfl) (fun _ => rfl) (fun _ => rfl)
    · exact h
  have hswitched : Sound (saveAndSwitchTerm k₁ n) := hsaved.step (.switch n)
  unfold launchKernel
  simp only [hk₁]
  exact hswitched.of_same rfl (saveAndSwitchTerm_activeTerminal k₁ n).symm
    (fun _ => ⟨rfl, rfl, rfl⟩)

theorem maskKeyboard_sound {k : Kernel} (h : Sound k) : Sound (maskKeyboard k) := by
  unfold maskKeyboard
  rw [disableIrq_keyboard, enableIrq_keyboard]
  split_ifs
  · exact h.of_same rfl rfl (fun _ => ⟨rfl, rfl, rfl⟩)
  · exact h.of_same rfl rfl (fun _ => ⟨rfl, rfl, rfl⟩)

/-- A tick leaves the cursors of all screens where they are, by phase of the scheduler. -/
theorem pitHandler_sound {k : Kernel} (h : Sound k) (c inner : Context) :
    Sound (pitHandler k c inner).1 := by
  have hmasked : Sound (disableIrq k 0x01) := by
    rw [disableIrq_keyboard]
    exact h.of_same rfl rfl (fun _ => ⟨rfl, rfl, rfl⟩)
  unfold pitHandler scheduleHandling
  generalize disableIrq k 0x01 = k at hmasked
  split_ifs with hact hlt hthree
  · rw [launchShell_eq]
    exact execute_sound (launchKernel_sound hmasked _ c) _ inner
  · have hsaved := hmasked.modifyTerminal 2 (f := fun T => { T with current := c })
      (fun _ => rfl) (fun _ => rfl) (fun _ => rfl)
    have hcounted : Sound { saveContext k 2 c with
        currentRunningProcessCount := (saveContext k 2 c).currentRunningProcessCount + 1 } :=
      hsaved.of_same rfl rfl (fun _ => ⟨rfl, rfl, rfl⟩)
    exact hcounted.step (.switch 0)
  · have hsaved := hmasked.modifyTerminal k.nextTerminalInSchedule
      (f := fun T => { T with current := c }) (fun _ => rfl) (fun _ => rfl) (fun _ => rfl)
    have hnext : Sound { saveContext k k.nextTerminalInSchedule c with
        nextTerminalInSchedule :=
          (saveContext k k.nextTerminalInSchedule c).nextTerminalInSchedule + 1 } :=
      hsaved.of_same rfl rfl (fun _ => ⟨rfl, rfl, rfl⟩)
    exact (maskKeyboard_sound hnext).of_same rfl rfl (fun _ => ⟨rfl, rfl, rfl⟩)
  · exact printf_sound hmasked _

theorem pitHandler_bounded {k : Kernel} (h : Bounded k) (c inner : Context) :
    Bounded (pitHandler k c inner).1 := by
  refine ⟨pitHandler_sound h.sound c inner, ?_⟩
  rw [line_pitHandler]
  exact h.lines

theorem keyboardStep_bounded (k : Kernel) (e : KeyboardEvent) (k' : Kernel) (h : Bounded k)
    (hkept : KeepsBounds k e) (hstep : keyboardStep k e = some k') : Bounded k' := by
  cases e with
  | key code =>
      obtain rfl := Option.some.inj hstep
      exact keyboardHandler_bounded h hkept
  | write buffer nbytes =>
      obtain rfl := Option.some.inj hstep
      exact terminalWrite_bounded h hkept
  | read buffer nbytes =>
      obtain rfl := Option.some.inj hstep
      exact terminalRead_bounded h buffer nbytes
  | tick c inner =>
      obtain rfl := Option.some.inj hstep
      exact pitHandler_bounded h c inner

/-- An opened terminal has an empty line, and the other two keep theirs. -/
theorem openTerminal_lines {k : Kernel} {j t : Fin 3} (h : t ≠ j → (k.line t).InBounds) :
    ((openTerminal k j).line t).InBounds := by
  by_cases ht : t = j
  · subst ht
    refine ⟨?_, ?_, ?_⟩
    · simp [openTerminal, Kernel.line, Terminal.line]
    · simp [openTerminal, Kernel.line, Terminal.line]
    · simp [openTerminal, Kernel.line, Terminal.line]
  · unfold Kernel.line
    rw [openTerminal_terminal_of_ne k ht]
    exact h ht

theorem keyboardInitialize_lines (k : Kernel) (t : Fin 3) :
    ((keyboardInitialize k).line t).InBounds := by
  refine openTerminal_lines (fun h2 => openTerminal_lines (fun h1 => openTerminal_lines ?_))
  intro h0
  exact absurd t.isLt (by omega)

theorem keyboardInitialize_bounded {k : Kernel} (hvideo : k.console.videoMem = video)
    (hcursor : k.console.screen.InBounds) : Bounded (keyboardInitialize k) := by
  have hconsole : (enableIrq k 0x01).console = k.console := by
    rw [enableIrq_keyboard]
  have hopened : Sound (terminalOpen (enableIrq k 0x01)) := by
    apply terminalOpen_sound
    · rw [hconsole]
      exact hvideo
    · rw [hconsole]
      exact hcursor
  refine ⟨hopened.of_cursors rfl (fun _ => rfl) ?_, keyboardInitialize_lines k⟩
  intro t
  obtain ⟨-, hx, hy⟩ := terminalOpen_console (enableIrq k 0x01)
  obtain ⟨-, htx, hty⟩ := terminalOpen_terminal (enableIrq k 0x01) t
  rw [hconsole] at hx hy
  unfold logicalScreen
  split_ifs
  · rw [Screen.InBounds, Console.screen_x, Console.screen_y]
    simp only [keyboardInitialize, hx, hy]
    exact hcursor
  · simp [Screen.InBounds, storedScreen, keyboardInitialize, htx, hty]

/--
From `keyboard_initialize` on, the keyboard state is in bounds after every run
of keys, calls and ticks in which no LEFT moves from column 0, no RIGHT moves at
the end of a full line buffer, and no byte for a terminal that is not displayed
is drawn past its last column or erased above its first row.
-/
theorem run_keyboard_in_bounds {k k' : Kernel} (hvideo : k.console.videoMem = video)
    (hcursor : k.console.screen.InBounds) {es : List KeyboardEvent}
    (hrun : Run keyboardStep KeepsBounds (keyboardInitialize k) es k') : KeyboardInBounds k' :=
  (hrun.invariant keyboardStep_bounded (keyboardInitialize_bounded hvideo hcursor)).inBounds

/-- The state after a key is in bounds; output stays on the screens. -/
def KeyStaysInBounds (k : Kernel) : KeyboardEvent → Prop
  | .key scancode => KeyboardInBounds (keyboardHandler k scancode)
  | .write buffer nbytes => KeepsBounds k (.write buffer nbytes)
  | .read _ _ => True
  | .tick _ _ => True

/-- For the keys the condition is exact. -/
theorem run_keys_in_bounds_iff {k k' : Kernel} (hvideo : k.console.videoMem = video)
    (hcursor : k.console.screen.InBounds) {es : List KeyboardEvent} :
    Run keyboardStep KeyStaysInBounds (keyboardInitialize k) es k' ↔
      Run keyboardStep KeepsBounds (keyboardInitialize k) es k' := by
  refine Run.guard_iff keyboardStep_bounded ?_ (keyboardInitialize_bounded hvideo hcursor)
  intro s e s' hs _
  cases e with
  | key code =>
      constructor
      · intro hin
        exact keyKept_of_inBounds hs.sound hin
      · intro hkept
        exact (keyboardHandler_bounded hs hkept).inBounds
  | write buffer nbytes => exact Iff.rfl
  | read buffer nbytes => exact Iff.rfl
  | tick c inner => exact Iff.rfl

theorem bareKernel_inBounds : bareKernel.console.screen.InBounds := by
  simp [bareKernel, Kernel.zero, Console.screen, Screen.InBounds]

/-- A character, LEFT and RIGHT in the first row. -/
theorem run_keyboard_in_bounds_arrows :
    KeyboardInBounds (pressKeys (keyboardInitialize bareKernel) [30, 75, 77]) := by
  have htyped : KeyKept (keyboardInitialize bareKernel)
      (lineKey (keyboardInitialize bareKernel) 30) := by decide +kernel
  have hleft : KeyKept (pressKeys (keyboardInitialize bareKernel) [30])
      (lineKey (pressKeys (keyboardInitialize bareKernel) [30]) 75) := by decide +kernel
  have hright : KeyKept (pressKeys (keyboardInitialize bareKernel) [30, 75])
      (lineKey (pressKeys (keyboardInitialize bareKernel) [30, 75]) 77) := by decide +kernel
  have hrun : Run keyboardStep KeepsBounds (keyboardInitialize bareKernel)
      [.key 30, .key 75, .key 77] (pressKeys (keyboardInitialize bareKernel) [30, 75, 77]) :=
    Run.cons htyped rfl (Run.cons hleft rfl (Run.cons hright rfl (Run.nil _)))
  exact run_keyboard_in_bounds rfl bareKernel_inBounds hrun

/-- A character, Ctrl-L, and LEFT: the line is not empty and the cursor is at column 0. -/
theorem left_after_clear_out_of_bounds :
    bareKernel.console.videoMem = video ∧ bareKernel.console.screen.InBounds ∧
      Run keyboardStep anyStep (keyboardInitialize bareKernel)
        [.key 30, .key 29, .key 38, .key 157, .key 75]
        (pressKeys (keyboardInitialize bareKernel) [30, 29, 38, 157, 75]) ∧
      (pressKeys (keyboardInitialize bareKernel) [30, 29, 38, 157, 75]).console.screenX = -1 ∧
      ¬ KeyboardInBounds (pressKeys (keyboardInitialize bareKernel) [30, 29, 38, 157, 75]) := by
  have hx : (pressKeys (keyboardInitialize bareKernel) [30, 29, 38, 157, 75]).console.screenX = -1 := by
    decide +kernel
  refine ⟨rfl, bareKernel_inBounds, run_keys _ [30, 29, 38, 157, 75], hx, ?_⟩
  intro h
  have hcolumn := h.console.1
  rw [hx] at hcolumn
  exact absurd hcolumn (by decide)

end OopsOs
