import OopsOs.LineInput
import OopsOs.Lib.Machine
import Mathlib.Data.List.GetD

/-!
# Typing ahead

One terminal, its keyboard and one process that calls `terminal_read` again
and again.  `published` records what was in the line buffer at each ENTER, and
`completed` what each call has returned.

The keyboard and the reader share one buffer and one flag.  The lines come
through while there is at most one of them on the way: ENTER is pressed only
after the line before it has been returned, and no character is typed over a
character that has been published and is still to be copied.
-/

namespace OopsOs

open ByteMem Machine

structure LineReader where
  kernel : Kernel
  reader : Reader
  published : List (List UInt8)
  completed : List (List UInt8)

inductive LineEvent
  | key (scancode : Nat)
  | call (buffer : Option (Int → UInt8)) (nbytes : Int)
  | step

namespace LineReader

def line (s : LineReader) : Line := s.kernel.line s.kernel.activeTerminal

def start (k : Kernel) : LineReader := ⟨k, ⟨.idle, fun _ => 0⟩, [], []⟩

def press (s : LineReader) (scancode : Nat) : LineReader :=
  { s with
    kernel := keyboardHandler s.kernel scancode
    published :=
      if lineKey s.kernel scancode = .enter then s.published ++ [s.line.typed] else s.published }

def call (s : LineReader) (buffer : Option (Int → UInt8)) (nbytes : Int) : LineReader :=
  { s with
    kernel := (callRead s.kernel s.reader buffer nbytes).1
    reader := (callRead s.kernel s.reader buffer nbytes).2 }

def advance (s : LineReader) : LineReader :=
  { s with
    kernel := (readStep s.kernel s.reader).1
    reader := (readStep s.kernel s.reader).2
    completed :=
      if s.reader.phase = .returning then s.completed ++ [returnedBytes s.kernel s.reader]
      else s.completed }

/-- A terminal switch is not an event of one terminal. -/
def step (s : LineReader) : LineEvent → Option LineReader
  | .key scancode =>
      match lineKey s.kernel scancode with
      | .display _ => none
      | _ => some (s.press scancode)
  | .call buffer nbytes => if s.reader.phase = .idle then some (s.call buffer nbytes) else none
  | .step => if s.reader.phase = .idle then none else some s.advance

end LineReader

/-- No call has begun to read a line. -/
def ReadPhase.Waiting : ReadPhase → Prop
  | .idle => True
  | .polling => True
  | _ => False

/-- The character at position `j` is still to be copied. -/
def ReadPhase.Uncopied (j : Int) : ReadPhase → Prop
  | .idle => True
  | .polling => True
  | .testing i => (i : Int) ≤ j
  | .copying i => (i : Int) ≤ j
  | _ => False

instance : (p : ReadPhase) → Decidable p.Waiting
  | .idle => isTrue trivial
  | .polling => isTrue trivial
  | .testing _ => isFalse (fun h => h)
  | .copying _ => isFalse (fun h => h)
  | .newline => isFalse (fun h => h)
  | .increment => isFalse (fun h => h)
  | .terminator => isFalse (fun h => h)
  | .clearing => isFalse (fun h => h)
  | .returning => isFalse (fun h => h)

instance (j : Int) : (p : ReadPhase) → Decidable (p.Uncopied j)
  | .idle => isTrue trivial
  | .polling => isTrue trivial
  | .testing i => inferInstanceAs (Decidable ((i : Int) ≤ j))
  | .copying i => inferInstanceAs (Decidable ((i : Int) ≤ j))
  | .newline => isFalse (fun h => h)
  | .increment => isFalse (fun h => h)
  | .terminator => isFalse (fun h => h)
  | .clearing => isFalse (fun h => h)
  | .returning => isFalse (fun h => h)

/-- The condition on a key under which lines come through. -/
def KeyKeepsLine (s : LineReader) : LineKey → Prop
  | .enter => s.line.readFlag ≠ 1 ∧ s.reader.phase.Waiting
  | .char c => s.line.readFlag = 1 → s.reader.phase.Uncopied s.line.index →
      s.line.index < s.line.readIndex → s.line.index < 128 → s.line.buffer s.line.index = c
  | _ => True

def KeepsLine (s : LineReader) : LineEvent → Prop
  | .key scancode => KeyKeepsLine s (lineKey s.kernel scancode)
  | _ => True

instance (s : LineReader) : (key : LineKey) → Decidable (KeyKeepsLine s key)
  | .enter => inferInstanceAs (Decidable (s.line.readFlag ≠ 1 ∧ s.reader.phase.Waiting))
  | .char c => inferInstanceAs (Decidable (s.line.readFlag = 1 →
      s.reader.phase.Uncopied s.line.index → s.line.index < s.line.readIndex →
      s.line.index < 128 → s.line.buffer s.line.index = c))
  | .backspace => isTrue trivial
  | .left => isTrue trivial
  | .right => isTrue trivial
  | .display _ => isTrue trivial
  | .other => isTrue trivial

instance (s : LineReader) : (e : LineEvent) → Decidable (KeepsLine s e)
  | .key scancode => inferInstanceAs (Decidable (KeyKeepsLine s (lineKey s.kernel scancode)))
  | .call _ _ => isTrue trivial
  | .step => isTrue trivial

/-! ## A line on the way -/

/-- From position `i` on, the published line is in the buffer. -/
structure Line.Holds (l : Line) (line : List UInt8) (i : Nat) : Prop where
  flag : l.readFlag = 1
  length : l.readIndex = line.length
  chars : ∀ j : Nat, i ≤ j → j < line.length → l.buffer j = line.getD j 0

/-- The first `n` characters of the text have been copied. -/
def Copied (buffer : Int → UInt8) (text : List UInt8) (n : Nat) : Prop :=
  ∀ j : Nat, j < n → buffer j = text.getD j 0

/-- The line that was published last, between its ENTER and the return that delivers it. -/
def OnTheWay (l : Line) (r : Reader) (line : List UInt8) : Prop :=
  match r.phase with
  | .idle => l.Holds line 0
  | .polling => l.Holds line 0
  | .testing i => l.Holds line i ∧ Copied r.buffer line i ∧ i ≤ line.length
  | .copying i => l.Holds line i ∧ Copied r.buffer line i ∧ i < line.length
  | .newline => l.Holds line line.length ∧ Copied r.buffer line line.length
  | .increment => l.Holds line line.length ∧ Copied r.buffer (line ++ [0x0A]) (line.length + 1)
  | .terminator => (l.readFlag = 1 ∧ l.readIndex = line.length + 1) ∧
      Copied r.buffer (line ++ [0x0A]) (line.length + 1)
  | .clearing => (l.readFlag = 1 ∧ l.readIndex = line.length + 1) ∧
      Copied r.buffer (line ++ [0x0A]) (line.length + 1)
  | .returning => (l.readFlag ≠ 1 ∧ l.readIndex = line.length + 1) ∧
      Copied r.buffer (line ++ [0x0A]) (line.length + 1)

def withNewline (line : List UInt8) : List UInt8 := line ++ [0x0A]

/-- All published lines have been returned, or all but the last, which is on the way. -/
structure InOrder (s : LineReader) : Prop where
  index : 0 ≤ s.line.index
  lines : (s.line.readFlag ≠ 1 ∧ s.reader.phase.Waiting ∧
      s.completed = s.published.map withNewline) ∨
    ∃ before line, s.published = before ++ [line] ∧ s.completed = before.map withNewline ∧
      OnTheWay s.line s.reader line

section Press

variable {l : Line} {key : LineKey}

theorem Line.press_index (h : 0 ≤ l.index) : 0 ≤ (l.press key).index := by
  cases key with
  | char c =>
      simp only [Line.press]
      split_ifs
      · simp only
        omega
      · exact h
  | left =>
      simp only [Line.press]
      split_ifs
      · exact h
      · simp only
        omega
  | right =>
      simp only [Line.press]
      omega
  | backspace => exact le_max_left _ _
  | enter => exact le_refl _
  | display t => exact h
  | other => exact h

theorem Line.press_read (hkey : key ≠ .enter) :
    (l.press key).readIndex = l.readIndex ∧ (l.press key).readFlag = l.readFlag := by
  cases key with
  | enter => exact absurd rfl hkey
  | char c =>
      simp only [Line.press]
      split_ifs <;> exact ⟨rfl, rfl⟩
  | left =>
      simp only [Line.press]
      split_ifs <;> exact ⟨rfl, rfl⟩
  | backspace => exact ⟨rfl, rfl⟩
  | right => exact ⟨rfl, rfl⟩
  | display t => exact ⟨rfl, rfl⟩
  | other => exact ⟨rfl, rfl⟩

/-- Keys other than characters leave the buffer, and a character changes one position of it. -/
theorem Line.press_buffer (j : Int) :
    (l.press key).buffer j = l.buffer j ∨
      ∃ c, key = .char c ∧ j = l.index ∧ l.index < 128 ∧ (l.press key).buffer j = c := by
  cases key with
  | char c =>
      simp only [Line.press]
      split_ifs with hroom
      · by_cases hj : j = l.index
        · refine Or.inr ⟨c, rfl, hj, hroom, ?_⟩
          rw [hj]
          exact Function.update_self _ _ _
        · exact Or.inl (Function.update_of_ne hj _ _)
      · exact Or.inl rfl
  | left =>
      simp only [Line.press]
      split_ifs <;> exact Or.inl rfl
  | enter => exact Or.inl rfl
  | backspace => exact Or.inl rfl
  | right => exact Or.inl rfl
  | display t => exact Or.inl rfl
  | other => exact Or.inl rfl

theorem Line.Holds.press {line : List UInt8} {i : Nat} (h : l.Holds line i) (hkey : key ≠ .enter)
    (hchar : ∀ c, key = .char c → (i : Int) ≤ l.index → l.index < l.readIndex → l.index < 128 →
      l.buffer l.index = c) : (l.press key).Holds line i := by
  obtain ⟨hindex, hflag⟩ := Line.press_read (l := l) hkey
  refine ⟨hflag.trans h.flag, hindex.trans h.length, ?_⟩
  intro j hij hj
  rw [← h.chars j hij hj]
  have hbuffer : (l.press key).buffer j = l.buffer j ∨ ∃ c, key = .char c ∧ (j : Int) = l.index ∧
      l.index < 128 ∧ (l.press key).buffer j = c := Line.press_buffer (j : Int)
  rcases hbuffer with hsame | ⟨c, hc, hpos, hroom, hnew⟩
  · exact hsame
  · rw [hnew, hpos]
    have hread := h.length
    exact (hchar c hc (by omega) (by omega) hroom).symm

theorem OnTheWay.press {r : Reader} {line : List UInt8} (h : OnTheWay l r line)
    (hkey : key ≠ .enter)
    (hchar : ∀ c, key = .char c → l.readFlag = 1 → r.phase.Uncopied l.index →
      l.index < l.readIndex → l.index < 128 → l.buffer l.index = c) :
    OnTheWay (l.press key) r line := by
  obtain ⟨phase, buffer⟩ := r
  have hread := Line.press_read (l := l) hkey
  -- once all is copied, the buffer does not matter
  have hcopied : l.Holds line line.length → (l.press key).Holds line line.length :=
    fun hl => ⟨hread.2.trans hl.flag, hread.1.trans hl.length, fun j hlow hhigh => by omega⟩
  cases phase with
  | idle =>
      exact Line.Holds.press h hkey (fun c hc _ => hchar c hc h.flag trivial)
  | polling =>
      exact Line.Holds.press h hkey (fun c hc _ => hchar c hc h.flag trivial)
  | testing i =>
      obtain ⟨hl, hrest⟩ := h
      exact ⟨hl.press hkey (fun c hc hi => hchar c hc hl.flag hi), hrest⟩
  | copying i =>
      obtain ⟨hl, hrest⟩ := h
      exact ⟨hl.press hkey (fun c hc hi => hchar c hc hl.flag hi), hrest⟩
  | newline => exact ⟨hcopied h.1, h.2⟩
  | increment => exact ⟨hcopied h.1, h.2⟩
  | terminator => exact ⟨⟨hread.2.trans h.1.1, hread.1.trans h.1.2⟩, h.2⟩
  | clearing => exact ⟨⟨hread.2.trans h.1.1, hread.1.trans h.1.2⟩, h.2⟩
  | returning => exact ⟨⟨by rw [hread.2]; exact h.1.1, hread.1.trans h.1.2⟩, h.2⟩

end Press

section Waiting

variable {l : Line} {r : Reader} {line : List UInt8}

theorem OnTheWay.of_waiting (hr : r.phase.Waiting) (h : l.Holds line 0) : OnTheWay l r line := by
  obtain ⟨phase, buffer⟩ := r
  cases phase with
  | idle => exact h
  | polling => exact h
  | _ => exact absurd hr (fun hf => hf)

theorem OnTheWay.holds_of_waiting (h : OnTheWay l r line) (hr : r.phase.Waiting) :
    l.Holds line 0 := by
  obtain ⟨phase, buffer⟩ := r
  cases phase with
  | idle => exact h
  | polling => exact h
  | _ => exact absurd hr (fun hf => hf)

end Waiting

theorem Line.typed_length (l : Line) : l.typed.length = l.index.toNat := by
  simp [Line.typed]

theorem Line.typed_getD (l : Line) {j : Nat} (h : j < l.typed.length) :
    l.typed.getD j 0 = l.buffer j := by
  rw [Line.typed_length] at h
  simp [Line.typed, h]

/-- ENTER puts the typed line on its way. -/
theorem Line.holds_typed (l : Line) (h : 0 ≤ l.index) : (l.press .enter).Holds l.typed 0 := by
  refine ⟨rfl, ?_, ?_⟩
  · rw [Line.typed_length]
    simp only [Line.press]
    omega
  · intro j _ hj
    exact (l.typed_getD hj).symm

/-! ## The steps -/

section Steps

variable {s s' : LineReader} (h : InOrder s)
include h

theorem press_inOrder {scancode : Nat} (hC : KeepsLine s (.key scancode))
    (hstep : s.step (.key scancode) = some s') : InOrder s' := by
  have hpressed := keyboardHandler_pressed s.kernel scancode
  obtain ⟨key, hkey⟩ : ∃ key, lineKey s.kernel scancode = key := ⟨_, rfl⟩
  rw [hkey] at hpressed
  simp only [KeepsLine, KeyKeepsLine, hkey] at hC
  simp only [LineReader.step, hkey] at hstep
  by_cases hdisplay : ∃ t, key = .display t
  · obtain ⟨t, rfl⟩ := hdisplay
    cases hstep
  · have hactive : (keyboardHandler s.kernel scancode).activeTerminal = s.kernel.activeTerminal := by
      rw [hpressed.active]
      cases key with
      | display t => exact absurd ⟨t, rfl⟩ hdisplay
      | _ => rfl
    have hline : (s.press scancode).line = s.line.press key := by
      unfold LineReader.line LineReader.press
      simp only [hactive, hpressed.line, Function.update_self]
    obtain rfl : s.press scancode = s' := by
      cases key with
      | display t => exact absurd ⟨t, rfl⟩ hdisplay
      | _ => exact Option.some.inj hstep
    refine ⟨by rw [hline]; exact Line.press_index h.index, ?_⟩
    by_cases henter : key = .enter
    · subst henter
      obtain ⟨hflag, hwaiting⟩ := hC
      have hpublished : (s.press scancode).published = s.published ++ [s.line.typed] := by
        simp only [LineReader.press, hkey, if_true]
      rcases h.lines with ⟨-, -, hall⟩ | ⟨before, line, -, -, hway⟩
      · refine Or.inr ⟨s.published, s.line.typed, hpublished, hall, ?_⟩
        rw [hline]
        exact OnTheWay.of_waiting hwaiting (s.line.holds_typed h.index)
      · exact absurd (hway.holds_of_waiting hwaiting).flag hflag
    · have hpublished : (s.press scancode).published = s.published := by
        simp only [LineReader.press, hkey, if_neg henter]
      rw [hline, hpublished]
      rcases h.lines with ⟨hflag, hwaiting, hall⟩ | ⟨before, line, hpub, hcomp, hway⟩
      · refine Or.inl ⟨?_, hwaiting, hall⟩
        rw [(Line.press_read henter).2]
        exact hflag
      · refine Or.inr ⟨before, line, hpub, hcomp, hway.press henter ?_⟩
        rintro c rfl
        exact hC

theorem call_inOrder {buffer : Option (Int → UInt8)} {nbytes : Int}
    (hstep : s.step (.call buffer nbytes) = some s') : InOrder s' := by
  simp only [LineReader.step] at hstep
  split_ifs at hstep with hidle
  obtain rfl := Option.some.inj hstep
  have hinput := callRead_input s.kernel s.reader buffer nbytes
  have hline : (s.call buffer nbytes).line = s.line := by
    unfold LineReader.line LineReader.call
    simp only [hinput.line, hinput.active]
  have hwaiting : (s.call buffer nbytes).reader.phase.Waiting := by
    unfold LineReader.call callRead
    cases buffer with
    | none => rw [hidle]; trivial
    | some buffer =>
        simp only
        split_ifs
        · rw [hidle]; trivial
        · rw [hidle]; trivial
        · trivial
  have hidle' : s.reader.phase.Waiting := by
    rw [hidle]
    trivial
  refine ⟨by rw [hline]; exact h.index, ?_⟩
  rw [hline]
  rcases h.lines with ⟨hflag, -, hall⟩ | ⟨before, line, hpub, hcomp, hway⟩
  · exact Or.inl ⟨hflag, hwaiting, hall⟩
  · exact Or.inr ⟨before, line, hpub, hcomp,
      OnTheWay.of_waiting hwaiting (hway.holds_of_waiting hidle')⟩

end Steps

/-- One more character of the text has been copied. -/
theorem Copied.snoc {buffer : Int → UInt8} {text : List UInt8} {n : Nat} (h : Copied buffer text n)
    {c : UInt8} (hc : text.getD n 0 = c) : Copied (Function.update buffer n c) text (n + 1) := by
  intro j hj
  by_cases hjn : j = n
  · rw [hjn, Function.update_self, hc]
  · have hne : (j : Int) ≠ (n : Int) := by omega
    rw [Function.update_of_ne hne]
    exact h j (by omega)

theorem Copied.append {buffer : Int → UInt8} {text : List UInt8} (h : Copied buffer text text.length)
    (more : List UInt8) : Copied buffer (text ++ more) text.length := by
  intro j hj
  rw [h j hj, List.getD_append _ _ _ _ hj]

/-- What lies behind the copied text does not matter. -/
theorem Copied.update {buffer : Int → UInt8} {text : List UInt8} {n : Nat} (h : Copied buffer text n)
    (c : UInt8) : Copied (Function.update buffer n c) text n := by
  intro j hj
  have hne : (j : Int) ≠ (n : Int) := by omega
  rw [Function.update_of_ne hne]
  exact h j hj

theorem Copied.map_range {buffer : Int → UInt8} {text : List UInt8}
    (h : Copied buffer text text.length) :
    (List.range text.length).map (fun j : Nat => buffer j) = text := by
  apply List.ext_getElem
  · simp
  · intro j hj hj'
    simp only [List.getElem_map, List.getElem_range]
    rw [h j hj', List.getD_eq_getElem _ _ hj']

/-- Each statement but the return brings the line further. -/
theorem readStep_onTheWay {k : Kernel} {r : Reader} {line : List UInt8}
    (h : OnTheWay (k.line k.activeTerminal) r line) (hr : r.phase ≠ .returning) :
    OnTheWay ((k.line k.activeTerminal).read r.phase) (readStep k r).2 line := by
  obtain ⟨phase, buffer⟩ := r
  cases phase with
  | idle => exact h
  | polling =>
      have hflag : (k.terminal k.activeTerminal).readFlag = 1 := h.flag
      simp only [readStep, hflag, if_true]
      exact ⟨h, fun j hj => absurd hj (Nat.not_lt_zero j), Nat.zero_le _⟩
  | testing i =>
      obtain ⟨hl, hcopied, hle⟩ := h
      have hlength : (k.terminal k.activeTerminal).readIndex = line.length := hl.length
      simp only [readStep, hlength]
      split_ifs with hi
      · exact ⟨hl, hcopied, by omega⟩
      · obtain rfl : i = line.length := by omega
        exact ⟨hl, hcopied⟩
  | copying i =>
      obtain ⟨hl, hcopied, hlt⟩ := h
      refine ⟨⟨hl.flag, hl.length, fun j hj hj' => hl.chars j (by omega) hj'⟩, ?_, hlt⟩
      exact hcopied.snoc (hl.chars i (le_refl i) hlt).symm
  | newline =>
      obtain ⟨hl, hcopied⟩ := h
      have hlength : (k.terminal k.activeTerminal).readIndex = line.length := hl.length
      simp only [readStep, hlength]
      exact ⟨hl, (hcopied.append [0x0A]).snoc (by simp)⟩
  | increment =>
      obtain ⟨hl, hcopied⟩ := h
      refine ⟨⟨hl.flag, ?_⟩, hcopied⟩
      simp only [Line.read, hl.length]
  | terminator =>
      obtain ⟨⟨hflag, hlength⟩, hcopied⟩ := h
      have hlength' : (k.terminal k.activeTerminal).readIndex = ((line.length + 1 : Nat) : Int) :=
        hlength
      simp only [readStep, hlength']
      exact ⟨⟨hflag, hlength⟩, hcopied.update 0⟩
  | clearing => exact ⟨⟨by simp [Line.read], h.1.2⟩, h.2⟩
  | returning => exact absurd rfl hr

/-- The return delivers the line with its newline. -/
theorem returnedBytes_eq {k : Kernel} {r : Reader} {line : List UInt8}
    (h : OnTheWay (k.line k.activeTerminal) r line) (hr : r.phase = .returning) :
    returnedBytes k r = withNewline line ∧ (k.line k.activeTerminal).readFlag ≠ 1 := by
  obtain ⟨phase, buffer⟩ := r
  subst hr
  obtain ⟨⟨hflag, hlength⟩, hcopied⟩ := h
  refine ⟨?_, hflag⟩
  have htext : (line ++ [0x0A]).length = line.length + 1 := by simp
  rw [← htext] at hcopied
  have hcount : (k.line k.activeTerminal).readIndex.toNat = (line ++ [0x0A]).length := by
    rw [hlength, htext]
    omega
  unfold returnedBytes withNewline
  rw [hcount]
  exact hcopied.map_range

theorem advance_inOrder {s s' : LineReader} (h : InOrder s) (hstep : s.step .step = some s') :
    InOrder s' := by
  simp only [LineReader.step] at hstep
  split_ifs at hstep with hidle
  obtain rfl := Option.some.inj hstep
  have hline : s.advance.line = s.line.read s.reader.phase := by
    unfold LineReader.line LineReader.advance
    simp only [readStep_activeTerminal, readStep_line, Function.update_self]
  have hindex : s.advance.line.index = s.line.index := by
    rw [hline]
    cases s.reader.phase <;> rfl
  refine ⟨by rw [hindex]; exact h.index, ?_⟩
  rw [hline]
  rcases h.lines with ⟨hflag, hwaiting, hall⟩ | ⟨before, line, hpub, hcomp, hway⟩
  · -- the call keeps polling
    have hpolling : s.reader.phase = .polling := by
      cases hphase : s.reader.phase with
      | idle => exact absurd hphase hidle
      | polling => rfl
      | _ =>
          rw [hphase] at hwaiting
          exact absurd hwaiting (fun hf => hf)
    have hflag' : (s.kernel.terminal s.kernel.activeTerminal).readFlag ≠ 1 := hflag
    have hreader : s.advance.reader = s.reader := by
      simp only [LineReader.advance, readStep, hpolling, if_neg hflag']
    have hcompleted : s.advance.completed = s.completed := by
      simp [LineReader.advance, hpolling]
    rw [hreader, hcompleted, hpolling]
    exact Or.inl ⟨hflag, trivial, hall⟩
  · by_cases hreturn : s.reader.phase = .returning
    · obtain ⟨hbytes, hflag⟩ := returnedBytes_eq hway hreturn
      refine Or.inl ⟨?_, ?_, ?_⟩
      · rw [hreturn]
        exact hflag
      · simp only [LineReader.advance, readStep, hreturn]
        trivial
      · have hpub' : s.advance.published = before ++ [line] := hpub
        simp only [LineReader.advance, hreturn, if_true, hbytes, hcomp]
        rw [hpub, List.map_append]
        rfl
    · have hcompleted : s.advance.completed = s.completed := by
        simp only [LineReader.advance, if_neg hreturn]
      refine Or.inr ⟨before, line, hpub, hcompleted.trans hcomp, ?_⟩
      exact readStep_onTheWay hway hreturn

theorem step_inOrder (s : LineReader) (e : LineEvent) (s' : LineReader) (h : InOrder s)
    (hC : KeepsLine s e) (hstep : s.step e = some s') : InOrder s' := by
  cases e with
  | key scancode => exact press_inOrder h hC hstep
  | call buffer nbytes => exact call_inOrder h hstep
  | step => exact advance_inOrder h hstep

/--
In a run whose steps keep the line, each call of `terminal_read` returns what
was in the line buffer at the ENTER of the same number, with a newline.
-/
theorem run_lines_in_order (k : Kernel) (hflag : (k.line k.activeTerminal).readFlag = 0)
    (hindex : 0 ≤ (k.line k.activeTerminal).index) (es : List LineEvent) (s : LineReader)
    (hrun : Run LineReader.step KeepsLine (LineReader.start k) es s) (n : Nat) (line : List UInt8)
    (hn : s.completed[n]? = some line) :
    ∃ typed, s.published[n]? = some typed ∧ line = typed ++ [0x0A] := by
  have h : InOrder s := by
    apply hrun.invariant (I := InOrder) step_inOrder
    refine ⟨hindex, Or.inl ⟨?_, trivial, rfl⟩⟩
    have hflag' : (LineReader.start k).line.readFlag = 0 := hflag
    rw [hflag']
    decide
  have hprefix : ∃ before after, s.published = before ++ after ∧
      s.completed = before.map withNewline := by
    rcases h.lines with ⟨-, -, hall⟩ | ⟨before, line, hpub, hcomp, -⟩
    · exact ⟨s.published, [], by simp, hall⟩
    · exact ⟨before, [line], hpub, hcomp⟩
  obtain ⟨before, after, hpub, hcomp⟩ := hprefix
  rw [hcomp, List.getElem?_map] at hn
  obtain ⟨typed, htyped, rfl⟩ := Option.map_eq_some_iff.mp hn
  refine ⟨typed, ?_, rfl⟩
  rw [hpub, List.getElem?_append_left (List.getElem?_eq_some_iff.mp htyped).1]
  exact htyped

/-- The lines `ab` and `c`, the second one typed while the first is being returned. -/
def twoLines : List LineEvent :=
  [.key 30, .key 48, .key 28, .call (some (fun _ => 0)) 128] ++ List.replicate 9 .step ++
    [.key 46, .step, .step, .key 28, .call (some (fun _ => 0)) 128] ++ List.replicate 9 .step

theorem run_lines_in_order_two_lines :
    ∃ s, Run LineReader.step KeepsLine (LineReader.start (boot blankConsole (fun _ => 0)))
        twoLines s ∧
      s.completed = [[0x61, 0x62, 0x0A], [0x63, 0x0A]] ∧
      ∃ typed, s.published[1]? = some typed ∧ [0x63, 0x0A] = typed ++ [0x0A] := by
  have hvals : (exec LineReader.step KeepsLine
      (LineReader.start (boot blankConsole (fun _ => 0))) twoLines).map LineReader.completed =
      some [[0x61, 0x62, 0x0A], [0x63, 0x0A]] := by
    decide +kernel
  obtain ⟨s, hs, hcompleted⟩ := Option.map_eq_some_iff.mp hvals
  have hrun := run_of_exec hs
  refine ⟨s, hrun, hcompleted, ?_⟩
  apply run_lines_in_order _ _ _ _ s hrun 1
  · rw [hcompleted]
    rfl
  · decide +kernel
  · decide +kernel

/-- `ab` ENTER `x`, and then a call of `terminal_read`: it returns `xb`. -/
def typedAhead : List LineEvent :=
  [.key 30, .key 48, .key 28, .key 45, .call (some (fun _ => 0)) 128] ++ List.replicate 11 .step

theorem typed_ahead_overwrites_line :
    ∃ s, Run LineReader.step anyStep (LineReader.start (boot blankConsole (fun _ => 0)))
        typedAhead s ∧
      s.published = [[0x61, 0x62]] ∧ s.completed = [[0x78, 0x62, 0x0A]] ∧
      ¬ ∃ typed, s.published[0]? = some typed ∧ s.completed[0]? = some (typed ++ [0x0A]) := by
  have hvals : (exec LineReader.step anyStep
      (LineReader.start (boot blankConsole (fun _ => 0))) typedAhead).map
        (fun s => (s.published, s.completed)) = some ([[0x61, 0x62]], [[0x78, 0x62, 0x0A]]) := by
    decide +kernel
  obtain ⟨s, hs, hvals⟩ := Option.map_eq_some_iff.mp hvals
  obtain ⟨hpublished, hcompleted⟩ := Prod.mk.inj hvals
  refine ⟨s, run_of_exec hs, hpublished, hcompleted, ?_⟩
  rintro ⟨typed, htyped, hline⟩
  rw [hpublished] at htyped
  rw [hcompleted] at hline
  obtain rfl := Option.some.inj htyped
  exact absurd hline (by decide)

end OopsOs
