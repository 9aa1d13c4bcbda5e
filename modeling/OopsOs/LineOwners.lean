import OopsOs.TypeAhead

/-!
# Whose line is it

The system with its three terminals, in which the process that runs may call
`terminal_read`.  A process that has started another one waits in `execute`,
so at most one process of a terminal is in `terminal_read`, and calls are
kept by terminal.

The records say where things were typed: `typedOn` for the characters of the
line buffers, `entered` for the last ENTER of each terminal, `source` and
`taken` for the characters and the ENTER of the line that a call is about to
return.  No kernel function reads them.

`terminal_read` goes by the displayed terminal.  A process gets its own line
if it makes its way through `terminal_read` only while its terminal is
displayed.
-/

namespace OopsOs

open ByteMem Machine

/-- The ENTER key, numbered from boot on, and the terminal it was pressed on. -/
structure Enter where
  number : Nat
  term : Fin 3
deriving DecidableEq, Repr

/-- A line that a process of terminal `term` has got from `terminal_read`. -/
structure ReadRecord where
  term : Fin 3
  enter : Option Enter
  bytes : List UInt8
  source : List (Option (Fin 3))
deriving DecidableEq, Repr

structure ReadSystem where
  system : System
  reader : Fin 3 → Reader
  typedOn : Fin 3 → Int → Option (Fin 3)
  entered : Fin 3 → Option Enter
  pressed : Nat
  source : Fin 3 → Int → Option (Fin 3)
  taken : Fin 3 → Option Enter
  log : List ReadRecord

inductive ReadEvent
  | tick (esp ebp innerEsp innerEbp : Nat)
  | key (scancode : Nat)
  | call (buffer : Option (Int → UInt8)) (nbytes : Int)
  | step

namespace ReadSystem

def kernel (s : ReadSystem) : Kernel := s.system.kernel

def active (s : ReadSystem) : Fin 3 := s.kernel.activeTerminal

def line (s : ReadSystem) (t : Fin 3) : Line := s.kernel.line t

def boot (console : Console) (fs : Mem) : ReadSystem where
  system := System.boot console fs
  reader := fun _ => ⟨.idle, fun _ => 0⟩
  typedOn := fun _ _ => none
  entered := fun _ => none
  pressed := 0
  source := fun _ _ => none
  taken := fun _ => none
  log := []

/-- What is recorded of a key. -/
def recordKey (s : ReadSystem) : LineKey → ReadSystem
  | .enter =>
      { s with
        entered := Function.update s.entered s.active (some ⟨s.pressed, s.active⟩)
        pressed := s.pressed + 1 }
  | .char _ =>
      if (s.line s.active).index < 128 then
        { s with
          typedOn := Function.update s.typedOn s.active
            (Function.update (s.typedOn s.active) (s.line s.active).index (some s.active)) }
      else s
  | _ => s

def setKernel (s : ReadSystem) (k : Kernel) : ReadSystem :=
  { s with system := { s.system with kernel := k } }

def press (s : ReadSystem) (scancode : Nat) : ReadSystem :=
  (s.recordKey (lineKey s.kernel scancode)).setKernel (keyboardHandler s.kernel scancode)

def setReader (s : ReadSystem) (t : Fin 3) (r : Reader) : ReadSystem :=
  { s with reader := Function.update s.reader t r }

/-- Nothing is known of the caller's buffer. -/
def recordCall (s : ReadSystem) (t : Fin 3) : ReadSystem :=
  { s with
    source := Function.update s.source t (fun _ => none)
    taken := Function.update s.taken t none }

def call (s : ReadSystem) (t : Fin 3) (buffer : Option (Int → UInt8)) (nbytes : Int) : ReadSystem :=
  ((s.recordCall t).setReader t (callRead s.kernel (s.reader t) buffer nbytes).2).setKernel
    (callRead s.kernel (s.reader t) buffer nbytes).1

/-- What is recorded of the next statement of the call on terminal `t`. -/
def recordRead (s : ReadSystem) (t : Fin 3) : ReadSystem :=
  let l := s.line s.active
  match (s.reader t).phase with
  | .polling =>
      if l.readFlag = 1 then { s with taken := Function.update s.taken t (s.entered s.active) }
      else s
  | .copying i =>
      { s with
        source := Function.update s.source t
          (Function.update (s.source t) i (s.typedOn s.active i)) }
  | .newline =>
      { s with
        source := Function.update s.source t
          (Function.update (s.source t) l.readIndex ((s.taken t).map Enter.term)) }
  | .terminator =>
      { s with
        source := Function.update s.source t (Function.update (s.source t) l.readIndex none) }
  | .returning =>
      { s with
        log := s.log ++
          [⟨t, s.taken t, returnedBytes s.kernel (s.reader t),
            (List.range l.readIndex.toNat).map (fun j : Nat => s.source t j)⟩] }
  | _ => s

def advance (s : ReadSystem) (t : Fin 3) : ReadSystem :=
  ((s.recordRead t).setReader t (readStep s.kernel (s.reader t)).2).setKernel
    (readStep s.kernel (s.reader t)).1

def step (s : ReadSystem) : ReadEvent → Option ReadSystem
  | .tick esp ebp innerEsp innerEbp =>
      some { s with system := tickStep s.system esp ebp innerEsp innerEbp }
  | .key scancode => if KeyboardMasked s.kernel then none else some (s.press scancode)
  | .call buffer nbytes =>
      s.system.cpu.bind (fun o =>
        if (s.reader o.term).phase = .idle then some (s.call o.term buffer nbytes) else none)
  | .step =>
      s.system.cpu.bind (fun o =>
        if (s.reader o.term).phase = .idle then none else some (s.advance o.term))

end ReadSystem

/-- The copy loop is over. -/
def ReadPhase.Finishing : ReadPhase → Prop
  | .newline => True
  | .increment => True
  | .terminator => True
  | .clearing => True
  | .returning => True
  | _ => False

/-- The condition on a key: no ENTER while a call finishes, and RIGHT over typed characters only. -/
def KeyKeepsOwner (s : ReadSystem) : LineKey → Prop
  | .enter => ¬ (s.reader s.active).phase.Finishing
  | .right => (s.line s.active).index < 128 ∧
      (s.line s.active).buffer (s.line s.active).index ≠ 0
  | _ => True

/--
The condition on a step.  A process goes through `terminal_read` only while
its terminal is displayed, except that it may find that no line is there.
-/
def KeepsOwner (s : ReadSystem) : ReadEvent → Prop
  | .key scancode => KeyKeepsOwner s (lineKey s.kernel scancode)
  | .step => ∀ o, s.system.cpu = some o →
      (s.reader o.term).phase ≠ .polling ∨ (s.line s.active).readFlag = 1 → o.term = s.active
  | _ => True

instance : (p : ReadPhase) → Decidable p.Finishing
  | .idle => isFalse (fun h => h)
  | .polling => isFalse (fun h => h)
  | .testing _ => isFalse (fun h => h)
  | .copying _ => isFalse (fun h => h)
  | .newline => isTrue trivial
  | .increment => isTrue trivial
  | .terminator => isTrue trivial
  | .clearing => isTrue trivial
  | .returning => isTrue trivial

instance (s : ReadSystem) : (key : LineKey) → Decidable (KeyKeepsOwner s key)
  | .enter => inferInstanceAs (Decidable (¬ (s.reader s.active).phase.Finishing))
  | .right => inferInstanceAs (Decidable ((s.line s.active).index < 128 ∧
      (s.line s.active).buffer (s.line s.active).index ≠ 0))
  | .char _ => isTrue trivial
  | .backspace => isTrue trivial
  | .left => isTrue trivial
  | .display _ => isTrue trivial
  | .other => isTrue trivial

instance (s : ReadSystem) : (e : ReadEvent) → Decidable (KeepsOwner s e)
  | .tick _ _ _ _ => isTrue trivial
  | .key scancode => inferInstanceAs (Decidable (KeyKeepsOwner s (lineKey s.kernel scancode)))
  | .call _ _ => isTrue trivial
  | .step => inferInstanceAs (Decidable (∀ o, s.system.cpu = some o →
      (s.reader o.term).phase ≠ .polling ∨ (s.line s.active).readFlag = 1 → o.term = s.active))

/-! ## The invariant -/

/-- An ENTER of terminal `t` whose line no call has returned yet. -/
def ReadSystem.Unused (s : ReadSystem) (t : Fin 3) (e : Option Enter) : Prop :=
  ∃ n, e = some ⟨n, t⟩ ∧ n < s.pressed ∧ e ∉ s.log.map ReadRecord.enter

/-- The first `n` characters of the caller's buffer come from terminal `t`. -/
def ReadSystem.SourcedTo (s : ReadSystem) (t : Fin 3) (n : Int) : Prop :=
  ∀ j, 0 ≤ j → j < n → s.source t j = some t

/-- What holds in the middle of a call on terminal `t`. -/
def ReadSystem.Reading (s : ReadSystem) (t : Fin 3) : Prop :=
  match (s.reader t).phase with
  | .idle => True
  | .polling => True
  | .testing i => (s.line t).readFlag = 1 ∧ s.Unused t (s.taken t) ∧ s.SourcedTo t i
  | .copying i => ((s.line t).readFlag = 1 ∧ s.typedOn t i = some t) ∧ s.Unused t (s.taken t) ∧
      s.SourcedTo t i
  | .newline => s.Unused t (s.taken t) ∧ s.SourcedTo t (s.line t).readIndex
  | .increment => s.Unused t (s.taken t) ∧ s.SourcedTo t ((s.line t).readIndex + 1)
  | .terminator => s.Unused t (s.taken t) ∧ s.SourcedTo t (s.line t).readIndex
  | .clearing => s.Unused t (s.taken t) ∧ s.SourcedTo t (s.line t).readIndex
  | .returning => (s.line t).readFlag ≠ 1 ∧ s.Unused t (s.taken t) ∧
      s.SourcedTo t (s.line t).readIndex

/-- All that terminal `t` has was typed on it. -/
structure ReadSystem.Own (s : ReadSystem) (t : Fin 3) : Prop where
  cells : ∀ j, (s.line t).buffer j ≠ 0 → s.typedOn t j = some t
  index : 0 ≤ (s.line t).index
  typed : ∀ j, 0 ≤ j → j < (s.line t).index → s.typedOn t j = some t
  published : (s.line t).readFlag = 1 → ¬ (s.reader t).phase.Finishing →
    ∀ j, 0 ≤ j → j < (s.line t).readIndex → s.typedOn t j = some t
  pending : (s.line t).readFlag = 1 → (s.reader t).phase.Waiting → s.Unused t (s.entered t)
  reading : s.Reading t

structure ReadSystem.Owned (s : ReadSystem) : Prop where
  own : ∀ t, s.Own t
  logged : ∀ r ∈ s.log, (∃ n, r.enter = some ⟨n, r.term⟩ ∧ n < s.pressed) ∧
    ∀ c ∈ r.source, c = some r.term
  once : (s.log.map ReadRecord.enter).Nodup

/-- A call that has not been advanced is where it was, if nothing typed has been lost. -/
theorem ReadSystem.Reading.mono {s s' : ReadSystem} {t : Fin 3} (h : s.Reading t)
    (hreader : s'.reader t = s.reader t) (hread : (s'.line t).readIndex = (s.line t).readIndex)
    (hflag : (s'.line t).readFlag = (s.line t).readFlag)
    (htyped : ∀ j, s.typedOn t j = some t → s'.typedOn t j = some t)
    (hsource : s'.source t = s.source t) (htaken : s'.taken t = s.taken t)
    (hunused : ∀ e, s.Unused t e → s'.Unused t e) : s'.Reading t := by
  have hsourced : ∀ n, s.SourcedTo t n → s'.SourcedTo t n := by
    intro n hn
    unfold ReadSystem.SourcedTo
    rw [hsource]
    exact hn
  unfold ReadSystem.Reading at h ⊢
  rw [hreader, htaken, hread, hflag]
  cases hphase : (s.reader t).phase with
  | idle => trivial
  | polling => trivial
  | testing i =>
      simp only [hphase] at h
      exact ⟨h.1, hunused _ h.2.1, hsourced _ h.2.2⟩
  | copying i =>
      simp only [hphase] at h
      exact ⟨⟨h.1.1, htyped _ h.1.2⟩, hunused _ h.2.1, hsourced _ h.2.2⟩
  | returning =>
      simp only [hphase] at h
      exact ⟨h.1, hunused _ h.2.1, hsourced _ h.2.2⟩
  | _ =>
      simp only [hphase] at h
      exact ⟨hunused _ h.1, hsourced _ h.2⟩

/-- The line of a terminal is edited: its typed characters change, and nothing else. -/
theorem ReadSystem.Own.edit {s s' : ReadSystem} {t : Fin 3} (h : s.Own t)
    (hcells : ∀ j, (s'.line t).buffer j ≠ 0 → s'.typedOn t j = some t)
    (hindex : 0 ≤ (s'.line t).index)
    (hnew : ∀ j, 0 ≤ j → j < (s'.line t).index → s'.typedOn t j = some t)
    (hread : (s'.line t).readIndex = (s.line t).readIndex)
    (hflag : (s'.line t).readFlag = (s.line t).readFlag)
    (htyped : ∀ j, s.typedOn t j = some t → s'.typedOn t j = some t)
    (hreader : s'.reader t = s.reader t) (hentered : s'.entered t = s.entered t)
    (hsource : s'.source t = s.source t) (htaken : s'.taken t = s.taken t)
    (hunused : ∀ e, s.Unused t e → s'.Unused t e) : s'.Own t := by
  refine ⟨hcells, hindex, hnew, ?_, ?_,
    h.reading.mono hreader hread hflag htyped hsource htaken hunused⟩
  · rw [hflag, hreader, hread]
    exact fun hf hp j hj hj' => htyped j (h.published hf hp j hj hj')
  · rw [hflag, hreader, hentered]
    exact fun hf hp => hunused _ (h.pending hf hp)

/-- What a terminal has depends on its own line, call and records. -/
theorem ReadSystem.Own.congr {s s' : ReadSystem} {t : Fin 3} (h : s.Own t)
    (hline : s'.line t = s.line t) (hreader : s'.reader t = s.reader t)
    (htyped : s'.typedOn t = s.typedOn t) (hentered : s'.entered t = s.entered t)
    (hsource : s'.source t = s.source t) (htaken : s'.taken t = s.taken t)
    (hunused : ∀ e, s.Unused t e → s'.Unused t e) : s'.Own t := by
  refine h.edit ?_ ?_ ?_ ?_ ?_ ?_ hreader hentered hsource htaken hunused
  · rw [hline, htyped]
    exact h.cells
  · rw [hline]
    exact h.index
  · rw [hline, htyped]
    exact h.typed
  · rw [hline]
  · rw [hline]
  · rw [htyped]
    exact fun _ hj => hj

/-! ## Ticks, keys and calls -/

section Steps

variable {s : ReadSystem} (h : s.Owned)
include h

theorem ReadSystem.Owned.tick (esp ebp innerEsp innerEbp : Nat) :
    ReadSystem.Owned { s with system := tickStep s.system esp ebp innerEsp innerEbp } := by
  refine ⟨fun t => ?_, h.logged, h.once⟩
  refine (h.own t).congr ?_ rfl rfl rfl rfl rfl (fun _ he => he)
  unfold ReadSystem.line ReadSystem.kernel
  simp only [tickStep_kernel, line_pitHandler]

/-- ENTER, on the displayed terminal. -/
theorem ReadSystem.Owned.enter {k' : Kernel} (hC : KeyKeepsOwner s .enter)
    (hline : k'.line s.active = (s.line s.active).press .enter) :
    ((s.recordKey .enter).setKernel k').Own s.active := by
  have hown := h.own s.active
  have hunused : ∀ e, s.Unused s.active e →
      ((s.recordKey .enter).setKernel k').Unused s.active e :=
    fun e ⟨n, he, hn, hlog⟩ => ⟨n, he, Nat.lt_succ_of_lt hn, hlog⟩
  have hline' : ((s.recordKey .enter).setKernel k').line s.active =
      (s.line s.active).press .enter := hline
  refine ⟨?_, ?_, ?_, ?_, ?_, ?_⟩
  · rw [hline']
    exact hown.cells
  · rw [hline']
    exact le_refl _
  · rw [hline']
    intro j hj hj'
    exact absurd hj' (not_lt.mpr hj)
  · rw [hline']
    exact fun _ _ => hown.typed
  · intro _ _
    refine ⟨s.pressed, Function.update_self _ _ _, Nat.lt_succ_self _, ?_⟩
    -- every ENTER in the log has a smaller number
    intro hmem
    obtain ⟨r, hr, hre⟩ := List.mem_map.mp hmem
    obtain ⟨⟨n, hn, hlt⟩, -⟩ := h.logged r hr
    have hnumber : n = s.pressed := by
      have heq := hn.symm.trans (hre.trans (Function.update_self _ _ _))
      exact congrArg Enter.number (Option.some.inj heq)
    omega
  · have hread := hown.reading
    unfold ReadSystem.Reading at hread ⊢
    have hreader : ((s.recordKey .enter).setKernel k').reader = s.reader := rfl
    rw [hreader]
    cases hphase : (s.reader s.active).phase with
    | idle => trivial
    | polling => trivial
    | testing i =>
        simp only [hphase] at hread
        exact ⟨by rw [hline']; rfl, hunused _ hread.2.1, hread.2.2⟩
    | copying i =>
        simp only [hphase] at hread
        exact ⟨⟨by rw [hline']; rfl, hread.1.2⟩, hunused _ hread.2.1, hread.2.2⟩
    | _ =>
        -- the call finishes, and then there is no ENTER
        simp only [KeyKeepsOwner, hphase] at hC
        exact absurd trivial hC

/-- A key that moves the position only, over typed characters. -/
theorem ReadSystem.Owned.move {k' : Kernel} {index : Int}
    (hline : k'.line s.active = { s.line s.active with index := index }) (hindex : 0 ≤ index)
    (hnew : ∀ j, 0 ≤ j → j < index → s.typedOn s.active j = some s.active) :
    (s.setKernel k').Own s.active := by
  have hline' : (s.setKernel k').line s.active = { s.line s.active with index := index } := hline
  refine (h.own s.active).edit ?_ ?_ ?_ ?_ ?_ (fun _ hj => hj) rfl rfl rfl rfl (fun _ he => he)
  · rw [hline']
    exact (h.own s.active).cells
  · rw [hline']
    exact hindex
  · rw [hline']
    exact hnew
  · rw [hline']
  · rw [hline']

/-- A character key, on the displayed terminal. -/
theorem ReadSystem.Owned.type {k' : Kernel} {c : UInt8}
    (hline : k'.line s.active = (s.line s.active).press (.char c)) :
    ((s.recordKey (.char c)).setKernel k').Own s.active := by
  have hown := h.own s.active
  by_cases hroom : (s.line s.active).index < 128
  · obtain ⟨s', hs'⟩ : ∃ s', (s.recordKey (.char c)).setKernel k' = s' := ⟨_, rfl⟩
    have htyped : s'.typedOn s.active =
        Function.update (s.typedOn s.active) (s.line s.active).index (some s.active) := by
      rw [← hs']
      simp only [recordKey, if_pos hroom, setKernel, Function.update_self]
    have hline' : s'.line s.active =
        { s.line s.active with
          buffer := Function.update (s.line s.active).buffer (s.line s.active).index c
          index := (s.line s.active).index + 1 } := by
      rw [← hs']
      exact hline.trans (if_pos hroom)
    have hrest : s'.reader = s.reader ∧ s'.entered = s.entered ∧ s'.source = s.source ∧
        s'.taken = s.taken ∧ s'.pressed = s.pressed ∧ s'.log = s.log := by
      rw [← hs']
      simp only [recordKey, if_pos hroom, setKernel, and_self]
    obtain ⟨hreader, hentered, hsource, htaken, hpressed, hlog⟩ := hrest
    have hkeep : ∀ j, s.typedOn s.active j = some s.active →
        s'.typedOn s.active j = some s.active := by
      intro j hj
      rw [htyped]
      by_cases hji : j = (s.line s.active).index
      · rw [hji, Function.update_self]
      · rw [Function.update_of_ne hji, hj]
    have hhere : s'.typedOn s.active (s.line s.active).index = some s.active := by
      rw [htyped, Function.update_self]
    rw [hs']
    refine hown.edit ?_ ?_ ?_ ?_ ?_ hkeep (by rw [hreader]) (by rw [hentered]) (by rw [hsource])
      (by rw [htaken]) ?_
    · intro j hj
      by_cases hji : j = (s.line s.active).index
      · rw [hji, hhere]
      · simp only [hline', Function.update_of_ne hji] at hj
        exact hkeep j (hown.cells j hj)
    · simp only [hline']
      have := hown.index
      omega
    · intro j hj hj'
      simp only [hline'] at hj'
      by_cases hji : j = (s.line s.active).index
      · rw [hji, hhere]
      · exact hkeep j (hown.typed j hj (by omega))
    · rw [hline']
    · rw [hline']
    · unfold Unused
      rw [hpressed, hlog]
      exact fun _ he => he
  · have hrecord : s.recordKey (.char c) = s := if_neg hroom
    rw [hrecord]
    exact h.move (hline.trans (if_neg hroom)) hown.index hown.typed

/-- A key other than ENTER, on the displayed terminal. -/
theorem ReadSystem.Owned.edit {k' : Kernel} {key : LineKey} (hkey : key ≠ .enter)
    (hC : KeyKeepsOwner s key) (hline : k'.line s.active = (s.line s.active).press key) :
    ((s.recordKey key).setKernel k').Own s.active := by
  have hown := h.own s.active
  cases key with
  | enter => exact absurd rfl hkey
  | char c => exact h.type hline
  | backspace =>
      have hindex := hown.index
      exact h.move hline (le_max_left _ _) (fun j hj hj' => hown.typed j hj (by omega))
  | left =>
      by_cases hzero : (s.line s.active).index ≤ 0
      · exact h.move (hline.trans (if_pos hzero)) hown.index hown.typed
      · exact h.move (hline.trans (if_neg hzero)) (by omega)
          (fun j hj hj' => hown.typed j hj (by omega))
  | right =>
      refine h.move hline (by have := hown.index; omega) (fun j hj hj' => ?_)
      by_cases hji : j = (s.line s.active).index
      · rw [hji]
        exact hown.cells _ hC.2
      · exact hown.typed j hj (by omega)
  | display t => exact h.move hline hown.index hown.typed
  | other => exact h.move hline hown.index hown.typed

/-- A key changes nothing on the terminals that are not displayed. -/
theorem ReadSystem.Owned.recordKey_of_ne {k' : Kernel} (key : LineKey) {t : Fin 3}
    (ht : t ≠ s.active) (hline : k'.line t = s.line t) :
    ((s.recordKey key).setKernel k').Own t := by
  have hown := h.own t
  cases key with
  | enter =>
      refine hown.congr hline rfl rfl (Function.update_of_ne ht _ _) rfl rfl ?_
      exact fun e ⟨n, he, hn, hlog⟩ => ⟨n, he, Nat.lt_succ_of_lt hn, hlog⟩
  | char c =>
      simp only [recordKey]
      split_ifs
      · exact hown.congr hline rfl (Function.update_of_ne ht _ _) rfl rfl rfl (fun _ he => he)
      · exact hown.congr hline rfl rfl rfl rfl rfl (fun _ he => he)
  | _ => exact hown.congr hline rfl rfl rfl rfl rfl (fun _ he => he)

theorem ReadSystem.Owned.press {scancode : Nat}
    (hC : KeyKeepsOwner s (lineKey s.kernel scancode)) : (s.press scancode).Owned := by
  have hpressed := keyboardHandler_pressed s.kernel scancode
  unfold ReadSystem.press
  obtain ⟨key, hkey⟩ : ∃ key, lineKey s.kernel scancode = key := ⟨_, rfl⟩
  obtain ⟨k', hk'⟩ : ∃ k', keyboardHandler s.kernel scancode = k' := ⟨_, rfl⟩
  rw [hkey] at hC
  rw [hkey, hk'] at hpressed ⊢
  have hself : k'.line s.active = (s.line s.active).press key := by
    rw [hpressed.line]
    exact Function.update_self _ _ _
  have hlog : (s.recordKey key).log = s.log ∧ s.pressed ≤ (s.recordKey key).pressed := by
    cases key with
    | enter => exact ⟨rfl, Nat.le_succ _⟩
    | char c =>
        simp only [recordKey]
        split_ifs <;> exact ⟨rfl, le_refl _⟩
    | _ => exact ⟨rfl, le_refl _⟩
  refine ⟨fun t => ?_, ?_, ?_⟩
  · by_cases ht : t = s.active
    · rw [ht]
      by_cases henter : key = .enter
      · subst henter
        exact h.enter hC hself
      · exact h.edit henter hC hself
    · refine h.recordKey_of_ne key ht ?_
      rw [hpressed.line]
      exact Function.update_of_ne ht _ _
  · have hlog' : ((s.recordKey key).setKernel k').log = s.log := hlog.1
    rw [hlog']
    intro r hr
    obtain ⟨⟨n, hn, hlt⟩, hsource⟩ := h.logged r hr
    exact ⟨⟨n, hn, lt_of_lt_of_le hlt hlog.2⟩, hsource⟩
  · have hlog' : ((s.recordKey key).setKernel k').log = s.log := hlog.1
    rw [hlog']
    exact h.once

theorem ReadSystem.Owned.call {t : Fin 3} (hidle : (s.reader t).phase = .idle)
    (buffer : Option (Int → UInt8)) (nbytes : Int) : (s.call t buffer nbytes).Owned := by
  have hinput := callRead_input s.kernel (s.reader t) buffer nbytes
  have hwaiting : (callRead s.kernel (s.reader t) buffer nbytes).2.phase.Waiting := by
    unfold callRead
    cases buffer with
    | none =>
        rw [hidle]
        trivial
    | some buffer =>
        simp only
        split_ifs
        · rw [hidle]
          trivial
        · rw [hidle]
          trivial
        · trivial
  obtain ⟨⟨k', r'⟩, hcall⟩ : ∃ p, callRead s.kernel (s.reader t) buffer nbytes = p := ⟨_, rfl⟩
  unfold ReadSystem.call
  rw [hcall] at hinput hwaiting ⊢
  refine ⟨fun u => ?_, h.logged, h.once⟩
  have hown := h.own u
  have hline : k'.line u = s.line u := congrFun hinput.line u
  by_cases hu : u = t
  · subst hu
    have hreader : (((s.recordCall u).setReader u r').setKernel k').reader u = r' :=
      Function.update_self _ _ _
    have hline' : (((s.recordCall u).setReader u r').setKernel k').line u = s.line u := hline
    refine ⟨?_, ?_, ?_, ?_, ?_, ?_⟩
    · rw [hline']
      exact hown.cells
    · rw [hline']
      exact hown.index
    · rw [hline']
      exact hown.typed
    · rw [hline']
      exact fun hflag _ => hown.published hflag (by rw [hidle]; exact fun hf => hf)
    · rw [hline']
      exact fun hflag _ => hown.pending hflag (by rw [hidle]; trivial)
    · unfold ReadSystem.Reading
      rw [hreader]
      obtain ⟨phase, b⟩ := r'
      cases phase with
      | idle => trivial
      | polling => trivial
      | _ => exact absurd hwaiting (fun hf => hf)
  · exact hown.congr hline (Function.update_of_ne hu _ _) rfl rfl (Function.update_of_ne hu _ _)
      (Function.update_of_ne hu _ _) (fun _ he => he)

end Steps

end OopsOs
