import OopsOs.ProcessFrames
import Mathlib.Algebra.Ring.Parity

/-!
# The modifier keys

The keyboard sends the code of a key when it is pressed and that code plus 128
when it is released.  `held` says from these codes alone whether a key is down.

Ctrl and Alt have one key and one flag each, and Caps Lock is a toggle.  The
two shift keys share a flag, which each of them clears on its release.
-/

namespace OopsOs

open ByteMem

/-! ## Held keys -/

def holdStep (key : Nat) (down : Bool) (code : Nat) : Bool :=
  if code = key then true else if code = key + 128 then false else down

theorem holdStep_of_ne {key code : Nat} (h : code ≠ key) : holdStep key false code = false := by
  simp [holdStep, h]

/-- The key is down after the codes. -/
def held (key : Nat) (codes : List Nat) : Bool := codes.foldl (holdStep key) false

@[simp] theorem held_nil (key : Nat) : held key [] = false := rfl

@[simp] theorem held_concat (key : Nat) (codes : List Nat) (code : Nat) :
    held key (codes ++ [code]) = holdStep key (held key codes) code := by
  unfold held
  rw [List.foldl_append]
  rfl

/-- Each key is pressed only while it is up and released only while it is down. -/
def Alternating (codes : List Nat) : Prop :=
  ∀ i : Fin codes.length,
    if codes.get i < 128 then held (codes.get i) (codes.take i) = false
    else held (codes.get i - 128) (codes.take i) = true

instance (codes : List Nat) : Decidable (Alternating codes) :=
  inferInstanceAs (Decidable (∀ _, _))

/-! ## What a key does to the flags -/

/-- The four flags after a scan code. -/
structure StatusAfter (k : Kernel) (code : Nat) (k' : Kernel) : Prop where
  shift : k'.shiftStatus =
    if code = 42 ∨ code = 54 then true
    else if code = 170 ∨ code = 182 then false
    else k.shiftStatus
  ctrl : k'.ctrlStatus = holdStep 29 k.ctrlStatus code
  alt : k'.altStatus = holdStep 56 k.altStatus code
  caps : k'.capsStatus = if code = 58 then !k.capsStatus else k.capsStatus

/-- The four flags are the same. -/
structure SameFlags (k k' : Kernel) : Prop where
  shift : k'.shiftStatus = k.shiftStatus
  ctrl : k'.ctrlStatus = k.ctrlStatus
  alt : k'.altStatus = k.altStatus
  caps : k'.capsStatus = k.capsStatus

theorem SameKeyboard.flags {k k' : Kernel} (h : SameKeyboard k k') : SameFlags k k' :=
  ⟨h.shift, h.ctrl, h.alt, h.caps⟩

/-- A key that is none of the modifiers. -/
theorem StatusAfter.of_same {k k' : Kernel} {code : Nat}
    (hcode : code ∉ [29, 157, 42, 170, 54, 182, 56, 184, 58]) (h : SameFlags k k') :
    StatusAfter k code k' := by
  simp only [List.mem_cons, List.not_mem_nil, or_false, not_or] at hcode
  obtain ⟨h29, h157, h42, h170, h54, h182, h56, h184, h58⟩ := hcode
  refine ⟨?_, ?_, ?_, ?_⟩
  · simp [h.shift, h42, h54, h170, h182]
  · simp [h.ctrl, holdStep, h29, h157]
  · simp [h.alt, holdStep, h56, h184]
  · simp [h.caps, h58]

theorem keyBackspace_flags (k : Kernel) : SameFlags k (keyBackspace k) := by
  unfold keyBackspace
  simp only
  split_ifs <;> exact ⟨rfl, rfl, rfl, rfl⟩

theorem keyLeft_flags (k : Kernel) : SameFlags k (keyLeft k) := by
  by_cases hpos : 0 < (k.terminal k.activeTerminal).bufferIndex
  · rw [keyLeft_of_pos hpos]
    exact ⟨rfl, rfl, rfl, rfl⟩
  · rw [keyLeft_of_nonpos (not_lt.mp hpos)]
    exact ⟨rfl, rfl, rfl, rfl⟩

theorem keyRight_flags (k : Kernel) : SameFlags k (keyRight k) := by
  by_cases hmoves : k.console.screenX <
      (k.leftRightCursorCounter + k.leftRightCursorOffsetter).tmod 80
  · rw [keyRight_of_lt hmoves]
    exact ⟨rfl, rfl, rfl, rfl⟩
  · rw [keyRight_of_le (not_lt.mp hmoves)]
    exact ⟨rfl, rfl, rfl, rfl⟩

theorem keyboardHandler_status (k : Kernel) (code : Nat) :
    StatusAfter k code (keyboardHandler k code) := by
  unfold keyboardHandler
  split
  · exact ⟨rfl, rfl, rfl, rfl⟩
  · exact ⟨rfl, rfl, rfl, rfl⟩
  · exact ⟨rfl, rfl, rfl, rfl⟩
  · exact ⟨rfl, rfl, rfl, rfl⟩
  · exact ⟨rfl, rfl, rfl, rfl⟩
  · exact ⟨rfl, rfl, rfl, rfl⟩
  · exact ⟨rfl, rfl, rfl, rfl⟩
  · exact ⟨rfl, rfl, rfl, rfl⟩
  · exact ⟨rfl, rfl, rfl, rfl⟩
  · exact StatusAfter.of_same (by decide) ⟨rfl, rfl, rfl, rfl⟩
  · exact StatusAfter.of_same (by decide) ⟨rfl, rfl, rfl, rfl⟩
  · exact StatusAfter.of_same (by decide) (keyBackspace_flags k)
  · exact StatusAfter.of_same (by decide) ⟨rfl, rfl, rfl, rfl⟩
  · exact StatusAfter.of_same (by decide) ⟨rfl, rfl, rfl, rfl⟩
  · exact StatusAfter.of_same (by decide) (keyLeft_flags k)
  · exact StatusAfter.of_same (by decide) (keyRight_flags k)
  · exact StatusAfter.of_same (by decide) ⟨rfl, rfl, rfl, rfl⟩
  · refine StatusAfter.of_same ?_ (keyDefault_outputs k code).keyboard.flags
    simp only [List.mem_cons, List.not_mem_nil, or_false, not_or]
    exact ⟨by assumption, by assumption, by assumption, by assumption, by assumption,
      by assumption, by assumption, by assumption, by assumption⟩

/-! ## The flags follow the keys -/

/-- The flags say which keys are down, and how often Caps Lock has been pressed. -/
structure ModifiersFollow (codes : List Nat) (k : Kernel) : Prop where
  shift : k.shiftStatus = true ↔ held 42 codes = true ∨ held 54 codes = true
  ctrl : k.ctrlStatus = true ↔ held 29 codes = true
  alt : k.altStatus = true ↔ held 56 codes = true
  caps : k.capsStatus = true ↔ Odd (codes.count 58)

/-- No shift key is released while the other one is down. -/
def ShiftsApart (codes : List Nat) : Prop :=
  ∀ before code, before ++ [code] <+: codes →
    (code = 170 → held 54 before = false) ∧ (code = 182 → held 42 before = false)

theorem keyboardInitialize_follow (k : Kernel) : ModifiersFollow [] (keyboardInitialize k) := by
  refine ⟨?_, ?_, ?_, ?_⟩
  · exact iff_of_false Bool.false_ne_true (by simp)
  · exact iff_of_false Bool.false_ne_true (by simp)
  · exact iff_of_false Bool.false_ne_true (by simp)
  · exact iff_of_false Bool.false_ne_true (by simp)

section Step

variable {codes : List Nat} {k : Kernel} (h : ModifiersFollow codes k) (code : Nat)
include h

theorem ctrl_step : (keyboardHandler k code).ctrlStatus = true ↔
    held 29 (codes ++ [code]) = true := by
  rw [(keyboardHandler_status k code).ctrl, held_concat, Bool.eq_iff_iff.mpr h.ctrl]

theorem alt_step : (keyboardHandler k code).altStatus = true ↔
    held 56 (codes ++ [code]) = true := by
  rw [(keyboardHandler_status k code).alt, held_concat, Bool.eq_iff_iff.mpr h.alt]

theorem caps_step : (keyboardHandler k code).capsStatus = true ↔
    Odd ((codes ++ [code]).count 58) := by
  rw [(keyboardHandler_status k code).caps, List.count_append]
  by_cases hcode : code = 58
  · subst hcode
    rw [if_pos rfl, List.count_singleton_self, Nat.odd_add_one, ← h.caps]
    simp
  · rw [if_neg hcode, List.count_singleton]
    simp [hcode, h.caps]

/-- The shift flag goes wrong exactly if one of two keys that are down is released. -/
theorem shift_step_iff :
    ((keyboardHandler k code).shiftStatus = true ↔
      held 42 (codes ++ [code]) = true ∨ held 54 (codes ++ [code]) = true) ↔
    (code = 170 → held 54 codes = false) ∧ (code = 182 → held 42 codes = false) := by
  rw [(keyboardHandler_status k code).shift, held_concat, held_concat]
  unfold holdStep
  by_cases h42 : code = 42
  · simp [h42]
  · by_cases h54 : code = 54
    · simp [h54]
    · by_cases h170 : code = 170
      · simp [h170]
      · by_cases h182 : code = 182
        · simp [h182]
        · simp [h42, h54, h170, h182, h.shift]

theorem follow_step_iff :
    ModifiersFollow (codes ++ [code]) (keyboardHandler k code) ↔
      (code = 170 → held 54 codes = false) ∧ (code = 182 → held 42 codes = false) := by
  constructor
  · intro hfollow
    exact (shift_step_iff h code).mp hfollow.shift
  · intro hcode
    exact ⟨(shift_step_iff h code).mpr hcode, ctrl_step h code, alt_step h code, caps_step h code⟩

end Step

/-- After every prefix the flags follow the keys. -/
theorem follow_of_shiftsApart (k : Kernel) {codes : List Nat} (hapart : ShiftsApart codes)
    (before : List Nat) (hbefore : before <+: codes) :
    ModifiersFollow before (pressKeys (keyboardInitialize k) before) := by
  induction before using List.reverseRecOn with
  | nil =>
      exact keyboardInitialize_follow k
  | append_singleton before code ih =>
      have hshorter : before <+: codes := (List.prefix_append before [code]).trans hbefore
      rw [pressKeys_append]
      exact (follow_step_iff (ih hshorter) code).mpr (hapart before code hbefore)

/--
From `keyboard_initialize` on, the flags follow the keys after every prefix of
the scan codes exactly if no shift key is released while the other is down.
-/
theorem modifiers_follow_iff_shiftsApart (k : Kernel) (codes : List Nat) :
    (∀ before, before <+: codes →
      ModifiersFollow before (pressKeys (keyboardInitialize k) before)) ↔ ShiftsApart codes := by
  constructor
  · intro h before code hstart
    have hshorter : before <+: codes := (List.prefix_append before [code]).trans hstart
    have hfollow := h (before ++ [code]) hstart
    rw [pressKeys_append] at hfollow
    exact (follow_step_iff (h before hshorter) code).mp hfollow
  · intro hapart before hbefore
    exact follow_of_shiftsApart k hapart before hbefore

/-- Both shift keys are pressed and the left one is released: the right one is still down. -/
theorem overlapping_shifts_lost :
    Alternating [42, 54, 170] ∧ held 54 [42, 54, 170] = true ∧
      (pressKeys (keyboardInitialize bareKernel) [42, 54, 170]).shiftStatus = false ∧
      ¬ ∀ before, before <+: [42, 54, 170] →
        ModifiersFollow before (pressKeys (keyboardInitialize bareKernel) before) := by
  have hheld : held 54 [42, 54, 170] = true := by decide
  have hflag : (pressKeys (keyboardInitialize bareKernel) [42, 54, 170]).shiftStatus = false := rfl
  refine ⟨by decide, hheld, hflag, ?_⟩
  intro h
  have hshift := (h [42, 54, 170] (List.prefix_refl _)).shift.mpr (Or.inr hheld)
  rw [hflag] at hshift
  exact Bool.false_ne_true hshift

end OopsOs
