import OopsOs.Background
import OopsOs.FileReads

/-!
# Program output and pending input

A write on descriptor 1 goes through `terminal_write`, which serves the echo of
typed characters as well and first looks at the line buffer of the displayed
terminal: while that is full, nothing is printed and the result is 0.

`withInput` replaces what is in the line buffers and how far they are filled,
and nothing else.  Output does not look at either, so it commutes with that
replacement.
-/

namespace OopsOs

open ByteMem

/-! ## What a write is to do -/

/-- The bytes that are printed. -/
def nonNul (buffer : Nat → UInt8) (n : Nat) : List UInt8 :=
  ((List.range n).map buffer).filter (fun c => c ≠ 0)

/-- A character on the screen of the terminal that output goes to. -/
def scheduledPutc (k : Kernel) (c : UInt8) : Kernel :=
  if k.currentRunningProcessCount < 3 ∨ k.nextTerminalInSchedule = k.activeTerminal then
    k.onConsole (fun s => s.putc c)
  else activeTerminalPutc k k.nextTerminalInSchedule c

/-- The call returns `nbytes`, and the characters other than NUL are printed in order. -/
structure WritesAll (k : Kernel) (buffer : Nat → UInt8) (nbytes : Int) (r : Kernel × Outcome) :
    Prop where
  result : r.2 = .returned nbytes
  printed : r.1 = (nonNul buffer nbytes.toNat).foldl scheduledPutc k

/-- The state with other contents and fill levels of the line buffers. -/
def withInput (k : Kernel) (input : Fin 3 → (Int → UInt8) × Int) : Kernel :=
  { k with
    terminal := fun t =>
      { k.terminal t with keyboardBuffer := (input t).1, bufferIndex := (input t).2 } }

/-- The same result and the same three screens. -/
def SameOutput (r r' : Kernel × Outcome) : Prop :=
  r'.2 = r.2 ∧ ∀ t, logicalScreen r'.1 t = logicalScreen r.1 t

/-! ## The loop -/

theorem terminalPutc_eq (k : Kernel) (c : UInt8) :
    terminalPutc k c = if c = 0 then k else scheduledPutc k c := rfl

theorem nonNul_succ (buffer : Nat → UInt8) (n : Nat) :
    nonNul buffer (n + 1) = nonNul buffer n ++ if buffer n = 0 then [] else [buffer n] := by
  unfold nonNul
  rw [List.range_succ, List.map_append, List.filter_append]
  by_cases hzero : buffer n = 0
  · simp [hzero]
  · simp [hzero]

theorem loop_terminalPutc (k : Kernel) (buffer : Nat → UInt8) (n : Nat) :
    loop n (fun i k => terminalPutc k (buffer i)) k = (nonNul buffer n).foldl scheduledPutc k := by
  induction n with
  | zero =>
      rfl
  | succ n ih =>
      rw [loop, ih, nonNul_succ, List.foldl_append, terminalPutc_eq]
      split_ifs with hzero
      · rfl
      · rfl

section Write

variable {k : Kernel} {pid : Fin 6} (hflags : (descriptor k pid 1).flags ≠ 0)
variable (htable : (descriptor k pid 1).descriptorOpPtr = .termTable)
include hflags htable

/-- On descriptor 1 `write` is `terminal_write`. -/
theorem write_stdout (buffer : Nat → UInt8) (nbytes : Int) :
    write k pid 1 (some buffer) nbytes =
      ((terminalWrite k (some buffer) nbytes).1,
        .returned (terminalWrite k (some buffer) nbytes).2) := by
  have hcond : ¬ ((descriptor k pid 1).flags = 0 ∨ (1 : Fin 8) = 0 ∨
      (some buffer).isNone = true) := by
    simp [hflags]
  unfold write
  rw [show fdIndex 1 = some 1 from rfl]
  simp only [if_neg hcond, htable]

theorem write_of_full (buffer : Nat → UInt8) {nbytes : Int} (h0 : 0 ≤ nbytes)
    (hfull : (k.terminal k.activeTerminal).bufferIndex = 128) :
    write k pid 1 (some buffer) nbytes = (k, .returned 0) := by
  rw [write_stdout hflags htable]
  unfold terminalWrite
  simp only [if_neg (not_lt.mpr h0), hfull, buffSize, if_true]

theorem write_of_room (buffer : Nat → UInt8) {nbytes : Int} (h0 : 0 ≤ nbytes)
    (hroom : (k.terminal k.activeTerminal).bufferIndex ≠ 128) :
    write k pid 1 (some buffer) nbytes =
      ((nonNul buffer nbytes.toNat).foldl scheduledPutc k, .returned nbytes) := by
  rw [write_stdout hflags htable]
  unfold terminalWrite
  simp only [if_neg (not_lt.mpr h0), buffSize, if_neg hroom, loop_terminalPutc]

theorem writesAll_iff (buffer : Nat → UInt8) {nbytes : Int} (h0 : 0 ≤ nbytes) :
    WritesAll k buffer nbytes (write k pid 1 (some buffer) nbytes) ↔
      nbytes = 0 ∨ (k.terminal k.activeTerminal).bufferIndex ≠ 128 := by
  by_cases hfull : (k.terminal k.activeTerminal).bufferIndex = 128
  · rw [write_of_full hflags htable buffer h0 hfull]
    constructor
    · intro h
      left
      exact (Outcome.returned.inj h.result).symm
    · rintro (rfl | hroom)
      · exact ⟨rfl, rfl⟩
      · exact absurd hfull hroom
  · rw [write_of_room hflags htable buffer h0 hfull]
    exact iff_of_true ⟨rfl, rfl⟩ (Or.inr hfull)

end Write

/-! ## Replacing the input -/

theorem withInput_setStored (k : Kernel) (input : Fin 3 → (Int → UInt8) × Int) (t : Fin 3)
    (m : Mem) (x y : Int) :
    setStored (withInput k input) t m x y = withInput (setStored k t m x y) input := by
  have hterm : (setStored (withInput k input) t m x y).terminal =
      (withInput (setStored k t m x y) input).terminal := by
    funext u
    by_cases hu : u = t
    · subst hu
      simp [setStored, withInput]
    · simp [setStored, withInput, hu]
  unfold setStored withInput at hterm ⊢
  simp only [Kernel.modifyTerminal, Kernel.setMem] at hterm ⊢
  rw [hterm]

theorem scheduledPutc_withInput (k : Kernel) (input : Fin 3 → (Int → UInt8) × Int) (c : UInt8) :
    scheduledPutc (withInput k input) c = withInput (scheduledPutc k c) input := by
  unfold scheduledPutc
  by_cases hshown : k.currentRunningProcessCount < 3 ∨
      k.nextTerminalInSchedule = k.activeTerminal
  · have hshown' : (withInput k input).currentRunningProcessCount < 3 ∨
        (withInput k input).nextTerminalInSchedule = (withInput k input).activeTerminal := hshown
    rw [if_pos hshown, if_pos hshown']
    rfl
  · have hshown' : ¬ ((withInput k input).currentRunningProcessCount < 3 ∨
        (withInput k input).nextTerminalInSchedule = (withInput k input).activeTerminal) := hshown
    rw [if_neg hshown, if_neg hshown', activeTerminalPutc_eq_runStored,
      activeTerminalPutc_eq_runStored]
    exact withInput_setStored k input _ _ _ _

theorem printed_withInput (k : Kernel) (input : Fin 3 → (Int → UInt8) × Int) (cs : List UInt8) :
    cs.foldl scheduledPutc (withInput k input) = withInput (cs.foldl scheduledPutc k) input := by
  induction cs generalizing k with
  | nil =>
      rfl
  | cons c cs ih =>
      rw [List.foldl_cons, List.foldl_cons, scheduledPutc_withInput, ih]

theorem logicalScreen_withInput (k : Kernel) (input : Fin 3 → (Int → UInt8) × Int) (t : Fin 3) :
    logicalScreen (withInput k input) t = logicalScreen k t := rfl

/-- The two results agree exactly if both line buffers are full or neither is. -/
theorem sameOutput_iff {k : Kernel} {pid : Fin 6} (hflags : (descriptor k pid 1).flags ≠ 0)
    (htable : (descriptor k pid 1).descriptorOpPtr = .termTable) (buffer : Nat → UInt8)
    {nbytes : Int} (h0 : 0 ≤ nbytes) (input : Fin 3 → (Int → UInt8) × Int) :
    SameOutput (write k pid 1 (some buffer) nbytes)
        (write (withInput k input) pid 1 (some buffer) nbytes) ↔
      nbytes = 0 ∨ ((k.terminal k.activeTerminal).bufferIndex = 128 ↔
        (input k.activeTerminal).2 = 128) := by
  have hindex : ((withInput k input).terminal (withInput k input).activeTerminal).bufferIndex =
      (input k.activeTerminal).2 := rfl
  have hflags' : (descriptor (withInput k input) pid 1).flags ≠ 0 := hflags
  have htable' : (descriptor (withInput k input) pid 1).descriptorOpPtr = .termTable := htable
  by_cases hfull : (k.terminal k.activeTerminal).bufferIndex = 128
  · rw [write_of_full hflags htable buffer h0 hfull]
    by_cases hfull' : (input k.activeTerminal).2 = 128
    · rw [write_of_full hflags' htable' buffer h0 (hindex.trans hfull')]
      exact iff_of_true ⟨rfl, fun t => logicalScreen_withInput k input t⟩
        (Or.inr (iff_of_true hfull hfull'))
    · rw [write_of_room hflags' htable' buffer h0 (hindex ▸ hfull')]
      constructor
      · intro h
        left
        exact Outcome.returned.inj h.1
      · rintro (rfl | hiff)
        · exact ⟨rfl, fun t => logicalScreen_withInput k input t⟩
        · exact absurd (hiff.mp hfull) hfull'
  · rw [write_of_room hflags htable buffer h0 hfull]
    by_cases hfull' : (input k.activeTerminal).2 = 128
    · rw [write_of_full hflags' htable' buffer h0 (hindex.trans hfull')]
      constructor
      · intro h
        left
        exact (Outcome.returned.inj h.1).symm
      · rintro (rfl | hiff)
        · exact ⟨rfl, fun t => logicalScreen_withInput k input t⟩
        · exact absurd (hiff.mpr hfull') hfull
    · rw [write_of_room hflags' htable' buffer h0 (hindex ▸ hfull'), printed_withInput]
      exact iff_of_true ⟨rfl, fun t => logicalScreen_withInput _ input t⟩
        (Or.inr (iff_of_false hfull hfull'))

/--
A write on descriptor 1 prints everything exactly if there is nothing to print
or the line buffer of the displayed terminal is not full; and two states that
differ in their input only give the same result and screens exactly if there is
nothing to print or that buffer is full in both or in neither.
-/
theorem output_independent_iff {k : Kernel} {pid : Fin 6}
    (hflags : (descriptor k pid 1).flags ≠ 0)
    (htable : (descriptor k pid 1).descriptorOpPtr = .termTable) (buffer : Nat → UInt8)
    (nbytes : Int) (h0 : 0 ≤ nbytes) :
    (WritesAll k buffer nbytes (write k pid 1 (some buffer) nbytes) ↔
      nbytes = 0 ∨ (k.terminal k.activeTerminal).bufferIndex ≠ 128) ∧
    ∀ input, SameOutput (write k pid 1 (some buffer) nbytes)
        (write (withInput k input) pid 1 (some buffer) nbytes) ↔
      nbytes = 0 ∨ ((k.terminal k.activeTerminal).bufferIndex = 128 ↔
        (input k.activeTerminal).2 = 128) := by
  constructor
  · exact writesAll_iff hflags htable buffer h0
  · intro input
    exact sameOutput_iff hflags htable buffer h0 input

/-- Process 0, with `n` characters in the line buffers and nothing published. -/
def pendingInput (n : Int) : Kernel :=
  withInput (initPcb bareKernel 0) (fun _ => (fun _ => 0x61, n))

/-- With 127 characters pending, two bytes are printed. -/
theorem output_independent_iff_room :
    (descriptor (pendingInput 127) 0 1).flags ≠ 0 ∧
      WritesAll (pendingInput 127) (fun _ => 0x41) 2
        (write (pendingInput 127) 0 1 (some (fun _ => 0x41)) 2) := by
  have hflags : (descriptor (pendingInput 127) 0 1).flags ≠ 0 := by decide
  refine ⟨hflags, ?_⟩
  apply (output_independent_iff hflags rfl (fun _ => 0x41) 2 (by decide)).1.mpr
  right
  decide

/-- With 128 characters pending, nothing is printed and the result is 0. -/
theorem pending_line_suppresses_output :
    (descriptor (pendingInput 128) 0 1).flags ≠ 0 ∧
      write (pendingInput 128) 0 1 (some (fun _ => 0x41)) 2 = (pendingInput 128, .returned 0) ∧
      ¬ WritesAll (pendingInput 128) (fun _ => 0x41) 2
        (write (pendingInput 128) 0 1 (some (fun _ => 0x41)) 2) := by
  have hflags : (descriptor (pendingInput 128) 0 1).flags ≠ 0 := by decide
  have hwrite := write_of_full hflags rfl (fun _ => 0x41) (by decide : (0 : Int) ≤ 2) rfl
  refine ⟨hflags, hwrite, ?_⟩
  rw [hwrite]
  intro h
  exact absurd h.result (by decide)

end OopsOs
