import OopsOs.SystemCalls
import OopsOs.Lib.Machine

/-!
# The registers of the real-time clock

The clock has one index port for everyone.  `rtc_write` selects register A,
reads it, selects it again and writes it back with another rate, with
interrupts enabled all the time; `rtc_handle_interrupt` selects register C in
between.

As long as no interrupt is handled between a select and the access that it is
for, any number of writes may interleave: the clock has the rate of the write
that has ended last, and keeps its divider (`run_clock_rate`).  An interrupt
behind the second select makes the write return 0 without having changed
anything (`rtcWrite_takes_effect`).
-/

namespace OopsOs

open Machine

/-! ## The clock -/

/-- The clock behind the ports 0x70 and 0x71. -/
structure Cmos where
  index : UInt8
  registers : UInt8 → UInt8

namespace Cmos

/-- Bit 7 of the index masks the non-maskable interrupt. -/
def selected (c : Cmos) : UInt8 := c.index &&& 0x7F

def outIndex (c : Cmos) (v : UInt8) : Cmos := { c with index := v }

/-- The registers C and D cannot be written. -/
def outData (c : Cmos) (v : UInt8) : Cmos :=
  if c.selected = 0x0C ∨ c.selected = 0x0D then c
  else { c with registers := Function.update c.registers c.selected v }

/-- A read clears register C. -/
def inData (c : Cmos) : UInt8 × Cmos :=
  (c.registers c.selected,
    if c.selected = 0x0C then { c with registers := Function.update c.registers 0x0C 0 } else c)

/-- The frequency of the periodic interrupt. -/
def frequency (c : Cmos) : Nat := 32768 >>> ((c.registers 0x0A &&& 0x0F).toNat - 1)

@[simp] theorem registers_outIndex (c : Cmos) (v : UInt8) :
    (c.outIndex v).registers = c.registers := rfl

theorem inData_index (c : Cmos) : c.inData.2.index = c.index := by
  unfold inData
  split_ifs
  · rfl
  · rfl

theorem inData_registers (c : Cmos) {r : UInt8} (hr : r ≠ 0x0C) :
    c.inData.2.registers r = c.registers r := by
  unfold inData
  split_ifs
  · exact Function.update_of_ne hr _ _
  · rfl

theorem outData_index (c : Cmos) (v : UInt8) : (c.outData v).index = c.index := by
  unfold outData
  split_ifs
  · rfl
  · rfl

theorem outData_registers (c : Cmos) (v : UInt8) {r : UInt8} (hr : r ≠ c.selected) :
    (c.outData v).registers r = c.registers r := by
  unfold outData
  split_ifs
  · rfl
  · exact Function.update_of_ne hr _ _

theorem outData_selected {c : Cmos} (v : UInt8) (hc : c.selected = 0x0A) :
    (c.outData v).registers 0x0A = v := by
  rw [outData, if_neg (by rw [hc]; decide), hc]
  exact Function.update_self (0x0A : UInt8) v c.registers

end Cmos

/-! ## The driver -/

def rtcInit (c : Cmos) : Cmos :=
  let r := (c.outIndex 0x8B).inData
  (r.2.outIndex 0x8B).outData (r.1 ||| 0x40)

/-- The port accesses of `rtc_handle_interrupt`. -/
def rtcAcknowledge (c : Cmos) : Cmos := (c.outIndex 0x8C).inData.2

/-- Where a process is in `rtc_write`, the frequency that it sets, and what it has read. -/
inductive RtcWritePhase
  | idle
  | checked (frequency : Int)
  | selected (frequency : Int)
  | gotten (frequency : Int) (prev : UInt8)
  | reselected (frequency : Int) (prev : UInt8)

namespace RtcWritePhase

/-- Between a select and the access that it is for. -/
def InWindow : RtcWritePhase → Prop
  | selected _ => True
  | reselected _ _ => True
  | _ => False

/-- The frequency to be set is one of the options. -/
def Accepted : RtcWritePhase → Prop
  | idle => True
  | checked f => f ∈ frequencyOptions
  | selected f => f ∈ frequencyOptions
  | gotten f _ => f ∈ frequencyOptions
  | reselected f _ => f ∈ frequencyOptions

/-- What has been read has the divider of `a`. -/
def HasDivider (a : UInt8) : RtcWritePhase → Prop
  | gotten _ prev => prev &&& 0xF0 = a &&& 0xF0
  | reselected _ prev => prev &&& 0xF0 = a &&& 0xF0
  | _ => True

attribute [simp] InWindow Accepted HasDivider

end RtcWritePhase

universe u

variable {ι : Type u} [DecidableEq ι]

/-- The clock, the processes that write to it, and the frequency of the write that ended last. -/
structure RtcWriters (ι : Type u) where
  chip : Cmos
  phase : ι → RtcWritePhase
  lastWrite : Option Int

def RtcWriters.start (ι : Type u) (c : Cmos) : RtcWriters ι := ⟨rtcInit c, fun _ => .idle, none⟩

/-- `rtc_open` is a call with the four bytes of the frequency 2. -/
inductive RtcPortEvent (ι : Type u)
  | call (i : ι) (buffer : Option (Nat → UInt8)) (nbytes : Int)
  | advance (i : ι)
  | period
  | interrupt

def RtcWriters.enter (s : RtcWriters ι) (i : ι) (p : RtcWritePhase) : RtcWriters ι :=
  { s with phase := Function.update s.phase i p }

/-- The next port access of process `i`. -/
def RtcWriters.advance (s : RtcWriters ι) (i : ι) : Option (RtcWriters ι) :=
  match s.phase i with
  | .idle => none
  | .checked f => some ({ s with chip := s.chip.outIndex 0x8A }.enter i (.selected f))
  | .selected f =>
      some ({ s with chip := s.chip.inData.2 }.enter i (.gotten f s.chip.inData.1))
  | .gotten f prev =>
      some ({ s with chip := s.chip.outIndex 0x8A }.enter i (.reselected f prev))
  | .reselected f prev =>
      some ({ s with
        chip := s.chip.outData ((prev &&& 0xF0) ||| UInt8.ofNat (rtcRate f))
        lastWrite := some f }.enter i .idle)

def rtcPortStep (s : RtcWriters ι) : RtcPortEvent ι → Option (RtcWriters ι)
  | .call i buffer nbytes =>
      match s.phase i, buffer with
      | .idle, some b =>
          if rtcWrite (some b) nbytes = -1 then some s
          else some (s.enter i (.checked (int32At (fun a => b a.toNat) 0)))
      | .idle, none => some s
      | _, _ => none
  | .advance i => s.advance i
  | .period =>
      some { s with chip := { s.chip with
        registers := Function.update s.chip.registers 0x0C (s.chip.registers 0x0C ||| 0xC0) } }
  | .interrupt => some { s with chip := rtcAcknowledge s.chip }

/-- A call that is refused changes nothing; one that is accepted enters the function. -/
theorem call_cases {s s' : RtcWriters ι} {i : ι} {buffer : Option (Nat → UInt8)} {nbytes : Int}
    (hstep : rtcPortStep s (.call i buffer nbytes) = some s') :
    s.phase i = .idle ∧
      (s' = s ∨ ∃ b, rtcWrite (some b) nbytes ≠ -1 ∧
        s' = s.enter i (.checked (int32At (fun a => b a.toNat) 0))) := by
  cases hphase : s.phase i with
  | idle =>
      refine ⟨rfl, ?_⟩
      cases buffer with
      | none =>
          simp only [rtcPortStep, hphase] at hstep
          exact .inl (Option.some.inj hstep).symm
      | some b =>
          simp only [rtcPortStep, hphase] at hstep
          split_ifs at hstep with hrefused
          · exact .inl (Option.some.inj hstep).symm
          · exact .inr ⟨b, hrefused, (Option.some.inj hstep).symm⟩
  | checked f => simp [rtcPortStep, hphase] at hstep
  | selected f => simp [rtcPortStep, hphase] at hstep
  | gotten f prev => simp [rtcPortStep, hphase] at hstep
  | reselected f prev => simp [rtcPortStep, hphase] at hstep

/-! ## Rates -/

theorem rtcRate_option {f : Int} (h : f ∈ frequencyOptions) :
    UInt8.ofNat (rtcRate f) &&& 0xF0 = 0 ∧
      UInt8.ofNat (rtcRate f) &&& 0x0F = UInt8.ofNat (rtcRate f) ∧
      ((32768 >>> ((UInt8.ofNat (rtcRate f)).toNat - 1) : Nat) : Int) = f := by
  have hall : ∀ f ∈ frequencyOptions, UInt8.ofNat (rtcRate f) &&& 0xF0 = 0 ∧
      UInt8.ofNat (rtcRate f) &&& 0x0F = UInt8.ofNat (rtcRate f) ∧
      ((32768 >>> ((UInt8.ofNat (rtcRate f)).toNat - 1) : Nat) : Int) = f := by
    decide +kernel
  exact hall f h

/-- A frequency that is accepted is one of the options. -/
theorem rtcWrite_option {b : Nat → UInt8} {nbytes : Int} (h : rtcWrite (some b) nbytes ≠ -1) :
    int32At (fun a => b a.toNat) 0 ∈ frequencyOptions := by
  by_contra hno
  have hrate : rtcRate (int32At (fun a => b a.toNat) 0) = 0 := by
    have hnone : frequencyOptions.findIdx?
        (fun f => decide (int32At (fun a => b a.toNat) 0 = f)) = none := by
      rw [List.findIdx?_eq_none_iff]
      intro f hf
      rw [decide_eq_false_iff_not]
      rintro rfl
      exact hno hf
    rw [rtcRate, hnone]
    rfl
  apply h
  unfold rtcWrite
  simp only [hrate]
  simp

/-! ## Runs in which no interrupt comes between a select and its access -/

/-- No interrupt is handled while a write is between a select and the access that it is for. -/
def WindowGuard (s : RtcWriters ι) : RtcPortEvent ι → Prop
  | .interrupt => ∀ i, ¬ (s.phase i).InWindow
  | _ => True

/-- What holds of the clock that `rtc_init` has left with `a` in register A and `b` in register B. -/
structure RateKept (a b : UInt8) (s : RtcWriters ι) : Prop where
  window : ∀ i, (s.phase i).InWindow → s.chip.selected = 0x0A
  divider : s.chip.registers 0x0A &&& 0xF0 = a &&& 0xF0
  rate : s.chip.registers 0x0A &&& 0x0F =
    s.lastWrite.elim (a &&& 0x0F) (fun f => UInt8.ofNat (rtcRate f))
  periodic : s.chip.registers 0x0B = b
  prev : ∀ i, (s.phase i).HasDivider a
  options : ∀ i, (s.phase i).Accepted
  last : ∀ f, s.lastWrite = some f → f ∈ frequencyOptions

namespace RateKept

variable {a b : UInt8} {s s' : RtcWriters ι}

omit [DecidableEq ι] in
/-- A step that leaves the registers A and B as they are. -/
theorem of_registers (h : RateKept a b s) (hlast : s'.lastWrite = s.lastWrite)
    (hA : s'.chip.registers 0x0A = s.chip.registers 0x0A)
    (hB : s'.chip.registers 0x0B = s.chip.registers 0x0B)
    (hwindow : ∀ i, (s'.phase i).InWindow → s'.chip.selected = 0x0A)
    (hprev : ∀ i, (s'.phase i).HasDivider a) (hoptions : ∀ i, (s'.phase i).Accepted) :
    RateKept a b s' := by
  refine ⟨hwindow, ?_, ?_, ?_, hprev, hoptions, ?_⟩
  · rw [hA]
    exact h.divider
  · rw [hA, hlast]
    exact h.rate
  · rw [hB]
    exact h.periodic
  · rw [hlast]
    exact h.last

end RateKept

theorem update_phase {phase : ι → RtcWritePhase} {i : ι} {p : RtcWritePhase}
    {P : RtcWritePhase → Prop} (hp : P p) (hother : ∀ j, P (phase j)) :
    ∀ j, P (Function.update phase i p j) := by
  intro j
  by_cases hji : j = i
  · rw [hji, Function.update_self]
    exact hp
  · rw [Function.update_of_ne hji]
    exact hother j

/-- What is written back has the divider of what was read, and the new rate. -/
theorem merged_rate {prev a : UInt8} {f : Int} (hprev : prev &&& 0xF0 = a &&& 0xF0)
    (hf : f ∈ frequencyOptions) :
    ((prev &&& 0xF0) ||| UInt8.ofNat (rtcRate f)) &&& 0xF0 = a &&& 0xF0 ∧
      ((prev &&& 0xF0) ||| UInt8.ofNat (rtcRate f)) &&& 0x0F = UInt8.ofNat (rtcRate f) := by
  obtain ⟨hhigh, hlow, -⟩ := rtcRate_option hf
  have hdistrib : ∀ x y z : UInt8, (x ||| y) &&& z = (x &&& z) ||| (y &&& z) := fun x y z =>
    UInt8.toBitVec_inj.mp BitVec.and_or_distrib_right
  rw [hdistrib, hdistrib, hhigh, hlow, hprev, UInt8.and_assoc, UInt8.and_assoc, UInt8.and_self,
    UInt8.or_zero, show (0xF0 : UInt8) &&& 0x0F = 0 from by decide, UInt8.and_zero, UInt8.zero_or]
  exact ⟨rfl, rfl⟩

namespace RateKept

variable {a b : UInt8} {s s' : RtcWriters ι}

theorem advance (h : RateKept a b s) {i : ι} (hstep : s.advance i = some s') :
    RateKept a b s' := by
  have hselect : ∀ c : Cmos, (c.outIndex 0x8A).selected = 0x0A := fun c =>
    (by decide : (0x8A : UInt8) &&& 0x7F = 0x0A)
  unfold RtcWriters.advance at hstep
  cases hphase : s.phase i with
  | idle =>
      rw [hphase] at hstep
      cases hstep
  | checked f =>
      rw [hphase] at hstep
      cases hstep
      have hf : f ∈ frequencyOptions := by simpa [hphase] using h.options i
      refine h.of_registers rfl rfl rfl (fun _ _ => hselect s.chip) ?_ ?_
      · exact update_phase (P := (·.HasDivider a)) trivial h.prev
      · exact update_phase (P := (·.Accepted)) hf h.options
  | selected f =>
      rw [hphase] at hstep
      cases hstep
      have hf : f ∈ frequencyOptions := by simpa [hphase] using h.options i
      have hA : s.chip.selected = 0x0A := h.window i (by rw [hphase]; trivial)
      have hindex : s.chip.inData.2.selected = s.chip.selected := by
        rw [Cmos.selected, Cmos.inData_index, Cmos.selected]
      have hread : s.chip.inData.1 &&& 0xF0 = a &&& 0xF0 := by
        rw [← h.divider, ← hA]
        rfl
      refine h.of_registers rfl (s.chip.inData_registers (by decide))
        (s.chip.inData_registers (by decide)) ?_ ?_ ?_
      · intro j _
        exact hindex.trans hA
      · exact update_phase (P := (·.HasDivider a)) hread h.prev
      · exact update_phase (P := (·.Accepted)) hf h.options
  | gotten f prev =>
      rw [hphase] at hstep
      cases hstep
      have hf : f ∈ frequencyOptions := by simpa [hphase] using h.options i
      have hprev : prev &&& 0xF0 = a &&& 0xF0 := by simpa [hphase] using h.prev i
      refine h.of_registers rfl rfl rfl (fun _ _ => hselect s.chip) ?_ ?_
      · exact update_phase (P := (·.HasDivider a)) hprev h.prev
      · exact update_phase (P := (·.Accepted)) hf h.options
  | reselected f prev =>
      rw [hphase] at hstep
      cases hstep
      have hf : f ∈ frequencyOptions := by simpa [hphase] using h.options i
      have hprev : prev &&& 0xF0 = a &&& 0xF0 := by simpa [hphase] using h.prev i
      have hA : s.chip.selected = 0x0A := h.window i (by rw [hphase]; trivial)
      obtain ⟨hdivider, hrate⟩ := merged_rate hprev hf
      have hwritten := Cmos.outData_selected
        ((prev &&& 0xF0) ||| UInt8.ofNat (rtcRate f)) hA
      refine ⟨?_, ?_, ?_, ?_, ?_, ?_, ?_⟩
      · intro j _
        exact (congrArg (fun x => x &&& 0x7F) (s.chip.outData_index _)).trans hA
      · exact (congrArg (fun x => x &&& 0xF0) hwritten).trans hdivider
      · exact (congrArg (fun x => x &&& 0x0F) hwritten).trans hrate
      · exact (s.chip.outData_registers _ (by rw [hA]; decide)).trans h.periodic
      · exact update_phase (P := (·.HasDivider a)) trivial h.prev
      · exact update_phase (P := (·.Accepted)) trivial h.options
      · intro f' hf'
        obtain rfl : f = f' := Option.some.inj hf'
        exact hf

theorem call (h : RateKept a b s) {i : ι} {buffer : Option (Nat → UInt8)} {nbytes : Int}
    (hstep : rtcPortStep s (.call i buffer nbytes) = some s') : RateKept a b s' := by
  obtain ⟨-, rfl | ⟨bytes, haccepted, rfl⟩⟩ := call_cases hstep
  · exact h
  · refine h.of_registers rfl rfl rfl ?_ ?_ ?_
    · exact update_phase (P := fun p => p.InWindow → s.chip.selected = 0x0A)
        (fun hfalse => hfalse.elim) h.window
    · exact update_phase (P := (·.HasDivider a)) trivial h.prev
    · exact update_phase (P := (·.Accepted)) (rtcWrite_option haccepted) h.options

theorem step (h : RateKept a b s) {e : RtcPortEvent ι} (hguard : WindowGuard s e)
    (hstep : rtcPortStep s e = some s') : RateKept a b s' := by
  cases e with
  | call i buffer nbytes => exact h.call hstep
  | advance i => exact h.advance hstep
  | period =>
      cases hstep
      have hA : (0x0A : UInt8) ≠ 0x0C := by decide
      have hB : (0x0B : UInt8) ≠ 0x0C := by decide
      refine h.of_registers rfl ?_ ?_ h.window h.prev h.options
      · exact Function.update_of_ne hA (s.chip.registers 0x0C ||| 0xC0) s.chip.registers
      · exact Function.update_of_ne hB (s.chip.registers 0x0C ||| 0xC0) s.chip.registers
  | interrupt =>
      cases hstep
      refine h.of_registers rfl (Cmos.inData_registers _ (by decide))
        (Cmos.inData_registers _ (by decide)) ?_ h.prev h.options
      intro i hi
      exact absurd hi (hguard i)

end RateKept

theorem rtcInit_registers (c : Cmos) :
    (rtcInit c).registers 0x0A = c.registers 0x0A ∧
      (rtcInit c).registers 0x0B = c.registers 0x0B ||| 0x40 := by
  have hselected : ∀ d : Cmos, (d.outIndex 0x8B).selected = 0x0B := fun d =>
    (by decide : (0x8B : UInt8) &&& 0x7F = 0x0B)
  have hread : (c.outIndex 0x8B).inData = (c.registers 0x0B, c.outIndex 0x8B) := by
    rw [Cmos.inData, hselected]
    rfl
  rw [rtcInit, hread, Cmos.outData, hselected]
  exact ⟨rfl, rfl⟩

omit [DecidableEq ι] in
theorem start_rateKept (c : Cmos) :
    RateKept (c.registers 0x0A) (c.registers 0x0B ||| 0x40) (RtcWriters.start ι c) := by
  obtain ⟨hA, hB⟩ := rtcInit_registers c
  refine ⟨fun _ hfalse => hfalse.elim, ?_, ?_, hB, fun _ => trivial, fun _ => trivial, ?_⟩
  · exact congrArg (fun x => x &&& 0xF0) hA
  · exact congrArg (fun x => x &&& 0x0F) hA
  · intro f hf
    cases hf

theorem nibbles (x : UInt8) : (x &&& 0xF0) ||| (x &&& 0x0F) = x := by
  have hdistrib : (x &&& 0xF0) ||| (x &&& 0x0F) = x &&& (0xF0 ||| 0x0F) :=
    (UInt8.toBitVec_inj.mp BitVec.and_or_distrib_left).symm
  rw [hdistrib]
  exact UInt8.toBitVec_inj.mp BitVec.and_allOnes

/--
Any number of processes write to the clock in any order of their port accesses,
and no interrupt is handled between a select and its access: the clock ticks at
the frequency of the write that has ended last, with the divider and the
interrupts that `rtc_init` has left.
-/
theorem run_clock_rate {c : Cmos} {es : List (RtcPortEvent ι)} {s : RtcWriters ι}
    (hrun : Run rtcPortStep WindowGuard (RtcWriters.start ι c) es s) :
    s.chip.registers 0x0A &&& 0xF0 = c.registers 0x0A &&& 0xF0 ∧
      s.chip.registers 0x0B = c.registers 0x0B ||| 0x40 ∧
      (s.lastWrite = none → s.chip.registers 0x0A = c.registers 0x0A) ∧
      ∀ f, s.lastWrite = some f → (s.chip.frequency : Int) = f := by
  have h := hrun.invariant (fun _ _ _ h hguard hstep => RateKept.step h hguard hstep)
    (start_rateKept c)
  refine ⟨h.divider, h.periodic, ?_, ?_⟩
  · intro hnone
    have hrate := h.rate
    rw [hnone] at hrate
    rw [← nibbles (s.chip.registers 0x0A), h.divider, hrate]
    exact nibbles _
  · intro f hf
    have hrate := h.rate
    rw [hf] at hrate
    rw [Cmos.frequency, hrate]
    exact (rtcRate_option (h.last f hf)).2.2

/-- A buffer with the four bytes of a small number. -/
def frequencyBytes (n : UInt8) : Nat → UInt8 := fun i => if i = 0 then n else 0

/-- A write of 32 Hz that is overtaken by one of 2 Hz, and an interrupt where it does no harm. -/
def overtaken : List (RtcPortEvent Bool) :=
  [.call false (some (frequencyBytes 32)) 4, .advance false, .advance false, .interrupt,
    .call true (some (frequencyBytes 2)) 4, .advance true, .advance false, .advance true,
    .advance true, .advance true, .advance false]

/-- The write of 32 Hz ends last. -/
theorem run_clock_rate_overtaken :
    ∃ s, Run rtcPortStep WindowGuard (RtcWriters.start Bool ⟨0, fun _ => 0x26⟩) overtaken s ∧
      s.chip.frequency = 32 := by
  have hrun : Run rtcPortStep WindowGuard (RtcWriters.start Bool ⟨0, fun _ => 0x26⟩) overtaken _ :=
    Run.cons trivial rfl (Run.cons trivial rfl (Run.cons trivial rfl (Run.cons
      (fun i => by cases i <;> exact id) rfl
      (Run.cons trivial rfl (Run.cons trivial rfl (Run.cons trivial rfl (Run.cons trivial rfl
        (Run.cons trivial rfl (Run.cons trivial rfl (Run.cons trivial rfl (Run.nil _)))))))))))
  refine ⟨_, hrun, ?_⟩
  have hrate := (run_clock_rate hrun).2.2.2 32 rfl
  exact Int.ofNat_inj.mp hrate

/-! ## A write and the interrupts in its last window -/

/-- No process selects a register. -/
def NoSelect (s : RtcWriters ι) : RtcPortEvent ι → Prop
  | .advance i => (∀ f, s.phase i ≠ .checked f) ∧ ∀ f prev, s.phase i ≠ .gotten f prev
  | _ => True

theorem advance_noSelect {s s' : RtcWriters ι} {i : ι} (hguard : NoSelect s (.advance i))
    (hstep : s.advance i = some s') :
    s'.chip.selected = s.chip.selected ∧ ∃ p, s'.phase = Function.update s.phase i p := by
  unfold RtcWriters.advance at hstep
  cases hphase : s.phase i with
  | idle =>
      rw [hphase] at hstep
      cases hstep
  | checked f => exact absurd hphase (hguard.1 f)
  | selected f =>
      rw [hphase] at hstep
      cases hstep
      exact ⟨congrArg (fun x => x &&& 0x7F) s.chip.inData_index, _, rfl⟩
  | gotten f prev => exact absurd hphase (hguard.2 f prev)
  | reselected f prev =>
      rw [hphase] at hstep
      cases hstep
      exact ⟨congrArg (fun x => x &&& 0x7F) (s.chip.outData_index _), _, rfl⟩

theorem rtcAcknowledge_selected (c : Cmos) : (rtcAcknowledge c).selected = 0x0C := by
  rw [rtcAcknowledge, Cmos.selected, Cmos.inData_index]
  exact (by decide : (0x8C : UInt8) &&& 0x7F = 0x0C)

/-- Only an interrupt selects another register, and only the process itself goes on. -/
theorem noSelect_step {s s' : RtcWriters ι} {i : ι} {e : RtcPortEvent ι} (hguard : NoSelect s e)
    (hi : e ≠ .advance i) (hbusy : s.phase i ≠ .idle) (hstep : rtcPortStep s e = some s') :
    s'.phase i = s.phase i ∧
      (e = .interrupt ∧ s'.chip.selected = 0x0C ∨
        e ≠ .interrupt ∧ s'.chip.selected = s.chip.selected) := by
  cases e with
  | call j buffer nbytes =>
      obtain ⟨hidle, rfl | ⟨b, -, rfl⟩⟩ := call_cases hstep
      · exact ⟨rfl, .inr ⟨by simp, rfl⟩⟩
      · have hne : i ≠ j := by
          rintro rfl
          exact hbusy hidle
        exact ⟨Function.update_of_ne hne _ _, .inr ⟨by simp, rfl⟩⟩
  | advance j =>
      obtain ⟨hselected, p, hp⟩ := advance_noSelect hguard hstep
      have hne : i ≠ j := by
        rintro rfl
        exact hi rfl
      refine ⟨?_, .inr ⟨by simp, hselected⟩⟩
      rw [hp, Function.update_of_ne hne]
  | period =>
      cases hstep
      exact ⟨rfl, .inr ⟨by simp, rfl⟩⟩
  | interrupt =>
      cases hstep
      exact ⟨rfl, .inl ⟨rfl, rtcAcknowledge_selected s.chip⟩⟩

theorem run_noSelect {s s' : RtcWriters ι} {i : ι} {es : List (RtcPortEvent ι)}
    (hrun : Run rtcPortStep NoSelect s es s') (hi : .advance i ∉ es) (hbusy : s.phase i ≠ .idle) :
    s'.phase i = s.phase i ∧
      (.interrupt ∈ es ∧ s'.chip.selected = 0x0C ∨
        .interrupt ∉ es ∧ s'.chip.selected = s.chip.selected) := by
  induction hrun with
  | nil s => exact ⟨rfl, .inr ⟨List.not_mem_nil, rfl⟩⟩
  | @cons s s₁ s₂ e es hguard hstep _ ih =>
      rw [List.mem_cons, not_or] at hi
      obtain ⟨hphase, hfirst⟩ := noSelect_step hguard (Ne.symm hi.1) hbusy hstep
      obtain ⟨hphase', hrest⟩ := ih hi.2 (by rw [hphase]; exact hbusy)
      refine ⟨hphase'.trans hphase, ?_⟩
      rw [List.mem_cons]
      rcases hrest with ⟨hmem, hselected⟩ | ⟨hmem, hselected⟩
      · exact .inl ⟨.inr hmem, hselected⟩
      · rcases hfirst with ⟨rfl, hselected'⟩ | ⟨hne, hselected'⟩
        · exact .inl ⟨.inl rfl, hselected.trans hselected'⟩
        · exact .inr ⟨by rw [not_or]; exact ⟨Ne.symm hne, hmem⟩, hselected.trans hselected'⟩

/--
A process selects register A for the second time, others do anything but
selects, and then the process writes: the call is over, and register A has the
new rate exactly if no interrupt has been handled meanwhile.  Otherwise register
C is the one selected, and the write is lost.
-/
theorem rtcWrite_takes_effect {s₀ s₁ s₂ s₃ : RtcWriters ι} {i : ι} {f : Int} {prev : UInt8}
    {mid : List (RtcPortEvent ι)} (hphase : s₀.phase i = .gotten f prev)
    (hselect : rtcPortStep s₀ (.advance i) = some s₁) (hmid : Run rtcPortStep NoSelect s₁ mid s₂)
    (hi : .advance i ∉ mid) (hwrite : rtcPortStep s₂ (.advance i) = some s₃) :
    s₃.phase i = .idle ∧ s₃.lastWrite = some f ∧
      (.interrupt ∉ mid →
        s₃.chip.registers 0x0A = (prev &&& 0xF0) ||| UInt8.ofNat (rtcRate f)) ∧
      (.interrupt ∈ mid → s₂.chip.selected = 0x0C ∧ s₃.chip = s₂.chip) := by
  have hs₁ : s₁ = { s₀ with chip := s₀.chip.outIndex 0x8A }.enter i (.reselected f prev) := by
    simp only [rtcPortStep, RtcWriters.advance, hphase] at hselect
    exact (Option.some.inj hselect).symm
  have hphase₁ : s₁.phase i = .reselected f prev := by
    rw [hs₁]
    exact Function.update_self i _ _
  have hselected₁ : s₁.chip.selected = 0x0A := by
    rw [hs₁]
    exact (by decide : (0x8A : UInt8) &&& 0x7F = 0x0A)
  obtain ⟨hphase₂, hcase⟩ := run_noSelect hmid hi (by rw [hphase₁]; exact fun h => by cases h)
  rw [hphase₁] at hphase₂
  have hs₃ : s₃ = { s₂ with
      chip := s₂.chip.outData ((prev &&& 0xF0) ||| UInt8.ofNat (rtcRate f))
      lastWrite := some f }.enter i .idle := by
    simp only [rtcPortStep, RtcWriters.advance, hphase₂] at hwrite
    exact (Option.some.inj hwrite).symm
  rw [hs₃]
  refine ⟨Function.update_self i _ _, rfl, ?_, ?_⟩
  · intro hno
    rcases hcase with ⟨hmem, -⟩ | ⟨-, hselected⟩
    · exact absurd hmem hno
    · exact Cmos.outData_selected _ (hselected.trans hselected₁)
  · intro hyes
    rcases hcase with ⟨-, hselected⟩ | ⟨hmem, -⟩
    · exact ⟨hselected, if_pos (.inl hselected)⟩
    · exact absurd hyes hmem

/-- A process that has read the rate of 1024 Hz and is about to set 32 Hz. -/
def aboutToWrite : RtcWriters Unit := ⟨⟨0x8A, fun _ => 0x26⟩, fun _ => .gotten 32 0x26, none⟩

/-- The interrupt makes the write void. -/
theorem rtcWrite_takes_effect_interrupted :
    ∃ s, Run rtcPortStep anyStep aboutToWrite [.advance (), .interrupt, .advance ()] s ∧
      s.lastWrite = some 32 ∧ s.chip.frequency = 1024 := by
  have hphase : aboutToWrite.phase () = .gotten 32 0x26 := rfl
  have hmid : Run rtcPortStep NoSelect
      ({ aboutToWrite with chip := ⟨0x8A, fun _ => 0x26⟩ }.enter () (.reselected 32 0x26))
      [.interrupt] _ := Run.cons trivial rfl (Run.nil _)
  obtain ⟨-, hlast, -, hlost⟩ := rtcWrite_takes_effect hphase rfl hmid (by simp) rfl
  have hfrequency := congrArg Cmos.frequency (hlost (List.mem_singleton.mpr rfl)).2
  exact ⟨_, Run.cons trivial rfl (Run.cons trivial rfl (Run.cons trivial rfl (Run.nil _))),
    hlast, hfrequency.trans (by decide +kernel)⟩

end OopsOs
