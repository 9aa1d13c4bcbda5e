import OopsOs.Descriptors
import OopsOs.InterruptMasks
import OopsOs.Lib.Pic8259

/-!
# The interrupt controllers over whole runs

`i8259.c` keeps two mask bytes and writes them to the ports; what the
controllers let through is another matter.  The slave's mask is cleared by the
initialisation and stays clear until a call names one of its lines, so
`slave_bit_mask` is not what the slave has.

`run_letsThrough` says which interrupts can get to the processor in any run in
which only open interrupts are ended, `run_interrupt_enters` in which handler
each of them ends up, and `run_kernel_lines` which those are with the calls that
this kernel makes: the clock's line is open because nothing ever masks the
slave, `enable_irq(8)` opens line 4, and an interrupt of any other line of the
slave shuts the clock out for good.
-/

namespace OopsOs

open Machine X86 Pic8259

/-! ## The functions with their port writes -/

structure LineSystem where
  kernel : Kernel
  pics : Pair
  opened : List (Fin 16)

def enableIrqPorts (s : LineSystem) (irqNum : Nat) : LineSystem :=
  let k := enableIrq s.kernel irqNum
  if irqNum ≥ 16 then { s with kernel := k }
  else if irqNum > 8 then { s with kernel := k, pics := s.pics.out k.slaveBitMask 0xA1 }
  else { s with kernel := k, pics := s.pics.out k.masterBitMask 0x21 }

def disableIrqPorts (s : LineSystem) (irqNum : Nat) : LineSystem :=
  let k := disableIrq s.kernel irqNum
  if irqNum ≥ 16 then { s with kernel := k }
  else if irqNum > 8 then { s with kernel := k, pics := s.pics.out k.slaveBitMask 0xA1 }
  else { s with kernel := k, pics := s.pics.out k.masterBitMask 0x21 }

def icw1 : BitVec 8 := 0x11
def icw2Master : BitVec 8 := 0x20
def icw2Slave : BitVec 8 := 0x28
def icw3Master : BitVec 8 := 0x04
def icw3Slave : BitVec 8 := 0x02
def icw4 : BitVec 8 := 0x01
def eoi : BitVec 8 := 0x60

/-- The port writes of `i8259_init`. -/
def initWords (pics : Pair) : Pair :=
  let pics := pics.out 0xFC 0x21
  let pics := pics.out icw1 0x20
  let pics := pics.out icw2Master 0x21
  let pics := pics.out icw3Master 0x21
  let pics := pics.out icw4 0x21
  let pics := pics.out 0xFC 0xA1
  let pics := pics.out icw1 0xA0
  let pics := pics.out icw2Slave 0xA1
  let pics := pics.out icw3Slave 0xA1
  pics.out icw4 0xA1

def i8259InitPorts (k : Kernel) (pics : Pair) : LineSystem :=
  let k := { k with masterBitMask := 0xFC, slaveBitMask := 0xFC }
  enableIrqPorts ⟨k, initWords pics, []⟩ 2

def sendEoi (s : LineSystem) (irqNum : Nat) : LineSystem :=
  if irqNum > 15 then { s with kernel := s.kernel.printf "Invalid irq_num" }
  else if irqNum ≤ 7 then { s with pics := s.pics.out (eoi ||| BitVec.ofNat 8 irqNum) 0x20 }
  else
    let pics := s.pics.out (eoi ||| BitVec.ofNat 8 (irqNum - 8)) 0xA0
    { s with pics := pics.out (eoi ||| 2) 0x20 }

/-- The calls, and the processor taking an interrupt. -/
inductive IrqEvent
  | enable (irqNum : Nat)
  | disable (irqNum : Nat)
  | interrupt (n : Fin 16)
  | endOf (n : Fin 16)
deriving DecidableEq, Repr

instance (c : Chip) (i : Nat) : Decidable (c.LetsThrough i) :=
  inferInstanceAs (Decidable (_ ∧ _ ∧ ∀ j, j ≤ i → _))

instance (p : Pair) (n : Fin 16) : Decidable (p.LetsThrough n) :=
  inferInstanceAs (Decidable (_ ∧ _ ∧ (_ → _)))

def lineStep (s : LineSystem) : IrqEvent → Option LineSystem
  | .enable n => some (enableIrqPorts s n)
  | .disable n => some (disableIrqPorts s n)
  | .interrupt n =>
      if s.pics.LetsThrough n then
        some { s with pics := s.pics.acknowledge n, opened := n :: s.opened }
      else none
  | .endOf n => some { sendEoi s n with opened := s.opened.erase n }

/-- A handler ends the interrupt that it handles. -/
def EndsOpened (s : LineSystem) : IrqEvent → Prop
  | .endOf n => n ∈ s.opened
  | _ => True

instance (s : LineSystem) : (e : IrqEvent) → Decidable (EndsOpened s e)
  | .enable _ => isTrue trivial
  | .disable _ => isTrue trivial
  | .interrupt _ => isTrue trivial
  | .endOf n => inferInstanceAs (Decidable (n ∈ s.opened))

/-- The call writes to the slave's mask. -/
def namesSlave : IrqEvent → Bool
  | .enable n => 8 < n && n < 16
  | .disable n => 8 < n && n < 16
  | _ => false

/-! ## What the ports come to -/

theorem command_eoi (c : Chip) {i : Nat} (hi : i < 8) :
    c.command (eoi ||| BitVec.ofNat 8 i) = c.endOf i := by
  have hword : ∀ i : Fin 8, (eoi ||| BitVec.ofNat 8 i.val).getLsbD 4 = false ∧
      (eoi ||| BitVec.ofNat 8 i.val).extractLsb' 3 5 = 0b01100 ∧
      ((eoi ||| BitVec.ofNat 8 i.val).extractLsb' 0 3).toNat = i.val := by
    decide
  obtain ⟨hinit, hspecific, hline⟩ := hword ⟨i, hi⟩
  rw [Chip.command, hinit, if_neg Bool.false_ne_true, if_pos hspecific, hline]

/-- `send_eoi` ends the interrupt of its line, on both controllers if it is the slave's. -/
theorem sendEoi_pics (s : LineSystem) (n : Fin 16) : (sendEoi s n).pics = s.pics.endOf n := by
  have hvalid : ¬ n.val > 15 := by omega
  unfold sendEoi Pair.endOf Pair.level
  rw [if_neg hvalid]
  by_cases hlow : n.val < 8
  · rw [if_pos (by omega), if_pos hlow, if_pos hlow]
    simp only [Pair.out, command_eoi s.pics.master hlow]
  · rw [if_neg (by omega), if_neg hlow, if_neg hlow]
    have htwo : s.pics.master.command (eoi ||| 2) = s.pics.master.endOf 2 :=
      command_eoi s.pics.master (by decide)
    simp only [Pair.out, command_eoi s.pics.slave (show n.val - 8 < 8 by omega), htwo]

theorem sendEoi_masks (s : LineSystem) (n : Nat) :
    (sendEoi s n).kernel.masterBitMask = s.kernel.masterBitMask ∧
      (sendEoi s n).kernel.slaveBitMask = s.kernel.slaveBitMask := by
  unfold sendEoi
  split_ifs <;> exact ⟨rfl, rfl⟩

/-- A controller that has been initialised takes a word at its data port for the mask. -/
theorem data_ready {c : Chip} (h : c.awaited = []) (v : BitVec 8) : c.data v = { c with mask := v } := by
  unfold Chip.data
  rw [h]

/--
The controllers are initialised, the master's mask is the kernel's byte, and
the slave's is clear until a call has named one of its lines.
-/
structure LinesReady (named : Nat) (s : LineSystem) : Prop where
  masterAwaited : s.pics.master.awaited = []
  slaveAwaited : s.pics.slave.awaited = []
  masterVectors : s.pics.master.vectors = icw2Master
  slaveVectors : s.pics.slave.vectors = icw2Slave
  masterMask : s.pics.master.mask = s.kernel.masterBitMask
  slaveMask : s.pics.slave.mask = if named = 0 then 0 else s.kernel.slaveBitMask
  service : s.pics.InService s.opened

section Calls

variable {named : Nat} {s : LineSystem} (h : LinesReady named s)
include h

/-- A call that leaves the masks alone. -/
theorem LinesReady.invalid {k : Kernel} (hmaster : k.masterBitMask = s.kernel.masterBitMask)
    (hslave : k.slaveBitMask = s.kernel.slaveBitMask) :
    LinesReady named { s with kernel := k } :=
  ⟨h.masterAwaited, h.slaveAwaited, h.masterVectors, h.slaveVectors, h.masterMask.trans hmaster.symm,
    by rw [h.slaveMask, hslave], h.service⟩

/-- A call that changes the master's byte and writes it to the port. -/
theorem LinesReady.masterCall {k : Kernel} (hslave : k.slaveBitMask = s.kernel.slaveBitMask) :
    LinesReady named { s with kernel := k, pics := s.pics.out k.masterBitMask 0x21 } := by
  have hout : s.pics.out k.masterBitMask 0x21 =
      { s.pics with master := { s.pics.master with mask := k.masterBitMask } } := by
    simp only [Pair.out, data_ready h.masterAwaited]
  rw [hout]
  exact ⟨h.masterAwaited, h.slaveAwaited, h.masterVectors, h.slaveVectors, rfl,
    by rw [h.slaveMask, hslave], ⟨h.service.master, h.service.slave, h.service.nested⟩⟩

theorem LinesReady.slaveCall {k : Kernel} (hmaster : k.masterBitMask = s.kernel.masterBitMask) :
    LinesReady (named + 1) { s with kernel := k, pics := s.pics.out k.slaveBitMask 0xA1 } := by
  have hout : s.pics.out k.slaveBitMask 0xA1 =
      { s.pics with slave := { s.pics.slave with mask := k.slaveBitMask } } := by
    simp only [Pair.out, data_ready h.slaveAwaited]
  rw [hout]
  exact ⟨h.masterAwaited, h.slaveAwaited, h.masterVectors, h.slaveVectors,
    h.masterMask.trans hmaster.symm, rfl, ⟨h.service.master, h.service.slave, h.service.nested⟩⟩

theorem LinesReady.enable (n : Nat) :
    LinesReady (if namesSlave (.enable n) = true then named + 1 else named)
      (enableIrqPorts s n) := by
  unfold enableIrqPorts enableIrq namesSlave
  by_cases hbig : n ≥ 16
  · have hnot : ¬ (decide (8 < n) && decide (n < 16)) = true := by
      simp
      omega
    simp only [if_pos hbig, if_neg hnot]
    exact h.invalid rfl rfl
  · by_cases hslave : n > 8
    · have hnames : (decide (8 < n) && decide (n < 16)) = true := by
        simp
        omega
      simp only [if_neg hbig, if_pos hslave, if_pos hnames]
      exact h.slaveCall rfl
    · have hnot : ¬ (decide (8 < n) && decide (n < 16)) = true := by
        simp
        omega
      simp only [if_neg hbig, if_neg hslave, if_neg hnot]
      exact h.masterCall rfl

theorem LinesReady.disable (n : Nat) :
    LinesReady (if namesSlave (.disable n) = true then named + 1 else named)
      (disableIrqPorts s n) := by
  unfold disableIrqPorts disableIrq namesSlave
  by_cases hbig : n ≥ 16
  · have hnot : ¬ (decide (8 < n) && decide (n < 16)) = true := by
      simp
      omega
    simp only [if_pos hbig, if_neg hnot]
    exact h.invalid rfl rfl
  · by_cases hslave : n > 8
    · have hnames : (decide (8 < n) && decide (n < 16)) = true := by
        simp
        omega
      simp only [if_neg hbig, if_pos hslave, if_pos hnames]
      exact h.slaveCall rfl
    · have hnot : ¬ (decide (8 < n) && decide (n < 16)) = true := by
        simp
        omega
      simp only [if_neg hbig, if_neg hslave, if_neg hnot]
      exact h.masterCall rfl

end Calls

/-- The initialisation clears both masks, whatever state the controllers were in. -/
theorem initWords_eq (pics : Pair) :
    initWords pics = ⟨⟨0, 0, icw2Master, []⟩, ⟨0, 0, icw2Slave, []⟩⟩ := rfl

theorem i8259Init_ready (k : Kernel) (pics : Pair) : LinesReady 0 (i8259InitPorts k pics) := by
  have hready : LinesReady 0 ⟨{ k with masterBitMask := 0, slaveBitMask := 0xFC },
      initWords pics, []⟩ := by
    rw [initWords_eq]
    refine ⟨rfl, rfl, rfl, rfl, rfl, rfl, ⟨?_, ?_, List.Pairwise.nil⟩⟩ <;> simp
  exact hready.masterCall (k := enableIrq { k with masterBitMask := 0xFC, slaveBitMask := 0xFC } 2)
    rfl

/-- Taking or ending an interrupt touches the registers of the interrupts in service only. -/
theorem LinesReady.inService {named : Nat} {s s' : LineSystem} (h : LinesReady named s)
    (hmaster : s'.kernel.masterBitMask = s.kernel.masterBitMask)
    (hslave : s'.kernel.slaveBitMask = s.kernel.slaveBitMask) {m l : BitVec 8}
    (hpics : s'.pics = ⟨{ s.pics.master with inService := m }, { s.pics.slave with inService := l }⟩)
    (hservice : s'.pics.InService s'.opened) : LinesReady named s' := by
  have hm : s'.pics.master = { s.pics.master with inService := m } := congrArg Pair.master hpics
  have hl : s'.pics.slave = { s.pics.slave with inService := l } := congrArg Pair.slave hpics
  refine ⟨?_, ?_, ?_, ?_, ?_, ?_, hservice⟩
  · rw [hm]
    exact h.masterAwaited
  · rw [hl]
    exact h.slaveAwaited
  · rw [hm]
    exact h.masterVectors
  · rw [hl]
    exact h.slaveVectors
  · rw [hm, hmaster]
    exact h.masterMask
  · rw [hl, hslave]
    exact h.slaveMask

/-- Every step keeps the controllers ready; the calls that name the slave count. -/
theorem lineStep_ready (named : Nat) (s : LineSystem) (e : IrqEvent) (s' : LineSystem)
    (h : LinesReady named s) (hguard : EndsOpened s e) (hstep : lineStep s e = some s') :
    LinesReady (if namesSlave e then named + 1 else named) s' := by
  cases e with
  | enable n =>
      obtain rfl := Option.some.inj hstep
      exact h.enable n
  | disable n =>
      obtain rfl := Option.some.inj hstep
      exact h.disable n
  | interrupt n =>
      simp only [lineStep] at hstep
      split_ifs at hstep with hlets
      obtain rfl := Option.some.inj hstep
      refine h.inService rfl rfl (m := (s.pics.acknowledge n).master.inService)
        (l := (s.pics.acknowledge n).slave.inService) ?_ (h.service.acknowledge hlets)
      unfold Pair.acknowledge
      split_ifs <;> rfl
  | endOf n =>
      obtain rfl := Option.some.inj hstep
      obtain ⟨hmaster, hslave⟩ := sendEoi_masks s n
      have hpics := sendEoi_pics s n
      refine h.inService hmaster hslave (m := (s.pics.endOf n).master.inService)
        (l := (s.pics.endOf n).slave.inService) ?_ ?_
      · refine hpics.trans ?_
        unfold Pair.endOf
        split_ifs <;> rfl
      · have hservice := h.service.endOf hguard
        rw [← hpics] at hservice
        exact hservice

theorem run_ready {k : Kernel} {pics : Pair} {es : List IrqEvent} {s : LineSystem}
    (hrun : Run lineStep EndsOpened (i8259InitPorts k pics) es s) :
    LinesReady (es.countP namesSlave) s := by
  have h := hrun.counted (I := LinesReady) lineStep_ready (i8259Init_ready k pics)
  rwa [Nat.zero_add] at h

/-! ## Any calls -/

/--
In every run of calls, interrupts and ends of open interrupts from `i8259_init`
on: an interrupt gets to the processor exactly if its bit in the kernel's byte is
clear and it is more urgent than all that are open.  For the slave's lines the
slave's byte does not count until a call has named one of them; the cascade's
bit does.  The open interrupts are nested by urgency.
-/
theorem run_letsThrough {k : Kernel} {pics : Pair} {es : List IrqEvent} {s : LineSystem}
    (hrun : Run lineStep EndsOpened (i8259InitPorts k pics) es s) :
    (∀ n : Fin 16, s.pics.LetsThrough n ↔ n ≠ 2 ∧
      (if n.val < 8 then lineMasked s.kernel n = false
        else lineMasked s.kernel 2 = false ∧
          (es.any namesSlave = true → lineMasked s.kernel n = false)) ∧
      ∀ m ∈ s.opened, Pair.level n < Pair.level m) ∧
    s.opened.Pairwise (fun n m => Pair.level n < Pair.level m) := by
  have h := run_ready hrun
  refine ⟨fun n => ?_, h.service.nested⟩
  rw [h.service.letsThrough_iff h.masterAwaited h.slaveAwaited, h.masterMask, h.slaveMask]
  have hnamed : es.countP namesSlave = 0 ↔ ¬ es.any namesSlave = true := by
    rw [List.countP_eq_zero, List.any_eq_true]
    exact ⟨fun hall ⟨e, he, hp⟩ => hall e he hp, fun hnot e he hp => hnot ⟨e, he, hp⟩⟩
  refine and_congr (not_congr (Fin.ext_iff (b := 2)).symm) ?_
  rw [← and_assoc]
  refine and_congr_left fun _ => ?_
  unfold lineMasked Pair.level
  by_cases hlow : n.val < 8
  · simp [hlow]
  · have h8 : 8 ≤ n.val := by omega
    by_cases hzero : es.countP namesSlave = 0
    · simp [hlow, hzero, hnamed.mp hzero]
    · have hany : es.any namesSlave = true := by
        by_contra hnot
        exact hzero (hnamed.mpr hnot)
      simp [hlow, h8, hzero, hany]

/-- The controllers as a reset leaves them. -/
def resetPics : Pair := ⟨⟨0, 0, 0, []⟩, ⟨0, 0, 0, []⟩⟩

/-- A timer interrupt during a clock interrupt: until one of them ends, nothing gets through. -/
theorem run_letsThrough_nested :
    ∃ s, Run lineStep EndsOpened (i8259InitPorts bareKernel resetPics)
        [.enable 8, .disable 1, .interrupt 8, .interrupt 0] s ∧
      s.opened = [0, 8] ∧ ∀ n, ¬ s.pics.LetsThrough n := by
  have hvals : (exec lineStep EndsOpened (i8259InitPorts bareKernel resetPics)
      [.enable 8, .disable 1, .interrupt 8, .interrupt 0]).map LineSystem.opened =
      some [0, 8] := by
    decide +kernel
  obtain ⟨s, hs, hopened⟩ := Option.map_eq_some_iff.mp hvals
  have hrun := run_of_exec hs
  refine ⟨s, hrun, hopened, fun n hlets => ?_⟩
  have hurgent := (((run_letsThrough hrun).1 n).mp hlets).2.2 0 (by rw [hopened]; decide)
  exact absurd hurgent (Nat.not_lt_zero _)

/-- The handler that `initialize_idt` has put at the vector of a line. -/
def lineHandler (n : Fin 16) : Handler :=
  if n = 0 then .pitInterrupt
  else if n = 1 then .keyboardInterrupt
  else if n = 8 then .rtcInterrupt
  else .undefinedInterrupt

/-- Both controllers are initialised, with the vectors that `i8259_init` gives them. -/
structure VectorsSet (p : Pair) : Prop where
  masterAwaited : p.master.awaited = []
  slaveAwaited : p.slave.awaited = []
  masterVectors : p.master.vectors = icw2Master
  slaveVectors : p.slave.vectors = icw2Slave

section Vectors

variable {p : Pair} (h : VectorsSet p)
include h

theorem VectorsSet.outMaster (v : BitVec 8) : VectorsSet (p.out v 0x21) := by
  simp only [Pair.out, data_ready h.masterAwaited]
  exact ⟨h.masterAwaited, h.slaveAwaited, h.masterVectors, h.slaveVectors⟩

theorem VectorsSet.outSlave (v : BitVec 8) : VectorsSet (p.out v 0xA1) := by
  simp only [Pair.out, data_ready h.slaveAwaited]
  exact ⟨h.masterAwaited, h.slaveAwaited, h.masterVectors, h.slaveVectors⟩

theorem VectorsSet.acknowledge (n : Fin 16) : VectorsSet (p.acknowledge n) := by
  unfold Pair.acknowledge
  split_ifs
  · exact ⟨h.masterAwaited, h.slaveAwaited, h.masterVectors, h.slaveVectors⟩
  · exact ⟨h.masterAwaited, h.slaveAwaited, h.masterVectors, h.slaveVectors⟩

theorem VectorsSet.endOf (n : Fin 16) : VectorsSet (p.endOf n) := by
  unfold Pair.endOf
  split_ifs
  · exact ⟨h.masterAwaited, h.slaveAwaited, h.masterVectors, h.slaveVectors⟩
  · exact ⟨h.masterAwaited, h.slaveAwaited, h.masterVectors, h.slaveVectors⟩

end Vectors

/-- No call touches the vectors, whichever interrupts it ends. -/
theorem lineStep_vectorsSet (s : LineSystem) (e : IrqEvent) (s' : LineSystem)
    (h : VectorsSet s.pics) (_ : anyStep s e) (hstep : lineStep s e = some s') :
    VectorsSet s'.pics := by
  cases e with
  | enable n =>
      obtain rfl := Option.some.inj hstep
      unfold enableIrqPorts
      split_ifs
      · exact h
      · exact h.outSlave _
      · exact h.outMaster _
  | disable n =>
      obtain rfl := Option.some.inj hstep
      unfold disableIrqPorts
      split_ifs
      · exact h
      · exact h.outSlave _
      · exact h.outMaster _
  | interrupt n =>
      simp only [lineStep] at hstep
      split_ifs at hstep
      obtain rfl := Option.some.inj hstep
      exact h.acknowledge n
  | endOf n =>
      obtain rfl := Option.some.inj hstep
      simp only [sendEoi_pics]
      exact h.endOf n

/--
In every run of calls, interrupts and ends of interrupts from `i8259_init` on,
open or not: the interrupt of line `n` enters the kernel in that line's handler.
-/
theorem run_interrupt_enters {k : Kernel} {pics : Pair} {es : List IrqEvent} {s : LineSystem}
    (hrun : Run lineStep anyStep (i8259InitPorts k pics) es s) (address : Handler → BitVec 32)
    (idt : Fin 256 → IdtDesc) (n : Fin 16) :
    enter (gateOf (initializeIdt address idt (Fin.ofNat 256 (s.pics.vector n).toNat)).val)
        .hardware = .handler kernelCs (address (lineHandler n)) true := by
  have hready := i8259Init_ready k pics
  have h : VectorsSet s.pics := hrun.invariant (I := fun s => VectorsSet s.pics) lineStep_vectorsSet
    ⟨hready.masterAwaited, hready.slaveAwaited, hready.masterVectors, hready.slaveVectors⟩
  have hvector : Fin.ofNat 256 (s.pics.vector n).toNat = Fin.ofNat 256 (0x20 + n.val) := by
    unfold Pair.vector Chip.vector
    rw [h.masterVectors, h.slaveVectors]
    revert n
    decide
  have hhandler : ∀ n : Fin 16, gateHandler (Fin.ofNat 256 (0x20 + n.val)) = some (lineHandler n) := by
    decide
  rw [hvector, (initializeIdt_enter address idt _).1, hhandler]
  rfl

/-- The clock's interrupt, with the clock's handler at 0x401000. -/
theorem run_interrupt_enters_clock :
    ∃ s, Run lineStep anyStep (i8259InitPorts bareKernel resetPics) [.enable 8] s ∧
      enter (gateOf (initializeIdt
        (fun h => if h = .rtcInterrupt then 0x401000 else 0x400000)
        (fun _ => ⟨0, 0, 0, 0, 0, 0, 0, 0, 0, 0, 0⟩)
        (Fin.ofNat 256 (s.pics.vector 8).toNat)).val) .hardware =
        .handler kernelCs 0x401000 true := by
  have hrun : Run lineStep anyStep (i8259InitPorts bareKernel resetPics) [.enable 8] _ :=
    Run.cons trivial rfl (Run.nil _)
  exact ⟨_, hrun, run_interrupt_enters hrun _ _ 8⟩

/-! ## The calls of this kernel -/

/--
`i8259_init`, `rtc_init`, `PIT_initialize`, `keyboard_initialize` and the
scheduler name these lines, and the handlers of the timer, the keyboard and
the clock are the only ones that end an interrupt.
-/
def KernelCalls (s : LineSystem) : IrqEvent → Prop
  | .enable n => n = 0 ∨ n = 1 ∨ n = 2 ∨ n = 8
  | .disable n => n = 1
  | .interrupt _ => True
  | .endOf n => n ∈ s.opened ∧ (n = 0 ∨ n = 1 ∨ n = 8)

instance (s : LineSystem) : (e : IrqEvent) → Decidable (KernelCalls s e)
  | .enable n => inferInstanceAs (Decidable (n = 0 ∨ n = 1 ∨ n = 2 ∨ n = 8))
  | .disable n => inferInstanceAs (Decidable (n = 1))
  | .interrupt _ => isTrue trivial
  | .endOf n => inferInstanceAs (Decidable (n ∈ s.opened ∧ (n = 0 ∨ n = 1 ∨ n = 8)))

theorem KernelCalls.endsOpened {s : LineSystem} {e : IrqEvent} (h : KernelCalls s e) :
    EndsOpened s e := by
  cases e with
  | endOf n => exact h.1
  | _ => trivial

/-- The master's byte, by whether `rtc_init` has run and whether the keyboard is masked. -/
def masterByte (clock keyboard : Bool) : BitVec 8 :=
  (if clock = true then 0xE8 else 0xF8) ||| (if keyboard = true then 0x02 else 0x00)

/-- Whether the keyboard is masked after the events, if it was before. -/
def keyboardMaskedBy (b : Bool) : List IrqEvent → Bool
  | [] => b
  | .enable 1 :: es => keyboardMaskedBy false es
  | .disable _ :: es => keyboardMaskedBy true es
  | _ :: es => keyboardMaskedBy b es

theorem enable_masterByte {k : Kernel} {clock keyboard : Bool}
    (hbyte : k.masterBitMask = masterByte clock keyboard) {n : Nat}
    (hn : n = 0 ∨ n = 1 ∨ n = 2 ∨ n = 8) :
    (enableIrq k n).masterBitMask = masterByte (clock || decide (n = 8)) (keyboard && decide (n ≠ 1)) := by
  have hword : ∀ n ∈ [0, 1, 2, 8], ∀ clock keyboard,
      (~~~(irqMask n) &&& (masterByte clock keyboard).setWidth 32).setWidth 8 =
        masterByte (clock || decide (n = 8)) (keyboard && decide (n ≠ 1)) := by
    decide
  unfold enableIrq
  rw [if_neg (by omega), if_neg (by omega), hbyte]
  exact hword n (by simpa using hn) clock keyboard

theorem disable_masterByte {k : Kernel} {clock keyboard : Bool}
    (hbyte : k.masterBitMask = masterByte clock keyboard) :
    (disableIrq k 1).masterBitMask = masterByte clock true := by
  have hword : ∀ clock keyboard,
      (irqMask 1 ||| (masterByte clock keyboard).setWidth 32).setWidth 8 = masterByte clock true := by
    decide
  rw [disableIrq_keyboard, hbyte]
  exact hword clock keyboard

theorem enableIrqPorts_kernel (s : LineSystem) (n : Nat) :
    (enableIrqPorts s n).kernel = enableIrq s.kernel n := by
  unfold enableIrqPorts
  simp only
  split_ifs <;> rfl

theorem disableIrqPorts_kernel (s : LineSystem) (n : Nat) :
    (disableIrqPorts s n).kernel = disableIrq s.kernel n := by
  unfold disableIrqPorts
  simp only
  split_ifs <;> rfl

theorem run_masterByte {s s' : LineSystem} {es : List IrqEvent}
    (hrun : Run lineStep KernelCalls s es s') {clock keyboard : Bool}
    (hbyte : s.kernel.masterBitMask = masterByte clock keyboard) :
    s'.kernel.masterBitMask =
      masterByte (clock || decide (.enable 8 ∈ es)) (keyboardMaskedBy keyboard es) := by
  induction hrun generalizing clock keyboard with
  | nil => simpa [keyboardMaskedBy] using hbyte
  | @cons s t s' e es hC he _ ih =>
      cases e with
      | enable n =>
          obtain rfl := Option.some.inj he
          have hnext := enable_masterByte hbyte hC
          rw [← enableIrqPorts_kernel] at hnext
          rw [ih hnext]
          rcases hC with rfl | rfl | rfl | rfl <;> simp [keyboardMaskedBy]
      | disable n =>
          obtain rfl := Option.some.inj he
          obtain rfl : n = 1 := hC
          have hnext := disable_masterByte hbyte
          rw [← disableIrqPorts_kernel] at hnext
          rw [ih hnext]
          simp [keyboardMaskedBy]
      | interrupt n =>
          simp only [lineStep] at he
          split_ifs at he
          obtain rfl := Option.some.inj he
          rw [ih hbyte]
          simp [keyboardMaskedBy]
      | endOf n =>
          obtain rfl := Option.some.inj he
          rw [ih ((sendEoi_masks s n).1.trans hbyte)]
          simp [keyboardMaskedBy]

/-- None of the kernel's calls writes to the slave's mask. -/
theorem run_not_namesSlave {s s' : LineSystem} {es : List IrqEvent}
    (hrun : Run lineStep KernelCalls s es s') : ¬ es.any namesSlave = true := by
  induction hrun with
  | nil => simp
  | @cons s t s' e es hC _ _ ih =>
      have hnot : ¬ namesSlave e = true := by
        cases e with
        | enable n =>
            simp only [namesSlave, Bool.and_eq_true, decide_eq_true_eq]
            rcases hC with rfl | rfl | rfl | rfl <;> omega
        | disable n =>
            obtain rfl : n = 1 := hC
            simp [namesSlave]
        | interrupt n => simp [namesSlave]
        | endOf n => simp [namesSlave]
      simpa [hnot] using ih

/-- The lines of the master that its byte leaves open. -/
theorem masterByte_open : ∀ (clock keyboard : Bool) (n : Fin 16), n.val < 8 →
    (n ≠ 2 ∧ (masterByte clock keyboard).getLsbD n.val = false ↔
      n = 0 ∨ (n = 1 ∧ keyboard = false) ∨ (n = 4 ∧ clock = true)) := by
  decide

/--
With the calls that this kernel makes, the interrupts that can get to the
processor are those of the timer, of the keyboard while it is listened to, of
line 4 once `rtc_init` has run, and of every line of the slave, each unless a
more urgent one is open.
-/
theorem run_kernel_lines {k : Kernel} {pics : Pair} {es : List IrqEvent} {s : LineSystem}
    (hrun : Run lineStep KernelCalls (i8259InitPorts k pics) es s) (n : Fin 16) :
    s.pics.LetsThrough n ↔
      (n = 0 ∨ (n = 1 ∧ keyboardMaskedBy false es = false) ∨ (n = 4 ∧ .enable 8 ∈ es) ∨
        8 ≤ n.val) ∧ ∀ m ∈ s.opened, Pair.level n < Pair.level m := by
  have hinit : (i8259InitPorts k pics).kernel.masterBitMask = masterByte false false :=
    (by decide : (~~~(irqMask 2) &&& (0xFC : BitVec 8).setWidth 32).setWidth 8 = masterByte false false)
  have hbyte := run_masterByte hrun hinit
  rw [Bool.false_or] at hbyte
  rw [(run_letsThrough (hrun.mono (fun _ _ hC => hC.endsOpened))).1 n, ← and_assoc]
  refine and_congr_left fun _ => ?_
  by_cases hlow : n.val < 8
  · have hopen := masterByte_open (decide (.enable 8 ∈ es)) (keyboardMaskedBy false es) n hlow
    rw [decide_eq_true_iff] at hopen
    have h8 : ¬ 8 ≤ n.val := by omega
    rw [if_pos hlow, lineMasked, if_pos hlow, hbyte, hopen]
    simp only [h8, or_false]
  · -- the slave's mask is clear, and the cascade's bit too
    have h8 : 8 ≤ n.val := by omega
    have hne : n ≠ 2 := by
      rintro rfl
      exact absurd h8 (by decide)
    have htwo : lineMasked s.kernel 2 = false := by
      rw [lineMasked, if_pos (by decide), hbyte]
      generalize decide (IrqEvent.enable 8 ∈ es) = clock
      generalize keyboardMaskedBy false es = keyboard
      revert clock keyboard
      decide
    rw [if_neg hlow]
    exact iff_of_true ⟨hne, htwo, fun hany => absurd hany (run_not_namesSlave hrun)⟩
      (.inr (.inr (.inr h8)))

/--
The clock's interrupt and that of line 4 get through after the calls of
`entry`; the handler of line 4 does not end it.
-/
theorem run_kernel_lines_after_boot :
    ∃ s, Run lineStep KernelCalls (i8259InitPorts bareKernel resetPics)
        [.enable 8, .enable 0, .enable 1, .disable 1] s ∧
      s.pics.LetsThrough 8 ∧ s.pics.LetsThrough 4 ∧ ¬ s.pics.LetsThrough 1 := by
  have hrun : Run lineStep KernelCalls (i8259InitPorts bareKernel resetPics)
      [.enable 8, .enable 0, .enable 1, .disable 1] _ :=
    Run.cons (.inr (.inr (.inr rfl))) rfl (Run.cons (.inl rfl) rfl
      (Run.cons (.inr (.inl rfl)) rfl (Run.cons rfl rfl (Run.nil _))))
  have hnone : ∀ n : Fin 16, ∀ m ∈ ([] : List (Fin 16)), Pair.level n < Pair.level m := by
    intro n m hm
    cases hm
  refine ⟨_, hrun, (run_kernel_lines hrun 8).mpr ⟨by decide, hnone 8⟩,
    (run_kernel_lines hrun 4).mpr ⟨by decide, hnone 4⟩, fun hlets => ?_⟩
  exact absurd ((run_kernel_lines hrun 1).mp hlets).1 (by decide)

/-- An interrupt that no handler ends stays open. -/
theorem run_stays_open {s s' : LineSystem} {es : List IrqEvent}
    (hrun : Run lineStep KernelCalls s es s') {n : Fin 16} (hn : n ∈ s.opened)
    (hstray : n ≠ 0 ∧ n ≠ 1 ∧ n ≠ 8) : n ∈ s'.opened := by
  induction hrun with
  | nil => exact hn
  | @cons s t s' e es hC he _ ih =>
      refine ih ?_
      cases e with
      | enable n =>
          obtain rfl := Option.some.inj he
          unfold enableIrqPorts
          simp only
          split_ifs <;> exact hn
      | disable n =>
          obtain rfl := Option.some.inj he
          unfold disableIrqPorts
          simp only
          split_ifs <;> exact hn
      | interrupt m =>
          simp only [lineStep] at he
          split_ifs at he
          obtain rfl := Option.some.inj he
          exact List.mem_cons_of_mem m hn
      | endOf m =>
          obtain rfl := Option.some.inj he
          have hne : n ≠ m := by
            rintro rfl
            rcases hC.2 with rfl | rfl | rfl <;> simp at hstray
          exact (List.mem_erase_of_ne hne).mpr hn

/--
Once an interrupt has been taken that is not the timer's, the keyboard's or
the clock's, none of the same urgency or a lower one gets through any more.
After one of the slave's other lines that leaves the timer and the keyboard:
the clock's interrupts have ended for good.
-/
theorem run_stray_blocks {k : Kernel} {pics : Pair} {es es' : List IrqEvent} {s s' : LineSystem}
    (hstart : Run lineStep KernelCalls (i8259InitPorts k pics) es s) {n : Fin 16}
    (hn : n ∈ s.opened) (hstray : n ≠ 0 ∧ n ≠ 1 ∧ n ≠ 8)
    (hrun : Run lineStep KernelCalls s es' s') :
    (∀ m, s'.pics.LetsThrough m → Pair.level m < Pair.level n) ∧
      (8 ≤ n.val → ∀ m, s'.pics.LetsThrough m → m = 0 ∨ m = 1) := by
  have hopen := run_stays_open hrun hn hstray
  have hurgent : ∀ m, s'.pics.LetsThrough m → Pair.level m < Pair.level n := fun m hm =>
    ((run_kernel_lines (hstart.append hrun) m).mp hm).2 n hopen
  refine ⟨hurgent, fun h8 m hm => ?_⟩
  have hlevel := hurgent m hm
  have htwo : Pair.level n = 2 := if_neg (by omega)
  rw [htwo] at hlevel
  unfold Pair.level at hlevel
  split_ifs at hlevel <;> omega

/-- One interrupt of line 14, and later a tick: the clock is shut out. -/
theorem run_stray_blocks_disk :
    ∃ s s', Run lineStep KernelCalls (i8259InitPorts bareKernel resetPics)
        [.enable 8, .interrupt 14] s ∧
      Run lineStep KernelCalls s [.interrupt 0, .endOf 0] s' ∧ ¬ s'.pics.LetsThrough 8 := by
  have hvals : (exec lineStep KernelCalls (i8259InitPorts bareKernel resetPics)
      [.enable 8, .interrupt 14]).map (fun s => (s.opened,
        (exec lineStep KernelCalls s [.interrupt 0, .endOf 0]).isSome)) = some ([14], true) := by
    decide +kernel
  obtain ⟨s, hs, hvals⟩ := Option.map_eq_some_iff.mp hvals
  simp only [Prod.mk.injEq] at hvals
  obtain ⟨hopened, hsome⟩ := hvals
  obtain ⟨s', hs'⟩ := Option.isSome_iff_exists.mp hsome
  have hstart := run_of_exec hs
  have hrun := run_of_exec hs'
  refine ⟨s, s', hstart, hrun, fun hlets => ?_⟩
  have hlines := (run_stray_blocks hstart (n := 14) (by rw [hopened]; decide) (by decide) hrun).2
    (by decide) 8 hlets
  exact absurd hlines (by decide)

end OopsOs
