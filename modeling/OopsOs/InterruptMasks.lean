import OopsOs.Kernel
import OopsOs.Lib.Machine

/-!
# Which interrupt lines are masked

`enable_irq` and `disable_irq` are meant to change the mask bit of one line.
The word that they combine with a mask byte is `irq_num << 1`, not
`1 << irq_num`: it is the bit of the line itself for the lines 1 and 2 of
either controller only.  Line 8 is taken for a line of the master, and
`disable_irq` builds the slave's byte from the master's.

`lineMasked_enableIrq` and `lineMasked_disableIrq` say what a call does to each
of the sixteen lines.  `follows_iff` is the condition under which that is what
the call is for, and `run_masks_per_line` carries it over runs.
-/

namespace OopsOs

open Machine

/-- The number of interrupt lines. -/
instance linesNeZero : NeZero 16 := ⟨by decide⟩

def i8259Init (k : Kernel) : Kernel :=
  enableIrq { k with masterBitMask := 0xFC, slaveBitMask := 0xFC } 2

/-- Line `n` is masked: bit `n` of the master's byte, or bit `n - 8` of the slave's. -/
def lineMasked (k : Kernel) (n : Fin 16) : Bool :=
  if n.val < 8 then k.masterBitMask.getLsbD n.val else k.slaveBitMask.getLsbD (n.val - 8)

/-- A call of `enable_irq` or `disable_irq` on one of the lines. -/
inductive IrqCall
  | enable (line : Fin 16)
  | disable (line : Fin 16)
deriving DecidableEq, Repr

namespace IrqCall

def line : IrqCall → Fin 16
  | enable n => n
  | disable n => n

/-- The call is to mask its line. -/
def masks : IrqCall → Bool
  | enable _ => false
  | disable _ => true

def run (k : Kernel) : IrqCall → Kernel
  | enable n => enableIrq k n.val
  | disable n => disableIrq k n.val

end IrqCall

def irqStep (k : Kernel) (c : IrqCall) : Option Kernel := some (c.run k)

/-- Whether the last call that names line `n` was to mask it. -/
def lastCall (n : Fin 16) : List IrqCall → Option Bool
  | [] => none
  | c :: cs => (lastCall n cs).or (if c.line = n then some c.masks else none)

/-! ## What a call does to each line -/

/-- Line `m` has a bit in the word `irq_num << 1` of a call that names line `n`. -/
def wordHits (n m : Fin 16) : Bool :=
  if n.val > 8 then decide (8 ≤ m.val) && (irqMask (n.val - 8)).getLsbD (m.val - 8)
  else decide (m.val < 8) && (irqMask n.val).getLsbD m.val

theorem lineMasked_enableIrq (k : Kernel) (n m : Fin 16) :
    lineMasked (enableIrq k n.val) m = (lineMasked k m && !wordHits n m) := by
  have hn := n.isLt
  have hm := m.isLt
  rw [enableIrq, if_neg (by omega)]
  by_cases hslave : n.val > 8
  · rw [if_pos hslave]
    by_cases hlow : m.val < 8
    · simp [lineMasked, wordHits, hslave, hlow]
    · have h8 : m.val - 8 < 8 := by omega
      have h8' : 8 ≤ m.val := by omega
      have h32 : m.val - 8 < 32 := by omega
      simp [lineMasked, wordHits, hslave, hlow, h8, h8', h32, Bool.and_comm]
  · rw [if_neg hslave]
    by_cases hlow : m.val < 8
    · have h32 : m.val < 32 := by omega
      simp [lineMasked, wordHits, hslave, hlow, h32, Bool.and_comm]
    · simp [lineMasked, wordHits, hslave, hlow]

/-- The line of the master that `disable_irq` looks at for a line of the slave. -/
def masterTwin (m : Fin 16) : Fin 16 := ⟨m.val - 8, by omega⟩

theorem lineMasked_disableIrq (k : Kernel) (n m : Fin 16) :
    lineMasked (disableIrq k n.val) m =
      (wordHits n m || lineMasked k (if n.val > 8 ∧ 8 ≤ m.val then masterTwin m else m)) := by
  have hn := n.isLt
  have hm := m.isLt
  rw [disableIrq, if_neg (by omega)]
  by_cases hslave : n.val > 8
  · rw [if_pos hslave]
    by_cases hlow : m.val < 8
    · have h8 : ¬ 8 ≤ m.val := by omega
      simp [lineMasked, wordHits, hslave, hlow, h8]
    · have h8 : m.val - 8 < 8 := by omega
      have h8' : 8 ≤ m.val := by omega
      have h32 : m.val - 8 < 32 := by omega
      simp [lineMasked, wordHits, masterTwin, hslave, hlow, h8, h8', h32]
  · rw [if_neg hslave]
    by_cases hlow : m.val < 8
    · have h32 : m.val < 32 := by omega
      simp [lineMasked, wordHits, hslave, hlow, h32]
    · simp [lineMasked, wordHits, hslave, hlow]

/-! ## When a call does what it is for -/

/-- The lines whose word is their own bit. -/
def exactLines : List (Fin 16) := [1, 2, 9, 10]

theorem wordHits_self : ∀ n : Fin 16, wordHits n n = true ↔ n ∈ exactLines := by
  decide +kernel

theorem wordHits_exact : ∀ n m : Fin 16, n ∈ exactLines → wordHits n m = true → m = n := by
  decide +kernel

/-- The call leaves its line as it is to, and every other line as it was. -/
def Follows (k : Kernel) (c : IrqCall) : Prop :=
  lineMasked (c.run k) c.line = c.masks ∧
    ∀ m, m ≠ c.line → lineMasked (c.run k) m = lineMasked k m

/--
Either the word is the bit of the line, or the line and the lines that have a
bit in the word already are as the call is to leave its line.  A call that
masks a line of the slave asks for more: the master's byte takes the place of
the slave's.
-/
def IrqGuard (k : Kernel) : IrqCall → Prop
  | .enable n =>
      n ∈ exactLines ∨
        lineMasked k n = false ∧ ∀ m, wordHits n m = true → lineMasked k m = false
  | .disable n =>
      if n.val > 8 then
        (n ∈ exactLines ∨ lineMasked k (masterTwin n) = true) ∧
          ∀ m, 8 ≤ m.val → m ≠ n →
            lineMasked k m = (wordHits n m || lineMasked k (masterTwin m))
      else
        n ∈ exactLines ∨
          lineMasked k n = true ∧ ∀ m, wordHits n m = true → lineMasked k m = true

instance (k : Kernel) : (c : IrqCall) → Decidable (IrqGuard k c)
  | .enable _ => inferInstanceAs (Decidable (_ ∨ _))
  | .disable n => inferInstanceAs (Decidable (@ite Prop (n.val > 8) _ _ _))

theorem wordHits_own {n : Fin 16} (hn : n ∉ exactLines) : wordHits n n = false := by
  rw [← Bool.not_eq_true, wordHits_self]
  exact hn

theorem wordHits_other {n m : Fin 16} (hn : n ∈ exactLines) (hm : m ≠ n) :
    wordHits n m = false := by
  rw [← Bool.not_eq_true]
  exact fun h => hm (wordHits_exact n m hn h)

/-- A call that gives the lines with a bit in the word the value `b`, and no others. -/
theorem sets_word_iff {before after : Fin 16 → Bool} {n : Fin 16} {b : Bool}
    (hset : ∀ m, after m = if wordHits n m = true then b else before m) :
    (after n = b ∧ ∀ m, m ≠ n → after m = before m) ↔
      n ∈ exactLines ∨ before n = b ∧ ∀ m, wordHits n m = true → before m = b := by
  constructor
  · rintro ⟨hself, hother⟩
    by_cases hn : n ∈ exactLines
    · exact Or.inl hn
    · right
      have hline : before n = b := by
        simpa [hset n, wordHits_own hn] using hself
      refine ⟨hline, ?_⟩
      intro m hm
      by_cases hmn : m = n
      · rw [hmn]
        exact hline
      · have hkept := hother m hmn
        rw [hset m, if_pos hm] at hkept
        exact hkept.symm
  · rintro (hn | ⟨hline, hword⟩)
    · constructor
      · rw [hset n, if_pos ((wordHits_self n).mpr hn)]
      · intro m hm
        simp [hset m, wordHits_other hn hm]
    · constructor
      · rw [hset n, hline, ite_self]
      · intro m _
        rw [hset m]
        split_ifs with hm
        · exact (hword m hm).symm
        · rfl

theorem follows_enable_iff (k : Kernel) (n : Fin 16) :
    Follows k (.enable n) ↔ IrqGuard k (.enable n) := by
  refine sets_word_iff (b := false) ?_
  intro m
  simp only [IrqCall.run, IrqCall.line, lineMasked_enableIrq]
  split_ifs with hm <;> simp [hm]

theorem follows_disable_iff (k : Kernel) (n : Fin 16) :
    Follows k (.disable n) ↔ IrqGuard k (.disable n) := by
  by_cases hslave : n.val > 8
  · -- the lines of the slave take what the master's lines have
    simp only [Follows, IrqCall.run, IrqCall.line, IrqCall.masks, lineMasked_disableIrq, IrqGuard,
      hslave, true_and, if_true, show 8 ≤ n.val by omega]
    constructor
    · rintro ⟨hself, hother⟩
      constructor
      · by_cases hn : n ∈ exactLines
        · exact Or.inl hn
        · right
          simpa [wordHits_own hn] using hself
      · intro m hm hmn
        have := hother m hmn
        rw [if_pos hm] at this
        exact this.symm
    · rintro ⟨hline, hword⟩
      constructor
      · rcases hline with hn | htwin
        · simp [(wordHits_self n).mpr hn]
        · simp [htwin]
      · intro m hmn
        by_cases hm : 8 ≤ m.val
        · rw [if_pos hm]
          exact (hword m hm hmn).symm
        · have hlow : wordHits n m = false := by
            simp [wordHits, hslave, hm]
          simp [hm, hlow]
  · rw [IrqGuard, if_neg hslave]
    refine sets_word_iff (b := true) ?_
    intro m
    simp only [IrqCall.run, IrqCall.line, lineMasked_disableIrq, hslave, false_and, if_false]
    split_ifs with hm <;> simp [hm]

/-- A call does what it is for exactly under the guard. -/
theorem follows_iff (k : Kernel) (c : IrqCall) : Follows k c ↔ IrqGuard k c := by
  cases c with
  | enable n => exact follows_enable_iff k n
  | disable n => exact follows_disable_iff k n

/-! ## Sequences of calls -/

/-- The masks after a run of calls that all meet the guard: each line by its last call. -/
theorem run_lineMasked {k k' : Kernel} {calls : List IrqCall}
    (hrun : Run irqStep IrqGuard k calls k') (n : Fin 16) :
    lineMasked k' n = (lastCall n calls).getD (lineMasked k n) := by
  induction hrun with
  | nil k => rfl
  | @cons k k₁ k' c cs hguard hstep _ ih =>
      obtain rfl := Option.some.inj hstep
      obtain ⟨hself, hother⟩ := (follows_iff k c).mpr hguard
      rw [ih]
      simp only [lastCall]
      by_cases hc : c.line = n
      · subst hc
        cases lastCall c.line cs <;> simp [hself]
      · rw [if_neg hc, hother n (Ne.symm hc)]
        cases lastCall n cs <;> simp

/--
In every run of calls that all meet the guard, each line is masked exactly if
the last call that names it was to mask it, or, without such a call, if
`i8259_init` left it masked; and the next such call changes no other line.
-/
theorem run_masks_per_line {k k' : Kernel} {calls : List IrqCall}
    (hrun : Run irqStep IrqGuard (i8259Init k) calls k') :
    (∀ n, lineMasked k' n = (lastCall n calls).getD (lineMasked (i8259Init k) n)) ∧
      ∀ c, IrqGuard k' c → ∀ m, m ≠ c.line → lineMasked (c.run k') m = lineMasked k' m := by
  constructor
  · intro n
    exact run_lineMasked hrun n
  · intro c hc m hm
    exact ((follows_iff k' c).mpr hc).2 m hm

theorem run_masks_per_line_two_calls :
    ∃ k', Run irqStep IrqGuard (i8259Init bareKernel) [.enable 9, .disable 1] k' ∧
      ∀ n, lineMasked k' n =
        (lastCall n [.enable 9, .disable 1]).getD (lineMasked (i8259Init bareKernel) n) := by
  have hrun : Run irqStep IrqGuard (i8259Init bareKernel) [.enable 9, .disable 1]
      (disableIrq (enableIrq (i8259Init bareKernel) 9) 1) := by
    refine Run.cons (Or.inl (by decide)) rfl (Run.cons ?_ rfl (Run.nil _))
    exact Or.inl (by decide)
  exact ⟨_, hrun, (run_masks_per_line hrun).1⟩

/-- `enable_irq(8)`, the call that `rtc_init` makes, unmasks line 4. -/
theorem enable_eight_unmasks_four :
    ∃ k', Run irqStep anyStep (i8259Init bareKernel) [.enable 8] k' ∧
      lineMasked k' 4 ≠ (lastCall 4 [.enable 8]).getD (lineMasked (i8259Init bareKernel) 4) ∧
      lineMasked k' 4 ≠ lineMasked (i8259Init bareKernel) 4 := by
  refine ⟨_, Run.cons trivial rfl (Run.nil _), ?_, ?_⟩
  · decide +kernel
  · decide +kernel

end OopsOs
