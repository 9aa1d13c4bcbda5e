import OopsOs.FileReads

/-!
# When `read`, `write` and `close` look into the descriptor array

Each of the three calls begins with a chain of tests joined by `||`, and one of
the tests reads `file_descriptor_array[fd].flags`.  The value of the chain does
not depend on the order of the tests, but whether the array is indexed with a
number that is no descriptor does.  `Tested` is the value of a test with the
indices it has read, in order.

Outside the array an index leads to some other word of the kernel, which may be
anything.
-/

namespace OopsOs

open ByteMem

/-! ## Tests -/

structure Tested where
  value : Bool
  indices : List Int
deriving DecidableEq, Repr

namespace Tested

/-- A test that does not look at the array. -/
def of (p : Prop) [Decidable p] : Tested := ⟨decide p, []⟩

/-- `a || b`: the second test is made only if the first one fails. -/
def or (a b : Tested) : Tested :=
  if a.value = true then a else ⟨b.value, a.indices ++ b.indices⟩

@[simp] theorem of_value (p : Prop) [Decidable p] : (of p).value = decide p := rfl

@[simp] theorem of_indices (p : Prop) [Decidable p] : (of p).indices = [] := rfl

@[simp] theorem or_value (a b : Tested) : (a.or b).value = (a.value || b.value) := by
  unfold or
  cases ha : a.value with
  | true => simp [ha]
  | false => simp

theorem or_indices_of_true {a : Tested} (ha : a.value = true) (b : Tested) :
    (a.or b).indices = a.indices := by
  unfold or
  rw [if_pos ha]

theorem or_indices_of_false {a : Tested} (ha : a.value = false) (b : Tested) :
    (a.or b).indices = a.indices ++ b.indices := by
  unfold or
  rw [if_neg (by simp [ha])]

/-- What the first test has read is read by the chain. -/
theorem mem_or_left {a : Tested} {i : Int} (hi : i ∈ a.indices) (b : Tested) :
    i ∈ (a.or b).indices := by
  cases ha : a.value with
  | true => rwa [or_indices_of_true ha]
  | false =>
      rw [or_indices_of_false ha]
      exact List.mem_append_left _ hi

end Tested

/-! ## The three chains -/

/-- The flags word at an index; `wild` is what lies outside the array. -/
def flagsAt (wild : Int → UInt32) (k : Kernel) (pid : Fin 6) (fd : Int) : UInt32 :=
  match fdIndex fd with
  | none => wild fd
  | some f => (descriptor k pid f).flags

/-- `file_descriptor_array[fd].flags == OUT_OF_USE`. -/
def outOfUse (flags : Int → UInt32) (fd : Int) : Tested := ⟨decide (flags fd = 0), [fd]⟩

def readTest (flags : Int → UInt32) (fd : Int) (buf : Nat) : Tested :=
  (outOfUse flags fd).or ((Tested.of (buf = 0)).or ((Tested.of (fd < 0)).or
    ((Tested.of (fd > 7)).or (Tested.of (fd = 1)))))

def writeTest (flags : Int → UInt32) (fd : Int) (buf : Option (Nat → UInt8)) : Tested :=
  (outOfUse flags fd).or ((Tested.of (fd = 0)).or ((Tested.of (buf.isNone = true)).or
    ((Tested.of (fd < 0)).or (Tested.of (fd > 7)))))

def closeTest (flags : Int → UInt32) (fd : Int) : Tested :=
  (Tested.of (fd < 0)).or ((Tested.of (fd > 7)).or ((outOfUse flags fd).or
    ((Tested.of (fd = 1)).or (Tested.of (fd = 0)))))

/-- A call on a descriptor. -/
inductive FdCall
  | read (interrupts : Kernel → Kernel) (buf : Nat) (nbytes : Int)
  | write (buf : Option (Nat → UInt8)) (nbytes : Int)
  | close

namespace FdCall

def run (k : Kernel) (pid : Fin 6) (fd : Int) : FdCall → Kernel × Outcome
  | read interrupts buf nbytes =>
      ((OopsOs.read interrupts k pid fd buf nbytes).kernel,
        (OopsOs.read interrupts k pid fd buf nbytes).outcome)
  | write buf nbytes => OopsOs.write k pid fd buf nbytes
  | close => OopsOs.close k pid fd

def test (flags : Int → UInt32) (fd : Int) : FdCall → Tested
  | read _ buf _ => readTest flags fd buf
  | write buf _ => writeTest flags fd buf
  | close => closeTest flags fd

/--
The indices of all accesses to the array, in order.  `close` sets the table of
descriptor 0 before its tests, `read` after them; the table of a descriptor
that passes is used last, by `close` after its flags.
-/
def indices (flags : Int → UInt32) (fd : Int) (c : FdCall) : List Int :=
  match c with
  | read _ _ _ =>
      (c.test flags fd).indices ++
        if (c.test flags fd).value = true then [] else (if fd = 0 then [fd] else []) ++ [fd]
  | write _ _ =>
      (c.test flags fd).indices ++ if (c.test flags fd).value = true then [] else [fd]
  | close =>
      (if fd = 0 then [fd] else []) ++ (c.test flags fd).indices ++
        if (c.test flags fd).value = true then [] else [fd, fd]

/-- The kernel in which the tests of a call are made. -/
def entered (k : Kernel) (pid : Fin 6) (fd : Int) : FdCall → Kernel
  | close =>
      if fd = 0 then setDescriptor k pid 0 { descriptor k pid 0 with descriptorOpPtr := .termTable }
      else k
  | _ => k

/-- The message of a failed call. -/
def message : FdCall → String
  | read _ _ _ => "system calls read failed"
  | write _ _ => "system calls write failed"
  | close => "system calls close failed"

end FdCall

theorem flagsAt_some {fd : Int} {f : Fin 8} (h : fdIndex fd = some f) (wild : Int → UInt32)
    (k : Kernel) (pid : Fin 6) : flagsAt wild k pid fd = (descriptor k pid f).flags := by
  unfold flagsAt
  rw [h]

theorem fdIndex_none_iff {fd : Int} : fdIndex fd = none ↔ fd < 0 ∨ 7 < fd := by
  unfold fdIndex
  split_ifs with h
  · exact iff_of_false (by simp) (by omega)
  · exact iff_of_true rfl (by omega)

/-! ## The chains and the calls -/

section Calls

variable (wild : Int → UInt32) (k : Kernel) (pid : Fin 6) (fd : Int)

/-- The value of a chain does not depend on what lies outside the array. -/
theorem test_value_of_none (c : FdCall) (h : fdIndex fd = none) (flags : Int → UInt32) :
    (c.test flags fd).value = true := by
  have hout := fdIndex_none_iff.mp h
  cases c with
  | read interrupts buf nbytes =>
      simp only [FdCall.test, readTest, Tested.or_value, Tested.of_value, Bool.or_eq_true,
        decide_eq_true_eq]
      omega
  | write buf nbytes =>
      simp only [FdCall.test, writeTest, Tested.or_value, Tested.of_value, Bool.or_eq_true,
        decide_eq_true_eq]
      omega
  | close =>
      simp only [FdCall.test, closeTest, Tested.or_value, Tested.of_value, Bool.or_eq_true,
        decide_eq_true_eq]
      omega

/-- A chain on a descriptor number is the condition of the call. -/
theorem test_value_of_some {f : Fin 8} (h : fdIndex fd = some f) (c : FdCall) :
    (c.test (flagsAt wild k pid) fd).value = true ↔
      (descriptor k pid f).flags = 0 ∨
        match c with
        | .read _ buf _ => buf = 0 ∨ f = 1
        | .write buf _ => f = 0 ∨ buf.isNone = true
        | .close => f = 1 ∨ f = 0 := by
  have hfd := fdIndex_eq h
  have hflags := flagsAt_some h wild k pid
  have hneg : ¬ fd < 0 := by omega
  have hbig : ¬ fd > 7 := by omega
  have hzero : fd = 0 ↔ f = 0 := by omega
  have hone : fd = 1 ↔ f = 1 := by omega
  cases c with
  | read interrupts buf nbytes =>
      simp [FdCall.test, readTest, outOfUse, hflags, hneg, hbig, hone]
  | write buf nbytes =>
      simp [FdCall.test, writeTest, outOfUse, hflags, hneg, hbig, hzero]
  | close =>
      simp [FdCall.test, closeTest, outOfUse, hflags, hneg, hbig, hzero, hone]

/-- A call fails exactly as its chain of tests says. -/
theorem run_of_test (c : FdCall) (htest : (c.test (flagsAt wild k pid) fd).value = true) :
    c.run k pid fd = ((c.entered k pid fd).printf c.message, .returned (-1)) := by
  cases hf : fdIndex fd with
  | none =>
      cases c with
      | read interrupts buf nbytes => simp [FdCall.run, OopsOs.read, hf, FdCall.entered, FdCall.message]
      | write buf nbytes => simp [FdCall.run, OopsOs.write, hf, FdCall.entered, FdCall.message]
      | close => simp [FdCall.run, OopsOs.close, hf, FdCall.entered, FdCall.message]
  | some f =>
      have hcond := (test_value_of_some wild k pid fd hf c).mp htest
      cases c with
      | read interrupts buf nbytes =>
          simp only [FdCall.run, OopsOs.read, hf, if_pos hcond]
          rfl
      | write buf nbytes =>
          simp only [FdCall.run, OopsOs.write, hf, if_pos hcond]
          rfl
      | close =>
          have hcond' : (descriptor (FdCall.entered k pid fd .close) pid f).flags = 0 ∨
              f = 1 ∨ f = 0 := by
            simp only at hcond
            by_cases hzero : f = 0
            · exact Or.inr (Or.inr hzero)
            · have hfd : fd ≠ 0 := by
                intro h0
                have := fdIndex_eq hf
                omega
              rw [FdCall.entered, if_neg hfd]
              exact hcond
          unfold FdCall.run OopsOs.close
          simp only [hf]
          exact if_pos hcond'

end Calls

/-! ## Numbers that are no descriptors -/

/-- The call returns -1, changes no descriptor and does not index the array with the number. -/
structure RejectedBeforeUse (wild : Int → UInt32) (k : Kernel) (pid : Fin 6) (fd : Int)
    (c : FdCall) : Prop where
  fails : (c.run k pid fd).2 = .returned (-1)
  descriptors : ∀ p f, descriptor (c.run k pid fd).1 p f = descriptor k p f
  unused : fd ∉ c.indices (flagsAt wild k pid) fd

/-- The one call that tests the range first. -/
def FdCall.TestsRangeFirst : FdCall → Prop
  | .close => True
  | _ => False

instance : (c : FdCall) → Decidable c.TestsRangeFirst
  | .read _ _ _ => isFalse (fun h => h)
  | .write _ _ => isFalse (fun h => h)
  | .close => isTrue trivial

theorem closeTest_indices {fd : Int} (h : fd < 0 ∨ 7 < fd) (flags : Int → UInt32) :
    (closeTest flags fd).indices = [] := by
  unfold closeTest
  by_cases hneg : fd < 0
  · rw [Tested.or_indices_of_true (by simp [hneg])]
    rfl
  · have hbig : fd > 7 := by omega
    rw [Tested.or_indices_of_false (by simp [hneg]), Tested.or_indices_of_true (by simp [hbig])]
    rfl

/-- Every call fails and changes no descriptor, whatever is at the index. -/
theorem run_out_of_range (k : Kernel) (pid : Fin 6) {fd : Int} (h : fd < 0 ∨ 7 < fd) (c : FdCall) :
    c.run k pid fd = (k.printf c.message, .returned (-1)) := by
  have htest := test_value_of_none fd c (fdIndex_none_iff.mpr h) (flagsAt (fun _ => 0) k pid)
  rw [run_of_test (fun _ => 0) k pid fd c htest]
  cases c with
  | read interrupts buf nbytes => rfl
  | write buf nbytes => rfl
  | close => rw [FdCall.entered, if_neg (by omega)]

/--
A number that is no descriptor is rejected before it is used exactly by the
call that tests the range first.
-/
theorem rejectedBeforeUse_iff (wild : Int → UInt32) (k : Kernel) (pid : Fin 6) (fd : Int)
    (h : fd < 0 ∨ 7 < fd) (c : FdCall) :
    RejectedBeforeUse wild k pid fd c ↔ c.TestsRangeFirst := by
  have hrun := run_out_of_range k pid h c
  cases c with
  | read interrupts buf nbytes =>
      refine iff_of_false ?_ (fun hfirst => hfirst)
      intro hrej
      apply hrej.unused
      exact List.mem_append_left _ (Tested.mem_or_left (List.mem_singleton.mpr rfl) _)
  | write buf nbytes =>
      refine iff_of_false ?_ (fun hfirst => hfirst)
      intro hrej
      apply hrej.unused
      exact List.mem_append_left _ (Tested.mem_or_left (List.mem_singleton.mpr rfl) _)
  | close =>
      have htest := test_value_of_none fd .close (fdIndex_none_iff.mpr h) (flagsAt wild k pid)
      refine iff_of_true ⟨by rw [hrun], ?_, ?_⟩ trivial
      · intro p f
        rw [hrun]
        rfl
      · have hzero : fd ≠ 0 := by omega
        have hindices : FdCall.close.indices (flagsAt wild k pid) fd = [] := by
          have hread : (FdCall.close.test (flagsAt wild k pid) fd).indices = [] :=
            closeTest_indices h _
          simp only [FdCall.indices, htest, if_neg hzero, hread]
          rfl
        rw [hindices]
        exact List.not_mem_nil

/-- `close` of 8 reads nothing of the array. -/
theorem rejectedBeforeUse_iff_close_eight :
    RejectedBeforeUse (fun _ => 1) (Kernel.zero (fun _ => 0) (fun _ => 0)) 0 8 .close :=
  (rejectedBeforeUse_iff (fun _ => 1) _ 0 8 (by decide) .close).mpr trivial

/-- `read` of 8 looks at `file_descriptor_array[8]` first. -/
theorem read_indexes_with_eight :
    (FdCall.read id 1 4).indices (flagsAt (fun _ => 1) (Kernel.zero (fun _ => 0) (fun _ => 0)) 0) 8 =
        [8] ∧
      ¬ RejectedBeforeUse (fun _ => 1) (Kernel.zero (fun _ => 0) (fun _ => 0)) 0 8
        (.read id 1 4) := by
  have hindices : (FdCall.read id 1 4).indices
      (flagsAt (fun _ => 1) (Kernel.zero (fun _ => 0) (fun _ => 0)) 0) 8 = [8] := by decide
  refine ⟨hindices, ?_⟩
  intro h
  have hunused := h.unused
  rw [hindices] at hunused
  exact hunused (List.mem_singleton.mpr rfl)

end OopsOs
