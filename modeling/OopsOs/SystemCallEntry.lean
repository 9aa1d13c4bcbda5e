import OopsOs.Lib.Machine
import Mathlib.Data.Fintype.Basic

/-!
# The system call entry, instruction by instruction

`sys_call_interrupt` of `handlers.S` for any number of processes.  Each
process has its own registers and kernel stack, which a context switch saves
and restores, and all of them share the word `sys_call_retval`.

The gate is a trap gate, so the interrupt flag is what it was in user mode
when the first instruction runs; `popfl` restores the flag that `pushfl`
saved.  A timer tick can switch to any process wherever the flag of the
running one is set.

A handler is a black box that may set and clear the interrupt flag, start
another process and hand control to another process (`execute` and `halt`)
before it returns any value.  The ghost field `returned` records that value
until the next call of the same process.
-/

namespace OopsOs

open Machine

/-- The general registers that `pushal` saves, other than ESP. -/
structure Registers where
  eax : Int
  ecx : Int
  edx : Int
  ebx : Int
  ebp : Int
  esi : Int
  edi : Int
deriving DecidableEq, Repr

/-- What a push leaves on a kernel stack. -/
inductive StackItem
  /-- The frame that `int` pushes and `iret` pops, with the saved interrupt flag. -/
  | frame (intFlag : Bool)
  | all (r : Registers)
  | flags (intFlag : Bool)
  | word (w : Int)
deriving DecidableEq, Repr

/-- The next instruction of a process; `user` and `handler` are outside the entry code. -/
inductive EntryPc
  | user
  | cmplMax
  | jg
  | cmplMin
  | jl
  | pushal
  | pushfl
  | pushlEdx
  | pushlEcx
  | pushlEbx
  | decl
  | call
  | handler
  | cli
  | movlToRetval
  | addl
  | popfl
  | popal
  | movlFromRetval
  | sti
  | iret
  | movlMinusOne
  | iretOutOfBounds
deriving DecidableEq, Repr

structure Proc where
  pc : EntryPc
  regs : Registers
  intFlag : Bool
  compared : Ordering
  stack : List StackItem
  /-- What the handler of the call in progress, or of the last call, has returned. -/
  returned : Option Int
deriving DecidableEq, Repr

/-- The registers after a write to EAX. -/
def Registers.setEax (r : Registers) (v : Int) : Registers := { r with eax := v }

@[simp] theorem Registers.setEax_eax (r : Registers) (v : Int) : (r.setEax v).eax = v := rfl

/--
One instruction of the entry code, given the word `sys_call_retval`: the
process after it and the word after it.
-/
def instruction (retval : Int) (p : Proc) : Option (Proc × Int) :=
  match p.pc, p.stack with
  | .cmplMax, _ => some ({ p with pc := .jg, compared := compare p.regs.eax 8 }, retval)
  | .jg, _ =>
      some ({ p with pc := if p.compared = .gt then .movlMinusOne else .cmplMin }, retval)
  | .cmplMin, _ => some ({ p with pc := .jl, compared := compare p.regs.eax 1 }, retval)
  | .jl, _ =>
      some ({ p with pc := if p.compared = .lt then .movlMinusOne else .pushal }, retval)
  | .pushal, st => some ({ p with pc := .pushfl, stack := .all p.regs :: st }, retval)
  | .pushfl, st => some ({ p with pc := .pushlEdx, stack := .flags p.intFlag :: st }, retval)
  | .pushlEdx, st => some ({ p with pc := .pushlEcx, stack := .word p.regs.edx :: st }, retval)
  | .pushlEcx, st => some ({ p with pc := .pushlEbx, stack := .word p.regs.ecx :: st }, retval)
  | .pushlEbx, st => some ({ p with pc := .decl, stack := .word p.regs.ebx :: st }, retval)
  | .decl, _ => some ({ p with pc := .call, regs := p.regs.setEax (p.regs.eax - 1) }, retval)
  | .call, _ => some ({ p with pc := .handler }, retval)
  | .cli, _ => some ({ p with pc := .movlToRetval, intFlag := false }, retval)
  | .movlToRetval, _ => some ({ p with pc := .addl }, p.regs.eax)
  | .addl, .word _ :: .word _ :: .word _ :: st =>
      some ({ p with pc := .popfl, stack := st }, retval)
  | .popfl, .flags b :: st => some ({ p with pc := .popal, intFlag := b, stack := st }, retval)
  | .popal, .all r :: st => some ({ p with pc := .movlFromRetval, regs := r, stack := st }, retval)
  | .movlFromRetval, _ => some ({ p with pc := .sti, regs := p.regs.setEax retval }, retval)
  | .sti, _ => some ({ p with pc := .iret, intFlag := true }, retval)
  | .iret, .frame b :: st => some ({ p with pc := .user, intFlag := b, stack := st }, retval)
  | .movlMinusOne, _ =>
      some ({ p with pc := .iretOutOfBounds, regs := p.regs.setEax (-1) }, retval)
  | .iretOutOfBounds, .frame b :: st =>
      some ({ p with pc := .user, intFlag := b, stack := st }, retval)
  | _, _ => none

/-- The processes, the one that runs, and the shared word. -/
structure Calls (P : Type) where
  proc : P → Proc
  running : P
  sysCallRetval : Int

/--
What can happen next.  `int80` is the system call instruction, with whatever
the program has put into the registers; `handlerFlag`, `start`, `handTo` and
`handlerReturn` are what a handler does.
-/
inductive CallEvent (P : Type)
  | instruction
  | int80 (regs : Registers)
  | handlerFlag (intFlag : Bool)
  | start (p : P) (regs : Registers)
  | handTo (p : P)
  | handlerReturn (v : Int) (regs : Registers)
  | tick (p : P)

section Machine

variable {P : Type} [DecidableEq P]

def Calls.setProc (s : Calls P) (p : Proc) : Calls P :=
  { s with proc := Function.update s.proc s.running p }

def callStep (s : Calls P) : CallEvent P → Option (Calls P)
  | .instruction =>
      (instruction s.sysCallRetval (s.proc s.running)).map
        (fun r => { s.setProc r.1 with sysCallRetval := r.2 })
  | .int80 regs =>
      let p := s.proc s.running
      if p.pc = .user then
        some (s.setProc
          { p with
            pc := .cmplMax
            regs := regs
            stack := .frame p.intFlag :: p.stack
            returned := none })
      else none
  | .handlerFlag b =>
      let p := s.proc s.running
      if p.pc = .handler then some (s.setProc { p with intFlag := b }) else none
  | .start q regs =>
      if (s.proc s.running).pc = .handler then
        some
          { s with
            proc := Function.update s.proc q ⟨.user, regs, true, .eq, [], none⟩
            running := q }
      else none
  | .handTo q =>
      if (s.proc s.running).pc = .handler then some { s with running := q } else none
  | .handlerReturn v regs =>
      let p := s.proc s.running
      if p.pc = .handler then
        some (s.setProc { p with pc := .cli, regs := regs.setEax v, returned := some v })
      else none
  | .tick q =>
      if (s.proc s.running).intFlag = true then some { s with running := q } else none

/-- Between the store into `sys_call_retval` and the load from it. -/
def Proc.InWindow (p : Proc) : Prop :=
  p.pc = .addl ∨ p.pc = .popfl ∨ p.pc = .popal ∨ p.pc = .movlFromRetval

instance (p : Proc) : Decidable p.InWindow := inferInstanceAs (Decidable (_ ∨ _ ∨ _ ∨ _))

/--
The condition on a step: a process that is about to store its result finds no
other process between store and load with a different result.
-/
def StoreAlone (s : Calls P) : CallEvent P → Prop
  | .instruction =>
      (s.proc s.running).pc = .movlToRetval →
        ∀ q, q ≠ s.running → (s.proc q).InWindow →
          (s.proc q).returned = some (s.proc s.running).regs.eax
  | _ => True

instance [Fintype P] (s : Calls P) : (e : CallEvent P) → Decidable (StoreAlone s e)
  | .instruction => inferInstanceAs (Decidable (_ → ∀ q, q ≠ s.running → (s.proc q).InWindow → _))
  | .int80 _ => isTrue trivial
  | .handlerFlag _ => isTrue trivial
  | .start _ _ => isTrue trivial
  | .handTo _ => isTrue trivial
  | .handlerReturn _ _ => isTrue trivial
  | .tick _ => isTrue trivial

/-- Every process runs its program and has made no call. -/
def Calls.Fresh (s : Calls P) : Prop :=
  ∀ p, (s.proc p).pc = .user ∧ (s.proc p).returned = none

/-- A process back in user mode finds the value of its own call in EAX. -/
def Calls.OwnResults (s : Calls P) : Prop :=
  ∀ p v, (s.proc p).pc = .user → (s.proc p).returned = some v → (s.proc p).regs.eax = v

/-! ## The invariant -/

/-- Where the returned value is, for each place in the entry code. -/
def HoldsResult (retval : Int) (p : Proc) : Prop :=
  match p.pc with
  | .cli => p.returned = some p.regs.eax
  | .movlToRetval => p.returned = some p.regs.eax
  | .addl => p.returned = some retval
  | .popfl => p.returned = some retval
  | .popal => p.returned = some retval
  | .movlFromRetval => p.returned = some retval
  | .sti => p.returned = some p.regs.eax
  | .iret => p.returned = some p.regs.eax
  | .user => ∀ v, p.returned = some v → p.regs.eax = v
  | _ => p.returned = none

/-- An instruction moves its process's result on, and only the store changes the word. -/
theorem instruction_holdsResult {retval retval' : Int} {p p' : Proc}
    (h : instruction retval p = some (p', retval')) (hp : HoldsResult retval p) :
    HoldsResult retval' p' ∧
      (retval' = retval ∨ (p.pc = .movlToRetval ∧ retval' = p.regs.eax)) := by
  unfold instruction at h
  -- one case for each instruction; only the two jumps leave something to decide
  split at h <;> cases h <;> simp_all [HoldsResult]
  · split_ifs <;> simp
  · split_ifs <;> simp

/-- A process outside the window does not care about the word. -/
theorem HoldsResult.of_retval {retval retval' : Int} {p : Proc} (h : HoldsResult retval p)
    (hwindow : p.InWindow → p.returned = some retval') : HoldsResult retval' p := by
  unfold Proc.InWindow at hwindow
  unfold HoldsResult at h ⊢
  split at h <;> simp_all

variable {s s' : Calls P} {e : CallEvent P}

/-- Every result is where its process will find it. -/
def Calls.ResultsHeld (s : Calls P) : Prop :=
  ∀ p, HoldsResult s.sysCallRetval (s.proc p)

theorem Calls.ResultsHeld.setProc (h : s.ResultsHeld) {p : Proc}
    (hp : HoldsResult s.sysCallRetval p) : (s.setProc p).ResultsHeld := by
  intro q
  by_cases hq : q = s.running
  · subst hq
    simpa [Calls.setProc] using hp
  · simpa [Calls.setProc, hq] using h q

theorem instruction_resultsHeld (h : s.ResultsHeld) (hC : StoreAlone s .instruction)
    (hstep : callStep s .instruction = some s') : s'.ResultsHeld := by
  obtain ⟨⟨p', retval'⟩, hinstr, rfl⟩ := Option.map_eq_some_iff.mp hstep
  obtain ⟨hself, hretval⟩ := instruction_holdsResult hinstr (h s.running)
  intro q
  by_cases hq : q = s.running
  · subst hq
    simpa [Calls.setProc] using hself
  · have hother : HoldsResult retval' (s.proc q) := by
      refine (h q).of_retval ?_
      intro hwindow
      rcases hretval with rfl | ⟨hpc, rfl⟩
      · -- the word has not changed
        have hq' := h q
        unfold HoldsResult at hq'
        rcases hwindow with hw | hw | hw | hw <;> simpa [hw] using hq'
      · exact hC hpc q hq hwindow
    simpa [Calls.setProc, hq] using hother

theorem callStep_resultsHeld (s : Calls P) (e : CallEvent P) (s' : Calls P) (h : s.ResultsHeld)
    (hC : StoreAlone s e) (hstep : callStep s e = some s') : s'.ResultsHeld := by
  cases e with
  | instruction => exact instruction_resultsHeld h hC hstep
  | int80 regs =>
      simp only [callStep] at hstep
      split_ifs at hstep with hpc
      obtain rfl := Option.some.inj hstep
      exact h.setProc rfl
  | handlerFlag b =>
      simp only [callStep] at hstep
      split_ifs at hstep with hpc
      obtain rfl := Option.some.inj hstep
      have hp := h s.running
      apply h.setProc
      simpa [HoldsResult, hpc] using hp
  | start q regs =>
      simp only [callStep] at hstep
      split_ifs at hstep with hpc
      obtain rfl := Option.some.inj hstep
      intro r
      by_cases hr : r = q
      · subst hr
        simp [HoldsResult]
      · simpa [hr] using h r
  | handTo q =>
      simp only [callStep] at hstep
      split_ifs at hstep with hpc
      obtain rfl := Option.some.inj hstep
      exact h
  | handlerReturn v regs =>
      simp only [callStep] at hstep
      split_ifs at hstep with hpc
      obtain rfl := Option.some.inj hstep
      exact h.setProc rfl
  | tick q =>
      simp only [callStep] at hstep
      split_ifs at hstep with hflag
      obtain rfl := Option.some.inj hstep
      exact h

omit [DecidableEq P] in
theorem Calls.Fresh.resultsHeld (h : s.Fresh) : s.ResultsHeld := by
  intro p
  obtain ⟨hpc, hret⟩ := h p
  simp [HoldsResult, hpc, hret]

/--
In every run in which no process stores its result while another is between
its store and its load with a different one, every process finds the value of
its own call.
-/
theorem run_own_results (s : Calls P) (hfresh : s.Fresh) (es : List (CallEvent P)) (s' : Calls P)
    (hrun : Run callStep StoreAlone s es s') : s'.OwnResults := by
  have hheld := hrun.invariant callStep_resultsHeld hfresh.resultsHeld
  intro p v hpc hret
  have hp := hheld p
  unfold HoldsResult at hp
  rw [hpc] at hp
  exact hp v hret

end Machine

/-! ## Two processes -/

/-- Registers for the system call of number `n`. -/
def callRegisters (n : Int) : Registers := ⟨n, 0, 0, 0, 0, 0, 0⟩

/-- Two processes in user mode, with interrupts enabled. -/
def twoProcesses : Calls Bool :=
  ⟨fun _ => ⟨.user, callRegisters 0, true, .eq, [], none⟩, false, 0⟩

theorem twoProcesses_fresh : twoProcesses.Fresh := fun _ => ⟨rfl, rfl⟩

/-- `read` up to the handler's return of `v`, and the store of the result. -/
def callUpToPopfl (v : Int) : List (CallEvent Bool) :=
  .int80 (callRegisters 3) :: List.replicate 11 .instruction ++
    .handlerReturn v (callRegisters 0) :: List.replicate 4 .instruction

/-- The rest of the call, back to user mode. -/
def callFromPopal : List (CallEvent Bool) := List.replicate 4 .instruction

/-- One process is preempted before the other makes its call, not inside its own. -/
def orderlyCalls : List (CallEvent Bool) :=
  callUpToPopfl 5 ++ callFromPopal ++ [.tick true] ++ callUpToPopfl 7 ++ callFromPopal

theorem run_own_results_orderly :
    ∃ s, Run callStep StoreAlone twoProcesses orderlyCalls s ∧ s.OwnResults ∧
      (s.proc false).returned = some 5 ∧ (s.proc true).returned = some 7 := by
  have hvals : (exec callStep StoreAlone twoProcesses orderlyCalls).map (fun s =>
      ((s.proc false).returned, (s.proc true).returned)) = some (some 5, some 7) := by
    decide +kernel
  obtain ⟨s, hs, hpair⟩ := Option.map_eq_some_iff.mp hvals
  obtain ⟨hfalse, htrue⟩ := Prod.mk.inj hpair
  have hrun := run_of_exec hs
  exact ⟨s, hrun, run_own_results twoProcesses twoProcesses_fresh _ s hrun, hfalse, htrue⟩

/--
The first process is preempted right after `popfl` has enabled interrupts
again, and the second one makes a whole call before the first goes on.
-/
def preemptedCalls : List (CallEvent Bool) :=
  callUpToPopfl 5 ++ [.tick true] ++ callUpToPopfl 7 ++ callFromPopal ++ [.tick false] ++
    callFromPopal

/-- The first process was returned 5 and finds 7. -/
theorem preempted_call_finds_other_result :
    ∃ s, Run callStep anyStep twoProcesses preemptedCalls s ∧
      (s.proc false).pc = .user ∧ (s.proc false).returned = some 5 ∧
      (s.proc false).regs.eax = 7 ∧ ¬ s.OwnResults := by
  have hvals : (exec callStep anyStep twoProcesses preemptedCalls).map (fun s =>
      ((s.proc false).pc, (s.proc false).returned, (s.proc false).regs.eax)) =
        some (.user, some 5, 7) := by
    decide +kernel
  obtain ⟨s, hs, htriple⟩ := Option.map_eq_some_iff.mp hvals
  obtain ⟨hpc, hpair⟩ := Prod.mk.inj htriple
  obtain ⟨hret, heax⟩ := Prod.mk.inj hpair
  refine ⟨s, run_of_exec hs, hpc, hret, heax, ?_⟩
  intro hown
  have hfive := hown false 5 hpc hret
  omega

end OopsOs
