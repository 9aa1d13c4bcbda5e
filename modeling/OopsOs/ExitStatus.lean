import OopsOs.OwnBlocks
import OopsOs.SystemCallEntry

/-!
# The exit status on its way to the parent

The value in EBX at a `halt` is pushed by the entry code, reaches `halt` as a
pointer, is cast to a word, put into EAX and carried by `ret_from_execute`
into the frame of the parent's `execute`.  The entry code of the parent then
takes it for the result of the call.  On none of these stations is it narrowed
to a byte.

`ExitSystem` is the system with the entry states of the processes that wait in
`execute`, and with the returns of all `execute` calls made so far.  The entry
code is run here with nothing in between; what other processes can do to
`sys_call_retval` meanwhile is a matter of its own.

`halt` works on the control block that `get_pcb` finds, and a process on the
stack of another one would overwrite the frames that are waiting there.  The
runs are those in which every process is on its own stack (`OnOwnStack`).
-/

namespace OopsOs

open ByteMem Machine

/-! ## The entry code around a handler -/

/-- A number of instructions of the entry code. -/
def instructions : Nat → Proc → Int → Option (Proc × Int)
  | 0, p, retval => some (p, retval)
  | n + 1, p, retval => (instruction retval p).bind (fun r => instructions n r.1 r.2)

/-- The entry code of a call, from the `int` instruction to the handler. -/
def enterHandler (regs : Registers) : Option Proc :=
  (instructions 11 ⟨.cmplMax, regs, true, .eq, [.frame true], none⟩ 0).map Prod.fst

/-- The entry code from the return of the handler to user mode. -/
def leaveHandler (p : Proc) (v : Int) : Option Proc :=
  (instructions 8 { p with pc := .cli, regs := p.regs.setEax v } 0).map Prod.fst

/-- The first parameter of the handler is the word that was pushed last. -/
def firstArgument (p : Proc) : Option Int :=
  match p.stack with
  | .word w :: _ => some w
  | _ => none

theorem instructions_add (m n : Nat) (p : Proc) (retval : Int) :
    instructions (m + n) p retval =
      (instructions m p retval).bind (fun r => instructions n r.1 r.2) := by
  induction m generalizing p retval with
  | zero =>
      rw [Nat.zero_add]
      rfl
  | succ m ih =>
      rw [Nat.succ_add]
      simp only [instructions]
      cases instruction retval p with
      | none => rfl
      | some r => exact ih r.1 r.2

section Entry

variable {regs : Registers} (hmin : 1 ≤ regs.eax) (hmax : regs.eax ≤ 8)
include hmin hmax

theorem enterHandler_eq :
    ∃ p, enterHandler regs = some p ∧
      p.stack = [.word regs.ebx, .word regs.ecx, .word regs.edx, .flags true, .all regs,
        .frame true] := by
  have hgt : compare regs.eax 8 ≠ .gt := fun h => absurd (compare_gt_iff_gt.mp h) (not_lt.mpr hmax)
  have hlt : compare regs.eax 1 ≠ .lt := fun h => absurd (compare_lt_iff_lt.mp h) (not_lt.mpr hmin)
  -- neither of the two tests jumps; the rest is straight-line code
  have htests : instructions 4 ⟨.cmplMax, regs, true, .eq, [.frame true], none⟩ 0 =
      some (⟨.pushal, regs, true, compare regs.eax 1, [.frame true], none⟩, 0) := by
    simp only [instructions, instruction, Option.bind_some, if_neg hgt, if_neg hlt]
  rw [enterHandler, instructions_add 4 7, htests]
  exact ⟨_, rfl, rfl⟩

/-- EBX becomes the first parameter. -/
theorem firstArgument_enterHandler : (enterHandler regs).bind firstArgument = some regs.ebx := by
  obtain ⟨p, hp, hstack⟩ := enterHandler_eq hmin hmax
  rw [hp, Option.bind_some, firstArgument, hstack]

/-- The program finds the returned value in EAX, and its other registers as they were. -/
theorem leaveHandler_enterHandler {p : Proc} (hp : enterHandler regs = some p) (v : Int) :
    (leaveHandler p v).map Proc.regs = some (regs.setEax v) := by
  obtain ⟨p', hp', hstack⟩ := enterHandler_eq hmin hmax
  obtain rfl := Option.some.inj (hp.symm.trans hp')
  obtain ⟨pc, r, intFlag, compared, stack, returned⟩ := p
  subst hstack
  rfl

end Entry

/-! ## The system with the returns of `execute` -/

/-- A return of `execute` to the process that has called it. -/
structure ExecuteReturn where
  process : Fin 6
  eax : Int
  /-- Whether the call had started a program. -/
  started : Bool
deriving DecidableEq, Repr

structure ExitSystem where
  system : System
  /-- The entry state of the process whose `execute` has started the process of a slot. -/
  caller : Fin 6 → Option Proc
  returns : List ExecuteReturn

def ExitSystem.boot (console : Console) (fs : Mem) : ExitSystem :=
  ⟨System.boot console fs, fun _ => none, []⟩

inductive ExitEvent
  | tick (esp ebp innerEsp innerEbp : Nat)
  | key (scancode : Nat)
  | execute (regs : Registers) (cmd : List UInt8) (esp ebp : Nat)
  | halt (regs : Registers) (esp ebp : Nat)

/-- What the system sees of an event. -/
def ExitEvent.system : ExitEvent → SystemEvent
  | .tick esp ebp innerEsp innerEbp => .tick esp ebp innerEsp innerEbp
  | .key scancode => .key scancode
  | .execute _ cmd esp ebp => .execute cmd esp ebp
  | .halt _ esp ebp => .halt esp ebp

/-- `ret_status`: the cast of the pointer `status` keeps all of its 32 bits. -/
def retStatus (status : Int) : BitVec 32 := BitVec.ofInt 32 status

/-- The return of an `execute` with `v` in EAX, through the entry state of its caller. -/
def ExitSystem.returnTo (s : ExitSystem) (process : Fin 6) (p : Proc) (v : Int) (started : Bool) :
    List ExecuteReturn :=
  (leaveHandler p v).elim s.returns (fun p' => ⟨process, p'.regs.eax, started⟩ :: s.returns)

/-- What `execute` adds: -1 is returned at once, or the caller waits for the new process. -/
def ExitSystem.afterExecute (s : ExitSystem) (o : Owner) (p : Proc) (t : System) :
    Option (Fin 6) → ExitSystem
  | none => ⟨t, s.caller, s.returnTo o.pid p (-1) false⟩
  | some pid => ⟨t, Function.update s.caller pid (some p), s.returns⟩

/--
What `halt` adds: where it goes back to the context saved in the block of `slot`,
the `execute` that was called there returns the status.
-/
def ExitSystem.afterHalt (s : ExitSystem) (slot : Fin 6) (status : Int) (t : System) :
    HaltEnd → ExitSystem
  | .resumed c =>
      match s.system.parent slot, c.owner, s.caller slot with
      | some _, some q, some p =>
          ⟨t, s.caller, s.returnTo q.pid p (retStatus status).toInt true⟩
      | _, _, _ => { s with system := t }
  | _ => { s with system := t }

/--
One event; EAX holds the number of the system call.  As in the system, a `halt`
is one event and takes the block that `get_pcb` finds.
-/
def exitStep (s : ExitSystem) : ExitEvent → Option ExitSystem
  | .tick esp ebp innerEsp innerEbp =>
      (systemStep s.system (.tick esp ebp innerEsp innerEbp)).map (fun t => { s with system := t })
  | .key scancode => (systemStep s.system (.key scancode)).map (fun t => { s with system := t })
  | .execute regs cmd esp ebp =>
      if regs.eax = 2 then
        s.system.cpu.bind (fun o => (enterHandler regs).bind (fun p =>
          (systemStep s.system (.execute cmd esp ebp)).map (fun t =>
            s.afterExecute o p t (OopsOs.execute s.system.kernel cmd ⟨esp, ebp, some o⟩).2)))
      else none
  | .halt regs esp ebp =>
      if regs.eax = 1 then
        s.system.cpu.bind (fun o => ((enterHandler regs).bind firstArgument).bind (fun status =>
          (pcbSlot s.system.kernel.esp0).bind (fun slot =>
            (haltStep s.system o slot esp ebp).map (fun t =>
              s.afterHalt slot status t
                (OopsOs.halt s.system.kernel slot ⟨esp, ebp, some o⟩).2))))
      else none

/-! ## The invariant -/

/--
Every process that another one has started keeps the context and the entry
state of the call that has started it.
-/
structure KeepsCallers (s : ExitSystem) : Prop where
  saved : ∀ p q, s.system.parent p = some q →
    ∃ t, (s.system.kernel.pcb p).saved.owner = some ⟨t, q⟩
  number : ∀ p q, s.system.parent p = some q → (s.system.kernel.pcb p).processNum = p
  caller : ∀ p q, s.system.parent p = some q →
    ∃ regs proc, regs.eax = 2 ∧ enterHandler regs = some proc ∧ s.caller p = some proc

theorem boot_keepsCallers (console : Console) (fs : Mem) :
    KeepsCallers (ExitSystem.boot console fs) := by
  refine ⟨?_, ?_, ?_⟩
  · intro p q hp
    cases hp
  · intro p q hp
    cases hp
  · intro p q hp
    cases hp

theorem afterHalt_system (s : ExitSystem) (slot : Fin 6) (status : Int) (t : System)
    (r : HaltEnd) :
    (s.afterHalt slot status t r).system = t ∧ (s.afterHalt slot status t r).caller = s.caller := by
  unfold ExitSystem.afterHalt
  cases r with
  | resumed c =>
      simp only
      split
      · exact ⟨rfl, rfl⟩
      · exact ⟨rfl, rfl⟩
  | entered pid => exact ⟨rfl, rfl⟩
  | astray => exact ⟨rfl, rfl⟩

/-- What an event does to the system, and to the entry states of the callers. -/
theorem exitStep_system {s s' : ExitSystem} {e : ExitEvent} (hstep : exitStep s e = some s') :
    systemStep s.system e.system = some s'.system ∧
      ((s'.caller = s.caller ∧ ∀ regs cmd esp ebp o, e = .execute regs cmd esp ebp →
          s.system.cpu = some o → (execute s.system.kernel cmd ⟨esp, ebp, some o⟩).2 = none) ∨
        ∃ regs proc cmd esp ebp o pid, e = .execute regs cmd esp ebp ∧ regs.eax = 2 ∧
          enterHandler regs = some proc ∧ s.system.cpu = some o ∧
          (execute s.system.kernel cmd ⟨esp, ebp, some o⟩).2 = some pid ∧
          s'.caller = Function.update s.caller pid (some proc)) := by
  cases e with
  | tick esp ebp innerEsp innerEbp =>
      simp only [exitStep] at hstep
      obtain ⟨t, ht, rfl⟩ := Option.map_eq_some_iff.mp hstep
      exact ⟨ht, Or.inl ⟨rfl, fun _ _ _ _ _ he => (by cases he)⟩⟩
  | key scancode =>
      obtain ⟨t, ht, rfl⟩ := Option.map_eq_some_iff.mp hstep
      exact ⟨ht, Or.inl ⟨rfl, fun _ _ _ _ _ he => (by cases he)⟩⟩
  | execute regs cmd esp ebp =>
      simp only [exitStep] at hstep
      split_ifs at hstep with heax
      obtain ⟨o, ho, hentry⟩ := Option.bind_eq_some_iff.mp hstep
      obtain ⟨proc, hproc, hexec⟩ := Option.bind_eq_some_iff.mp hentry
      obtain ⟨t, ht, rfl⟩ := Option.map_eq_some_iff.mp hexec
      cases hr : (execute s.system.kernel cmd ⟨esp, ebp, some o⟩).2 with
      | none =>
          refine ⟨ht, Or.inl ⟨rfl, ?_⟩⟩
          intro _ _ _ _ o' he ho'
          obtain rfl := Option.some.inj (ho.symm.trans ho')
          cases he
          exact hr
      | some pid =>
          exact ⟨ht, Or.inr ⟨regs, proc, cmd, esp, ebp, o, pid, rfl, heax, hproc, ho, hr, rfl⟩⟩
  | halt regs esp ebp =>
      simp only [exitStep] at hstep
      split_ifs at hstep
      obtain ⟨o, ho, hentry⟩ := Option.bind_eq_some_iff.mp hstep
      obtain ⟨status, -, hblock⟩ := Option.bind_eq_some_iff.mp hentry
      obtain ⟨slot, hslot, hhalt⟩ := Option.bind_eq_some_iff.mp hblock
      obtain ⟨t, ht, rfl⟩ := Option.map_eq_some_iff.mp hhalt
      obtain ⟨hsystem, hcaller⟩ := afterHalt_system s slot status t
        (halt s.system.kernel slot ⟨esp, ebp, some o⟩).2
      refine ⟨?_, Or.inl ⟨hcaller, fun _ _ _ _ _ he => (by cases he)⟩⟩
      simp only [ExitEvent.system, systemStep, ho, hslot, Option.bind_some]
      rw [hsystem, ht]

section Step

variable {s s' : ExitSystem} {e : ExitEvent} (h : KeepsCallers s) (hstep : exitStep s e = some s')
include h hstep

theorem exitStep_saved {p q : Fin 6} (hp : s'.system.parent p = some q) :
    (∃ t, (s'.system.kernel.pcb p).saved.owner = some ⟨t, q⟩) ∧
      (s'.system.kernel.pcb p).processNum = p := by
  have hview := systemStep_view (exitStep_system hstep).1
  rcases step_parent hview hp with ⟨hold, hblock⟩ | ⟨-, esp, ebp, o, -, -, hq, -, htable⟩
  · obtain ⟨t, ht⟩ := h.saved p q hold
    have hsame : (s'.system.kernel.pcb p).saved = (s.system.kernel.pcb p).saved := hblock.saved
    exact ⟨⟨t, by rw [hsame, ht]⟩, hblock.number.trans (h.number p q hold)⟩
  · have hsaved : s'.system.view.table.saved p = ⟨esp, ebp, some o⟩ := by
      rw [htable]
      exact Function.update_self _ _ _
    have hnumber : s'.system.view.table.number p = p := by
      rw [htable]
      exact Function.update_self _ _ _
    have hnew : (s'.system.kernel.pcb p).saved = ⟨esp, ebp, some o⟩ := hsaved
    exact ⟨⟨o.term, by rw [hnew, ← hq]⟩, hnumber⟩

theorem exitStep_caller {p q : Fin 6} (hp : s'.system.parent p = some q) :
    ∃ regs proc, regs.eax = 2 ∧ enterHandler regs = some proc ∧ s'.caller p = some proc := by
  obtain ⟨hsystem, hcaller⟩ := exitStep_system hstep
  rcases step_parent (systemStep_view hsystem) hp with
    ⟨hold, -⟩ | ⟨valid, esp, ebp, o, he, ho, -, hr, -⟩
  · obtain ⟨regs, proc, heax, hproc, hkept⟩ := h.caller p q hold
    rcases hcaller with ⟨hsame, -⟩ | ⟨regs', proc', -, -, -, -, pid, -, heax', hproc', -, -, hnew⟩
    · exact ⟨regs, proc, heax, hproc, by rw [hsame, hkept]⟩
    · by_cases hpid : p = pid
      · exact ⟨regs', proc', heax', hproc', by rw [hnew, hpid, Function.update_self]⟩
      · exact ⟨regs, proc, heax, hproc, by rw [hnew, Function.update_of_ne hpid, hkept]⟩
  · -- only an `execute` of this step can have started the process
    have hexec : ∃ regs cmd, e = .execute regs cmd esp ebp ∧
        (execute s.system.kernel cmd ⟨esp, ebp, some o⟩).2 = some p := by
      cases e with
      | tick esp ebp innerEsp innerEbp => cases he
      | key scancode => cases he
      | halt regs esp ebp => cases he
      | execute regs cmd esp' ebp' =>
          cases he
          refine ⟨regs, cmd, rfl, ?_⟩
          rw [(table_execute s.system.kernel cmd ⟨esp, ebp, some o⟩).2]
          exact hr
    obtain ⟨regs, cmd, rfl, hstarted⟩ := hexec
    rcases hcaller with ⟨-, hfailed⟩ | ⟨regs', proc, cmd', _, _, o', pid, he', heax, hproc, ho', hr', hnew⟩
    · rw [hfailed regs cmd esp ebp o rfl ho] at hstarted
      cases hstarted
    · cases he'
      obtain rfl := Option.some.inj (ho.symm.trans ho')
      obtain rfl := Option.some.inj (hstarted.symm.trans hr')
      exact ⟨regs, proc, heax, hproc, by rw [hnew, Function.update_self]⟩

theorem exitStep_keepsCallers : KeepsCallers s' :=
  ⟨fun _ _ hp => (exitStep_saved h hstep hp).1, fun _ _ hp => (exitStep_saved h hstep hp).2,
    fun _ _ hp => exitStep_caller h hstep hp⟩

end Step

theorem run_keepsCallers {C : ExitSystem → ExitEvent → Prop} {console : Console} {fs : Mem}
    {es : List ExitEvent} {s : ExitSystem}
    (hrun : Run exitStep C (ExitSystem.boot console fs) es s) : KeepsCallers s :=
  hrun.invariant (fun _ _ _ hI _ hs => exitStep_keepsCallers hI hs) (boot_keepsCallers console fs)

/-! ## Which `halt` goes back to the parent -/

theorem processNum_of_processTerm {k : Kernel} {p : Fin 6} {t : Fin 3}
    (h : processTerm k p = some t) : (k.terminal t).processNum = p := by
  simpa using List.find?_some h

/-- The slot of the process that halts is free, so a restart fails only for want of a shell. -/
theorem restartShell_none_iff (k : Kernel) (slot : Fin 6) (term : Fin 3) (saved : Context) :
    (restartShell k slot term saved).2 = none ↔ checkValid k.fs (parse shellCommand).1 = -1 := by
  have hfs : ((freedKernel k slot term).printf "Restarting Shell\n").fs = k.fs := by
    simp [freedKernel, closeDescriptors]
  have hfree : freeSlot ((freedKernel k slot term).printf "Restarting Shell\n") ≠ none := by
    intro hnone
    have hall := List.find?_eq_none.mp hnone (k.terminal term).processNum (List.mem_finRange _)
    simp [freedKernel] at hall
  unfold restartShell
  rcases execute_cases ((freedKernel k slot term).printf "Restarting Shell\n") shellCommand saved
    with ⟨hfail, text, heq⟩ | ⟨pid, hvalid, -, heq⟩
  · rw [heq]
    rw [hfs] at hfail
    exact ⟨fun _ => hfail.resolve_right hfree, fun _ => rfl⟩
  · rw [heq]
    rw [hfs] at hvalid
    exact ⟨fun h => (by cases h), fun h => absurd h hvalid⟩

/-- `halt` goes back to a saved context: the process has a terminal and no shell is restarted. -/
def GoesBack (k : Kernel) (slot : Fin 6) : Prop :=
  processTerm k slot ≠ none ∧ (3 ≤ slot.val ∨ checkValid k.fs (parse shellCommand).1 = -1)

theorem halt_resumed_iff {k : Kernel} {slot : Fin 6} (hnum : (k.pcb slot).processNum = slot)
    (saved : Context) : (∃ c, (halt k slot saved).2 = .resumed c) ↔ GoesBack k slot := by
  unfold GoesBack
  rcases halt_cases k slot saved with
    ⟨hterm, heq⟩ | ⟨term, hterm, ⟨hhigh, heq⟩ | ⟨hlow, ⟨k', hexec, heq⟩ | ⟨k', new, hexec, heq⟩⟩⟩
  · rw [heq]
    rw [hnum] at hterm
    exact ⟨fun ⟨_, hc⟩ => (by cases hc), fun hback => absurd hterm hback.1⟩
  · rw [heq]
    rw [hnum] at hterm
    rw [processNum_of_processTerm hterm] at hhigh
    refine ⟨fun _ => ⟨by rw [hterm]; simp, Or.inl hhigh⟩, fun _ => ⟨_, rfl⟩⟩
  · rw [heq]
    rw [hnum] at hterm
    have hshell := (restartShell_none_iff k slot term saved).mp (by rw [hexec])
    refine ⟨fun _ => ⟨by rw [hterm]; simp, Or.inr hshell⟩, fun _ => ⟨_, rfl⟩⟩
  · rw [heq]
    rw [hnum] at hterm
    rw [processNum_of_processTerm hterm] at hlow
    have hshell := mt (restartShell_none_iff k slot term saved).mpr (by rw [hexec]; simp)
    refine ⟨fun ⟨_, hc⟩ => (by cases hc), fun hback => ?_⟩
    rcases hback.2 with hhigh | hfail
    · omega
    · exact absurd hfail hshell

/-! ## What the parent gets -/

/-- The registers at a `halt` with `v` in EBX. -/
def Registers.halting (regs : Registers) (v : BitVec 32) : Registers :=
  { regs with eax := 1, ebx := v.toInt }

/--
A `halt` with `v` in EBX has the parent's `execute` return the low byte of `v`,
a number from 0 to 255.
-/
def StatusReachesParent (s : ExitSystem) (q : Fin 6) (v : BitVec 32) (regs : Registers)
    (esp ebp : Nat) : Prop :=
  ∃ s' t, exitStep s (.halt (regs.halting v) esp ebp) = some s' ∧
    s'.system.cpu = some ⟨t, q⟩ ∧
    s'.returns = ⟨q, ((v &&& 0xFF#32).toNat : Int), true⟩ :: s.returns

theorem returnTo_eq (s : ExitSystem) {regs : Registers} (heax : regs.eax = 2) {p : Proc}
    (hp : enterHandler regs = some p) (q : Fin 6) (v : Int) (started : Bool) :
    s.returnTo q p v started = ⟨q, v, started⟩ :: s.returns := by
  have hregs := leaveHandler_enterHandler (show 1 ≤ regs.eax by omega) (by omega) hp v
  obtain ⟨p', hp', hregs⟩ := Option.map_eq_some_iff.mp hregs
  rw [ExitSystem.returnTo, hp', Option.elim_some, hregs, Registers.setEax_eax]

theorem toInt_eq_lowByte_iff (v : BitVec 32) :
    v.toInt = ((v &&& 0xFF#32).toNat : Int) ↔ v.toNat < 256 := by
  have hand : (v &&& 0xFF#32).toNat = v.toNat % 256 := by
    rw [BitVec.toNat_and]
    exact Nat.and_two_pow_sub_one_eq_mod v.toNat 8
  have hlt := v.isLt
  rw [hand, BitVec.toInt_eq_toNat_cond]
  split_ifs <;> omega

theorem firstArgument_halting (regs : Registers) (v : BitVec 32) :
    (enterHandler (regs.halting v)).bind firstArgument = some v.toInt :=
  firstArgument_enterHandler (show 1 ≤ (regs.halting v).eax from le_refl 1)
    (show (1 : Int) ≤ 8 by decide)

section Halt

variable {s : ExitSystem} {o : Owner} (ho : s.system.cpu = some o)
variable {slot : Fin 6} (hslot : pcbSlot s.system.kernel.esp0 = some slot)
include ho hslot

/-- A `halt` is a step of the system with what it adds to the returns. -/
theorem exitStep_halt (v : BitVec 32) (regs : Registers) (esp ebp : Nat) :
    exitStep s (.halt (regs.halting v) esp ebp) =
      (haltStep s.system o slot esp ebp).map (fun t =>
        s.afterHalt slot v.toInt t (halt s.system.kernel slot ⟨esp, ebp, some o⟩).2) := by
  simp only [exitStep, ho, hslot, Option.bind_some, firstArgument_halting]
  exact if_pos rfl

/-- The `execute` that has started the process of the slot returns, with all of `v`. -/
theorem KeepsCallers.halt_resumed (h : KeepsCallers s) {q : Fin 6}
    (hq : s.system.parent slot = some q) (v : BitVec 32) (regs : Registers) {esp ebp : Nat}
    {c : Context} (hc : (halt s.system.kernel slot ⟨esp, ebp, some o⟩).2 = .resumed c) :
    ∃ s' t, exitStep s (.halt (regs.halting v) esp ebp) = some s' ∧
      s'.system.cpu = some ⟨t, q⟩ ∧ s'.returns = ⟨q, v.toInt, true⟩ :: s.returns := by
  obtain ⟨t, ht⟩ := h.saved slot q hq
  obtain ⟨hregs, proc, heax, hproc, hcaller⟩ := h.caller slot q hq
  have howner : c.owner = some ⟨t, q⟩ := by
    rw [((halt_stack s.system.kernel slot ⟨esp, ebp, some o⟩).2 c hc).1, ht]
  have hstep : haltStep s.system o slot esp ebp =
      some { s.system with
        kernel := (halt s.system.kernel slot ⟨esp, ebp, some o⟩).1
        cpu := some ⟨t, q⟩ } := by
    obtain ⟨k, r, hhalt⟩ : ∃ k r, halt s.system.kernel slot ⟨esp, ebp, some o⟩ = (k, r) :=
      ⟨_, _, rfl⟩
    rw [hhalt] at hc
    simp only at hc
    subst hc
    simp only [haltStep, hhalt, howner]
  rw [exitStep_halt ho hslot, hstep, Option.map_some, hc]
  refine ⟨_, t, rfl, by rw [(afterHalt_system s slot v.toInt _ (.resumed c)).1], ?_⟩
  simp only [ExitSystem.afterHalt, hq, howner, hcaller, returnTo_eq s heax hproc, retStatus,
    BitVec.ofInt_toInt]

/-- Otherwise no `execute` returns. -/
theorem halt_returns_none (v : BitVec 32) (regs : Registers) {esp ebp : Nat}
    (hc : ∀ c, (halt s.system.kernel slot ⟨esp, ebp, some o⟩).2 ≠ .resumed c) {s' : ExitSystem}
    (hstep : exitStep s (.halt (regs.halting v) esp ebp) = some s') : s'.returns = s.returns := by
  rw [exitStep_halt ho hslot] at hstep
  obtain ⟨t, -, rfl⟩ := Option.map_eq_some_iff.mp hstep
  cases hr : (halt s.system.kernel slot ⟨esp, ebp, some o⟩).2 with
  | resumed c => exact absurd hr (hc c)
  | entered pid => rfl
  | astray => rfl

theorem KeepsCallers.statusReachesParent_iff (h : KeepsCallers s) {q : Fin 6}
    (hq : s.system.parent slot = some q) (v : BitVec 32) (regs : Registers) (esp ebp : Nat) :
    StatusReachesParent s q v regs esp ebp ↔ v.toNat < 256 ∧ GoesBack s.system.kernel slot := by
  rw [← halt_resumed_iff (h.number slot q hq) ⟨esp, ebp, some o⟩, ← toInt_eq_lowByte_iff]
  constructor
  · rintro ⟨s', t, hstep, -, hreturns⟩
    by_cases hback : ∃ c, (halt s.system.kernel slot ⟨esp, ebp, some o⟩).2 = .resumed c
    · obtain ⟨c, hc⟩ := hback
      obtain ⟨s'', -, hstep', -, hreturns'⟩ := h.halt_resumed ho hslot hq v regs hc
      obtain rfl := Option.some.inj (hstep.symm.trans hstep')
      rw [hreturns', List.cons.injEq, ExecuteReturn.mk.injEq] at hreturns
      exact ⟨hreturns.1.2.1, c, hc⟩
    · push Not at hback
      rw [halt_returns_none ho hslot v regs hback hstep] at hreturns
      exact absurd hreturns.symm (List.cons_ne_self _ _)
  · rintro ⟨hlow, c, hc⟩
    obtain ⟨s', t, hstep, hcpu, hreturns⟩ := h.halt_resumed ho hslot hq v regs hc
    exact ⟨s', t, hstep, hcpu, by rw [hreturns, hlow]⟩

end Halt

/-! ## Runs -/

/-- The running process is on its own kernel stack, and finds its own control block there. -/
def OnOwnStack (s : ExitSystem) (_ : ExitEvent) : Prop := FindsOwnBlock s.system

instance (s : ExitSystem) (e : ExitEvent) : Decidable (OnOwnStack s e) :=
  inferInstanceAs (Decidable (FindsOwnBlock s.system))

/-- Every process halts with a status from 0 to 255. -/
def LowStatus (_ : ExitSystem) : ExitEvent → Prop
  | .halt regs _ _ => (retStatus regs.ebx).toNat < 256
  | _ => True

/-- A negative return of `execute` means that no program was started. -/
def NegativeMeansFailed (s : ExitSystem) : Prop :=
  ∀ r ∈ s.returns, r.eax < 0 → r.started = false

theorem NegativeMeansFailed.cons {s : ExitSystem} (h : NegativeMeansFailed s) {r : ExecuteReturn}
    (hr : r.eax < 0 → r.started = false) :
    ∀ r' ∈ r :: s.returns, r'.eax < 0 → r'.started = false := by
  intro r' hr'
  rcases List.mem_cons.mp hr' with rfl | hold
  · exact hr
  · exact h r' hold

theorem afterHalt_negative {s : ExitSystem} (h : KeepsCallers s) (hneg : NegativeMeansFailed s)
    (slot : Fin 6) {status : Int} (hstatus : (retStatus status).toNat < 256) (t : System)
    (r : HaltEnd) : NegativeMeansFailed (s.afterHalt slot status t r) := by
  have hpos : 0 ≤ (retStatus status).toInt := by
    rw [(toInt_eq_lowByte_iff _).mpr hstatus]
    exact Int.natCast_nonneg _
  unfold ExitSystem.afterHalt
  cases r with
  | entered pid => exact hneg
  | astray => exact hneg
  | resumed c =>
      simp only
      split
      · rename_i q' q p hparent _ hcaller
        obtain ⟨regs, proc, heax, hproc, hkept⟩ := h.caller slot q' hparent
        obtain rfl := Option.some.inj (hcaller.symm.trans hkept)
        unfold NegativeMeansFailed
        rw [returnTo_eq s heax hproc]
        exact hneg.cons (fun hlt => absurd hpos (not_le.mpr hlt))
      · exact hneg

theorem exitStep_negative {s s' : ExitSystem} {e : ExitEvent} (h : KeepsCallers s)
    (hneg : NegativeMeansFailed s) (hguard : LowStatus s e) (hstep : exitStep s e = some s') :
    NegativeMeansFailed s' := by
  cases e with
  | tick esp ebp innerEsp innerEbp =>
      simp only [exitStep] at hstep
      obtain ⟨t, -, rfl⟩ := Option.map_eq_some_iff.mp hstep
      exact hneg
  | key scancode =>
      obtain ⟨t, -, rfl⟩ := Option.map_eq_some_iff.mp hstep
      exact hneg
  | execute regs cmd esp ebp =>
      simp only [exitStep] at hstep
      split_ifs at hstep with heax
      obtain ⟨o, -, hentry⟩ := Option.bind_eq_some_iff.mp hstep
      obtain ⟨proc, hproc, hexec⟩ := Option.bind_eq_some_iff.mp hentry
      obtain ⟨t, -, rfl⟩ := Option.map_eq_some_iff.mp hexec
      cases (execute s.system.kernel cmd ⟨esp, ebp, some o⟩).2 with
      | none =>
          unfold NegativeMeansFailed
          rw [ExitSystem.afterExecute, returnTo_eq s heax hproc]
          exact hneg.cons (fun _ => rfl)
      | some pid => exact hneg
  | halt regs esp ebp =>
      simp only [exitStep] at hstep
      split_ifs at hstep with heax
      obtain ⟨o, -, hentry⟩ := Option.bind_eq_some_iff.mp hstep
      obtain ⟨status, hstatus, hblock⟩ := Option.bind_eq_some_iff.mp hentry
      obtain ⟨slot, -, hhalt⟩ := Option.bind_eq_some_iff.mp hblock
      obtain ⟨t, -, rfl⟩ := Option.map_eq_some_iff.mp hhalt
      rw [firstArgument_enterHandler (by omega) (by omega)] at hstatus
      obtain rfl := Option.some.inj hstatus
      exact afterHalt_negative h hneg slot hguard t _

/--
After any run in which every process is on its own stack, the `halt` of a
process that another one has started has the parent's `execute` return the low
byte of EBX exactly if EBX is below 256 and the `halt` goes back at all.  If all
processes halt with such a status, an `execute` returns a negative value only
if it has started no program.
-/
theorem run_status_reaches_parent_iff (console : Console) (fs : Mem) (es : List ExitEvent)
    (s : ExitSystem) (hrun : Run exitStep OnOwnStack (ExitSystem.boot console fs) es s)
    (hown : FindsOwnBlock s.system) :
    (∀ o q, s.system.cpu = some o → s.system.parent o.pid = some q → ∀ v regs esp ebp,
      StatusReachesParent s q v regs esp ebp ↔
        v.toNat < 256 ∧ GoesBack s.system.kernel o.pid) ∧
    (Run exitStep LowStatus (ExitSystem.boot console fs) es s → NegativeMeansFailed s) := by
  refine ⟨?_, ?_⟩
  · intro o q ho hq v regs esp ebp
    exact (run_keepsCallers hrun).statusReachesParent_iff ho (hown o ho) hq v regs esp ebp
  · intro hlow
    refine (hlow.invariant (I := fun s => KeepsCallers s ∧ NegativeMeansFailed s) ?_ ?_).2
    · intro s e s' hI hC hstep
      exact ⟨exitStep_keepsCallers hI.1 hstep, exitStep_negative hI.1 hI.2 hC hstep⟩
    · refine ⟨boot_keepsCallers console fs, ?_⟩
      intro r hr
      cases hr

/-- The registers of a program that calls `execute`. -/
def executeRegisters : Registers := ⟨2, 0, 0, 0x8048000, 0, 0, 0⟩

/-- Five ticks, after which the shell of terminal 0 runs, and a shell that it starts. -/
def nestedShell : List ExitEvent :=
  [.tick 1 1 1 1, .tick 2 2 2 2, .tick 3 3 3 3, .tick 4 4 4 4, .tick 5 5 5 5,
    .execute executeRegisters shellCommand 0x7FFF98 0x7FFFB8]

theorem nestedShell_runs :
    ∃ s, Run exitStep OnOwnStack (ExitSystem.boot blankConsole shellImage) nestedShell s ∧
      FindsOwnBlock s.system ∧ s.system.cpu = some ⟨0, 3⟩ ∧ s.system.parent 3 = some 0 ∧
      GoesBack s.system.kernel 3 := by
  have hvals : (exec exitStep OnOwnStack (ExitSystem.boot blankConsole shellImage) nestedShell).map
      (fun s => (decide (FindsOwnBlock s.system), s.system.cpu, s.system.parent 3,
        processTerm s.system.kernel 3)) =
      some (true, some ⟨0, 3⟩, some 0, some 0) := by
    decide +kernel
  obtain ⟨s, hs, hvals⟩ := Option.map_eq_some_iff.mp hvals
  simp only [Prod.mk.injEq, decide_eq_true_eq] at hvals
  obtain ⟨hown, hcpu, hparent, hterm⟩ := hvals
  exact ⟨s, run_of_exec hs, hown, hcpu, hparent, by rw [hterm]; simp, Or.inl (by decide)⟩

theorem run_status_reaches_parent_five :
    ∃ s, Run exitStep OnOwnStack (ExitSystem.boot blankConsole shellImage) nestedShell s ∧
      s.system.cpu = some ⟨0, 3⟩ ∧ s.system.parent 3 = some 0 ∧
      StatusReachesParent s 0 5#32 executeRegisters 0x7F9F80 0x7F9FA0 := by
  obtain ⟨s, hrun, hown, hcpu, hparent, hback⟩ := nestedShell_runs
  obtain ⟨hiff, -⟩ :=
    run_status_reaches_parent_iff blankConsole shellImage nestedShell s hrun hown
  refine ⟨s, hrun, hcpu, hparent, ?_⟩
  exact (hiff ⟨0, 3⟩ 0 hcpu hparent 5#32 executeRegisters 0x7F9F80 0x7F9FA0).mpr
    ⟨by decide, hback⟩

/--
The status 256 reaches the parent whole, and the status 0xFFFFFFFF as the -1 of
an `execute` that has started no program.
-/
theorem wide_status_reaches_parent :
    ∃ s, Run exitStep anyStep (ExitSystem.boot blankConsole shellImage) nestedShell s ∧
      s.system.cpu = some ⟨0, 3⟩ ∧ s.system.parent 3 = some 0 ∧
      ¬ StatusReachesParent s 0 256#32 executeRegisters 0x7F9F80 0x7F9FA0 ∧
      ∃ s', exitStep s (.halt (executeRegisters.halting 0xFFFFFFFF#32) 0x7F9F80 0x7F9FA0) =
          some s' ∧
        s'.returns.head? = some ⟨0, -1, true⟩ ∧ ¬ NegativeMeansFailed s' := by
  obtain ⟨s, hrun, hown, hcpu, hparent, hback⟩ := nestedShell_runs
  have hkept := run_keepsCallers hrun
  have hslot : pcbSlot s.system.kernel.esp0 = some 3 := hown _ hcpu
  refine ⟨s, hrun.mono (fun _ _ _ => trivial), hcpu, hparent, ?_, ?_⟩
  · rw [hkept.statusReachesParent_iff hcpu hslot hparent]
    intro hlow
    exact absurd hlow.1 (by decide)
  · obtain ⟨c, hc⟩ :=
      (halt_resumed_iff (hkept.number 3 0 hparent) ⟨0x7F9F80, 0x7F9FA0, some ⟨0, 3⟩⟩).mpr hback
    obtain ⟨s', -, hstep, -, hreturns⟩ :=
      hkept.halt_resumed hcpu hslot hparent 0xFFFFFFFF#32 executeRegisters hc
    refine ⟨s', hstep, by rw [hreturns]; rfl, ?_⟩
    intro hneg
    have hfirst := hneg ⟨0, -1, true⟩ (by rw [hreturns]; exact List.mem_cons_self)
    cases hfirst (by decide)

/-- A shell started in the background on terminal 1, and three ticks. -/
def backgroundShell : List ExitEvent :=
  [.tick 1 1 1 1, .tick 2 2 2 2, .tick 3 3 3 3, .tick 4 4 4 4, .tick 5 5 5 5, .tick 6 6 6 6,
    .execute executeRegisters shellCommand 0x7FDF98 0x7FDFB8, .tick 7 7 7 7, .tick 8 8 8 8,
    .tick 9 9 9 9]

/--
After a background `execute` the scheduler goes on with the new process on the
stack of the process that has started it.  Its `halt` finds the block of that
one, and no status reaches anybody.
-/
theorem background_halt_loses_status :
    ∃ s, Run exitStep anyStep (ExitSystem.boot blankConsole shellImage) backgroundShell s ∧
      s.system.cpu = some ⟨1, 3⟩ ∧ s.system.parent 3 = some 1 ∧
      pcbSlot s.system.kernel.esp0 = some 1 ∧
      ¬ StatusReachesParent s 1 5#32 executeRegisters 0x7FDF80 0x7FDFA0 := by
  have hvals : (exec exitStep anyStep (ExitSystem.boot blankConsole shellImage)
      backgroundShell).map (fun s => (s.system.cpu, s.system.parent 3,
        pcbSlot s.system.kernel.esp0,
        (exitStep s (.halt (executeRegisters.halting 5#32) 0x7FDF80 0x7FDFA0)).map
          ExitSystem.returns)) =
      some (some ⟨1, 3⟩, some 1, some 1, some []) := by
    decide +kernel
  obtain ⟨s, hs, hvals⟩ := Option.map_eq_some_iff.mp hvals
  simp only [Prod.mk.injEq] at hvals
  obtain ⟨hcpu, hparent, hslot, hhalt⟩ := hvals
  refine ⟨s, run_of_exec hs, hcpu, hparent, hslot, ?_⟩
  rintro ⟨s', t, hstep, -, hreturns⟩
  rw [hstep, Option.map_some, hreturns] at hhalt
  cases hhalt

end OopsOs
