import OopsOs.Keyboard
import OopsOs.Processes
import OopsOs.Lib.Machine

/-!
# The scheduler and the system it drives

`schedule_handling` runs on every timer tick.  It has three phases: on the
first three ticks it starts a shell on each terminal, on the fourth it goes
back to displaying terminal 0, and from then on it switches round robin
between the terminals.

The system adds to the kernel the process that the processor runs, and three
records that no kernel function reads: the root shell of each terminal, the
process whose `execute` has started a process, and the context that a tick
has last taken from each terminal's process.

The keyboard handler runs only while line 1 of the interrupt controller is
not masked; a key pressed while it is masked is delivered later.
-/

namespace OopsOs

open ByteMem Machine

/-! ## The timer -/

def scheduleInitialization (k : Kernel) : Kernel :=
  { k with
    currentRunningProcessCount := 0
    nextTerminalInSchedule := 2
    scheduleActivated := true }

/-- How a tick ends: in a new shell, in the interrupted process, or in another one. -/
inductive TickEnd
  | entered (pid : Fin 6)
  | continued
  | resumed (c : Context)
deriving DecidableEq

/-- The store of ESP and EBP into the slot of terminal `t`. -/
def saveContext (k : Kernel) (t : Fin 3) (c : Context) : Kernel :=
  k.modifyTerminal t (fun T => { T with current := c })

/-- The first three ticks: a shell on terminal `count`. -/
def launchShell (k : Kernel) (count : Fin 3) (c inner : Context) : Kernel × TickEnd :=
  let k := if k.currentRunningProcessCount ≠ 0 then saveContext k k.activeTerminal c else k
  let k := (saveAndSwitchTerm k count).setActive count
  let k := { k with currentRunningProcessCount := k.currentRunningProcessCount + 1 }
  match execute k shellCommand inner with
  | (k, some pid) => (k, .entered pid)
  | (k, none) => (k, .continued)

/-- The kernel in which `schedule_handling` calls `execute`. -/
def launchKernel (k : Kernel) (count : Fin 3) (c : Context) : Kernel :=
  let k := if k.currentRunningProcessCount ≠ 0 then saveContext k k.activeTerminal c else k
  let k := (saveAndSwitchTerm k count).setActive count
  { k with currentRunningProcessCount := k.currentRunningProcessCount + 1 }

theorem launchShell_eq (k : Kernel) (count : Fin 3) (c inner : Context) :
    launchShell k count c inner =
      ((execute (launchKernel k count c) shellCommand inner).1,
        (execute (launchKernel k count c) shellCommand inner).2.elim .continued .entered) := by
  unfold launchShell launchKernel
  simp only
  split <;> rename_i heq <;> simp only [heq] <;> rfl

/-- The fourth tick. -/
def launchesDone (k : Kernel) (c : Context) : Kernel × TickEnd :=
  let k := saveContext k 2 c
  let k := { k with currentRunningProcessCount := k.currentRunningProcessCount + 1 }
  (saveAndSwitchTerm k 0, .continued)

/-- The keyboard is listened to only while the scheduled terminal is the displayed one. -/
def maskKeyboard (k : Kernel) : Kernel :=
  if k.nextTerminalInSchedule ≠ k.activeTerminal then disableIrq k 0x01 else enableIrq k 0x01

/-- The program page and the kernel stack of the process to go on with. -/
def mapProcess (k : Kernel) (pid : Fin 6) : Kernel :=
  { k with
    pDirectory := Function.update k.pDirectory 32 (programPage pid)
    esp0 := kernelStack pid }

/-- All later ticks. -/
def roundRobin (k : Kernel) (c : Context) : Kernel × TickEnd :=
  let k := saveContext k k.nextTerminalInSchedule c
  let k := { k with nextTerminalInSchedule := k.nextTerminalInSchedule + 1 }
  let k := maskKeyboard k
  let T := k.terminal k.nextTerminalInSchedule
  (mapProcess k T.processNum, .resumed T.current)

/--
`schedule_handling`, with the registers it saves itself and those that an
`execute` called from it saves.
-/
def scheduleHandling (k : Kernel) (c inner : Context) : Kernel × TickEnd :=
  if k.scheduleActivated = true then
    if h : k.currentRunningProcessCount < 3 then
      launchShell k ⟨k.currentRunningProcessCount, h⟩ c inner
    else if k.currentRunningProcessCount = 3 then launchesDone k c
    else roundRobin k c
  else (k.printf "schedule not yet activated for this OS", .continued)

def pitHandler (k : Kernel) (c inner : Context) : Kernel × TickEnd :=
  scheduleHandling (disableIrq k 0x01) c inner

/-! ## Boot -/

def keyboardInitialize (k : Kernel) : Kernel :=
  let k := terminalOpen (enableIrq k 0x01)
  { k with
    activeTerminal := 0
    capsStatus := false
    shiftStatus := false
    ctrlStatus := false
    altStatus := false }

/-- The kernel when `entry` waits for the first interrupt, with whatever is on the console. -/
def boot (console : Console) (fs : Mem) : Kernel :=
  let k := { Kernel.zero console.mem fs with console := console }
  let k := enableIrq { k with masterBitMask := 0xFC, slaveBitMask := 0xFC } 2
  let k := enableIrq k 0x08
  let k := enableIrq (scheduleInitialization k) 0
  saveAndSwitchTerm (keyboardInitialize k) 0

/-- The console before anything has been written to it. -/
def blankConsole : Console := ⟨video, fun _ => 0, 0, 0⟩

/-! ## The system -/

structure System where
  kernel : Kernel
  cpu : Option Owner
  root : Fin 3 → Option (Fin 6)
  parent : Fin 6 → Option (Fin 6)
  preempted : Fin 3 → Option Context

def System.boot (console : Console) (fs : Mem) : System :=
  ⟨OopsOs.boot console fs, none, fun _ => none, fun _ => none, fun _ => none⟩

/-- `tick` carries the registers that `schedule_handling` and its `execute` save. -/
inductive SystemEvent
  | tick (esp ebp innerEsp innerEbp : Nat)
  | key (scancode : Nat)
  | execute (cmd : List UInt8) (esp ebp : Nat)
  | halt (esp ebp : Nat)
deriving DecidableEq, Repr

/-- A condition on the running process. -/
instance (c : Option Owner) (P : Owner → Prop) [DecidablePred P] :
    Decidable (∀ o, c = some o → P o) :=
  match c with
  | none => isTrue (fun _ h => nomatch h)
  | some o => decidable_of_iff (P o) ⟨fun h _ ho => Option.some.inj ho ▸ h, fun h => h o rfl⟩

/-- A context taken from the running process is recorded for its terminal. -/
def System.preempt (s : System) (c : Context) : Fin 3 → Option Context :=
  match s.cpu with
  | none => s.preempted
  | some o => Function.update s.preempted o.term (some c)

def tickStep (s : System) (esp ebp innerEsp innerEbp : Nat) : System :=
  let c : Context := ⟨esp, ebp, s.cpu⟩
  match pitHandler s.kernel c ⟨innerEsp, innerEbp, s.cpu⟩ with
  | (k, .entered pid) =>
      { kernel := k
        cpu := some ⟨k.activeTerminal, pid⟩
        root := Function.update s.root k.activeTerminal (some pid)
        parent := Function.update s.parent pid none
        preempted := s.preempt c }
  | (k, .continued) => { s with kernel := k, preempted := s.preempt c }
  | (k, .resumed c') => { s with kernel := k, cpu := c'.owner, preempted := s.preempt c }

theorem tickStep_kernel (s : System) (esp ebp innerEsp innerEbp : Nat) :
    (tickStep s esp ebp innerEsp innerEbp).kernel =
      (pitHandler s.kernel ⟨esp, ebp, s.cpu⟩ ⟨innerEsp, innerEbp, s.cpu⟩).1 := by
  simp only [tickStep]
  split <;> rename_i hpit <;> rw [hpit]

def executeStep (s : System) (o : Owner) (cmd : List UInt8) (esp ebp : Nat) : System :=
  match execute s.kernel cmd ⟨esp, ebp, some o⟩ with
  | (k, none) => { s with kernel := k }
  | (k, some pid) =>
      { s with
        kernel := k
        cpu := some ⟨o.term, pid⟩
        parent := Function.update s.parent pid (some o.pid) }

/--
A `halt` by the process `o` that finds the control block of `slot`.  It is one
event, although its `cli` is commented out; where it goes astray, the run ends.
-/
def haltStep (s : System) (o : Owner) (slot : Fin 6) (esp ebp : Nat) : Option System :=
  match halt s.kernel slot ⟨esp, ebp, some o⟩ with
  | (_, .astray) => none
  | (k, .resumed c) => some { s with kernel := k, cpu := c.owner }
  | (k, .entered pid) =>
      some
        { s with
          kernel := k
          cpu := some ⟨o.term, pid⟩
          root :=
            if s.root o.term = some o.pid then Function.update s.root o.term (some pid)
            else s.root
          parent := Function.update s.parent pid none }

/--
One event.  The system calls are made by the process that runs, on the stack
that `tss.esp0` points into: `execute` saves an ESP of that stack, and `halt`
takes the control block at its bottom, whether or not it is the process's own.
-/
def systemStep (s : System) : SystemEvent → Option System
  | .tick esp ebp innerEsp innerEbp => some (tickStep s esp ebp innerEsp innerEbp)
  | .key scancode =>
      if KeyboardMasked s.kernel then none
      else some { s with kernel := keyboardHandler s.kernel scancode }
  | .execute cmd esp ebp =>
      if pcbSlot esp = pcbSlot s.kernel.esp0 then
        s.cpu.map (fun o => executeStep s o cmd esp ebp)
      else none
  | .halt esp ebp =>
      s.cpu.bind (fun o => (pcbSlot s.kernel.esp0).bind (fun slot => haltStep s o slot esp ebp))

end OopsOs
