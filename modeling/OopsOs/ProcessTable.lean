import OopsOs.ProcessFrames
import OopsOs.Switching

/-!
# The process table

`ProcessTable` is the part of the kernel that decides which process runs
where: which slots are occupied, which process is whose previous one, where
each context is saved and which program page is mapped.  `Kernel.table` reads
it off the kernel.

The operations on tables below are what `execute`, `halt` and the timer
handler do to it, and nothing else; `table_execute`, `table_halt` and
`table_pitHandler` say so.
-/

namespace OopsOs

open ByteMem

@[ext] structure ProcessTable where
  processNum : Fin 3 → Fin 6
  current : Fin 3 → Context
  occupants : Fin 6 → Int
  previous : Fin 6 → Fin 6
  saved : Fin 6 → Context
  number : Fin 6 → Fin 6
  page : Nat
  count : Nat
  next : Fin 3
  active : Fin 3
  activated : Bool
  masked : Bool
  shellOk : Bool

def Kernel.table (k : Kernel) : ProcessTable where
  processNum := fun t => (k.terminal t).processNum
  current := fun t => (k.terminal t).current
  occupants := k.pcbOccupants
  previous := k.processPrevious
  saved := fun p => (k.pcb p).saved
  number := fun p => (k.pcb p).processNum
  page := k.pDirectory 32
  count := k.currentRunningProcessCount
  next := k.nextTerminalInSchedule
  active := k.activeTerminal
  activated := k.scheduleActivated
  masked := k.masterBitMask.getLsbD 1
  shellOk := decide (checkValid k.fs (parse shellCommand).1 ≠ -1)

/-! ## Operations on tables -/

namespace ProcessTable

def freeSlot (T : ProcessTable) : Option (Fin 6) :=
  (List.finRange 6).find? (fun i => T.occupants i = 0)

/-- A process is started in slot `pid`, on the displayed terminal. -/
def start (T : ProcessTable) (pid : Fin 6) (c : Context) : ProcessTable :=
  { T with
    occupants := Function.update T.occupants pid (-1)
    previous := Function.update T.previous pid (T.processNum T.active)
    processNum := Function.update T.processNum T.active pid
    saved := Function.update T.saved pid c
    number := Function.update T.number pid pid
    page := programPage pid }

def execute (T : ProcessTable) (valid : Bool) (c : Context) : ProcessTable × Option (Fin 6) :=
  if valid = true then
    match T.freeSlot with
    | none => (T, none)
    | some pid => (T.start pid c, some pid)
  else (T, none)

def processTerm (T : ProcessTable) (pid : Fin 6) : Option (Fin 3) :=
  (List.finRange 3).find? (fun i => T.processNum i = pid)

def free (T : ProcessTable) (pid : Fin 6) : ProcessTable :=
  { T with occupants := Function.update T.occupants pid 0 }

def returnToParent (T : ProcessTable) (slot : Fin 6) (term : Fin 3) (pid : Fin 6) :
    ProcessTable × HaltEnd :=
  ({ T with
      processNum := Function.update T.processNum term (T.previous pid)
      page := programPage (T.previous pid) },
    .resumed (T.saved slot))

def halt (T : ProcessTable) (slot : Fin 6) (c : Context) : ProcessTable × HaltEnd :=
  match T.processTerm (T.number slot) with
  | none => (T, .astray)
  | some term =>
      let pid := T.processNum term
      if pid = 0 ∨ pid = 1 ∨ pid = 2 then
        match (T.free pid).execute T.shellOk c with
        | (T, some new) => (T, .entered new)
        | (T, none) => T.returnToParent slot term pid
      else (T.free pid).returnToParent slot term pid

def saveContext (T : ProcessTable) (t : Fin 3) (c : Context) : ProcessTable :=
  { T with current := Function.update T.current t c }

def launchShell (T : ProcessTable) (count : Fin 3) (c inner : Context) : ProcessTable × TickEnd :=
  let T := if T.count ≠ 0 then T.saveContext T.active c else T
  let T := { T with active := count, count := T.count + 1 }
  match T.execute T.shellOk inner with
  | (T, some pid) => (T, .entered pid)
  | (T, none) => (T, .continued)

def launchesDone (T : ProcessTable) (c : Context) : ProcessTable × TickEnd :=
  ({ T.saveContext 2 c with count := T.count + 1, active := 0 }, .continued)

def roundRobin (T : ProcessTable) (c : Context) : ProcessTable × TickEnd :=
  let T := T.saveContext T.next c
  let T := { T with next := T.next + 1 }
  ({ T with
      masked := decide (T.next ≠ T.active)
      page := programPage (T.processNum T.next) },
    .resumed (T.current T.next))

def schedule (T : ProcessTable) (c inner : Context) : ProcessTable × TickEnd :=
  if T.activated = true then
    if h : T.count < 3 then T.launchShell ⟨T.count, h⟩ c inner
    else if T.count = 3 then T.launchesDone c
    else T.roundRobin c
  else (T, .continued)

def tick (T : ProcessTable) (c inner : Context) : ProcessTable × TickEnd :=
  schedule { T with masked := true } c inner

end ProcessTable

/-! ## What the kernel functions do to the table -/

theorem SameProcesses.table {k k' : Kernel} (h : SameProcesses k k') :
    k'.table = { k.table with active := k'.activeTerminal } := by
  unfold Kernel.table
  simp only [h.processNum, h.current, h.count, h.next, h.activated, h.pcbOccupants,
    h.processPrevious, h.pcb, h.pDirectory, h.mask, h.fs]

theorem SameProcesses.table_eq {k k' : Kernel} (h : SameProcesses k k')
    (hactive : k'.activeTerminal = k.activeTerminal) : k'.table = k.table := by
  rw [h.table, hactive]
  rfl

theorem table_printf (k : Kernel) (text : String) : (k.printf text).table = k.table :=
  (SameProcesses.printf k text).table_eq (by simp)

theorem table_reportName (k : Kernel) (fname : List UInt8) :
    (reportName k fname).table = k.table := by
  unfold reportName
  split_ifs
  · exact table_printf k _
  · rfl

theorem table_saveAndSwitchTerm (k : Kernel) (n : Fin 3) :
    (saveAndSwitchTerm k n).table = { k.table with active := n } := by
  rw [(saveAndSwitchTerm_same k n).table, saveAndSwitchTerm_activeTerminal]

theorem table_saveContext (k : Kernel) (t : Fin 3) (c : Context) :
    (saveContext k t c).table = k.table.saveContext t c := by
  refine ProcessTable.ext (funext fun u => ?_) (funext fun u => ?_) rfl rfl rfl rfl rfl rfl rfl
    rfl rfl rfl rfl
  · by_cases hu : u = t <;>
      simp [saveContext, Kernel.table, ProcessTable.saveContext, Function.update_apply, hu]
  · by_cases hu : u = t <;>
      simp [saveContext, Kernel.table, ProcessTable.saveContext, hu]

theorem table_start (k : Kernel) (pid : Fin 6) (args : List UInt8) (saved : Context) :
    (enterProcess (allocateSlot k pid) pid args saved).table = k.table.start pid saved := by
  refine ProcessTable.ext (funext fun u => ?_) (funext fun u => ?_) rfl rfl (funext fun p => ?_)
    (funext fun p => ?_) ?_ rfl rfl rfl rfl rfl rfl
  · by_cases hu : u = k.activeTerminal <;>
      simp [enterProcess, allocateSlot, initPcb, setDescriptor, Kernel.table, ProcessTable.start, hu]
  · by_cases hu : u = k.activeTerminal <;>
      simp [enterProcess, allocateSlot, initPcb, setDescriptor, Kernel.table, ProcessTable.start, hu]
  · by_cases hp : p = pid <;>
      simp [enterProcess, allocateSlot, initPcb, setDescriptor, Kernel.table, ProcessTable.start, hp]
  · by_cases hp : p = pid <;>
      simp [enterProcess, allocateSlot, initPcb, setDescriptor, Kernel.table, ProcessTable.start, hp]
  · simp [enterProcess, allocateSlot, initPcb, setDescriptor, Kernel.table, ProcessTable.start]

/-- `execute` on the kernel is `execute` on its table, for a valid or an invalid program. -/
theorem table_execute (k : Kernel) (cmd : List UInt8) (saved : Context) :
    let valid := decide (checkValid k.fs (parse cmd).1 ≠ -1)
    (execute k cmd saved).1.table = (k.table.execute valid saved).1 ∧
      (execute k cmd saved).2 = (k.table.execute valid saved).2 := by
  intro valid
  have hfree : k.table.freeSlot = freeSlot k := rfl
  rcases execute_cases k cmd saved with ⟨hfail, text, heq⟩ | ⟨pid, hvalid, hslot, heq⟩
  · have hrefused : k.table.execute valid saved = (k.table, none) := by
      unfold ProcessTable.execute
      rcases hfail with hinvalid | hfull
      · rw [if_neg (by simp [valid, hinvalid])]
      · rw [hfree, hfull]
        split_ifs <;> rfl
    rw [heq, hrefused]
    exact ⟨by rw [table_printf, table_reportName], rfl⟩
  · have hstarted : k.table.execute valid saved = (k.table.start pid saved, some pid) := by
      unfold ProcessTable.execute
      rw [if_pos (decide_eq_true hvalid), hfree, hslot]
    rw [heq, hstarted]
    exact ⟨by rw [table_start, table_reportName], rfl⟩

theorem table_closeDescriptors (k : Kernel) (slot : Fin 6) :
    (closeDescriptors k slot).table = k.table := by
  refine ProcessTable.ext rfl rfl rfl rfl (funext fun p => ?_) (funext fun p => ?_) rfl rfl rfl
    rfl rfl rfl rfl
  · by_cases hp : p = slot <;> simp [closeDescriptors, Kernel.table, hp]
  · by_cases hp : p = slot <;> simp [closeDescriptors, Kernel.table, hp]

theorem table_returnToParent (k : Kernel) (slot : Fin 6) (term : Fin 3) (pid : Fin 6) :
    (returnToParent k slot term pid).1.table = (k.table.returnToParent slot term pid).1 ∧
      (returnToParent k slot term pid).2 = (k.table.returnToParent slot term pid).2 := by
  refine ⟨?_, rfl⟩
  refine ProcessTable.ext (funext fun u => ?_) (funext fun u => ?_) rfl rfl rfl rfl ?_ rfl rfl rfl
    rfl rfl rfl
  · by_cases hu : u = term <;>
      simp [returnToParent, Kernel.table, ProcessTable.returnToParent, hu]
  · by_cases hu : u = term <;>
      simp [returnToParent, Kernel.table, ProcessTable.returnToParent, hu]
  · simp [returnToParent, Kernel.table, ProcessTable.returnToParent]

theorem table_freedKernel (k : Kernel) (slot : Fin 6) (term : Fin 3) :
    (freedKernel k slot term).table = k.table.free (k.terminal term).processNum := by
  have hfreed : (freedKernel k slot term).table =
      (closeDescriptors k slot).table.free (k.terminal term).processNum := rfl
  rw [hfreed, table_closeDescriptors]

theorem table_restartShell (k : Kernel) (slot : Fin 6) (term : Fin 3) (saved : Context) :
    let T := k.table.free (k.terminal term).processNum
    (restartShell k slot term saved).1.table = (T.execute k.table.shellOk saved).1 ∧
      (restartShell k slot term saved).2 = (T.execute k.table.shellOk saved).2 := by
  intro T
  obtain ⟨htable, hend⟩ := table_execute ((freedKernel k slot term).printf "Restarting Shell\n")
    shellCommand saved
  have hok : decide (checkValid ((freedKernel k slot term).printf "Restarting Shell\n").fs
      (parse shellCommand).1 ≠ -1) = k.table.shellOk := by
    rw [Kernel.printf_fs]
    rfl
  rw [hok, table_printf, table_freedKernel] at htable hend
  exact ⟨htable, hend⟩

/-- `halt` on the kernel is `halt` on its table. -/
theorem table_halt (k : Kernel) (slot : Fin 6) (saved : Context) :
    (halt k slot saved).1.table = (k.table.halt slot saved).1 ∧
      (halt k slot saved).2 = (k.table.halt slot saved).2 := by
  have hterm : k.table.processTerm (k.table.number slot) =
      processTerm k (k.pcb slot).processNum := rfl
  have hpid : ∀ term, k.table.processNum term = (k.terminal term).processNum := fun _ => rfl
  unfold ProcessTable.halt
  rcases halt_cases k slot saved with
    ⟨hnone, heq⟩ | ⟨term, hsome, ⟨hhigh, heq⟩ | ⟨hlow, hrestart⟩⟩
  · rw [heq, hterm, hnone]
    exact ⟨table_closeDescriptors k slot, rfl⟩
  · rw [heq, hterm, hsome]
    simp only [hpid]
    rw [if_neg (by omega), ← table_freedKernel k slot term]
    exact table_returnToParent _ slot term _
  · obtain ⟨htable, hend⟩ := table_restartShell k slot term saved
    rw [hterm, hsome]
    simp only [hpid]
    rw [if_pos (by omega)]
    rcases hrestart with ⟨k', hexec, heq⟩ | ⟨k', new, hexec, heq⟩
    · rw [hexec] at htable hend
      rw [heq, ← Prod.mk.eta (p := ProcessTable.execute _ _ _), ← htable, ← hend]
      exact table_returnToParent k' slot term _
    · rw [hexec] at htable hend
      rw [heq, ← Prod.mk.eta (p := ProcessTable.execute _ _ _), ← htable, ← hend]
      exact ⟨rfl, rfl⟩

theorem table_disableIrq (k : Kernel) :
    (disableIrq k 0x01).table = { k.table with masked := true } := by
  have hmasked : (disableIrq k 0x01).masterBitMask.getLsbD 1 = true := keyboardMasked_disableIrq k
  refine ProcessTable.ext rfl rfl rfl rfl rfl rfl rfl rfl rfl rfl rfl ?_ rfl
  exact hmasked

theorem table_enableIrq (k : Kernel) :
    (enableIrq k 0x01).table = { k.table with masked := false } := by
  have hmasked : ¬ (enableIrq k 0x01).masterBitMask.getLsbD 1 = true :=
    not_keyboardMasked_enableIrq k
  refine ProcessTable.ext rfl rfl rfl rfl rfl rfl rfl rfl rfl rfl rfl ?_ rfl
  exact Bool.eq_false_iff.mpr hmasked

theorem table_maskKeyboard (k : Kernel) :
    (maskKeyboard k).table = { k.table with masked := decide (k.table.next ≠ k.table.active) } := by
  have hnext : k.table.next = k.nextTerminalInSchedule := rfl
  have hactive : k.table.active = k.activeTerminal := rfl
  unfold maskKeyboard
  rw [hnext, hactive]
  split_ifs with h
  · rw [table_disableIrq, decide_eq_true h]
  · rw [table_enableIrq, decide_eq_false h]

theorem table_launchKernel (k : Kernel) (n : Fin 3) (c : Context) :
    let T := if k.table.count ≠ 0 then k.table.saveContext k.table.active c else k.table
    (launchKernel k n c).table = { T with active := n, count := T.count + 1 } := by
  intro T
  obtain ⟨k₁, hk₁⟩ : ∃ k₁,
      (if k.currentRunningProcessCount ≠ 0 then saveContext k k.activeTerminal c else k) = k₁ :=
    ⟨_, rfl⟩
  have hsaved : k₁.table = T := by
    have hT : T = if k.currentRunningProcessCount ≠ 0 then
        k.table.saveContext k.activeTerminal c else k.table := rfl
    rw [← hk₁, hT]
    split_ifs
    · exact table_saveContext k _ c
    · rfl
  have hswitched : ((saveAndSwitchTerm k₁ n).setActive n).table = { T with active := n } := by
    rw [(SameProcesses.setActive (saveAndSwitchTerm k₁ n) n).table, table_saveAndSwitchTerm,
      hsaved]
    rfl
  have hcount : ((saveAndSwitchTerm k₁ n).setActive n).currentRunningProcessCount = T.count :=
    congrArg ProcessTable.count hswitched
  unfold launchKernel
  simp only [hk₁, hcount]
  exact congrArg (fun T' : ProcessTable => { T' with count := T.count + 1 }) hswitched

theorem table_launchShell (k : Kernel) (n : Fin 3) (c inner : Context) :
    (launchShell k n c inner).1.table = (k.table.launchShell n c inner).1 ∧
      (launchShell k n c inner).2 = (k.table.launchShell n c inner).2 := by
  have hlaunch := table_launchKernel k n c
  obtain ⟨htable, hend⟩ := table_execute (launchKernel k n c) shellCommand inner
  have hok : decide (checkValid (launchKernel k n c).fs (parse shellCommand).1 ≠ -1) =
      (launchKernel k n c).table.shellOk := rfl
  rw [hok] at htable hend
  rw [launchShell_eq, htable, hend]
  unfold ProcessTable.launchShell
  simp only at hlaunch ⊢
  rw [← hlaunch]
  have hshell : (if k.table.count ≠ 0 then k.table.saveContext k.table.active c
      else k.table).shellOk = (launchKernel k n c).table.shellOk := by
    rw [hlaunch]
  rw [hshell]
  obtain ⟨T, r, hexec⟩ : ∃ T r, (launchKernel k n c).table.execute
      (launchKernel k n c).table.shellOk inner = (T, r) := ⟨_, _, rfl⟩
  rw [hexec]
  cases r with
  | none => exact ⟨rfl, rfl⟩
  | some pid => exact ⟨rfl, rfl⟩

theorem table_launchesDone (k : Kernel) (c : Context) :
    (launchesDone k c).1.table = (k.table.launchesDone c).1 ∧
      (launchesDone k c).2 = (k.table.launchesDone c).2 := by
  refine ⟨?_, rfl⟩
  unfold launchesDone ProcessTable.launchesDone
  simp only
  rw [table_saveAndSwitchTerm, ← table_saveContext]
  rfl

theorem table_mapProcess (k : Kernel) (pid : Fin 6) :
    (mapProcess k pid).table = { k.table with page := programPage pid } := by
  refine ProcessTable.ext rfl rfl rfl rfl rfl rfl ?_ rfl rfl rfl rfl rfl rfl
  simp [mapProcess, Kernel.table]

theorem table_roundRobin (k : Kernel) (c : Context) :
    (roundRobin k c).1.table = (k.table.roundRobin c).1 ∧
      (roundRobin k c).2 = (k.table.roundRobin c).2 := by
  obtain ⟨k₁, hk₁⟩ : ∃ k₁, saveContext k k.nextTerminalInSchedule c = k₁ := ⟨_, rfl⟩
  have hsaved : k.table.saveContext k.table.next c = k₁.table := by
    rw [← hk₁, table_saveContext]
    rfl
  obtain ⟨k₂, hk₂⟩ : ∃ k₂,
      { k₁ with nextTerminalInSchedule := k₁.nextTerminalInSchedule + 1 } = k₂ := ⟨_, rfl⟩
  have hnext : k₂.table = { k₁.table with next := k₁.table.next + 1 } := by
    rw [← hk₂]
    rfl
  have hmasked := table_maskKeyboard k₂
  rw [hnext] at hmasked
  obtain ⟨k₃, hk₃⟩ : ∃ k₃, maskKeyboard k₂ = k₃ := ⟨_, rfl⟩
  rw [hk₃] at hmasked
  have hround : roundRobin k c =
      (mapProcess k₃ (k₃.table.processNum k₃.table.next),
        .resumed (k₃.table.current k₃.table.next)) := by
    unfold roundRobin
    simp only [hk₁, hk₂, hk₃]
    rfl
  unfold ProcessTable.roundRobin
  rw [hround, hsaved]
  simp only [table_mapProcess, hmasked]
  exact ⟨trivial, trivial⟩

/-- The timer handler on the kernel is `tick` on its table. -/
theorem table_pitHandler (k : Kernel) (c inner : Context) :
    (pitHandler k c inner).1.table = (k.table.tick c inner).1 ∧
      (pitHandler k c inner).2 = (k.table.tick c inner).2 := by
  obtain ⟨k₁, hk₁⟩ : ∃ k₁, disableIrq k 0x01 = k₁ := ⟨_, rfl⟩
  have hmasked : k₁.table = { k.table with masked := true } := by
    rw [← hk₁]
    exact table_disableIrq k
  unfold pitHandler ProcessTable.tick
  rw [hk₁, ← hmasked]
  unfold scheduleHandling ProcessTable.schedule
  have hactivated : k₁.table.activated = k₁.scheduleActivated := rfl
  have hcount : k₁.table.count = k₁.currentRunningProcessCount := rfl
  simp only [hactivated, hcount]
  by_cases ha : k₁.scheduleActivated = true
  · rw [if_pos ha, if_pos ha]
    by_cases hlt : k₁.currentRunningProcessCount < 3
    · rw [dif_pos hlt, dif_pos hlt]
      exact table_launchShell k₁ ⟨_, hlt⟩ c inner
    · rw [dif_neg hlt, dif_neg hlt]
      by_cases hthree : k₁.currentRunningProcessCount = 3
      · rw [if_pos hthree, if_pos hthree]
        exact table_launchesDone k₁ c
      · rw [if_neg hthree, if_neg hthree]
        exact table_roundRobin k₁ c
  · rw [if_neg ha, if_neg ha]
    exact ⟨table_printf k₁ _, rfl⟩

end OopsOs
