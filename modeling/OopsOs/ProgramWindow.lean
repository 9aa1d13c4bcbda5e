import OopsOs.ProcessFrames

/-!
# The program window and the kernel-entry stack

`execute`, `halt` and the scheduler all store into entry 32 of the page
directory, the window through which the running program is seen, and into
`tss.esp0`, the stack pointer of the next kernel entry.  For each of the three
functions there is the process it selects, by the pid that it computes, and
what it leaves in the two places: the page directory changes in the one entry
only, and the stack pointer is set together with it, except by a `halt` that
goes back to a parent.
-/

namespace OopsOs

open ByteMem

/-- The page directory once the window has been set for a process, if one is selected. -/
def setWindow (pDirectory : Nat → Nat) (p : Option (Fin 6)) : Nat → Nat :=
  p.elim pDirectory (fun p => Function.update pDirectory 32 (programPage p))

/-- The kernel-entry stack pointer once it has been set for a process, if one is selected. -/
def setStack (esp0 : Nat) (p : Option (Fin 6)) : Nat := p.elim esp0 kernelStack

@[simp] theorem setWindow_none (d : Nat → Nat) : setWindow d none = d := rfl

@[simp] theorem setWindow_some (d : Nat → Nat) (p : Fin 6) :
    setWindow d (some p) = Function.update d 32 (programPage p) := rfl

@[simp] theorem setStack_none (esp0 : Nat) : setStack esp0 none = esp0 := rfl

@[simp] theorem setStack_some (esp0 : Nat) (p : Fin 6) : setStack esp0 (some p) = kernelStack p :=
  rfl

/-- Two kernels have the same page directory and the same `tss.esp0`. -/
structure SameWindow (k k' : Kernel) : Prop where
  pDirectory : k'.pDirectory = k.pDirectory
  esp0 : k'.esp0 = k.esp0

theorem SameWindow.trans {k k' k'' : Kernel} (h : SameWindow k k') (h' : SameWindow k' k'') :
    SameWindow k k'' :=
  ⟨h'.pDirectory.trans h.pDirectory, h'.esp0.trans h.esp0⟩

/-- Output and terminal switches touch neither. -/
theorem Edits.window {k k' : Kernel} (h : Edits k k') : SameWindow k k' :=
  ⟨h.same.pDirectory, h.esp0⟩

theorem reportName_window (k : Kernel) (fname : List UInt8) : SameWindow k (reportName k fname) := by
  unfold reportName
  split_ifs
  · exact (Edits.onConsole k _).window
  · exact (Edits.refl k).window

theorem saveAndSwitchTerm_window (k : Kernel) (n : Fin 3) :
    SameWindow k (saveAndSwitchTerm k n) :=
  (saveAndSwitchTerm_edits k n).window

theorem maskKeyboard_window (k : Kernel) : SameWindow k (maskKeyboard k) := by
  unfold maskKeyboard
  split_ifs
  · rw [disableIrq_keyboard]
    exact ⟨rfl, rfl⟩
  · rw [enableIrq_keyboard]
    exact ⟨rfl, rfl⟩

/-! ## `execute` -/

theorem enterProcess_window (k : Kernel) (pid : Fin 6) (args : List UInt8) (saved : Context) :
    (enterProcess k pid args saved).pDirectory = setWindow k.pDirectory (some pid) ∧
      (enterProcess k pid args saved).esp0 = kernelStack pid :=
  ⟨rfl, rfl⟩

/-- `execute` selects the process it starts. -/
theorem execute_window (k : Kernel) (cmd : List UInt8) (saved : Context) :
    (execute k cmd saved).1.pDirectory = setWindow k.pDirectory (execute k cmd saved).2 ∧
      (execute k cmd saved).1.esp0 = setStack k.esp0 (execute k cmd saved).2 := by
  have hname := reportName_window k (parse cmd).1
  rcases execute_cases k cmd saved with ⟨-, text, heq⟩ | ⟨pid, -, -, heq⟩
  · rw [heq]
    exact ⟨hname.pDirectory, hname.esp0⟩
  · rw [heq]
    obtain ⟨hdir, hesp⟩ := enterProcess_window
      (allocateSlot (reportName k (parse cmd).1) pid) pid (parse cmd).2 saved
    refine ⟨?_, hesp⟩
    rw [hdir]
    simp only [setWindow_some]
    congr 1
    exact hname.pDirectory

/-! ## `halt` -/

/-- The process that `halt` selects: a restarted shell, or the parent by `process_previous`. -/
def haltSelects (k : Kernel) (slot : Fin 6) (saved : Context) : Option (Fin 6) :=
  match (halt k slot saved).2 with
  | .astray => none
  | .entered pid => some pid
  | .resumed _ =>
      (processTerm k (k.pcb slot).processNum).map (fun term =>
        ((halt k slot saved).1.terminal term).processNum)

theorem returnToParent_window (k : Kernel) (slot : Fin 6) (term : Fin 3) (pid : Fin 6) :
    (returnToParent k slot term pid).1.pDirectory =
        setWindow k.pDirectory
          (some ((returnToParent k slot term pid).1.terminal term).processNum) ∧
      (returnToParent k slot term pid).1.esp0 = (k.pcb slot).saved.esp ∧
      (returnToParent k slot term pid).2 = .resumed (k.pcb slot).saved :=
  ⟨rfl, rfl, rfl⟩

theorem restartShell_window {k k' : Kernel} {slot : Fin 6} {term : Fin 3} {saved : Context}
    {r : Option (Fin 6)} (h : restartShell k slot term saved = (k', r)) :
    k'.pDirectory = setWindow k.pDirectory r ∧ k'.esp0 = setStack k.esp0 r := by
  have hwindow := execute_window ((freedKernel k slot term).printf "Restarting Shell\n")
    shellCommand saved
  rw [← restartShell, h] at hwindow
  exact hwindow

theorem halt_window (k : Kernel) (slot : Fin 6) (saved : Context) :
    (halt k slot saved).1.pDirectory = setWindow k.pDirectory (haltSelects k slot saved) := by
  unfold haltSelects
  rcases halt_cases k slot saved with
    ⟨-, heq⟩ | ⟨term, hterm, ⟨-, heq⟩ | ⟨-, ⟨k', hexec, heq⟩ | ⟨k', new, hexec, heq⟩⟩⟩
  · rw [heq]
    rfl
  · obtain ⟨hdir, -, hend⟩ := returnToParent_window (freedKernel k slot term) slot term
      (k.terminal term).processNum
    rw [heq, hend, hdir, hterm]
    rfl
  · obtain ⟨hdir, -, hend⟩ := returnToParent_window k' slot term (k.terminal term).processNum
    rw [heq, hend, hdir, hterm, (restartShell_window hexec).1]
    rfl
  · rw [heq, (restartShell_window hexec).1]

/-- A failed `execute("shell")` leaves the control blocks alone. -/
theorem restartShell_pcb {k k' : Kernel} {slot : Fin 6} {term : Fin 3} {saved : Context}
    (h : restartShell k slot term saved = (k', none)) : k'.pcb = (closeDescriptors k slot).pcb := by
  rcases execute_cases ((freedKernel k slot term).printf "Restarting Shell\n") shellCommand saved
    with ⟨-, text, heq⟩ | ⟨pid, -, -, heq⟩
  · rw [← restartShell, h] at heq
    rw [(Prod.mk.inj heq).1]
    simp [freedKernel]
  · rw [← restartShell, h] at heq
    cases (Prod.mk.inj heq).2

/--
The stack pointer after `halt`: that of a restarted shell, or, on the way back
to the parent, the ESP that the parent's `execute` has saved.
-/
theorem halt_stack (k : Kernel) (slot : Fin 6) (saved : Context) :
    (∀ p, (halt k slot saved).2 = .entered p → (halt k slot saved).1.esp0 = kernelStack p) ∧
      ∀ c, (halt k slot saved).2 = .resumed c →
        c = (k.pcb slot).saved ∧ (halt k slot saved).1.esp0 = c.esp := by
  have hsaved : ((closeDescriptors k slot).pcb slot).saved = (k.pcb slot).saved := by
    simp [closeDescriptors]
  rcases halt_cases k slot saved with
    ⟨-, heq⟩ | ⟨term, -, ⟨-, heq⟩ | ⟨-, ⟨k', hexec, heq⟩ | ⟨k', new, hexec, heq⟩⟩⟩
  · rw [heq]
    exact ⟨fun _ h => (by cases h), fun _ h => (by cases h)⟩
  · rw [heq]
    refine ⟨fun _ h => (by cases h), ?_⟩
    intro c hc
    obtain rfl := HaltEnd.resumed.inj hc
    exact ⟨hsaved, rfl⟩
  · rw [heq]
    refine ⟨fun _ h => (by cases h), ?_⟩
    intro c hc
    obtain rfl := HaltEnd.resumed.inj hc
    refine ⟨?_, rfl⟩
    rw [← hsaved, ← restartShell_pcb hexec]
    rfl
  · rw [heq]
    refine ⟨?_, fun _ h => (by cases h)⟩
    intro p hp
    obtain rfl := HaltEnd.entered.inj hp
    exact (restartShell_window hexec).2

/-! ## The timer -/

/-- The process that a tick selects: a new shell, or that of the terminal scheduled next. -/
def tickSelects (k : Kernel) (c inner : Context) : Option (Fin 6) :=
  match (pitHandler k c inner).2 with
  | .continued => none
  | .entered pid => some pid
  | .resumed _ =>
      some ((pitHandler k c inner).1.terminal
        (pitHandler k c inner).1.nextTerminalInSchedule).processNum

theorem launchKernel_window (k : Kernel) (count : Fin 3) (c : Context) :
    SameWindow k (launchKernel k count c) := by
  unfold launchKernel
  simp only
  split_ifs
  · have hsave : SameWindow k (saveContext k k.activeTerminal c) := ⟨rfl, rfl⟩
    exact hsave.trans ((saveAndSwitchTerm_window _ count).trans ⟨rfl, rfl⟩)
  · exact (saveAndSwitchTerm_window k count).trans ⟨rfl, rfl⟩

/-- What a tick leaves, by phase of the scheduler. -/
theorem pitHandler_window (k : Kernel) (c inner : Context) :
    (pitHandler k c inner).1.pDirectory = setWindow k.pDirectory (tickSelects k c inner) ∧
      (pitHandler k c inner).1.esp0 = setStack k.esp0 (tickSelects k c inner) := by
  have hmask : SameWindow k (disableIrq k 0x01) := by
    rw [disableIrq_keyboard]
    exact ⟨rfl, rfl⟩
  unfold tickSelects pitHandler
  obtain ⟨k₁, hk₁⟩ : ∃ k₁, disableIrq k 0x01 = k₁ := ⟨_, rfl⟩
  rw [hk₁] at hmask ⊢
  unfold scheduleHandling
  split_ifs with hactive hlaunch hdone
  · -- a shell is launched
    have hlaunched := launchKernel_window k₁ ⟨k₁.currentRunningProcessCount, hlaunch⟩ c
    have hexec := execute_window (launchKernel k₁ ⟨k₁.currentRunningProcessCount, hlaunch⟩ c)
      shellCommand inner
    rw [(hmask.trans hlaunched).pDirectory, (hmask.trans hlaunched).esp0] at hexec
    rw [launchShell_eq]
    simp only
    cases hr : (execute (launchKernel k₁ ⟨k₁.currentRunningProcessCount, hlaunch⟩ c)
      shellCommand inner).2 with
    | none =>
        rw [hr] at hexec
        exact hexec
    | some pid =>
        rw [hr] at hexec
        exact hexec
  · -- all shells are there: back to terminal 0
    have hswitch := saveAndSwitchTerm_window
      { saveContext k₁ 2 c with
        currentRunningProcessCount := (saveContext k₁ 2 c).currentRunningProcessCount + 1 } 0
    exact ⟨hswitch.pDirectory.trans hmask.pDirectory, hswitch.esp0.trans hmask.esp0⟩
  · -- round robin
    have hkeyboard := maskKeyboard_window
      { saveContext k₁ k₁.nextTerminalInSchedule c with
        nextTerminalInSchedule :=
          (saveContext k₁ k₁.nextTerminalInSchedule c).nextTerminalInSchedule + 1 }
    refine ⟨?_, rfl⟩
    have hdir := hkeyboard.pDirectory.trans hmask.pDirectory
    simp only [roundRobin, mapProcess, setWindow_some]
    congr 1
  · constructor
    · simpa using hmask.pDirectory
    · simpa using hmask.esp0

end OopsOs
