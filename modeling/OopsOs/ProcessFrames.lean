import OopsOs.Schedule

/-!
# What leaves the process table alone

`SameProcesses` says that two kernels have the same processes: the same
table, control blocks, saved contexts and scheduler state.  Console output,
terminal switches and the keyboard handler do not touch any of it.

`Edits` are the stores that these functions are made of.  What no single store
changes, none of the functions does: `Edits.same` and `Edits.esp0`.  Output and
terminal switches are made of fewer of them, the `Outputs`, which leave the
variables of `keyboard.c` alone.
-/

namespace OopsOs

open ByteMem

structure SameProcesses (k k' : Kernel) : Prop where
  processNum : ∀ t, (k'.terminal t).processNum = (k.terminal t).processNum
  current : ∀ t, (k'.terminal t).current = (k.terminal t).current
  count : k'.currentRunningProcessCount = k.currentRunningProcessCount
  next : k'.nextTerminalInSchedule = k.nextTerminalInSchedule
  activated : k'.scheduleActivated = k.scheduleActivated
  pcbOccupants : k'.pcbOccupants = k.pcbOccupants
  processPrevious : k'.processPrevious = k.processPrevious
  pcb : k'.pcb = k.pcb
  pDirectory : k'.pDirectory = k.pDirectory
  mask : k'.masterBitMask = k.masterBitMask
  fs : k'.fs = k.fs

namespace SameProcesses

variable {k k' k'' : Kernel}

theorem refl (k : Kernel) : SameProcesses k k :=
  ⟨fun _ => rfl, fun _ => rfl, rfl, rfl, rfl, rfl, rfl, rfl, rfl, rfl, rfl⟩

theorem trans (h : SameProcesses k k') (h' : SameProcesses k' k'') : SameProcesses k k'' where
  processNum t := (h'.processNum t).trans (h.processNum t)
  current t := (h'.current t).trans (h.current t)
  count := h'.count.trans h.count
  next := h'.next.trans h.next
  activated := h'.activated.trans h.activated
  pcbOccupants := h'.pcbOccupants.trans h.pcbOccupants
  processPrevious := h'.processPrevious.trans h.processPrevious
  pcb := h'.pcb.trans h.pcb
  pDirectory := h'.pDirectory.trans h.pDirectory
  mask := h'.mask.trans h.mask
  fs := h'.fs.trans h.fs

theorem modifyTerminal (k : Kernel) (t : Fin 3) {f : Terminal → Terminal}
    (hnum : ∀ T, (f T).processNum = T.processNum) (hcur : ∀ T, (f T).current = T.current) :
    SameProcesses k (k.modifyTerminal t f) := by
  refine ⟨?_, ?_, rfl, rfl, rfl, rfl, rfl, rfl, rfl, rfl, rfl⟩
  · intro u
    by_cases hu : u = t
    · subst hu
      simp [hnum]
    · simp [hu]
  · intro u
    by_cases hu : u = t
    · subst hu
      simp [hcur]
    · simp [hu]

theorem onConsole (k : Kernel) (f : Console → Console) : SameProcesses k (k.onConsole f) :=
  ⟨fun _ => rfl, fun _ => rfl, rfl, rfl, rfl, rfl, rfl, rfl, rfl, rfl, rfl⟩

theorem setMem (k : Kernel) (m : Mem) : SameProcesses k (k.setMem m) :=
  ⟨fun _ => rfl, fun _ => rfl, rfl, rfl, rfl, rfl, rfl, rfl, rfl, rfl, rfl⟩

theorem setActive (k : Kernel) (n : Fin 3) : SameProcesses k (k.setActive n) :=
  ⟨fun _ => rfl, fun _ => rfl, rfl, rfl, rfl, rfl, rfl, rfl, rfl, rfl, rfl⟩

theorem setCursor (k : Kernel) (counter offsetter : Int) :
    SameProcesses k
      { k with
        leftRightCursorCounter := counter
        leftRightCursorOffsetter := offsetter } :=
  ⟨fun _ => rfl, fun _ => rfl, rfl, rfl, rfl, rfl, rfl, rfl, rfl, rfl, rfl⟩

theorem setStatus (k : Kernel) (ctrl shift alt caps : Bool) :
    SameProcesses k
      { k with
        ctrlStatus := ctrl
        shiftStatus := shift
        altStatus := alt
        capsStatus := caps } :=
  ⟨fun _ => rfl, fun _ => rfl, rfl, rfl, rfl, rfl, rfl, rfl, rfl, rfl, rfl⟩

theorem printf (k : Kernel) (text : String) : SameProcesses k (k.printf text) :=
  onConsole k _

end SameProcesses

/-- The stores of console output, terminal switches and the keyboard handler. -/
inductive Edits : Kernel → Kernel → Prop
  | refl (k : Kernel) : Edits k k
  | trans {k k' k'' : Kernel} : Edits k k' → Edits k' k'' → Edits k k''
  | modifyTerminal (k : Kernel) (t : Fin 3) {f : Terminal → Terminal}
      (hnum : ∀ T, (f T).processNum = T.processNum) (hcur : ∀ T, (f T).current = T.current) :
      Edits k (k.modifyTerminal t f)
  | onConsole (k : Kernel) (f : Console → Console) : Edits k (k.onConsole f)
  | setMem (k : Kernel) (m : Mem) : Edits k (k.setMem m)
  | setActive (k : Kernel) (n : Fin 3) : Edits k (k.setActive n)
  | setCursor (k : Kernel) (counter offsetter : Int) :
      Edits k
        { k with
          leftRightCursorCounter := counter
          leftRightCursorOffsetter := offsetter }
  | setStatus (k : Kernel) (ctrl shift alt caps : Bool) :
      Edits k
        { k with
          ctrlStatus := ctrl
          shiftStatus := shift
          altStatus := alt
          capsStatus := caps }

namespace Edits

theorem same {k k' : Kernel} (h : Edits k k') : SameProcesses k k' := by
  induction h with
  | refl k => exact SameProcesses.refl k
  | trans _ _ ih ih' => exact ih.trans ih'
  | modifyTerminal k t hnum hcur => exact SameProcesses.modifyTerminal k t hnum hcur
  | onConsole k f => exact SameProcesses.onConsole k f
  | setMem k m => exact SameProcesses.setMem k m
  | setActive k n => exact SameProcesses.setActive k n
  | setCursor k counter offsetter => exact SameProcesses.setCursor k counter offsetter
  | setStatus k ctrl shift alt caps => exact SameProcesses.setStatus k ctrl shift alt caps

theorem esp0 {k k' : Kernel} (h : Edits k k') : k'.esp0 = k.esp0 := by
  induction h with
  | trans _ _ ih ih' => exact ih'.trans ih
  | _ => rfl

/-- Both branches of a test. -/
theorem ite {p : Prop} [Decidable p] {k k₁ k₂ : Kernel} (h₁ : Edits k k₁) (h₂ : Edits k k₂) :
    Edits k (if p then k₁ else k₂) := by
  split_ifs
  · exact h₁
  · exact h₂

end Edits

/-- The stores of console output and of terminal switches. -/
inductive Outputs : Kernel → Kernel → Prop
  | refl (k : Kernel) : Outputs k k
  | trans {k k' k'' : Kernel} : Outputs k k' → Outputs k' k'' → Outputs k k''
  | modifyTerminal (k : Kernel) (t : Fin 3) {f : Terminal → Terminal}
      (hnum : ∀ T, (f T).processNum = T.processNum) (hcur : ∀ T, (f T).current = T.current) :
      Outputs k (k.modifyTerminal t f)
  | onConsole (k : Kernel) (f : Console → Console) : Outputs k (k.onConsole f)
  | setMem (k : Kernel) (m : Mem) : Outputs k (k.setMem m)
  | setActive (k : Kernel) (n : Fin 3) : Outputs k (k.setActive n)

/-- The variables of `keyboard.c` are the same. -/
structure SameKeyboard (k k' : Kernel) : Prop where
  shift : k'.shiftStatus = k.shiftStatus
  alt : k'.altStatus = k.altStatus
  caps : k'.capsStatus = k.capsStatus
  ctrl : k'.ctrlStatus = k.ctrlStatus
  counter : k'.leftRightCursorCounter = k.leftRightCursorCounter
  offsetter : k'.leftRightCursorOffsetter = k.leftRightCursorOffsetter

theorem SameKeyboard.trans {k k' k'' : Kernel} (h : SameKeyboard k k')
    (h' : SameKeyboard k' k'') : SameKeyboard k k'' :=
  ⟨h'.shift.trans h.shift, h'.alt.trans h.alt, h'.caps.trans h.caps, h'.ctrl.trans h.ctrl,
    h'.counter.trans h.counter, h'.offsetter.trans h.offsetter⟩

namespace Outputs

theorem edits {k k' : Kernel} (h : Outputs k k') : Edits k k' := by
  induction h with
  | refl k => exact Edits.refl k
  | trans _ _ ih ih' => exact ih.trans ih'
  | modifyTerminal k t hnum hcur => exact Edits.modifyTerminal k t hnum hcur
  | onConsole k f => exact Edits.onConsole k f
  | setMem k m => exact Edits.setMem k m
  | setActive k n => exact Edits.setActive k n

theorem keyboard {k k' : Kernel} (h : Outputs k k') : SameKeyboard k k' := by
  induction h with
  | trans _ _ ih ih' => exact ih.trans ih'
  | _ => exact ⟨rfl, rfl, rfl, rfl, rfl, rfl⟩

/-- Both branches of a test. -/
theorem ite {p : Prop} [Decidable p] {k k₁ k₂ : Kernel} (h₁ : Outputs k k₁) (h₂ : Outputs k k₂) :
    Outputs k (if p then k₁ else k₂) := by
  split_ifs
  · exact h₁
  · exact h₂

end Outputs

/-! ## Terminal output -/

theorem activeTerminalScrollUp_outputs (k : Kernel) (t : Fin 3) :
    Outputs k (activeTerminalScrollUp k t) := by
  unfold activeTerminalScrollUp
  exact (Outputs.setMem k _).trans
    (Outputs.modifyTerminal _ t (fun _ => rfl) (fun _ => rfl))

theorem activeTerminalHandleEnter_outputs (k : Kernel) (t : Fin 3) :
    Outputs k (activeTerminalHandleEnter k t) := by
  have hmove := Outputs.modifyTerminal k t (f := fun T =>
    { T with yPosition := T.yPosition + 1, xPosition := 0 }) (fun _ => rfl) (fun _ => rfl)
  unfold activeTerminalHandleEnter
  exact Outputs.ite (hmove.trans (activeTerminalScrollUp_outputs _ t)) hmove

theorem activeTerminalHandleTab_outputs (k : Kernel) (t : Fin 3) :
    Outputs k (activeTerminalHandleTab k t) := by
  have hmove := Outputs.modifyTerminal k t (f := fun T =>
    { T with yPosition := T.yPosition + 1, xPosition := 8 }) (fun _ => rfl) (fun _ => rfl)
  unfold activeTerminalHandleTab
  refine Outputs.ite ?_ (Outputs.ite ?_ hmove)
  · exact Outputs.modifyTerminal k t (fun _ => rfl) (fun _ => rfl)
  · exact hmove.trans (activeTerminalScrollUp_outputs _ t)

theorem activeTerminalHandleBackspace_outputs (k : Kernel) (t : Fin 3) :
    Outputs k (activeTerminalHandleBackspace k t) := by
  unfold activeTerminalHandleBackspace
  refine Outputs.trans (Outputs.ite ?_ (Outputs.ite ?_ ?_))
    (Outputs.setMem _ _)
  · exact Outputs.modifyTerminal k t (fun _ => rfl) (fun _ => rfl)
  · exact Outputs.modifyTerminal k t (fun _ => rfl) (fun _ => rfl)
  · exact Outputs.refl k

theorem activeTerminalHandleNormalChar_outputs (k : Kernel) (t : Fin 3) (c : UInt8) :
    Outputs k (activeTerminalHandleNormalChar k t c) := by
  have hstore : Outputs k (storeAtPosition k t c) := Outputs.setMem k _
  have hrow := hstore.trans (Outputs.modifyTerminal (storeAtPosition k t c) t (f := fun T =>
    { T with xPosition := 0, yPosition := T.yPosition + 1 }) (fun _ => rfl) (fun _ => rfl))
  unfold activeTerminalHandleNormalChar
  refine Outputs.ite (Outputs.ite ?_ hrow) ?_
  · exact hrow.trans (activeTerminalScrollUp_outputs _ t)
  · exact hstore.trans (Outputs.modifyTerminal _ t (fun _ => rfl) (fun _ => rfl))

theorem activeTerminalPutc_outputs (k : Kernel) (t : Fin 3) (c : UInt8) :
    Outputs k (activeTerminalPutc k t c) := by
  unfold activeTerminalPutc
  refine Outputs.ite ?_ (Outputs.ite ?_ (Outputs.ite ?_ ?_))
  · exact activeTerminalHandleEnter_outputs k t
  · exact activeTerminalHandleTab_outputs k t
  · exact activeTerminalHandleBackspace_outputs k t
  · exact activeTerminalHandleNormalChar_outputs k t c

theorem terminalPutc_outputs (k : Kernel) (c : UInt8) : Outputs k (terminalPutc k c) := by
  unfold terminalPutc
  refine Outputs.ite ?_ (Outputs.ite ?_ ?_)
  · exact Outputs.refl k
  · exact Outputs.onConsole k _
  · exact activeTerminalPutc_outputs k _ c

theorem terminalWrite_outputs (k : Kernel) (buffer : Option (Nat → UInt8)) (nbytes : Int) :
    Outputs k (terminalWrite k buffer nbytes).1 := by
  unfold terminalWrite
  cases buffer with
  | none => exact Outputs.refl k
  | some buffer =>
      simp only
      split_ifs
      · exact Outputs.refl k
      · exact Outputs.refl k
      · refine loop_invariant (fun _ k' => Outputs k k') (Outputs.refl k) ?_
        intro i k' _ hk'
        exact hk'.trans (terminalPutc_outputs k' (buffer i))

theorem terminalWrite_same (k : Kernel) (buffer : Option (Nat → UInt8)) (nbytes : Int) :
    SameProcesses k (terminalWrite k buffer nbytes).1 :=
  (terminalWrite_outputs k buffer nbytes).edits.same

/-! ## Switching and the keyboard -/

theorem saveAndSwitchTerm_outputs (k : Kernel) (n : Fin 3) :
    Outputs k (saveAndSwitchTerm k n) := by
  unfold saveAndSwitchTerm
  refine Outputs.ite (Outputs.refl k) ?_
  refine Outputs.trans ?_ (Outputs.setActive _ n)
  refine Outputs.trans ?_ (Outputs.onConsole _ _)
  refine Outputs.trans ?_ (Outputs.modifyTerminal _ _ (fun _ => rfl) (fun _ => rfl))
  exact Outputs.setMem k _

theorem saveAndSwitchTerm_edits (k : Kernel) (n : Fin 3) : Edits k (saveAndSwitchTerm k n) :=
  (saveAndSwitchTerm_outputs k n).edits

theorem saveAndSwitchTerm_same (k : Kernel) (n : Fin 3) :
    SameProcesses k (saveAndSwitchTerm k n) :=
  (saveAndSwitchTerm_edits k n).same

theorem switchKey_outputs (k : Kernel) (scancode : Nat) : Outputs k (switchKey k scancode) := by
  have hswitch : ∀ n, Outputs k ((saveAndSwitchTerm k n).setActive n) :=
    fun n => (saveAndSwitchTerm_outputs k n).trans
      (Outputs.setActive (saveAndSwitchTerm k n) n)
  unfold switchKey
  exact Outputs.ite (hswitch 0) (Outputs.ite (hswitch 1)
    (Outputs.ite (hswitch 2) (Outputs.refl k)))

theorem typeChar_outputs (k : Kernel) (c : UInt8) : Outputs k (typeChar k c) := by
  unfold typeChar
  refine Outputs.ite ?_ (Outputs.refl k)
  refine Outputs.trans ?_ (Outputs.modifyTerminal _ _ (fun _ => rfl) (fun _ => rfl))
  refine Outputs.trans ?_ (terminalWrite_outputs _ _ 1)
  exact Outputs.modifyTerminal k _ (fun _ => rfl) (fun _ => rfl)

theorem keyDefault_outputs (k : Kernel) (scancode : Nat) :
    Outputs k (keyDefault k scancode) := by
  have hswitch : Outputs k (if k.altStatus = true then switchKey k scancode else k) :=
    Outputs.ite (switchKey_outputs k scancode) (Outputs.refl k)
  unfold keyDefault
  refine Outputs.ite hswitch (Outputs.ite ?_ ?_)
  · exact hswitch.trans (Outputs.onConsole _ _)
  · exact hswitch.trans (typeChar_outputs _ _)

theorem keyEnter_edits (k : Kernel) : Edits k (keyEnter k) := by
  unfold keyEnter
  refine Edits.trans ?_ (Edits.setCursor _ 0 0)
  refine Edits.trans ?_ (Edits.modifyTerminal _ _ (fun _ => rfl) (fun _ => rfl))
  exact Edits.onConsole k _

theorem keyBackspace_edits (k : Kernel) : Edits k (keyBackspace k) := by
  unfold keyBackspace
  have hclamp : Edits k
      (if (k.terminal k.activeTerminal).bufferIndex < 0 then
        k.modifyTerminal k.activeTerminal (fun T => { T with bufferIndex := 0 })
      else k) :=
    Edits.ite (Edits.modifyTerminal k _ (fun _ => rfl) (fun _ => rfl))
      (Edits.refl k)
  refine Edits.ite ?_ hclamp
  refine Edits.trans ?_ (Edits.setCursor _ _ _)
  refine Edits.trans ?_ (Edits.modifyTerminal _ _ (fun _ => rfl) (fun _ => rfl))
  exact hclamp.trans (Edits.onConsole _ _)

theorem keyLeft_edits (k : Kernel) : Edits k (keyLeft k) := by
  unfold keyLeft
  refine Edits.ite (Edits.refl k) ?_
  refine Edits.trans ?_ (Edits.onConsole _ _)
  refine Edits.trans ?_ (Edits.modifyTerminal _ _ (fun _ => rfl) (fun _ => rfl))
  exact Edits.ite (Edits.setCursor k _ _) (Edits.refl k)

theorem keyRight_edits (k : Kernel) : Edits k (keyRight k) := by
  unfold keyRight
  refine Edits.ite (Edits.refl k) ?_
  refine Edits.trans ?_ (Edits.onConsole _ _)
  refine Edits.trans ?_ (Edits.modifyTerminal _ _ (fun _ => rfl) (fun _ => rfl))
  exact Edits.ite (Edits.setCursor k _ _) (Edits.refl k)

theorem keyboardHandler_edits (k : Kernel) (scancode : Nat) :
    Edits k (keyboardHandler k scancode) := by
  unfold keyboardHandler
  split
  · exact Edits.setStatus k _ _ _ _
  · exact Edits.setStatus k _ _ _ _
  · exact Edits.setStatus k _ _ _ _
  · exact Edits.setStatus k _ _ _ _
  · exact Edits.setStatus k _ _ _ _
  · exact Edits.setStatus k _ _ _ _
  · exact Edits.setStatus k _ _ _ _
  · exact Edits.setStatus k _ _ _ _
  · exact Edits.setStatus k _ _ _ _
  · exact keyEnter_edits k
  · exact Edits.onConsole k _
  · exact keyBackspace_edits k
  · exact Edits.refl k
  · exact Edits.refl k
  · exact keyLeft_edits k
  · exact keyRight_edits k
  · exact Edits.refl k
  · exact (keyDefault_outputs k _).edits

/-- No key changes the process table. -/
theorem keyboardHandler_same (k : Kernel) (scancode : Nat) :
    SameProcesses k (keyboardHandler k scancode) :=
  (keyboardHandler_edits k scancode).same

end OopsOs
