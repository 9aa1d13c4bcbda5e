import OopsOs.CommandLines
import OopsOs.Lib.FirstFit

/-!
# `execute` starts a process or changes nothing

A command that is refused, by its name or for want of a slot, leaves the
process table, the terminals, the mapping and the control blocks as they were:
the checks come before the first assignment, except that of the slot, which is
made only when one is found.  Otherwise the lowest free slot is taken.

The name is the string that `parse` leaves in the array of `execute`.
-/

namespace OopsOs

open ByteMem

theorem freeSlot_eq_some_iff {k : Kernel} {pid : Fin 6} :
    freeSlot k = some pid ↔ IsLeast {i | k.pcbOccupants i = 0} pid :=
  FirstFit.find?_eq_some_iff

theorem freeSlot_eq_none_iff {k : Kernel} :
    freeSlot k = none ↔ ∀ i, k.pcbOccupants i ≠ 0 :=
  FirstFit.find?_eq_none_iff

/-- The variables that make up the processes are the same. -/
structure Untouched (k k' : Kernel) : Prop where
  pcbOccupants : k'.pcbOccupants = k.pcbOccupants
  processPrevious : k'.processPrevious = k.processPrevious
  terminal : k'.terminal = k.terminal
  pDirectory : k'.pDirectory = k.pDirectory
  esp0 : k'.esp0 = k.esp0
  pcb : k'.pcb = k.pcb

/-- Slot `pid` has been taken in the name of the displayed terminal, and no other has changed. -/
structure StartedIn (k : Kernel) (pid : Fin 6) (k' : Kernel) : Prop where
  pcbOccupants : k'.pcbOccupants = Function.update k.pcbOccupants pid (-1)
  processPrevious : k'.processPrevious =
    Function.update k.processPrevious pid (k.terminal k.activeTerminal).processNum
  terminal : k'.terminal = Function.update k.terminal k.activeTerminal
    { k.terminal k.activeTerminal with processNum := pid }
  pcb : ∀ p, p ≠ pid → k'.pcb p = k.pcb p

theorem Untouched.printf (k : Kernel) (text : String) : Untouched k (k.printf text) := by
  constructor <;> simp

theorem Untouched.trans {k k' k'' : Kernel} (h : Untouched k k') (h' : Untouched k' k'') :
    Untouched k k'' where
  pcbOccupants := h'.pcbOccupants.trans h.pcbOccupants
  processPrevious := h'.processPrevious.trans h.processPrevious
  terminal := h'.terminal.trans h.terminal
  pDirectory := h'.pDirectory.trans h.pDirectory
  esp0 := h'.esp0.trans h.esp0
  pcb := h'.pcb.trans h.pcb

theorem reportName_untouched (k : Kernel) (fname : List UInt8) :
    Untouched k (reportName k fname) := by
  unfold reportName
  split_ifs
  · exact Untouched.printf k _
  · exact ⟨rfl, rfl, rfl, rfl, rfl, rfl⟩

theorem reportName_activeTerminal (k : Kernel) (fname : List UInt8) :
    (reportName k fname).activeTerminal = k.activeTerminal := by
  unfold reportName
  split_ifs
  · simp
  · rfl

theorem enterProcess_startedIn (k : Kernel) (pid : Fin 6) (args : List UInt8) (saved : Context) :
    StartedIn k pid (enterProcess (allocateSlot k pid) pid args saved) := by
  refine ⟨rfl, rfl, rfl, ?_⟩
  intro p hp
  simp [enterProcess, allocateSlot, initPcb, setDescriptor, hp]

theorem StartedIn.of_untouched {k k₀ k' : Kernel} {pid : Fin 6} (h : StartedIn k₀ pid k')
    (hsame : Untouched k k₀) (hactive : k₀.activeTerminal = k.activeTerminal) :
    StartedIn k pid k' where
  pcbOccupants := by rw [h.pcbOccupants, hsame.pcbOccupants]
  processPrevious := by rw [h.processPrevious, hsame.processPrevious, hsame.terminal, hactive]
  terminal := by rw [h.terminal, hsame.terminal, hactive]
  pcb := fun p hp => by rw [h.pcb p hp, hsame.pcb]

/-- The two ends of `execute`, with what they change. -/
theorem execute_effects (k : Kernel) (cmd : List UInt8) (saved : Context) :
    ((checkValid k.fs (parse cmd).1 = -1 ∨ ∀ i, k.pcbOccupants i ≠ 0) ∧
      (execute k cmd saved).2 = none ∧ Untouched k (execute k cmd saved).1) ∨
    ∃ pid, checkValid k.fs (parse cmd).1 ≠ -1 ∧ IsLeast {i | k.pcbOccupants i = 0} pid ∧
      (execute k cmd saved).2 = some pid ∧ StartedIn k pid (execute k cmd saved).1 := by
  have hname := reportName_untouched k (parse cmd).1
  rcases execute_cases k cmd saved with ⟨hfail, text, heq⟩ | ⟨pid, hvalid, hfree, heq⟩
  · left
    rw [heq]
    exact ⟨hfail.imp_right freeSlot_eq_none_iff.mp, rfl, hname.trans (Untouched.printf _ text)⟩
  · right
    rw [heq]
    refine ⟨pid, hvalid, freeSlot_eq_some_iff.mp hfree, rfl, ?_⟩
    exact (enterProcess_startedIn _ pid _ saved).of_untouched hname
      (reportName_activeTerminal k (parse cmd).1)

/--
`execute` starts a process exactly if the name in its array is accepted and a
slot is free; then it takes the lowest one, and otherwise nothing changes.
-/
theorem execute_all_or_nothing (k : Kernel) (m : Mem) (file arg : Int) (cmd : List UInt8)
    (saved : Context) (hapart : file + 33 ≤ arg ∨ arg + 33 ≤ file)
    (hname : (parse cmd).1.length ≤ 32) (harg : (parse cmd).2.length ≤ 32) :
    let name := arrayText (parseMem m file arg cmd) file
    ((∃ pid, (execute k cmd saved).2 = some pid) ↔
      checkValid k.fs name ≠ -1 ∧ ∃ i, k.pcbOccupants i = 0) ∧
    (∀ pid, (execute k cmd saved).2 = some pid →
      IsLeast {i | k.pcbOccupants i = 0} pid ∧ StartedIn k pid (execute k cmd saved).1) ∧
    ((execute k cmd saved).2 = none → Untouched k (execute k cmd saved).1) := by
  intro name
  have htext : name = (parse cmd).1 := (arrayText_parseMem m hapart hname harg).1
  rw [htext]
  rcases execute_effects k cmd saved with ⟨hfail, hnone, hsame⟩ | ⟨pid, hvalid, hleast, hsome, hstart⟩
  · refine ⟨iff_of_false ?_ ?_, ?_, fun _ => hsame⟩
    · rintro ⟨pid, hsome⟩
      rw [hnone] at hsome
      cases hsome
    · rintro ⟨hvalid, i, hi⟩
      rcases hfail with hinvalid | hfull
      · exact hvalid hinvalid
      · exact hfull i hi
    · intro pid hsome
      rw [hnone] at hsome
      cases hsome
  · refine ⟨iff_of_true ⟨pid, hsome⟩ ⟨hvalid, pid, hleast.1⟩, ?_, ?_⟩
    · intro pid' hsome'
      rw [hsome] at hsome'
      cases hsome'
      exact ⟨hleast, hstart⟩
    · intro hnone
      rw [hsome] at hnone
      cases hnone

/-- A kernel in which the slots 0 and 2 are taken. -/
def twoTaken : Kernel :=
  { Kernel.zero (fun _ => 0) shellImage with
    pcbOccupants := fun p => if p = 0 ∨ p = 2 then -1 else 0 }

/-- The command `shell` is started in slot 1. -/
theorem execute_all_or_nothing_shell :
    ∃ pid, (execute twoTaken shellCommand Context.zero).2 = some pid ∧ pid = 1 ∧
      StartedIn twoTaken pid (execute twoTaken shellCommand Context.zero).1 := by
  obtain ⟨hiff, hstarts, -⟩ := execute_all_or_nothing twoTaken (fun _ => 0) 0 64 shellCommand
    Context.zero (by decide) (by decide) (by decide)
  have hname : arrayText (parseMem (fun _ => 0) 0 64 shellCommand) 0 = shellCommand := by
    decide +kernel
  have hvalid : checkValid twoTaken.fs shellCommand ≠ -1 := by decide +kernel
  obtain ⟨pid, hpid⟩ := hiff.mpr ⟨by rw [hname]; exact hvalid, 1, by decide⟩
  obtain ⟨hleast, hstart⟩ := hstarts pid hpid
  have hone : IsLeast {i | twoTaken.pcbOccupants i = 0} 1 := by
    constructor
    · decide
    · intro i hi
      by_contra hlt
      have hi0 : i = 0 := by omega
      subst hi0
      exact absurd hi (by decide)
  exact ⟨pid, hpid, hleast.unique hone, hstart⟩

end OopsOs
