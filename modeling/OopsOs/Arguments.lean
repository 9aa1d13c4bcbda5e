import OopsOs.CommandLines
import OopsOs.DescriptorTable
import OopsOs.Lib.Machine

/-!
# From the command line to `getargs`

What follows the first blank of a command line is copied into the 32 bytes of
`arguments` in the new process's control block, and from there by `getargs`
into the program's buffer, always all 32 bytes.  No other call of the process
writes these bytes, so `getargs` may come at any time before it halts.
-/

namespace OopsOs

open ByteMem Machine

/-- `getargs`; its stores are offsets from `buf`.  The size of the buffer is not looked at. -/
def getargs (k : Kernel) (pid : Fin 6) (_nbytes : Int) : ReadCall :=
  if (k.pcb pid).arguments 0 = 0 then ⟨k.printf "No arguments ", [], .returned (-1)⟩
  else ⟨k, blockStores 0 (k.pcb pid).arguments argSize, .returned 0⟩

/-- What `getargs` is to do with the argument string `a`. -/
structure ArgumentsArrive (a : List UInt8) (nbytes : Int) (r : ReadCall) : Prop where
  copied : a ≠ [] ∧ (a.length : Int) < nbytes →
    r.outcome = .returned 0 ∧
      ∀ (buf : Mem) (j : Nat), j ≤ a.length → buf.storeAll r.stores j = a.getD j 0
  refused : ¬ (a ≠ [] ∧ (a.length : Int) < nbytes) → r.outcome = .returned (-1)
  within : ∀ st ∈ r.stores, 0 ≤ st.1 ∧ st.1 < nbytes

/-! ## The bytes in the control block -/

theorem parse_command {name a : List UInt8} (hname : ∀ c ∈ name, c ≠ 0 ∧ c ≠ 0x20)
    (ha : ∀ c ∈ a, c ≠ 0) : parse (name ++ 0x20 :: a) = (name, a) := by
  induction name with
  | nil =>
      have htext : a.takeWhile (fun c => c ≠ 0) = a :=
        List.takeWhile_eq_self_iff.mpr (fun c hc => by simpa using ha c hc)
      rw [List.nil_append, parse_blank, htext]
  | cons c cs ih =>
      obtain ⟨h0, hblank⟩ := hname c (List.mem_cons_self ..)
      rw [List.cons_append, parse_letter _ h0 hblank,
        ih (fun c' hmem => hname c' (List.mem_cons_of_mem c hmem))]

theorem execute_arguments {k : Kernel} {cmd : List UInt8} {saved : Context} {pid : Fin 6}
    (h : (execute k cmd saved).2 = some pid) {j : Nat} (hj : j < 32) :
    ((execute k cmd saved).1.pcb pid).arguments j = (parse cmd).2.getD j 0 := by
  rcases execute_cases k cmd saved with ⟨-, text, heq⟩ | ⟨pid', -, -, heq⟩
  · rw [heq] at h
    cases h
  · rw [heq] at h ⊢
    cases h
    simp [enterProcess, setDescriptor, hj]

/-- The bytes are those of the array `args` of `execute`, wherever it lies. -/
theorem execute_arguments_array {k : Kernel} {cmd : List UInt8} {saved : Context} {pid : Fin 6}
    (h : (execute k cmd saved).2 = some pid) (m : Mem) {file arg : Int}
    (hapart : file + 33 ≤ arg ∨ arg + 33 ≤ file) (hname : (parse cmd).1.length ≤ 33)
    {j : Nat} (hj : j < 32) :
    ((execute k cmd saved).1.pcb pid).arguments j = parseMem m file arg cmd (arg + j) := by
  rw [execute_arguments h hj, parseMem_arg m hapart hname (by omega)]

/-! ## No call writes them -/

theorem setDescriptor_arguments (k : Kernel) (pid p : Fin 6) (fd : Fin 8) (d : FileDescriptor) :
    ((setDescriptor k pid fd d).pcb p).arguments = (k.pcb p).arguments := by
  by_cases hp : p = pid
  · subst hp
    simp [setDescriptor]
  · simp [setDescriptor, hp]

theorem openEntry_arguments (k : Kernel) (pid p : Fin 6) (i : Nat) :
    ((openEntry k pid i).1.pcb p).arguments = (k.pcb p).arguments := by
  unfold openEntry
  cases openKind (dentryAt k.fs i) with
  | none => rfl
  | some kind =>
      obtain ⟨op, inode, pos⟩ := kind
      cases freeDescriptor k pid with
      | none => rfl
      | some loc => exact setDescriptor_arguments k pid p loc _

theorem openFile_arguments (k : Kernel) (pid p : Fin 6) (filename : List UInt8) :
    ((openFile k pid filename).1.pcb p).arguments = (k.pcb p).arguments := by
  unfold openFile
  by_cases hempty : cstr filename 0 = 0
  · rw [if_pos hempty]
    simp
  · rw [if_neg hempty]
    simp only [reportName_fs]
    cases readDentryByName k.fs filename with
    | none => simp
    | some i => simp only [openEntry_arguments, reportName_pcb]

theorem close_arguments (k : Kernel) (pid p : Fin 6) (fd : Int) :
    ((close k pid fd).1.pcb p).arguments = (k.pcb p).arguments := by
  by_cases hzero : fd = 0
  · subst hzero
    simp [close, show fdIndex 0 = some 0 from rfl, setDescriptor_arguments]
  · unfold close
    simp only [if_neg hzero]
    cases fdIndex fd with
    | none => simp
    | some f =>
        simp only
        split_ifs
        · simp
        · exact setDescriptor_arguments k pid p f _

theorem directoryRead_arguments (k : Kernel) (pid p : Fin 6) (fd : Fin 8) :
    ((directoryRead k pid fd).kernel.pcb p).arguments = (k.pcb p).arguments := by
  unfold directoryRead
  simp only
  split
  · rfl
  · exact setDescriptor_arguments k pid p fd _

theorem fileRead_arguments (k : Kernel) (pid p : Fin 6) (fd : Fin 8) (buf : Nat) (nbytes : Int) :
    ((fileRead k pid fd buf nbytes).kernel.pcb p).arguments = (k.pcb p).arguments := by
  unfold fileRead
  simp only
  split_ifs
  · rfl
  · rfl
  · rfl
  all_goals
    split
    · rfl
    · exact setDescriptor_arguments k pid p fd _

theorem read_arguments {interrupts : Kernel → Kernel} {pid : Fin 6}
    (hkeep : KeepsProcess pid interrupts) (k : Kernel) (fd : Int) (buf : Nat) (nbytes : Int) :
    ((read interrupts k pid fd buf nbytes).kernel.pcb pid).arguments =
      (k.pcb pid).arguments := by
  cases hf : fdIndex fd with
  | none => rw [read_bad_fd interrupts k pid hf, Kernel.printf_pcb]
  | some f =>
      have hby := read_by interrupts k pid hf buf nbytes
      generalize read interrupts k pid fd buf nbytes = r at hby ⊢
      cases hby with
      | failed => rfl
      | stdin hzero =>
          rw [(terminalRead_process hkeep _ buf nbytes).2, setDescriptor_arguments]
      | terminal => rw [(terminalRead_process hkeep k buf nbytes).2]
      | rtc => rw [(rtcRead_process hkeep k).2]
      | directory => exact directoryRead_arguments k pid pid f
      | file => exact fileRead_arguments k pid pid f buf nbytes
      | wild => rfl

/-- The process has not halted, and the rest of the kernel leaves its control block alone. -/
def StillRuns (pid : Fin 6) (s : CallState) : Call → Prop
  | .halt _ => False
  | c => Undisturbed pid s c

theorem processStep_arguments {pid : Fin 6} {s s' : CallState} {c : Call}
    (hguard : StillRuns pid s c) (hstep : processStep pid s c = some s') :
    (s'.kernel.pcb pid).arguments = (s.kernel.pcb pid).arguments := by
  cases c with
  | openFile filename =>
      cases hstep
      exact openFile_arguments s.kernel pid pid filename
  | close fd =>
      cases hstep
      exact close_arguments s.kernel pid pid fd
  | read fd buf nbytes interrupts =>
      cases hstep
      exact read_arguments hguard s.kernel fd buf nbytes
  | write fd buf nbytes =>
      cases hstep
      have hpcb := (write_files s.kernel pid fd buf nbytes).2
      exact congrArg Pcb.arguments (congrFun hpcb pid)
  | halt saved => exact absurd hguard (fun h => h)
  | other f =>
      cases hstep
      exact congrArg Pcb.arguments (hguard s.kernel).2

theorem run_arguments {pid : Fin 6} {s s' : CallState} {calls : List Call}
    (hrun : Run (processStep pid) (StillRuns pid) s calls s') :
    (s'.kernel.pcb pid).arguments = (s.kernel.pcb pid).arguments :=
  hrun.invariant (I := fun t => (t.kernel.pcb pid).arguments = (s.kernel.pcb pid).arguments)
    (fun _ _ _ hI hguard hstep => (processStep_arguments hguard hstep).trans hI) rfl

/-! ## `getargs` -/

section Getargs

variable {k : Kernel} {pid : Fin 6} {a : List UInt8}
variable (hargs : ∀ j, j < 32 → (k.pcb pid).arguments j = a.getD j 0)
include hargs

theorem getargs_nil (ha : a = []) (nbytes : Int) :
    getargs k pid nbytes = ⟨k.printf "No arguments ", [], .returned (-1)⟩ := by
  subst ha
  have hzero : (k.pcb pid).arguments 0 = 0 := hargs 0 (by decide)
  unfold getargs
  rw [if_pos hzero]

theorem getargs_cons (ha : a ≠ []) (hnul : ∀ c ∈ a, c ≠ 0) (nbytes : Int) :
    getargs k pid nbytes = ⟨k, blockStores 0 (k.pcb pid).arguments argSize, .returned 0⟩ := by
  have hfirst : (k.pcb pid).arguments 0 ≠ 0 := by
    rw [hargs 0 (by decide)]
    cases a with
    | nil => exact absurd rfl ha
    | cons c cs => exact hnul c (List.mem_cons_self ..)
  unfold getargs
  rw [if_neg hfirst]

/-- The argument arrives exactly if there is none, or it and the buffer suit the copy of 32 bytes. -/
theorem getargs_arrive_iff (hnul : ∀ c ∈ a, c ≠ 0) (nbytes : Int) :
    ArgumentsArrive a nbytes (getargs k pid nbytes) ↔
      a = [] ∨ (a.length ≤ 31 ∧ 32 ≤ nbytes) := by
  by_cases ha : a = []
  · rw [getargs_nil hargs ha]
    refine iff_of_true ⟨fun h => absurd ha h.1, fun _ => rfl, ?_⟩ (.inl ha)
    intro st hst
    cases hst
  · rw [getargs_cons hargs ha hnul]
    constructor
    · intro h
      right
      have hlen : (a.length : Int) < nbytes := by
        by_contra hge
        have := h.refused (fun hc => hge hc.2)
        simp at this
      have hlast : (31 : Int) < nbytes := by
        refine (h.within (31, (k.pcb pid).arguments 31) ?_).2
        exact List.mem_map.mpr ⟨31, by decide, by simp⟩
      refine ⟨?_, by omega⟩
      by_contra hlong
      -- a buffer that holds no NUL where the copy ends shows that none is stored
      have hnone := (h.copied ⟨ha, hlen⟩).2 (fun _ => 1) a.length (le_refl _)
      rw [Mem.storeAll_blockStores, if_neg (by unfold argSize; omega),
        List.getD_eq_default _ _ (le_refl _)] at hnone
      exact absurd hnone (by decide)
    · rintro (hnil | ⟨hshort, hroom⟩)
      · exact absurd hnil ha
      · refine ⟨fun _ => ⟨rfl, ?_⟩, fun h => absurd ⟨ha, by omega⟩ h, ?_⟩
        · intro buf j hj
          rw [Mem.storeAll_blockStores, if_pos (by unfold argSize; omega)]
          have hidx : ((j : Int) - 0).toNat = j := by omega
          rw [hidx]
          exact hargs j (by omega)
        · intro st hst
          have := mem_blockStores hst
          unfold argSize at this
          omega

end Getargs

/--
The argument of a command line arrives exactly if it is empty, or it has at
most 31 characters and the buffer at least 32 bytes.
-/
theorem arguments_arrive_iff {k : Kernel} {name a : List UInt8} {saved : Context} {pid : Fin 6}
    (hname : ∀ c ∈ name, c ≠ 0 ∧ c ≠ 0x20) (ha : ∀ c ∈ a, c ≠ 0)
    (hexec : (execute k (name ++ 0x20 :: a) saved).2 = some pid) {calls : List Call}
    {s : CallState} (hrun : Run (processStep pid) (StillRuns pid)
      (CallState.started (execute k (name ++ 0x20 :: a) saved).1) calls s) (nbytes : Int) :
    ArgumentsArrive a nbytes (getargs s.kernel pid nbytes) ↔
      a = [] ∨ (a.length ≤ 31 ∧ 32 ≤ nbytes) := by
  have hargs : ∀ j, j < 32 → (s.kernel.pcb pid).arguments j = a.getD j 0 := by
    intro j hj
    have hblock := execute_arguments hexec hj
    rw [parse_command hname ha] at hblock
    rw [run_arguments hrun]
    exact hblock
  exact getargs_arrive_iff hargs ha nbytes

/-- `shell x`, run by a process that opens a file before it asks for its argument. -/
theorem arguments_arrive_iff_letter :
    ∃ s, Run (processStep 0) (StillRuns 0) (CallState.started (execute
        (Kernel.zero (fun _ => 0) shellImage) (shellCommand ++ [0x20, 0x78]) Context.zero).1)
        [.openFile shellCommand] s ∧
      ArgumentsArrive [0x78] 1024 (getargs s.kernel 0 1024) := by
  have hexec : (execute (Kernel.zero (fun _ => 0) shellImage) (shellCommand ++ [0x20, 0x78])
      Context.zero).2 = some 0 := by decide +kernel
  have hrun : Run (processStep 0) (StillRuns 0) (CallState.started (execute
      (Kernel.zero (fun _ => 0) shellImage) (shellCommand ++ [0x20, 0x78]) Context.zero).1)
      [.openFile shellCommand] _ :=
    Run.cons trivial rfl (Run.nil _)
  exact ⟨_, hrun, (arguments_arrive_iff (by simp [shellCommand]) (by simp) hexec hrun 1024).mpr
    (.inr ⟨by decide, by decide⟩)⟩

/-- The same process with a buffer of four bytes: 32 bytes are stored. -/
theorem short_buffer_overrun :
    (execute (Kernel.zero (fun _ => 0) shellImage) (shellCommand ++ [0x20, 0x78])
        Context.zero).2 = some 0 ∧
      ¬ ArgumentsArrive [0x78] 4 (getargs (execute (Kernel.zero (fun _ => 0) shellImage)
        (shellCommand ++ [0x20, 0x78]) Context.zero).1 0 4) := by
  have hexec : (execute (Kernel.zero (fun _ => 0) shellImage) (shellCommand ++ [0x20, 0x78])
      Context.zero).2 = some 0 := by decide +kernel
  refine ⟨hexec, ?_⟩
  intro h
  have hargs : ∀ j, j < 32 → ((execute (Kernel.zero (fun _ => 0) shellImage)
      (shellCommand ++ [0x20, 0x78]) Context.zero).1.pcb 0).arguments j =
        [(0x78 : UInt8)].getD j 0 := by
    intro j hj
    rw [execute_arguments hexec hj]
    rfl
  have := (getargs_arrive_iff hargs (by simp) 4).mp h
  revert this
  decide

end OopsOs
