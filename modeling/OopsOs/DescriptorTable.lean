import OopsOs.ProcessCalls
import OopsOs.Lib.FirstFit

/-!
# What each call does to a descriptor table

`openFile_refused` and `openFile_opens` say between them when `open` fails and
which descriptor it takes otherwise: the first whose flags are zero.  The other
calls are described by what they may do to the process's own descriptors; a
new process finds the descriptors of `enteredDescriptor`.
-/

namespace OopsOs

open ByteMem Machine

/-! ## `open` in full -/

theorem freeDescriptor_eq_some_iff {k : Kernel} {pid : Fin 6} {loc : Fin 8} :
    freeDescriptor k pid = some loc ↔ IsLeast {fd | (descriptor k pid fd).flags = 0} loc :=
  FirstFit.find?_eq_some_iff

theorem freeDescriptor_eq_none_iff {k : Kernel} {pid : Fin 6} :
    freeDescriptor k pid = none ↔ ∀ fd, (descriptor k pid fd).flags ≠ 0 :=
  FirstFit.find?_eq_none_iff

theorem openKind_eq_none_iff (d : Dentry) :
    openKind d = none ↔ d.type ≠ 0 ∧ d.type ≠ 1 ∧ d.type ≠ 2 := by
  unfold openKind
  split_ifs with h0 h1 h2
  · simp [h0]
  · simp [h1]
  · simp [h2]
  · simp [h0, h1, h2]

theorem openKind_table {d : Dentry} {op : OpPtr} {inode pos : UInt32}
    (h : openKind d = some (op, inode, pos)) : op ∈ operationTables := by
  unfold openKind at h
  split_ifs at h
  · cases h
    simp [operationTables]
  · cases h
    simp [operationTables]
  · cases h
    simp [operationTables]

theorem openKind_position {d : Dentry} {op : OpPtr} {inode pos : UInt32}
    (h : openKind d = some (op, inode, pos)) :
    (d.type = 1 ∨ d.type = 2 → pos = 0) ∧ (d.type = 2 → inode = UInt32.ofInt d.inodeNum) := by
  unfold openKind at h
  split_ifs at h with h0 h1 h2
  · cases h
    simp [h0]
  · cases h
    simp [h1]
  · cases h
    simp

/-- What makes `open` fail: the name, the entry or the table. -/
def OpenRefused (k : Kernel) (pid : Fin 6) (filename : List UInt8) : Prop :=
  cstr filename 0 = 0 ∨ readDentryByName k.fs filename = none ∨
    (∃ i, readDentryByName k.fs filename = some i ∧ openKind (dentryAt k.fs i) = none) ∨
    freeDescriptor k pid = none

/-- The descriptor that `open` fills in for directory entry `i`, all others being as before. -/
structure Opens (k : Kernel) (pid : Fin 6) (i : Nat) (loc : Fin 8) (k' : Kernel) : Prop where
  free : freeDescriptor k pid = some loc
  entry : ∃ op inode pos, openKind (dentryAt k.fs i) = some (op, inode, pos) ∧
    descriptor k' pid loc = ⟨op, inode, pos, 1⟩
  only : OnlyDescriptor pid loc k k'

theorem freeDescriptor_reportName (k : Kernel) (pid : Fin 6) (filename : List UInt8) :
    freeDescriptor (reportName k filename) pid = freeDescriptor k pid := by
  have hd : descriptor (reportName k filename) pid = descriptor k pid := by
    funext fd
    simp [descriptor]
  unfold freeDescriptor
  rw [hd]

theorem openEntry_refused {k : Kernel} {pid : Fin 6} {i : Nat}
    (h : openKind (dentryAt k.fs i) = none ∨ freeDescriptor k pid = none) :
    openEntry k pid i = (k, -1) := by
  unfold openEntry
  cases hkind : openKind (dentryAt k.fs i) with
  | none => rfl
  | some kind =>
      obtain ⟨op, inode, pos⟩ := kind
      have hfree : freeDescriptor k pid = none := by
        simpa [hkind] using h
      simp only [hfree]

theorem openFile_refused {k : Kernel} {pid : Fin 6} {filename : List UInt8}
    (h : OpenRefused k pid filename) : OpenFailed k (openFile k pid filename) := by
  unfold openFile
  by_cases hempty : cstr filename 0 = 0
  · rw [if_pos hempty]
    simp [OpenFailed]
  · rw [if_neg hempty]
    simp only [reportName_fs]
    cases hname : readDentryByName k.fs filename with
    | none => simp [OpenFailed]
    | some i =>
        have hentry : openKind (dentryAt k.fs i) = none ∨ freeDescriptor k pid = none := by
          rcases h with h | h | ⟨i', hi', h⟩ | h
          · exact absurd h hempty
          · rw [hname] at h
            cases h
          · rw [hname] at hi'
            cases hi'
            exact Or.inl h
          · exact Or.inr h
        have hrefused : openEntry (reportName k filename) pid i = (reportName k filename, -1) :=
          openEntry_refused (by rwa [reportName_fs, freeDescriptor_reportName])
        simp only [hrefused]
        exact ⟨rfl, reportName_fs k filename, reportName_pcb k filename⟩

theorem openFile_opens {k : Kernel} {pid : Fin 6} {filename : List UInt8}
    (h : ¬ OpenRefused k pid filename) :
    ∃ i loc, readDentryByName k.fs filename = some i ∧
      (openFile k pid filename).2 = (loc.val : Int) ∧
      Opens k pid i loc (openFile k pid filename).1 := by
  unfold OpenRefused at h
  push Not at h
  obtain ⟨hempty, hname, hkind, hfree⟩ := h
  obtain ⟨i, hi⟩ := Option.ne_none_iff_exists'.mp hname
  obtain ⟨⟨op, inode, pos⟩, hk⟩ := Option.ne_none_iff_exists'.mp (hkind i hi)
  obtain ⟨loc, hloc⟩ := Option.ne_none_iff_exists'.mp hfree
  have hfree' : freeDescriptor (reportName k filename) pid = some loc := by
    rw [freeDescriptor_reportName, hloc]
  have hopen : openFile k pid filename =
      (populatePcb (reportName k filename) pid loc 1 inode op pos, (loc.val : Int)) := by
    unfold openFile openEntry
    rw [if_neg hempty]
    simp only [reportName_fs, hi, hk, hfree']
  rw [hopen]
  refine ⟨i, loc, hi, rfl, hloc, ⟨op, inode, pos, hk, ?_⟩, ?_⟩
  · exact descriptor_setDescriptor_self _ pid loc _
  · exact (OnlyDescriptor.of_pcb (reportName_fs k filename) (reportName_pcb k filename)).trans
      (OnlyDescriptor.set _ pid loc _)

/-! ## What the other calls do to the process's own table -/

/-- The image is the same, and of the process's own descriptors at most `fd` differs. -/
structure OnlyOwn (pid : Fin 6) (fd : Fin 8) (k k' : Kernel) : Prop where
  fs : k'.fs = k.fs
  other : ∀ fd', fd' ≠ fd → descriptor k' pid fd' = descriptor k pid fd'

theorem OnlyDescriptor.own {pid : Fin 6} {fd : Fin 8} {k k' : Kernel}
    (h : OnlyDescriptor pid fd k k') : OnlyOwn pid fd k k' := by
  refine ⟨h.fs, ?_⟩
  intro fd' hne
  exact h.other pid fd' (fun heq => hne heq.2)

/-- What a `read` on descriptor `f` may do to the process's own descriptors. -/
structure OwnRead (pid : Fin 6) (f : Fin 8) (k k' : Kernel) : Prop where
  only : OnlyOwn pid f k k'
  flags : (descriptor k' pid f).flags = (descriptor k pid f).flags
  handle : f ≠ 0 → SameHandle (descriptor k pid f) (descriptor k' pid f)

theorem OwnRead.of_process {pid : Fin 6} {f : Fin 8} {k k' : Kernel}
    (h : k'.fs = k.fs ∧ k'.pcb pid = k.pcb pid) : OwnRead pid f k k' := by
  have hd : ∀ fd, descriptor k' pid fd = descriptor k pid fd := by
    intro fd
    rw [descriptor, descriptor, h.2]
  refine ⟨⟨h.1, fun fd _ => hd fd⟩, by rw [hd], ?_⟩
  intro _
  rw [hd]
  exact ⟨rfl, rfl, rfl⟩

theorem OwnRead.of_frame {pid : Fin 6} {f : Fin 8} {k k' : Kernel}
    (h : OnlyDescriptor pid f k k' ∧ SameHandle (descriptor k pid f) (descriptor k' pid f)) :
    OwnRead pid f k k' :=
  ⟨h.1.own, h.2.flags, fun _ => h.2⟩

theorem read_own {interrupts : Kernel → Kernel} {pid : Fin 6}
    (hkeep : KeepsProcess pid interrupts) (k : Kernel) {fd : Int} {f : Fin 8}
    (hf : fdIndex fd = some f) (buf : Nat) (nbytes : Int) :
    OwnRead pid f k (read interrupts k pid fd buf nbytes).kernel := by
  have hby := read_by interrupts k pid hf buf nbytes
  generalize read interrupts k pid fd buf nbytes = r at hby ⊢
  cases hby with
  | failed => exact OwnRead.of_process ⟨rfl, rfl⟩
  | stdin hzero =>
      subst hzero
      have hset := OnlyDescriptor.set k pid 0
        { descriptor k pid 0 with descriptorOpPtr := .termTable }
      obtain ⟨hterm, hflags, -⟩ := OwnRead.of_process (f := 0)
        (terminalRead_process hkeep
          (setDescriptor k pid 0 { descriptor k pid 0 with descriptorOpPtr := .termTable })
          buf nbytes)
      refine ⟨⟨hterm.fs.trans hset.fs, ?_⟩, ?_, fun h => absurd rfl h⟩
      · intro fd' hne
        rw [hterm.other fd' hne, hset.own.other fd' hne]
      · rw [hflags, descriptor_setDescriptor_self]
  | terminal => exact OwnRead.of_process (terminalRead_process hkeep k buf nbytes)
  | rtc => exact OwnRead.of_process (rtcRead_process hkeep k)
  | directory => exact OwnRead.of_frame (directoryRead_frame k pid f)
  | file => exact OwnRead.of_frame (fileRead_frame k pid f buf nbytes)
  | wild => exact OwnRead.of_process ⟨rfl, rfl⟩

/-- `write` changes no descriptor. -/
theorem write_files (k : Kernel) (pid : Fin 6) (fd : Int) (buf : Option (Nat → UInt8))
    (nbytes : Int) :
    (write k pid fd buf nbytes).1.fs = k.fs ∧ (write k pid fd buf nbytes).1.pcb = k.pcb := by
  have hterm := terminalWrite_same k buf nbytes
  unfold write
  cases fdIndex fd with
  | none => exact ⟨rfl, rfl⟩
  | some f =>
      simp only
      split_ifs
      · exact ⟨rfl, rfl⟩
      · cases (descriptor k pid f).descriptorOpPtr with
        | termTable => exact ⟨hterm.fs, hterm.pcb⟩
        | null => exact ⟨rfl, rfl⟩
        | word w => exact ⟨rfl, rfl⟩
        | rtcTable => exact ⟨rfl, rfl⟩
        | directoryTable => exact ⟨rfl, rfl⟩
        | fileTable => exact ⟨rfl, rfl⟩

/-- The descriptors that `execute` leaves to a new process. -/
def enteredDescriptor (saved : Context) (fd : Fin 8) : FileDescriptor :=
  if fd = 0 then ⟨.word (saved.esp - 16), UInt32.ofNat (saved.esp - 16), 0, 1⟩
  else if fd = 1 then ⟨.termTable, 0, 0, 1⟩
  else ⟨.null, 0, 0, 0⟩

theorem descriptor_enterProcess (k : Kernel) (pid : Fin 6) (args : List UInt8) (saved : Context)
    (fd : Fin 8) :
    descriptor (enterProcess k pid args saved) pid fd = enteredDescriptor saved fd := by
  unfold enteredDescriptor
  by_cases h0 : fd = 0
  · subst h0
    simp [enterProcess, setDescriptor, descriptor, initPcb]
  · by_cases h1 : fd = 1
    · subst h1
      simp [enterProcess, setDescriptor, descriptor, initPcb]
    · have h2 : 1 < fd.val := by omega
      simp [enterProcess, setDescriptor, descriptor, initPcb, h0, h1, h2]

theorem enterProcess_pcb_of_ne (k : Kernel) {pid pid' : Fin 6} (args : List UInt8)
    (saved : Context) (h : pid' ≠ pid) :
    (enterProcess k pid args saved).pcb pid' = k.pcb pid' := by
  simp [enterProcess, setDescriptor, initPcb, h]

/-- `execute` starts one process or changes no control block. -/
theorem execute_blocks (k : Kernel) (cmd : List UInt8) (saved : Context) :
    ((execute k cmd saved).2 = none ∧ (execute k cmd saved).1.pcb = k.pcb) ∨
    ∃ p, (execute k cmd saved).2 = some p ∧
      (∀ fd, descriptor (execute k cmd saved).1 p fd = enteredDescriptor saved fd) ∧
      ∀ q, q ≠ p → (execute k cmd saved).1.pcb q = k.pcb q := by
  rcases execute_cases k cmd saved with ⟨-, text, heq⟩ | ⟨p, -, -, heq⟩
  · left
    simp [heq]
  · right
    rw [heq]
    refine ⟨p, rfl, fun fd => descriptor_enterProcess _ p _ saved fd, ?_⟩
    intro q hq
    simp only
    rw [enterProcess_pcb_of_ne _ _ _ hq]
    simp [allocateSlot]

/-- The control block of a new process, word by word. -/
theorem execute_words {k k' : Kernel} {cmd : List UInt8} {saved : Context} {pid : Fin 6}
    (hexec : execute k cmd saved = (k', some pid)) {address : OpPtr → UInt32}
    (hword : ∀ w, address (.word w) = UInt32.ofNat w) :
    (k'.pcb pid).words address =
      goToRingThree ((initializedPcb k pid (parse cmd).2 saved).words address)
        (UInt32.ofNat (saved.esp - 16)) (UInt32.ofNat (saved.esp - 16)) := by
  rcases execute_cases k cmd saved with ⟨-, text, heq⟩ | ⟨p, -, -, heq⟩
  · rw [hexec] at heq
    cases heq
  · rw [hexec] at heq
    cases heq
    rw [enterProcess_words address hword]
    simp [initializedPcb, initPcb, allocateSlot]

/-- After `halt` the process's slot has all descriptors closed, or a new process in it. -/
theorem halt_descriptors (k : Kernel) (slot : Fin 6) (saved : Context) :
    (∀ fd, descriptor (halt k slot saved).1 slot fd =
      descriptor (closeDescriptors k slot) slot fd) ∨
    ∀ fd, descriptor (halt k slot saved).1 slot fd = enteredDescriptor saved fd := by
  have hparent : ∀ (k' : Kernel) (term : Fin 3) (pid : Fin 6),
      k'.pcb = (closeDescriptors k slot).pcb → ∀ fd,
      descriptor (returnToParent k' slot term pid).1 slot fd =
        descriptor (closeDescriptors k slot) slot fd := by
    intro k' term pid hpcb fd
    simp [returnToParent, descriptor, hpcb]
  rcases halt_cases k slot saved with
    ⟨-, heq⟩ | ⟨term, -, ⟨-, heq⟩ | ⟨-, ⟨k', hexec, heq⟩ | ⟨k', new, hexec, heq⟩⟩⟩
  · left
    intro fd
    rw [heq]
  · left
    rw [heq]
    exact hparent _ term _ rfl
  · left
    rcases execute_blocks ((freedKernel k slot term).printf "Restarting Shell\n") shellCommand
      saved with ⟨-, hpcb⟩ | ⟨p, hsome, -⟩
    · rw [← restartShell, hexec] at hpcb
      rw [heq]
      exact hparent k' term _ hpcb
    · rw [← restartShell, hexec] at hsome
      cases hsome
  · rcases execute_blocks ((freedKernel k slot term).printf "Restarting Shell\n") shellCommand
      saved with ⟨hnone, -⟩ | ⟨p, -, hnew, hother⟩
    · rw [← restartShell, hexec] at hnone
      cases hnone
    · rw [← restartShell, hexec] at hnew hother
      rw [heq]
      by_cases hslot : slot = p
      · right
        subst hslot
        exact hnew
      · left
        intro fd
        rw [descriptor, hother slot hslot]
        rfl

end OopsOs
