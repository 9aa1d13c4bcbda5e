import OopsOs.DescriptorTable
import OopsOs.Lib.Machine
import Mathlib.Data.Finset.Card

/-!
# The descriptor table over whole runs

The abstract table is the set of live descriptors, kept from the results of
the calls alone.  `TableInvariant` ties it to the control block: the live
descriptors are those whose flags are not zero, 0 and 1 are among them, and
each of them but descriptor 0 has one of the four tables.

Descriptor 0 is left out on purpose.  `go_to_ring_three` stores ESP over its
table pointer, which stays there until the first `read` or `close` of the
descriptor; `write` refuses it.  Pointers that stay behind in closed
descriptors are not gone through either.
-/

namespace OopsOs

open ByteMem Machine

structure TableInvariant (pid : Fin 6) (s : CallState) : Prop where
  live : ∀ fd, fd ∈ s.live ↔ (descriptor s.kernel pid fd).flags ≠ 0
  stdin : 0 ∈ s.live
  stdout : 1 ∈ s.live
  tables : ∀ fd, fd ≠ 0 → fd ∈ s.live →
    (descriptor s.kernel pid fd).descriptorOpPtr ∈ operationTables

section Invariant

variable {pid : Fin 6} {s : CallState}

/-- A step that changes at most descriptor `fd`: what is left to show is about `fd`. -/
theorem TableInvariant.of_only (h : TableInvariant pid s) {fd : Fin 8} {k : Kernel}
    {live : Finset (Fin 8)} (honly : OnlyOwn pid fd s.kernel k)
    (hothers : ∀ fd', fd' ≠ fd → (fd' ∈ live ↔ fd' ∈ s.live))
    (hlive : fd ∈ live ↔ (descriptor k pid fd).flags ≠ 0) (hreserved : fd.val < 2 → fd ∈ live)
    (htable : fd ≠ 0 → fd ∈ live → (descriptor k pid fd).descriptorOpPtr ∈ operationTables) :
    TableInvariant pid ⟨k, live⟩ := by
  have hkeep : ∀ fd' : Fin 8, fd'.val < 2 → fd' ∈ s.live → fd' ∈ live := by
    intro fd' hlow hmem
    by_cases heq : fd' = fd
    · rw [heq] at hlow ⊢
      exact hreserved hlow
    · exact (hothers fd' heq).mpr hmem
  refine ⟨?_, hkeep 0 (by decide) h.stdin, hkeep 1 (by decide) h.stdout, ?_⟩
  · intro fd'
    by_cases heq : fd' = fd
    · rw [heq]
      exact hlive
    · rw [hothers fd' heq, honly.other fd' heq]
      exact h.live fd'
  · intro fd' h0 hmem
    by_cases heq : fd' = fd
    · rw [heq] at h0 hmem ⊢
      exact htable h0 hmem
    · rw [honly.other fd' heq]
      exact h.tables fd' h0 ((hothers fd' heq).mp hmem)

/-- A step that leaves the process's own descriptors alone. -/
theorem TableInvariant.of_process (h : TableInvariant pid s) {k : Kernel}
    (hpcb : k.pcb pid = s.kernel.pcb pid) : TableInvariant pid { s with kernel := k } := by
  have hd : ∀ fd, descriptor k pid fd = descriptor s.kernel pid fd := by
    intro fd
    rw [descriptor, descriptor, hpcb]
  refine ⟨?_, h.stdin, h.stdout, ?_⟩
  · intro fd
    rw [hd]
    exact h.live fd
  · intro fd h0 hmem
    rw [hd]
    exact h.tables fd h0 hmem

/-- The free descriptors of the code are those of the abstract table, above 0 and 1. -/
theorem TableInvariant.free_iff (h : TableInvariant pid s) (fd : Fin 8) :
    (descriptor s.kernel pid fd).flags = 0 ↔ 2 ≤ fd.val ∧ fd ∉ s.live := by
  rw [h.live fd, not_not]
  constructor
  · intro hflags
    refine ⟨?_, hflags⟩
    by_contra hlow
    have hcase : fd = 0 ∨ fd = 1 := by omega
    rcases hcase with rfl | rfl
    · exact (h.live 0).mp h.stdin hflags
    · exact (h.live 1).mp h.stdout hflags
  · rintro ⟨-, hflags⟩
    exact hflags

theorem TableInvariant.freeDescriptor_iff (h : TableInvariant pid s) (loc : Fin 8) :
    freeDescriptor s.kernel pid = some loc ↔ IsLeast {fd | 2 ≤ fd.val ∧ fd ∉ s.live} loc := by
  rw [freeDescriptor_eq_some_iff]
  simp only [h.free_iff]

/-- The table is full when all six descriptors above 0 and 1 are live. -/
theorem TableInvariant.full_iff (h : TableInvariant pid s) :
    freeDescriptor s.kernel pid = none ↔ (s.live \ {0, 1}).card = 6 := by
  rw [freeDescriptor_eq_none_iff]
  have hreserved : ({0, 1} : Finset (Fin 8)) ⊆ s.live := by
    intro fd hfd
    rcases Finset.mem_insert.mp hfd with rfl | hone
    · exact h.stdin
    · rw [Finset.mem_singleton.mp hone]
      exact h.stdout
  have hcard : (s.live \ {0, 1}).card = s.live.card - 2 := by
    rw [Finset.card_sdiff_of_subset hreserved]
    rfl
  have hle : s.live.card ≤ 8 := by
    simpa using Finset.card_le_univ s.live
  rw [hcard]
  constructor
  · intro hall
    have huniv : s.live = Finset.univ := by
      rw [Finset.eq_univ_iff_forall]
      intro fd
      exact (h.live fd).mpr (hall fd)
    rw [huniv]
    rfl
  · intro hsix fd
    have huniv : s.live = Finset.univ := by
      rw [← Finset.card_eq_iff_eq_univ, Fintype.card_fin]
      omega
    rw [← h.live fd, huniv]
    exact Finset.mem_univ fd

/-! ## One call -/

theorem TableInvariant.openFile_step (h : TableInvariant pid s) (filename : List UInt8) :
    TableInvariant pid
      { kernel := (openFile s.kernel pid filename).1
        live := (fdIndex (openFile s.kernel pid filename).2).elim s.live
          (fun loc => insert loc s.live) } := by
  by_cases hrefused : OpenRefused s.kernel pid filename
  · obtain ⟨hr, -, hpcb⟩ := openFile_refused hrefused
    rw [hr]
    exact h.of_process (congrFun hpcb pid)
  · obtain ⟨i, loc, -, hr, hopens⟩ := openFile_opens hrefused
    obtain ⟨op, inode, pos, hkind, hd⟩ := hopens.entry
    rw [hr, fdIndex_val]
    refine h.of_only hopens.only.own ?_ ?_ ?_ ?_
    · intro fd hne
      simp [hne]
    · simp [hd]
    · intro _
      simp
    · intro _ _
      rw [hd]
      exact openKind_table hkind

/-- The descriptor that a `close` frees, if it frees one. -/
def Closable (s : CallState) (fd : Int) (f : Fin 8) : Prop :=
  fdIndex fd = some f ∧ 2 ≤ f.val ∧ f ∈ s.live

theorem TableInvariant.close_closable (h : TableInvariant pid s) {fd : Int} {f : Fin 8}
    (hf : Closable s fd f) :
    (close s.kernel pid fd).2 = .returned 0 ∧
      (close s.kernel pid fd).1 =
        setDescriptor s.kernel pid f { descriptor s.kernel pid f with flags := 0 } ∧
      closeDispatch s.kernel pid fd = [(descriptor s.kernel pid f).descriptorOpPtr] := by
  obtain ⟨hindex, h2, hmem⟩ := hf
  obtain ⟨hkernel, hdispatch, hreturn⟩ := close_live h2 ((h.live f).mp hmem)
  have hne : f ≠ 0 := by
    rintro rfl
    exact absurd h2 (by decide)
  rw [fdIndex_eq hindex]
  exact ⟨hreturn (h.tables f hne hmem), hkernel, hdispatch⟩

theorem TableInvariant.close_not_closable (h : TableInvariant pid s) {fd : Int}
    (hf : ∀ f, ¬ Closable s fd f) :
    (close s.kernel pid fd).2 = .returned (-1) ∧ closeDispatch s.kernel pid fd = [] ∧
      OnlyOwn pid 0 s.kernel (close s.kernel pid fd).1 ∧
      (descriptor (close s.kernel pid fd).1 pid 0).flags = (descriptor s.kernel pid 0).flags := by
  have hrefused : ∀ f, fdIndex fd = some f →
      f.val < 2 ∨ (descriptor s.kernel pid f).flags = 0 := by
    intro f hindex
    by_cases hlow : f.val < 2
    · exact Or.inl hlow
    · right
      by_contra hflags
      exact hf f ⟨hindex, by omega, (h.live f).mpr hflags⟩
  obtain ⟨hr, hdispatch⟩ := close_refused hrefused
  rcases close_cases s.kernel pid fd with ⟨-, honly, hflags⟩ | ⟨f, -, -, hr', -⟩
  · exact ⟨hr, hdispatch, honly.own, hflags⟩
  · exact absurd hr hr'

theorem TableInvariant.close_step (h : TableInvariant pid s) (fd : Int) :
    TableInvariant pid
      { kernel := (close s.kernel pid fd).1
        live :=
          if (close s.kernel pid fd).2 = .returned 0 then
            (fdIndex fd).elim s.live (fun f => s.live.erase f)
          else s.live } := by
  by_cases hf : ∃ f, Closable s fd f
  · obtain ⟨f, hf⟩ := hf
    obtain ⟨hr, hkernel, -⟩ := h.close_closable hf
    rw [hr, if_pos rfl, hf.1, hkernel]
    refine h.of_only (OnlyDescriptor.set s.kernel pid f _).own ?_ ?_ ?_ ?_
    · intro fd' hne
      simp [hne]
    · simp
    · intro hlow
      have := hf.2.1
      omega
    · intro _ hmem
      simp at hmem
  · push Not at hf
    obtain ⟨hr, -, honly, hflags⟩ := h.close_not_closable hf
    rw [hr, if_neg (by decide)]
    refine h.of_only honly (fun _ _ => Iff.rfl) ?_ (fun _ => h.stdin) (fun h0 => absurd rfl h0)
    rw [hflags]
    exact h.live 0

theorem TableInvariant.read_step (h : TableInvariant pid s) {interrupts : Kernel → Kernel}
    (hkeep : KeepsProcess pid interrupts) (fd : Int) (buf : Nat) (nbytes : Int) :
    TableInvariant pid
      { s with kernel := (read interrupts s.kernel pid fd buf nbytes).kernel } := by
  cases hf : fdIndex fd with
  | none =>
      rw [read_bad_fd interrupts s.kernel pid hf]
      exact h.of_process rfl
  | some f =>
      obtain ⟨honly, hflags, hhandle⟩ := read_own hkeep s.kernel hf buf nbytes
      refine h.of_only honly (fun _ _ => Iff.rfl) ?_ ?_ ?_
      · rw [hflags]
        exact h.live f
      · intro hlow
        have hcase : f = 0 ∨ f = 1 := by omega
        rcases hcase with rfl | rfl
        · exact h.stdin
        · exact h.stdout
      · intro h0 hmem
        rw [(hhandle h0).descriptorOpPtr]
        exact h.tables f h0 hmem

/-- The table of a process that has just been started, whatever is in descriptor 0. -/
theorem TableInvariant.of_entered {k : Kernel} {saved : Context}
    (hd : ∀ fd, descriptor k pid fd = enteredDescriptor saved fd) :
    TableInvariant pid (CallState.started k) := by
  refine ⟨?_, by simp [CallState.started], by simp [CallState.started], ?_⟩
  · intro fd
    simp only [CallState.started, hd, enteredDescriptor, Finset.mem_insert,
      Finset.mem_singleton]
    by_cases h0 : fd = 0
    · simp [h0]
    · by_cases h1 : fd = 1
      · simp [h1]
      · simp [h0, h1]
  · intro fd h0 hmem
    have h1 : fd = 1 := by
      simpa [CallState.started, h0] using hmem
    rw [CallState.started, hd, h1]
    simp [enteredDescriptor, operationTables]

theorem TableInvariant.halt_step (h : TableInvariant pid s) (saved : Context) :
    TableInvariant pid (CallState.started (halt s.kernel pid saved).1) := by
  rcases halt_descriptors s.kernel pid saved with hclosed | hentered
  · have hd : ∀ fd, descriptor (halt s.kernel pid saved).1 pid fd =
        if 2 ≤ fd.val then
          { descriptor s.kernel pid fd with flags := 0, descriptorOpPtr := .null }
        else descriptor s.kernel pid fd := by
      intro fd
      rw [hclosed fd]
      simp [descriptor, closeDescriptors]
    have hmem : ∀ fd : Fin 8, fd ∈ (CallState.started (halt s.kernel pid saved).1).live ↔
        ¬ 2 ≤ fd.val := by
      intro fd
      simp only [CallState.started, Finset.mem_insert, Finset.mem_singleton]
      omega
    have hlow : ∀ fd : Fin 8, ¬ 2 ≤ fd.val → fd ∈ s.live := by
      intro fd hfd
      have hcase : fd = 0 ∨ fd = 1 := by omega
      rcases hcase with rfl | rfl
      · exact h.stdin
      · exact h.stdout
    refine ⟨?_, by simp [CallState.started], by simp [CallState.started], ?_⟩
    · intro fd
      rw [hmem]
      simp only [CallState.started, hd]
      split_ifs with h2
      · exact ⟨fun hn => absurd h2 hn, fun hne => absurd rfl hne⟩
      · exact ⟨fun _ => (h.live fd).mp (hlow fd h2), fun _ => h2⟩
    · intro fd h0 hfd
      rw [hmem] at hfd
      simp only [CallState.started, hd, if_neg hfd]
      exact h.tables fd h0 (hlow fd hfd)
  · exact TableInvariant.of_entered hentered

theorem processStep_invariant {c : Call} {s' : CallState} (h : TableInvariant pid s)
    (hguard : Undisturbed pid s c) (hstep : processStep pid s c = some s') :
    TableInvariant pid s' := by
  cases c with
  | openFile filename =>
      obtain rfl := Option.some.inj hstep
      exact h.openFile_step filename
  | close fd =>
      obtain rfl := Option.some.inj hstep
      exact h.close_step fd
  | read fd buf nbytes interrupts =>
      obtain rfl := Option.some.inj hstep
      exact h.read_step hguard fd buf nbytes
  | write fd buf nbytes =>
      obtain rfl := Option.some.inj hstep
      exact h.of_process (congrFun (write_files s.kernel pid fd buf nbytes).2 pid)
  | halt saved =>
      obtain rfl := Option.some.inj hstep
      exact h.halt_step saved
  | other f =>
      obtain rfl := Option.some.inj hstep
      exact h.of_process (hguard s.kernel).2

theorem run_tableInvariant {calls : List Call} {s' : CallState}
    (hrun : Run (processStep pid) (Undisturbed pid) s calls s') (h : TableInvariant pid s) :
    TableInvariant pid s' :=
  hrun.invariant (fun _ _ _ hI hC hs => processStep_invariant hI hC hs) h

end Invariant

/-! ## The allocator -/

/-- `open` is to fail: the name, the entry found, or six live descriptors. -/
def NotOpened (s : CallState) (filename : List UInt8) : Prop :=
  cstr filename 0 = 0 ∨ readDentryByName s.kernel.fs filename = none ∨
    (∃ i, readDentryByName s.kernel.fs filename = some i ∧
      (dentryAt s.kernel.fs i).type ∉ ({0, 1, 2} : Set Int)) ∨
    (s.live \ {0, 1}).card = 6

/-- A successful `open`: the least free descriptor becomes live for the entry found. -/
structure OpenedLeast (pid : Fin 6) (s : CallState) (filename : List UInt8) (k : Kernel)
    (value : Int) : Prop where
  made : ∃ i f, value = (f.val : Int) ∧ readDentryByName s.kernel.fs filename = some i ∧
    IsLeast {fd | 2 ≤ fd.val ∧ fd ∉ s.live} f ∧
    (descriptor k pid f).flags ≠ 0 ∧
    ((dentryAt s.kernel.fs i).type = 1 ∨ (dentryAt s.kernel.fs i).type = 2 →
      (descriptor k pid f).filePos = 0) ∧
    ((dentryAt s.kernel.fs i).type = 2 →
      (descriptor k pid f).inodeNum = UInt32.ofInt (dentryAt s.kernel.fs i).inodeNum) ∧
    ∀ fd, fd ≠ f → descriptor k pid fd = descriptor s.kernel pid fd

/-- The descriptor table of process `pid` is an allocator of the descriptors 2 to 7. -/
structure Allocates (pid : Fin 6) (s : CallState) : Prop where
  reserved : 0 ∈ s.live ∧ 1 ∈ s.live
  inUse : ∀ fd, fd ∈ s.live ↔ (descriptor s.kernel pid fd).flags ≠ 0
  opens : ∀ filename, (openFile s.kernel pid filename).2 ≠ -1 →
    OpenedLeast pid s filename (openFile s.kernel pid filename).1
      (openFile s.kernel pid filename).2
  fails : ∀ filename,
    ((openFile s.kernel pid filename).2 = -1 ∧
      ∀ fd, descriptor (openFile s.kernel pid filename).1 pid fd = descriptor s.kernel pid fd) ↔
    NotOpened s filename
  closes : ∀ fd f, Closable s fd f →
    (close s.kernel pid fd).2 = .returned 0 ∧
    (descriptor (close s.kernel pid fd).1 pid f).flags = 0 ∧
    ∀ fd', fd' ≠ f → descriptor (close s.kernel pid fd).1 pid fd' = descriptor s.kernel pid fd'
  closesNot : ∀ fd, (∀ f, ¬ Closable s fd f) →
    (close s.kernel pid fd).2 = .returned (-1) ∧
    ∀ fd', (descriptor (close s.kernel pid fd).1 pid fd').flags =
      (descriptor s.kernel pid fd').flags

section Allocator

variable {pid : Fin 6} {s : CallState} (h : TableInvariant pid s)
include h

theorem TableInvariant.notOpened_iff (filename : List UInt8) :
    NotOpened s filename ↔ OpenRefused s.kernel pid filename := by
  unfold NotOpened OpenRefused
  rw [h.full_iff]
  simp only [openKind_eq_none_iff, Set.mem_insert_iff, Set.mem_singleton_iff, not_or, ne_eq]

theorem TableInvariant.openedLeast {filename : List UInt8}
    (hopen : ¬ OpenRefused s.kernel pid filename) :
    (openFile s.kernel pid filename).2 ≠ -1 ∧
      OpenedLeast pid s filename (openFile s.kernel pid filename).1
        (openFile s.kernel pid filename).2 := by
  obtain ⟨i, f, hi, hr, hopens⟩ := openFile_opens hopen
  obtain ⟨op, inode, pos, hkind, hd⟩ := hopens.entry
  obtain ⟨hpos, hinode⟩ := openKind_position hkind
  refine ⟨by omega, ⟨i, f, hr, hi, (h.freeDescriptor_iff f).mp hopens.free, ?_, ?_, ?_, ?_⟩⟩
  · simp [hd]
  · rw [hd]
    exact hpos
  · rw [hd]
    exact hinode
  · exact hopens.only.own.other

theorem TableInvariant.allocates : Allocates pid s := by
  refine ⟨⟨h.stdin, h.stdout⟩, h.live, ?_, ?_, ?_, ?_⟩
  · intro filename hne
    by_cases hrefused : OpenRefused s.kernel pid filename
    · exact absurd (openFile_refused hrefused).1 hne
    · exact (h.openedLeast hrefused).2
  · intro filename
    rw [h.notOpened_iff]
    constructor
    · rintro ⟨hr, -⟩
      by_contra hopen
      exact (h.openedLeast hopen).1 hr
    · intro hrefused
      obtain ⟨hr, -, hpcb⟩ := openFile_refused hrefused
      refine ⟨hr, ?_⟩
      intro fd
      rw [descriptor, descriptor, hpcb]
  · intro fd f hf
    obtain ⟨hr, hkernel, -⟩ := h.close_closable hf
    rw [hkernel]
    refine ⟨hr, by simp, ?_⟩
    exact (OnlyDescriptor.set s.kernel pid f _).own.other
  · intro fd hf
    obtain ⟨hr, -, honly, hflags⟩ := h.close_not_closable hf
    refine ⟨hr, ?_⟩
    intro fd'
    by_cases hzero : fd' = 0
    · rw [hzero, hflags]
    · rw [honly.other fd' hzero]

end Allocator

theorem initPcb_invariant (k : Kernel) (pid : Fin 6) :
    TableInvariant pid (CallState.started (initPcb k pid)) := by
  have hd : ∀ fd, descriptor (initPcb k pid) pid fd =
      if fd.val < 2 then ⟨.termTable, 0, 0, 1⟩ else ⟨.null, 0, 0, 0⟩ := by
    intro fd
    simp [descriptor, initPcb]
  have hmem : ∀ fd : Fin 8, fd ∈ (CallState.started (initPcb k pid)).live ↔ fd.val < 2 := by
    intro fd
    simp only [CallState.started, Finset.mem_insert, Finset.mem_singleton]
    omega
  refine ⟨?_, by simp [CallState.started], by simp [CallState.started], ?_⟩
  · intro fd
    rw [hmem]
    simp only [CallState.started, hd]
    split_ifs with hfd <;> simp [hfd]
  · intro fd _ hfd
    rw [hmem] at hfd
    simp only [CallState.started, hd, if_pos hfd]
    simp [operationTables]

/--
For a process initialised by `init_pcb`, after every sequence of its calls, the
descriptor table is an allocator.
-/
theorem run_allocates {k : Kernel} {pid : Fin 6} {calls : List Call} {s : CallState}
    (hrun : Run (processStep pid) (Undisturbed pid) (CallState.started (initPcb k pid)) calls s) :
    Allocates pid s :=
  (run_tableInvariant hrun (initPcb_invariant k pid)).allocates

theorem run_allocates_open_close :
    ∃ s, Run (processStep 0) (Undisturbed 0)
        (CallState.started (initPcb (Kernel.zero (fun _ => 0) shellImage) 0))
        [.openFile shellCommand, .read 2 1 4 id, .write 2 none 4, .close 2] s ∧
      Allocates 0 s := by
  have hrun : Run (processStep 0) (Undisturbed 0)
      (CallState.started (initPcb (Kernel.zero (fun _ => 0) shellImage) 0))
      [.openFile shellCommand, .read 2 1 4 id, .write 2 none 4, .close 2] _ :=
    Run.cons trivial rfl (Run.cons (fun _ => ⟨rfl, rfl⟩) rfl (Run.cons trivial rfl
      (Run.cons trivial rfl (Run.nil _))))
  exact ⟨_, hrun, run_allocates hrun⟩

/-! ## The pointers gone through -/

/-- Under the invariant every call goes through tables only. -/
theorem TableInvariant.dispatches_mem {pid : Fin 6} {s : CallState} (h : TableInvariant pid s)
    (c : Call) : ∀ p ∈ dispatches s.kernel pid c, p ∈ operationTables := by
  intro p hp
  cases c with
  | openFile filename =>
      simp only [dispatches, openDispatch] at hp
      by_cases hrefused : OpenRefused s.kernel pid filename
      · rw [(openFile_refused hrefused).1] at hp
        simp [show fdIndex (-1) = none from rfl] at hp
      · obtain ⟨i, loc, -, hr, hopens⟩ := openFile_opens hrefused
        obtain ⟨op, inode, pos, hkind, hd⟩ := hopens.entry
        rw [hr, fdIndex_val] at hp
        simp only [Option.map_some, Option.toList_some, List.mem_singleton, hd] at hp
        rw [hp]
        exact openKind_table hkind
  | close fd =>
      simp only [dispatches] at hp
      by_cases hf : ∃ f, Closable s fd f
      · obtain ⟨f, hf⟩ := hf
        rw [(h.close_closable hf).2.2, List.mem_singleton] at hp
        rw [hp]
        refine h.tables f ?_ hf.2.2
        rintro rfl
        exact absurd hf.2.1 (by decide)
      · push Not at hf
        rw [(h.close_not_closable hf).2.1] at hp
        cases hp
  | read fd buf nbytes interrupts =>
      simp only [dispatches, readDispatch] at hp
      cases hf : fdIndex fd with
      | none => simp [hf] at hp
      | some f =>
          simp only [hf] at hp
          split_ifs at hp with hbad
          · cases hp
          · rw [List.mem_singleton] at hp
            by_cases hzero : f = 0
            · -- the stray pointer of descriptor 0 has been replaced
              subst hzero
              rw [hp, pointStdin, if_pos rfl, descriptor_setDescriptor_self]
              simp [operationTables]
            · rw [pointStdin, if_neg hzero] at hp
              rw [hp]
              refine h.tables f hzero ((h.live f).mpr ?_)
              exact fun hflags => hbad (Or.inl hflags)
  | write fd buf nbytes =>
      simp only [dispatches, writeDispatch] at hp
      cases hf : fdIndex fd with
      | none => simp [hf] at hp
      | some f =>
          simp only [hf] at hp
          split_ifs at hp with hbad
          · cases hp
          · rw [List.mem_singleton] at hp
            rw [hp]
            refine h.tables f ?_ ((h.live f).mpr ?_)
            · exact fun hzero => hbad (Or.inr (Or.inl hzero))
            · exact fun hflags => hbad (Or.inl hflags)
  | halt saved =>
      simp only [dispatches, haltCloses_eq, List.mem_flatMap] at hp
      obtain ⟨f, hf, hp⟩ := hp
      split_ifs at hp with hflags
      · rw [List.mem_singleton] at hp
        rw [hp]
        refine h.tables f ?_ ((h.live f).mpr ?_)
        · rintro rfl
          simp at hf
        · rw [hflags]
          decide
      · cases hp
  | other f => cases hp

theorem execute_invariant {k k' : Kernel} {cmd : List UInt8} {saved : Context} {pid : Fin 6}
    (hexec : execute k cmd saved = (k', some pid)) :
    TableInvariant pid (CallState.started k') := by
  rcases execute_blocks k cmd saved with ⟨hnone, -⟩ | ⟨p, hsome, hnew, -⟩
  · rw [hexec] at hnone
    cases hnone
  · rw [hexec] at hsome hnew
    cases hsome
    exact TableInvariant.of_entered hnew

/--
A process started by `execute` finds ESP and EBP stored over the first two
words of its initialised control block.  After every sequence of its calls the
next call goes through none but the four tables, and so no call goes astray.
-/
theorem run_dispatches_through_tables {k k' : Kernel} {cmd : List UInt8} {saved : Context}
    {pid : Fin 6} {calls : List Call} {s : CallState}
    (hexec : execute k cmd saved = (k', some pid))
    (hrun : Run (processStep pid) (Undisturbed pid) (CallState.started k') calls s) :
    (∀ address : OpPtr → UInt32, (∀ w, address (.word w) = UInt32.ofNat w) →
      (k'.pcb pid).words address =
        goToRingThree ((initializedPcb k pid (parse cmd).2 saved).words address)
          (UInt32.ofNat (saved.esp - 16)) (UInt32.ofNat (saved.esp - 16))) ∧
      (∀ c, ∀ p ∈ dispatches s.kernel pid c, p ∈ operationTables) ∧
      (∀ fd, (close s.kernel pid fd).2 ≠ .wild) ∧
      (∀ interrupts fd buf nbytes,
        (read interrupts s.kernel pid fd buf nbytes).outcome ≠ .wild) ∧
      ∀ fd buf nbytes, (write s.kernel pid fd buf nbytes).2 ≠ .wild := by
  have h := run_tableInvariant hrun (execute_invariant hexec)
  refine ⟨fun address hword => execute_words hexec hword, h.dispatches_mem, ?_, ?_, ?_⟩
  · intro fd hwild
    obtain ⟨p, hp, hbad⟩ := (close_wild_iff s.kernel pid fd).mp hwild
    exact hbad (h.dispatches_mem (.close fd) p hp)
  · intro interrupts fd buf nbytes hwild
    obtain ⟨p, hp, hbad⟩ := (read_wild_iff interrupts s.kernel pid fd buf nbytes).mp hwild
    exact hbad (h.dispatches_mem (.read fd buf nbytes interrupts) p hp)
  · intro fd buf nbytes hwild
    obtain ⟨p, hp, hbad⟩ := (write_wild_iff s.kernel pid fd buf nbytes).mp hwild
    exact hbad (h.dispatches_mem (.write fd buf nbytes) p hp)

/-- The first shell: it writes to its standard input, closes it, opens a file and halts. -/
theorem run_dispatches_through_tables_shell :
    ∃ k' s, execute (Kernel.zero (fun _ => 0) shellImage) shellCommand
        ⟨0x7FFF00, 0x7FFF40, none⟩ = (k', some 0) ∧
      Run (processStep 0) (Undisturbed 0) (CallState.started k')
        [.write 0 (some (fun _ => 0x61)) 1, .close 0, .openFile shellCommand,
          .halt ⟨0x7FFE00, 0x7FFE40, none⟩] s ∧
      ∀ c, ∀ p ∈ dispatches s.kernel 0 c, p ∈ operationTables := by
  obtain ⟨k', hexec⟩ : ∃ k', execute (Kernel.zero (fun _ => 0) shellImage) shellCommand
      ⟨0x7FFF00, 0x7FFF40, none⟩ = (k', some 0) := by
    refine ⟨_, Prod.ext rfl ?_⟩
    decide +kernel
  have hrun : Run (processStep 0) (Undisturbed 0) (CallState.started k')
      [.write 0 (some (fun _ => 0x61)) 1, .close 0, .openFile shellCommand,
        .halt ⟨0x7FFE00, 0x7FFE40, none⟩] _ :=
    Run.cons trivial rfl (Run.cons trivial rfl (Run.cons trivial rfl (Run.cons trivial rfl
      (Run.nil _))))
  exact ⟨k', _, hexec, hrun, (run_dispatches_through_tables hexec hrun).2.1⟩

end OopsOs
