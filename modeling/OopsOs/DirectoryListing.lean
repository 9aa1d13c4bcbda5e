import OopsOs.DescriptorRuns

/-!
# Listing the directory

A process opens `.` and reads the descriptor again and again; each read is to
deliver the name of the next directory entry, and 0 after the last one.

`read_dentry_by_index` accepts the indices 0 to 16, whatever number of entries
the boot block records.  `Lists` is the invariant of a listing: the file
position of the descriptor is the number of reads so far, up to 17.  Hence a
listing is exact on the images with 17 entries and on no others.
-/

namespace OopsOs

open ByteMem Machine

/-- The name `.`. -/
def dotName : List UInt8 := [0x2E]

/-- A well-formed image with `n` recorded entries, among them the directory itself. -/
structure DirectoryImage (fs : Mem) (n : Nat) : Prop where
  wellFormed : WellFormed fs
  recorded : numDirEntries fs = (n : Int)
  few : n ≤ 63
  dot : ∃ i, i < n ∧ readDentryByName fs dotName = some i ∧ (dentryAt fs i).type = 1

/-- The call is a read of descriptor `fd` into a buffer. -/
def Call.readsFrom (fd : Fin 8) : Call → Bool
  | .read fd' buf _ _ => decide (fdIndex fd' = some fd ∧ buf ≠ 0)
  | _ => false

/-- The process goes on, and does not close the descriptor. -/
def StaysOpen (pid : Fin 6) (fd : Fin 8) (s : CallState) (c : Call) : Prop :=
  Undisturbed pid s c ∧
    match c with
    | .close fd' => fdIndex fd' ≠ some fd
    | .halt _ => False
    | _ => True

/--
From the state `s₁` on, whatever other calls come in between: the first `n`
reads deliver the names of the first `n` entries, in order, and all further
ones return 0.
-/
def ListsExactly (pid : Fin 6) (fd : Fin 8) (s₁ : CallState) (n : Nat) : Prop :=
  ∀ calls s, Run (processStep pid) (StaysOpen pid fd) s₁ calls s →
    ∀ interrupts buf nbytes, buf ≠ 0 →
      (calls.countP (Call.readsFrom fd) < n →
        (read interrupts s.kernel pid fd.val buf nbytes).outcome = .returned 32 ∧
        (read interrupts s.kernel pid fd.val buf nbytes).stores =
          nameStores (dentryAt s₁.kernel.fs (calls.countP (Call.readsFrom fd))).name) ∧
      (n ≤ calls.countP (Call.readsFrom fd) →
        (read interrupts s.kernel pid fd.val buf nbytes).outcome = .returned 0)

/-- The descriptor is open on the directory, and `count` reads have been made. -/
structure Lists (fs : Mem) (pid : Fin 6) (fd : Fin 8) (count : Nat) (k : Kernel) : Prop where
  image : k.fs = fs
  table : (descriptor k pid fd).descriptorOpPtr = .directoryTable
  flags : (descriptor k pid fd).flags ≠ 0
  position : (descriptor k pid fd).filePos.toNat = min count 17

section Listing

variable {fs : Mem} {pid : Fin 6} {fd : Fin 8} {count : Nat} {k k' : Kernel}

theorem Lists.of_same (h : Lists fs pid fd count k) (hfs : k'.fs = k.fs)
    (hd : descriptor k' pid fd = descriptor k pid fd) : Lists fs pid fd count k' := by
  refine ⟨hfs.trans h.image, ?_, ?_, ?_⟩
  · rw [hd]
    exact h.table
  · rw [hd]
    exact h.flags
  · rw [hd]
    exact h.position

theorem Lists.of_own (h : Lists fs pid fd count k) {fd' : Fin 8} (honly : OnlyOwn pid fd' k k')
    (hne : fd ≠ fd') : Lists fs pid fd count k' :=
  h.of_same honly.fs (honly.other fd hne)

/-- On the listed descriptor `read` is `directory_read`. -/
theorem Lists.read_eq (h : Lists fs pid fd count k) (h2 : 2 ≤ fd.val)
    (interrupts : Kernel → Kernel) {buf : Nat} (hbuf : buf ≠ 0) (nbytes : Int) :
    read interrupts k pid fd.val buf nbytes = directoryRead k pid fd := by
  have hbad : ¬ ((descriptor k pid fd).flags = 0 ∨ buf = 0 ∨ fd = 1) := by
    rintro (hflags | hb | rfl)
    · exact h.flags hflags
    · exact hbuf hb
    · exact absurd h2 (by decide)
  have hzero : ¬ fd = 0 := by
    rintro rfl
    exact absurd h2 (by decide)
  unfold read
  rw [fdIndex_val]
  simp only
  rw [if_neg hbad, pointStdin, if_neg hzero, h.table]

theorem Lists.directoryRead_before (h : Lists fs pid fd count k) (hlt : count < 17) :
    (directoryRead k pid fd).outcome = .returned 32 ∧
      (directoryRead k pid fd).stores = nameStores (dentryAt fs count).name ∧
      Lists fs pid fd (count + 1) (directoryRead k pid fd).kernel := by
  have hpos : (descriptor k pid fd).filePos.toNat = count := by
    rw [h.position]
    omega
  have hentry : readDentryByIndex k.fs ((descriptor k pid fd).filePos.toNat : Int) =
      some (dentryAt fs count) := by
    rw [hpos, readDentryByIndex, if_neg (by omega), h.image, Int.toNat_natCast]
  unfold directoryRead
  simp only [hentry]
  refine ⟨trivial, trivial, ?_⟩
  refine ⟨h.image, ?_, ?_, ?_⟩
  · simpa using h.table
  · simpa using h.flags
  · simp only [descriptor_setDescriptor_self]
    rw [UInt32.toNat_add, hpos]
    simp only [UInt32.toNat_one]
    omega

theorem Lists.directoryRead_after (h : Lists fs pid fd count k) (hle : 17 ≤ count) :
    (directoryRead k pid fd).outcome = .returned 0 ∧
      Lists fs pid fd (count + 1) (directoryRead k pid fd).kernel := by
  have hpos : (descriptor k pid fd).filePos.toNat = 17 := by
    rw [h.position]
    omega
  have hend : readDentryByIndex k.fs ((descriptor k pid fd).filePos.toNat : Int) = none := by
    rw [hpos, readDentryByIndex, if_pos (by omega)]
  unfold directoryRead
  simp only [hend]
  refine ⟨trivial, h.image, h.table, h.flags, ?_⟩
  rw [hpos]
  omega

/-- A read of the descriptor, before and after the position has reached 17. -/
theorem Lists.read_spec (h : Lists fs pid fd count k) (h2 : 2 ≤ fd.val)
    (interrupts : Kernel → Kernel) {buf : Nat} (hbuf : buf ≠ 0) (nbytes : Int) :
    (count < 17 →
      (read interrupts k pid fd.val buf nbytes).outcome = .returned 32 ∧
      (read interrupts k pid fd.val buf nbytes).stores = nameStores (dentryAt fs count).name) ∧
    (17 ≤ count → (read interrupts k pid fd.val buf nbytes).outcome = .returned 0) ∧
    Lists fs pid fd (count + 1) (read interrupts k pid fd.val buf nbytes).kernel := by
  rw [h.read_eq h2 interrupts hbuf nbytes]
  rcases Nat.lt_or_ge count 17 with hlt | hge
  · obtain ⟨hr, hs, hnext⟩ := h.directoryRead_before hlt
    exact ⟨fun _ => ⟨hr, hs⟩, fun h17 => absurd h17 (by omega), hnext⟩
  · obtain ⟨hr, hnext⟩ := h.directoryRead_after hge
    exact ⟨fun h17 => absurd h17 (by omega), fun _ => hr, hnext⟩

/-- Every call keeps the listing going, and only a read of the descriptor moves it on. -/
theorem processStep_lists {s s' : CallState} {c : Call} (h : Lists fs pid fd count s.kernel)
    (h2 : 2 ≤ fd.val) (hguard : StaysOpen pid fd s c) (hstep : processStep pid s c = some s') :
    Lists fs pid fd (count + if c.readsFrom fd then 1 else 0) s'.kernel := by
  have h0 : fd ≠ 0 := by
    rintro rfl
    exact absurd h2 (by decide)
  cases c with
  | openFile filename =>
      obtain rfl := Option.some.inj hstep
      simp only [Call.readsFrom, Bool.false_eq_true, if_false, add_zero]
      by_cases hrefused : OpenRefused s.kernel pid filename
      · obtain ⟨-, hfs, hpcb⟩ := openFile_refused hrefused
        exact h.of_same hfs (by rw [descriptor, descriptor, hpcb])
      · obtain ⟨i, loc, -, -, hopens⟩ := openFile_opens hrefused
        refine h.of_own hopens.only.own ?_
        rintro rfl
        exact h.flags (freeDescriptor_flags hopens.free)
  | close fd' =>
      obtain rfl := Option.some.inj hstep
      simp only [Call.readsFrom, Bool.false_eq_true, if_false, add_zero]
      rcases close_cases s.kernel pid fd' with ⟨-, honly, -⟩ | ⟨f, hf, -, -, honly⟩
      · exact h.of_own honly.own h0
      · refine h.of_own honly.own ?_
        rintro rfl
        exact hguard.2 hf
  | read fd' buf nbytes interrupts =>
      obtain rfl := Option.some.inj hstep
      simp only [Call.readsFrom, decide_eq_true_eq]
      by_cases hreads : fdIndex fd' = some fd ∧ buf ≠ 0
      · rw [if_pos hreads, fdIndex_eq hreads.1]
        exact (h.read_spec h2 interrupts hreads.2 nbytes).2.2
      · rw [if_neg hreads, add_zero]
        by_cases hbuf : buf = 0
        · rw [hbuf, read_null]
          exact h.of_same rfl rfl
        · cases hf : fdIndex fd' with
          | none =>
              rw [read_bad_fd interrupts s.kernel pid hf]
              exact h.of_same rfl rfl
          | some f =>
              refine h.of_own (read_own hguard.1 s.kernel hf buf nbytes).only ?_
              rintro rfl
              exact hreads ⟨hf, hbuf⟩
  | write fd' buf nbytes =>
      obtain rfl := Option.some.inj hstep
      simp only [Call.readsFrom, Bool.false_eq_true, if_false, add_zero]
      obtain ⟨hfs, hpcb⟩ := write_files s.kernel pid fd' buf nbytes
      exact h.of_same hfs (by rw [descriptor, descriptor, hpcb])
  | halt saved => exact absurd hguard.2 id
  | other f =>
      obtain rfl := Option.some.inj hstep
      simp only [Call.readsFrom, Bool.false_eq_true, if_false, add_zero]
      obtain ⟨hfs, hpcb⟩ := hguard.1 s.kernel
      exact h.of_same hfs (by rw [descriptor, descriptor, hpcb])

theorem run_lists {s s' : CallState} {calls : List Call}
    (hrun : Run (processStep pid) (StaysOpen pid fd) s calls s') (h2 : 2 ≤ fd.val)
    (h : Lists fs pid fd count s.kernel) :
    Lists fs pid fd (count + calls.countP (Call.readsFrom fd)) s'.kernel := by
  induction hrun generalizing count with
  | nil => exact h
  | @cons s s₁ s' c cs hguard hstep _ ih =>
      have hnext := ih (processStep_lists h h2 hguard hstep)
      rw [List.countP_cons]
      rw [show count + (cs.countP (Call.readsFrom fd) + if c.readsFrom fd = true then 1 else 0) =
        count + (if c.readsFrom fd = true then 1 else 0) + cs.countP (Call.readsFrom fd) by omega]
      exact hnext

/-- Any number of reads can be made. -/
theorem exists_run_reads (pid : Fin 6) (fd : Fin 8) (s : CallState) (m : Nat) :
    ∃ s', Run (processStep pid) (StaysOpen pid fd) s
      (List.replicate m (.read fd.val 1 32 id)) s' := by
  induction m generalizing s with
  | zero => exact ⟨s, Run.nil s⟩
  | succ m ih =>
      obtain ⟨s', hrun⟩ := ih { s with kernel := (read id s.kernel pid fd.val 1 32).kernel }
      exact ⟨s', Run.cons ⟨fun _ => ⟨rfl, rfl⟩, trivial⟩ rfl hrun⟩

theorem countP_reads (fd : Fin 8) (m : Nat) :
    (List.replicate m (Call.read fd.val 1 32 id)).countP (Call.readsFrom fd) = m := by
  rw [List.countP_replicate, if_pos (by simp [Call.readsFrom, fdIndex_val])]

/-- A listing that has just begun is exact if and only if there are 17 entries. -/
theorem Lists.exactly_iff {s : CallState} (h : Lists s.kernel.fs pid fd 0 s.kernel)
    (h2 : 2 ≤ fd.val) (n : Nat) : ListsExactly pid fd s n ↔ n = 17 := by
  constructor
  · intro hexact
    obtain ⟨m, hm⟩ : ∃ m, m = min n 17 := ⟨_, rfl⟩
    obtain ⟨s', hrun⟩ := exists_run_reads pid fd s m
    have hlists := run_lists hrun h2 h
    obtain ⟨hbefore, hafter, -⟩ := hlists.read_spec h2 id one_ne_zero 32
    obtain ⟨hfirst, hlast⟩ := hexact _ s' hrun id 1 32 one_ne_zero
    rw [countP_reads, zero_add] at hbefore hafter
    rw [countP_reads] at hfirst hlast
    rcases Nat.lt_trichotomy n 17 with hlt | heq | hgt
    · -- the read after the last entry still delivers a name
      have hzero := hlast (by omega)
      rw [(hbefore (by omega)).1] at hzero
      exact absurd hzero (by decide)
    · exact heq
    · -- entry 17 is not delivered
      have hname := (hfirst (by omega)).1
      rw [hafter (by omega)] at hname
      exact absurd hname (by decide)
  · rintro rfl calls s' hrun interrupts buf nbytes hbuf
    have hlists := run_lists hrun h2 h
    rw [zero_add] at hlists
    obtain ⟨hbefore, hafter, -⟩ := hlists.read_spec h2 interrupts hbuf nbytes
    exact ⟨hbefore, hafter⟩

end Listing

/-- `open` on `.` begins a listing. -/
theorem openFile_lists {pid : Fin 6} {s : CallState} {n : Nat} {fd : Fin 8}
    (h : TableInvariant pid s) (hfs : DirectoryImage s.kernel.fs n)
    (hopen : fdIndex (openFile s.kernel pid dotName).2 = some fd) :
    2 ≤ fd.val ∧
      Lists (openFile s.kernel pid dotName).1.fs pid fd 0 (openFile s.kernel pid dotName).1 := by
  by_cases hrefused : OpenRefused s.kernel pid dotName
  · rw [(openFile_refused hrefused).1] at hopen
    cases hopen
  · obtain ⟨i, loc, hi, hr, hopens⟩ := openFile_opens hrefused
    obtain ⟨i', -, hi', htype⟩ := hfs.dot
    rw [hi] at hi'
    cases hi'
    rw [hr, fdIndex_val] at hopen
    cases hopen
    obtain ⟨op, inode, pos, hkind, hd⟩ := hopens.entry
    have hdir : op = .directoryTable ∧ pos = 0 := by
      rw [openKind, htype] at hkind
      simp at hkind
      exact ⟨hkind.1.symm, hkind.2.2.symm⟩
    have hleast := (h.freeDescriptor_iff fd).mp hopens.free
    refine ⟨hleast.1.1, rfl, ?_, ?_, ?_⟩
    · rw [hd]
      exact hdir.1
    · rw [hd]
      simp
    · rw [hd, hdir.2]
      rfl

/--
A process that has opened `.` on a well-formed image with `n` entries: the
listing is complete and exact if and only if `n` is 17.
-/
theorem listing_exact_iff {k : Kernel} {pid : Fin 6} {calls : List Call} {s₀ s₁ : CallState}
    {n : Nat} {fd : Fin 8}
    (hrun : Run (processStep pid) (Undisturbed pid) (CallState.started (initPcb k pid)) calls s₀)
    (hfs : DirectoryImage s₀.kernel.fs n)
    (hopen : processStep pid s₀ (.openFile dotName) = some s₁)
    (hfd : fdIndex (openFile s₀.kernel pid dotName).2 = some fd) :
    ListsExactly pid fd s₁ n ↔ n = 17 := by
  obtain rfl := Option.some.inj hopen
  have hinv := run_tableInvariant hrun (initPcb_invariant k pid)
  obtain ⟨h2, hlists⟩ := openFile_lists hinv hfs hfd
  exact Lists.exactly_iff hlists h2 n

/-- An image with the directory and `n - 1` empty files. -/
def directoryImage (n : UInt8) : Mem := fun a =>
  if a = 0 then n
  else if a = 4 ∨ a = 8 ∨ a = 96 then 1
  else if a = 64 then 0x2E
  else if 64 < a ∧ a < 64 + 64 * n.toNat ∧ (a - 64) % 64 = 0 then
    UInt8.ofNat (0x60 + (a.toNat - 64) / 64)
  else if 96 < a ∧ a < 64 + 64 * n.toNat ∧ (a - 64) % 64 = 32 then 2
  else 0

/-- Between the counts, the names and the types the image is zero. -/
theorem directoryImage_zero (n : UInt8) (a : Int) (h4 : 4 < a) (h8 : a ≠ 8)
    (h : 4096 ≤ a ∨ a < 64 ∨ (a - 64) % 64 ≠ 0 ∧ (a - 64) % 64 ≠ 32) (hn : n.toNat ≤ 63) :
    directoryImage n a = 0 := by
  unfold directoryImage
  rw [if_neg (by omega), if_neg (by omega), if_neg (by omega), if_neg (by omega),
    if_neg (by omega)]

theorem directoryImage_wellFormed {n : UInt8} (hn : n.toNat ≤ 63) :
    WellFormed (directoryImage n) := by
  have hinode : ∀ i : Nat, (dentryAt (directoryImage n) i).inodeNum = 0 := by
    intro i
    apply int32At_eq_zero
    intro b hlo hhi
    exact directoryImage_zero n b (by omega) (by omega) (by omega) hn
  have hnodes : numIndexNodes (directoryImage n) = 1 := by
    have h4 : directoryImage n 4 = 1 := rfl
    simp only [numIndexNodes, int32At]
    rw [h4, directoryImage_zero n _ (by omega) (by omega) (by omega) hn,
      directoryImage_zero n _ (by omega) (by omega) (by omega) hn,
      directoryImage_zero n _ (by omega) (by omega) (by omega) hn]
    decide
  have hsize : fileSize (directoryImage n) 0 = 0 := by
    have hnode : indexNode 0 = 4096 := by decide
    apply int32At_eq_zero
    intro b hlo hhi
    rw [hnode] at hlo
    exact directoryImage_zero n b (by omega) (by omega) (by omega) hn
  refine ⟨?_, ?_, ?_⟩
  · intro i _
    rw [hinode, hnodes]
    decide
  · intro inode h0 h1
    obtain rfl : inode = 0 := by omega
    rw [hsize]
    decide
  · intro inode j h0 h1 hj0 hj
    obtain rfl : inode = 0 := by omega
    omega

/-- Process 0 on a kernel with the given image, before its first call. -/
def freshProcess (fs : Mem) : CallState :=
  CallState.started (initPcb (Kernel.zero (fun _ => 0) fs) 0)

theorem listing_exact_iff_seventeen :
    ∃ s₁, processStep 0 (freshProcess (directoryImage 17)) (.openFile dotName) = some s₁ ∧
      ListsExactly 0 2 s₁ 17 := by
  have hfs : DirectoryImage (directoryImage 17) 17 := by
    refine ⟨directoryImage_wellFormed (by decide), by decide +kernel, by decide, 0, by decide, ?_⟩
    decide +kernel
  have hfd : fdIndex (openFile (freshProcess (directoryImage 17)).kernel 0 dotName).2 =
      some 2 := by
    decide +kernel
  exact ⟨_, rfl,
    (listing_exact_iff (Run.nil (freshProcess (directoryImage 17))) hfs rfl hfd).mpr rfl⟩

/-- The directory alone: sixteen entries that are not there are listed after it. -/
theorem single_entry_lists_more :
    ∃ s₁, DirectoryImage (directoryImage 1) 1 ∧
      processStep 0 (freshProcess (directoryImage 1)) (.openFile dotName) = some s₁ ∧
      fdIndex (openFile (freshProcess (directoryImage 1)).kernel 0 dotName).2 = some 2 ∧
      ¬ ListsExactly 0 2 s₁ 1 := by
  have hfs : DirectoryImage (directoryImage 1) 1 := by
    refine ⟨directoryImage_wellFormed (by decide), by decide +kernel, by decide, 0, by decide, ?_⟩
    decide +kernel
  have hfd : fdIndex (openFile (freshProcess (directoryImage 1)).kernel 0 dotName).2 =
      some 2 := by
    decide +kernel
  have hinv : TableInvariant 0 (freshProcess (directoryImage 1)) := initPcb_invariant _ 0
  obtain ⟨h2, hlists⟩ := openFile_lists hinv hfs hfd
  refine ⟨_, hfs, rfl, hfd, ?_⟩
  rw [Lists.exactly_iff hlists h2]
  decide

end OopsOs
