import OopsOs.FileReads
import OopsOs.Lib.Machine

/-!
# Sessions of open, close and read

A session is any sequence of `open`, `close` and `read` calls of any of the
processes, between which the rest of the kernel may do what it likes to
everything but the descriptors and the image.  Beside the kernel it keeps a
ledger, written from the calls and their results alone: the directory entry
each live descriptor was opened on, and the number and the bytes that its
reads have returned since.

`Tracks` ties a ledger entry to the descriptor in the process control block,
`fileStep_tracked` carries it through every step, and on a tracked descriptor
of a regular file a read is the next slice of the file (`read_tracked`).
-/

namespace OopsOs

open ByteMem Machine

/-- What the calls on a live descriptor have shown so far. -/
structure Opened where
  dentry : Nat
  total : Int
  delivered : List UInt8
deriving DecidableEq, Repr

structure FileSession where
  kernel : Kernel
  started : Fin 6 → Bool
  ledger : Fin 6 → Fin 8 → Option Opened

/-- Before any process has been started. -/
def FileSession.fresh (k : Kernel) : FileSession :=
  ⟨k, fun _ => false, fun _ _ => none⟩

/--
`start` is the `init_pcb` that `execute` runs on a slot before the process in
it makes its first call.  `other` is anything else the kernel does.
-/
inductive FileEvent
  | start (pid : Fin 6)
  | openFile (pid : Fin 6) (filename : List UInt8)
  | close (pid : Fin 6) (fd : Int)
  | read (pid : Fin 6) (fd : Int) (buf : Nat) (nbytes : Int) (interrupts : Kernel → Kernel)
  | other (f : Kernel → Kernel)

/-- The calls that name a descriptor, and the start of its process. -/
def FileEvent.On : FileEvent → Fin 6 → Fin 8 → Prop
  | .start pid, pid', _ => pid' = pid
  | .close pid fd, pid', fd' => pid' = pid ∧ fdIndex fd = some fd'
  | .read pid fd _ _ _, pid', fd' => pid' = pid ∧ fdIndex fd = some fd'
  | .openFile _ _, _, _ => False
  | .other _, _, _ => False

def setLedger (l : Fin 6 → Fin 8 → Option Opened) (pid : Fin 6) (fd : Option (Fin 8))
    (f : Option Opened → Option Opened) : Fin 6 → Fin 8 → Option Opened :=
  fun pid' fd' => if pid' = pid ∧ fd = some fd' then f (l pid' fd') else l pid' fd'

/-- One call, with the ledger brought up to date from its result. -/
def fileStep (s : FileSession) : FileEvent → Option FileSession
  | .start pid =>
      some
        { kernel := initPcb s.kernel pid
          started := Function.update s.started pid true
          ledger := fun pid' fd => if pid' = pid then none else s.ledger pid' fd }
  | .openFile pid filename =>
      if s.started pid then
        let r := OopsOs.openFile s.kernel pid filename
        some
          { s with
            kernel := r.1
            ledger := setLedger s.ledger pid (fdIndex r.2)
              (fun _ => (readDentryByName s.kernel.fs filename).map (fun i => ⟨i, 0, []⟩)) }
      else none
  | .close pid fd =>
      match OopsOs.close s.kernel pid fd with
      | (k, .returned v) =>
          some
            { s with
              kernel := k
              ledger :=
                if v = -1 then s.ledger
                else setLedger s.ledger pid (fdIndex fd) (fun _ => none) }
      | _ => none
  | .read pid fd buf nbytes interrupts =>
      match OopsOs.read interrupts s.kernel pid fd buf nbytes with
      | ⟨k, stores, .returned v⟩ =>
          some
            { s with
              kernel := k
              ledger :=
                if v = -1 then s.ledger
                else setLedger s.ledger pid (fdIndex fd) (Option.map (fun e =>
                  ⟨e.dentry, e.total + v, e.delivered ++ stores.map Prod.snd⟩)) }
      | _ => none
  | .other f => some { s with kernel := f s.kernel }

/-- Read sizes are not negative, and the rest of the kernel leaves the files alone. -/
def FileGuard (_ : FileSession) : FileEvent → Prop
  | .read _ _ _ nbytes interrupts =>
      0 ≤ nbytes ∧ nbytes < 2147483648 ∧ KeepsFiles interrupts
  | .other f => KeepsFiles f
  | _ => True

/-! ## The invariant -/

/-- The descriptor is where the ledger entry says it is. -/
structure Tracks (k : Kernel) (pid : Fin 6) (fd : Fin 8) (e : Opened) : Prop where
  user : 2 ≤ fd.val
  flags : (descriptor k pid fd).flags = 1
  kind : ∃ pos, openKind (dentryAt k.fs e.dentry) =
    some ((descriptor k pid fd).descriptorOpPtr, (descriptor k pid fd).inodeNum, pos)
  regular : RegularFile k.fs e.dentry →
    ((descriptor k pid fd).filePos.toNat : Int) = e.total ∧
    e.total ≤ fileSize k.fs (dentryAt k.fs e.dentry).inodeNum ∧
    e.delivered = fileBytes k.fs (dentryAt k.fs e.dentry).inodeNum e.total.toNat

structure Tracked (fs : Mem) (s : FileSession) : Prop where
  image : s.kernel.fs = fs
  reserved : ∀ pid, s.started pid = true →
    (descriptor s.kernel pid 0).flags ≠ 0 ∧ (descriptor s.kernel pid 1).flags ≠ 0
  live : ∀ pid fd e, s.ledger pid fd = some e → Tracks s.kernel pid fd e

theorem Tracks.congr {k k' : Kernel} {pid : Fin 6} {fd : Fin 8} {e : Opened}
    (hfs : k'.fs = k.fs) (hd : descriptor k' pid fd = descriptor k pid fd)
    (h : Tracks k pid fd e) : Tracks k' pid fd e := by
  obtain ⟨huser, hflags, hkind, hregular⟩ := h
  refine ⟨huser, ?_, ?_, ?_⟩
  · rw [hd]
    exact hflags
  · rw [hd, hfs]
    exact hkind
  · rw [hd, hfs]
    exact hregular

theorem openKind_regular {d : Dentry} {op : OpPtr} {inode pos : UInt32}
    (h : openKind d = some (op, inode, pos)) (htype : d.type = 2) :
    op = .fileTable ∧ inode = UInt32.ofInt d.inodeNum ∧ pos = 0 := by
  unfold openKind at h
  rw [htype] at h
  simp only [show ¬ ((2 : Int) = 0) by decide, show ¬ ((2 : Int) = 1) by decide, if_false,
    if_true, Option.some.injEq, Prod.mk.injEq] at h
  exact ⟨h.1.symm, h.2.1.symm, h.2.2.symm⟩

/-- A read on a tracked descriptor of a regular file is the next slice of the file. -/
theorem read_tracked {k : Kernel} {pid : Fin 6} {fd : Fin 8} {e : Opened}
    (hwf : WellFormed k.fs) (ht : Tracks k pid fd e) (hreg : RegularFile k.fs e.dentry)
    (interrupts : Kernel → Kernel) {buf : Nat} {nbytes : Int}
    (hbuf : buf ≠ 0) (h0 : 0 ≤ nbytes) (h1 : nbytes < 2147483648) :
    let inode := (dentryAt k.fs e.dentry).inodeNum
    let n := min nbytes (fileSize k.fs inode - e.total)
    (read interrupts k pid fd buf nbytes).outcome = .returned n ∧
      (read interrupts k pid fd buf nbytes).stores = sliceStores k.fs inode e.total n.toNat ∧
      ((descriptor (read interrupts k pid fd buf nbytes).kernel pid fd).filePos.toNat : Int) =
        e.total + n := by
  intro inode n
  obtain ⟨pos, hkind⟩ := ht.kind
  obtain ⟨htable, hinode, -⟩ := openKind_regular hkind hreg.2
  obtain ⟨hpos, htotal, -⟩ := ht.regular hreg
  obtain ⟨hi0, hi1⟩ := hwf.inodes e.dentry hreg.1
  have hfd := ht.user
  have hread : read interrupts k pid fd buf nbytes = fileRead k pid fd buf nbytes := by
    unfold read
    rw [fdIndex_val]
    simp only
    rw [if_neg (by simp [ht.flags, hbuf]; omega), pointStdin, if_neg (by omega), htable]
  have hinodes : numIndexNodes k.fs < 2147483648 := by
    unfold numIndexNodes int32At
    exact BitVec.toInt_lt
  have hfile := fileRead_regular k pid fd buf nbytes inode hbuf h0 h1 ht.flags htable hinode hi0
    (by omega) (hwf.sizes inode hi0 hi1) (by rw [hpos]; exact htotal)
  simp only [hpos] at hfile
  rw [hread]
  exact hfile

/-! ## One step -/

/-- The part of the invariant that a kernel with the same files keeps. -/
theorem Tracked.of_files {fs : Mem} {s : FileSession} {k : Kernel} (h : Tracked fs s)
    (hfs : k.fs = s.kernel.fs) (hpcb : k.pcb = s.kernel.pcb) :
    Tracked fs { s with kernel := k } := by
  have hd : ∀ pid fd, descriptor k pid fd = descriptor s.kernel pid fd := by
    intro pid fd
    rw [descriptor, descriptor, hpcb]
  refine ⟨hfs.trans h.image, ?_, ?_⟩
  · intro pid hs
    simp only [hd]
    exact h.reserved pid hs
  · intro pid fd e he
    exact (h.live pid fd e he).congr hfs (hd pid fd)

/--
A step that changes one descriptor: the other entries stay tracked, and what
is left is the entry of that descriptor and the two reserved ones.
-/
theorem Tracked.of_only {fs : Mem} {s : FileSession} {k : Kernel}
    {l : Fin 6 → Fin 8 → Option Opened} {pid : Fin 6} {fd : Fin 8}
    (h : Tracked fs s) (honly : OnlyDescriptor pid fd s.kernel k)
    (hl : ∀ pid' fd', ¬ (pid' = pid ∧ fd' = fd) → l pid' fd' = s.ledger pid' fd')
    (hreserved : s.started pid = true → fd.val < 2 → (descriptor k pid fd).flags ≠ 0)
    (hnew : ∀ e, l pid fd = some e → Tracks k pid fd e) :
    Tracked fs ⟨k, s.started, l⟩ := by
  refine ⟨honly.fs.trans h.image, ?_, ?_⟩
  · intro pid' hs
    have hkeep : ∀ fd', fd'.val < 2 → (descriptor s.kernel pid' fd').flags ≠ 0 →
        (descriptor k pid' fd').flags ≠ 0 := by
      intro fd' hfd' hne
      by_cases heq : pid' = pid ∧ fd' = fd
      · obtain ⟨rfl, rfl⟩ := heq
        exact hreserved hs hfd'
      · rw [honly.other pid' fd' heq]
        exact hne
    obtain ⟨hzero, hone⟩ := h.reserved pid' hs
    exact ⟨hkeep 0 (by decide) hzero, hkeep 1 (by decide) hone⟩
  · intro pid' fd' e he
    by_cases heq : pid' = pid ∧ fd' = fd
    · obtain ⟨rfl, rfl⟩ := heq
      exact hnew e he
    · simp only [hl pid' fd' heq] at he
      exact (h.live pid' fd' e he).congr honly.fs (honly.other pid' fd' heq)

theorem setLedger_other {l : Fin 6 → Fin 8 → Option Opened} {pid : Fin 6} {fd : Fin 8}
    {f : Option Opened → Option Opened} {pid' : Fin 6} {fd' : Fin 8}
    (h : ¬ (pid' = pid ∧ fd' = fd)) :
    setLedger l pid (some fd) f pid' fd' = l pid' fd' := by
  unfold setLedger
  rw [if_neg]
  rintro ⟨hp, hf⟩
  exact h ⟨hp, (Option.some.inj hf).symm⟩

@[simp] theorem setLedger_self (l : Fin 6 → Fin 8 → Option Opened) (pid : Fin 6) (fd : Fin 8)
    (f : Option Opened → Option Opened) :
    setLedger l pid (some fd) f pid fd = f (l pid fd) := by
  simp [setLedger]

@[simp] theorem setLedger_none (l : Fin 6 → Fin 8 → Option Opened) (pid : Fin 6)
    (f : Option Opened → Option Opened) : setLedger l pid none f = l := by
  funext pid' fd'
  simp [setLedger]

theorem start_tracked {fs : Mem} {s : FileSession} (h : Tracked fs s) (pid : Fin 6) :
    Tracked fs
      { kernel := initPcb s.kernel pid
        started := Function.update s.started pid true
        ledger := fun pid' fd => if pid' = pid then none else s.ledger pid' fd } := by
  have hother : ∀ pid' fd, pid' ≠ pid →
      descriptor (initPcb s.kernel pid) pid' fd = descriptor s.kernel pid' fd := by
    intro pid' fd hne
    simp [descriptor, initPcb, hne]
  refine ⟨h.image, ?_, ?_⟩
  · intro pid' hs
    by_cases hp : pid' = pid
    · subst hp
      simp [descriptor, initPcb]
    · simp only [Function.update_of_ne hp] at hs
      simp only [hother pid' _ hp]
      exact h.reserved pid' hs
  · intro pid' fd e he
    by_cases hp : pid' = pid
    · simp [hp] at he
    · simp only [if_neg hp] at he
      have hfs : (initPcb s.kernel pid).fs = s.kernel.fs := rfl
      exact (h.live pid' fd e he).congr hfs (hother pid' fd hp)

theorem openFile_tracked {fs : Mem} {s : FileSession} (hwf : WellFormed fs) (h : Tracked fs s)
    (pid : Fin 6) (filename : List UInt8) (hs : s.started pid = true) :
    Tracked fs
      { s with
        kernel := (openFile s.kernel pid filename).1
        ledger := setLedger s.ledger pid (fdIndex (openFile s.kernel pid filename).2)
          (fun _ => (readDentryByName s.kernel.fs filename).map (fun i => ⟨i, 0, []⟩)) } := by
  rcases openFile_cases s.kernel pid filename with
    ⟨hr, hfs, hpcb⟩ | ⟨i, hname, op, inode, pos, loc, hkind, hfree, hr, honly, hd⟩
  · have hnone : fdIndex (-1) = none := rfl
    rw [hr, hnone, setLedger_none]
    exact h.of_files hfs hpcb
  · rw [hr, fdIndex_val]
    have huser : 2 ≤ loc.val := by
      -- the two reserved descriptors are in use, so the free one is another
      obtain ⟨hzero, hone⟩ := h.reserved pid hs
      by_contra hlt
      have hloc : loc = 0 ∨ loc = 1 := by omega
      rcases hloc with rfl | rfl
      · exact hzero hfree
      · exact hone hfree
    refine h.of_only honly (fun pid' fd' hne => setLedger_other hne)
      (fun _ hlt => absurd hlt (by omega)) ?_
    intro e he
    simp only [setLedger_self, hname, Option.map_some, Option.some.injEq] at he
    subst he
    refine ⟨huser, by rw [hd], ⟨pos, by rw [hd, honly.fs, hkind]⟩, ?_⟩
    intro hreg
    rw [honly.fs] at hreg ⊢
    obtain ⟨-, -, hpos⟩ := openKind_regular hkind hreg.2
    rw [h.image] at hreg
    obtain ⟨hi0, hi1⟩ := hwf.inodes i hreg.1
    refine ⟨by rw [hd, hpos]; rfl, ?_, rfl⟩
    rw [h.image]
    exact (hwf.sizes _ hi0 hi1).1

theorem close_tracked {fs : Mem} {s : FileSession} (h : Tracked fs s) (pid : Fin 6) (fd v : Int)
    (hv : (close s.kernel pid fd).2 = .returned v) :
    Tracked fs
      { s with
        kernel := (close s.kernel pid fd).1
        ledger :=
          if v = -1 then s.ledger
          else setLedger s.ledger pid (fdIndex fd) (fun _ => none) } := by
  rcases close_cases s.kernel pid fd with ⟨hr, honly, hflags⟩ | ⟨f, hf, huser, hr, honly⟩
  · have hval : v = -1 := by
      rw [hr] at hv
      exact (Outcome.returned.inj hv).symm
    rw [if_pos hval]
    refine h.of_only honly (fun _ _ _ => rfl) ?_ ?_
    · intro hs _
      rw [hflags]
      exact (h.reserved pid hs).1
    · intro e he
      exact absurd (h.live pid 0 e he).user (by decide)
  · have hval : v ≠ -1 := by
      rintro rfl
      exact hr hv
    rw [if_neg hval, hf]
    refine h.of_only honly (fun pid' fd' hne => setLedger_other hne) ?_ ?_
    · intro _ hlt
      omega
    · intro e he
      simp at he

/--
The entry of the descriptor that a `read` has moved: what the result adds to
the ledger is what the descriptor has moved by.
-/
theorem read_entry_tracked {fs : Mem} {s : FileSession} (hwf : WellFormed fs) (h : Tracked fs s)
    {pid : Fin 6} {f : Fin 8} {buf : Nat} {nbytes v : Int} {interrupts : Kernel → Kernel}
    (h0 : 0 ≤ nbytes) (h1 : nbytes < 2147483648)
    (hv : (read interrupts s.kernel pid f buf nbytes).outcome = .returned v)
    (hframe : ReadFrame pid f s.kernel (read interrupts s.kernel pid f buf nbytes).kernel)
    (hbuf : buf ≠ 0) {e : Opened} (he : s.ledger pid f = some e) :
    Tracks (read interrupts s.kernel pid f buf nbytes).kernel pid f
      ⟨e.dentry, e.total + v,
        e.delivered ++ (read interrupts s.kernel pid f buf nbytes).stores.map Prod.snd⟩ ∧
    (RegularFile s.kernel.fs e.dentry → v ≠ -1) := by
  have ht := h.live pid f e he
  have huser := ht.user
  have hsame := hframe.handle (by omega)
  have hnext : ∀ hreg : RegularFile s.kernel.fs e.dentry, _ := fun hreg =>
    read_tracked (h.image ▸ hwf) ht hreg interrupts hbuf h0 h1
  refine ⟨⟨huser, hsame.flags.trans ht.flags, ?_, ?_⟩, ?_⟩
  · obtain ⟨pos, hkind⟩ := ht.kind
    exact ⟨pos, by rw [hframe.only.fs, hsame.descriptorOpPtr, hsame.inodeNum]; exact hkind⟩
  · simp only [hframe.only.fs]
    intro hreg
    obtain ⟨hpos, htotal, hbytes⟩ := ht.regular hreg
    obtain ⟨hn, hstores, hpos'⟩ := hnext hreg
    have hvn := Outcome.returned.inj (hv.symm.trans hn)
    refine ⟨by rw [hpos', ← hvn], by omega, ?_⟩
    rw [hbytes, hstores, ← hvn, sliceStores_bytes _ _ _ _ (by omega)]
    congr 1
    omega
  · intro hreg
    obtain ⟨-, htotal, -⟩ := ht.regular hreg
    have hvn := Outcome.returned.inj (hv.symm.trans (hnext hreg).1)
    omega

/-- A failed `read` leaves the entry of its descriptor as it was. -/
theorem read_failed_tracked {fs : Mem} {s : FileSession} (hwf : WellFormed fs) (h : Tracked fs s)
    {pid : Fin 6} {f : Fin 8} {buf : Nat} {nbytes : Int} {interrupts : Kernel → Kernel}
    (h0 : 0 ≤ nbytes) (h1 : nbytes < 2147483648)
    (hv : (read interrupts s.kernel pid f buf nbytes).outcome = .returned (-1))
    (hframe : ReadFrame pid f s.kernel (read interrupts s.kernel pid f buf nbytes).kernel)
    {e : Opened} (he : s.ledger pid f = some e) :
    Tracks (read interrupts s.kernel pid f buf nbytes).kernel pid f e := by
  have ht := h.live pid f e he
  by_cases hbuf : buf = 0
  · have hfs : (s.kernel.printf "system calls read failed").fs = s.kernel.fs := rfl
    rw [hbuf, read_null]
    exact ht.congr hfs rfl
  · obtain ⟨hmoved, hne⟩ := read_entry_tracked hwf h h0 h1 hv hframe hbuf he
    refine ⟨hmoved.user, hmoved.flags, hmoved.kind, ?_⟩
    intro hreg
    rw [hframe.only.fs] at hreg
    exact absurd rfl (hne hreg)

theorem read_tracked_step {fs : Mem} {s : FileSession} (hwf : WellFormed fs) (h : Tracked fs s)
    (pid : Fin 6) (fd : Int) (buf : Nat) (nbytes v : Int) (interrupts : Kernel → Kernel)
    (h0 : 0 ≤ nbytes) (h1 : nbytes < 2147483648) (hkeep : KeepsFiles interrupts)
    (hv : (read interrupts s.kernel pid fd buf nbytes).outcome = .returned v) :
    Tracked fs
      { s with
        kernel := (read interrupts s.kernel pid fd buf nbytes).kernel
        ledger :=
          if v = -1 then s.ledger
          else setLedger s.ledger pid (fdIndex fd) (Option.map (fun e =>
            ⟨e.dentry, e.total + v, e.delivered ++
              (read interrupts s.kernel pid fd buf nbytes).stores.map Prod.snd⟩)) } := by
  cases hf : fdIndex fd with
  | none =>
      rw [setLedger_none, ite_self, read_bad_fd _ _ _ hf]
      exact h.of_files rfl rfl
  | some f =>
      have hfd : fd = (f.val : Int) := fdIndex_eq hf
      subst hfd
      have hframe := read_frame hkeep s.kernel pid hf buf nbytes
      have hreserved : s.started pid = true → f.val < 2 →
          (descriptor (read interrupts s.kernel pid f buf nbytes).kernel pid f).flags ≠ 0 := by
        intro hs hlt
        rw [hframe.flags]
        have hcase : f = 0 ∨ f = 1 := by omega
        rcases hcase with rfl | rfl
        · exact (h.reserved pid hs).1
        · exact (h.reserved pid hs).2
      by_cases hval : v = -1
      · subst hval
        rw [if_pos rfl]
        refine h.of_only hframe.only (fun _ _ _ => rfl) hreserved ?_
        intro e he
        exact read_failed_tracked hwf h h0 h1 hv hframe he
      · rw [if_neg hval]
        refine h.of_only hframe.only (fun pid' fd' hne => setLedger_other hne) hreserved ?_
        intro e he
        rw [setLedger_self, Option.map_eq_some_iff] at he
        obtain ⟨e0, he0, rfl⟩ := he
        have hbuf : buf ≠ 0 := by
          rintro rfl
          rw [read_null] at hv
          exact hval (Outcome.returned.inj hv).symm
        exact (read_entry_tracked hwf h h0 h1 hv hframe hbuf he0).1

/-- Every step of a session keeps the ledger and the descriptors together. -/
theorem fileStep_tracked {fs : Mem} (hwf : WellFormed fs) (s : FileSession) (ev : FileEvent)
    (s' : FileSession) (h : Tracked fs s) (hguard : FileGuard s ev)
    (hstep : fileStep s ev = some s') : Tracked fs s' := by
  cases ev with
  | start pid =>
      obtain rfl := Option.some.inj hstep
      exact start_tracked h pid
  | openFile pid filename =>
      simp only [fileStep] at hstep
      split_ifs at hstep with hs
      obtain rfl := Option.some.inj hstep
      exact openFile_tracked hwf h pid filename hs
  | close pid fd =>
      simp only [fileStep] at hstep
      split at hstep
      · rename_i k v hclose
        obtain rfl := Option.some.inj hstep
        have hkept := close_tracked h pid fd v (by rw [hclose])
        rwa [hclose] at hkept
      · cases hstep
  | read pid fd buf nbytes interrupts =>
      obtain ⟨h0, h1, hkeep⟩ := hguard
      simp only [fileStep] at hstep
      split at hstep
      · rename_i k stores v hread
        obtain rfl := Option.some.inj hstep
        have hkept := read_tracked_step hwf h pid fd buf nbytes v interrupts h0 h1 hkeep
          (by rw [hread])
        rwa [hread] at hkept
      · cases hstep
  | other f =>
      obtain rfl := Option.some.inj hstep
      obtain ⟨hfs, hpcb⟩ := hguard s.kernel
      exact h.of_files hfs hpcb

/-- A step that is not on a live descriptor leaves it and its entry alone. -/
theorem fileStep_other {fs : Mem} {s s' : FileSession} {ev : FileEvent} (h : Tracked fs s)
    (hguard : FileGuard s ev) (hstep : fileStep s ev = some s') {pid : Fin 6} {fd : Fin 8}
    {e : Opened} (he : s.ledger pid fd = some e) (hon : ¬ ev.On pid fd) :
    descriptor s'.kernel pid fd = descriptor s.kernel pid fd ∧
      s'.ledger pid fd = s.ledger pid fd := by
  have ht := h.live pid fd e he
  cases ev with
  | start pid' =>
      obtain rfl := Option.some.inj hstep
      have hne : pid ≠ pid' := hon
      simp [descriptor, initPcb, hne]
  | openFile pid' filename =>
      simp only [fileStep] at hstep
      split_ifs at hstep with hs
      obtain rfl := Option.some.inj hstep
      rcases openFile_cases s.kernel pid' filename with
        ⟨hr, -, hpcb⟩ | ⟨i, -, op, inode, pos, loc, -, hfree, hr, honly, -⟩
      · have hnone : fdIndex (-1) = none := rfl
        simp only [hr, hnone, setLedger_none]
        exact ⟨by rw [descriptor, descriptor, hpcb], trivial⟩
      · -- the descriptor taken was free, and a live one is in use
        have hne : ¬ (pid = pid' ∧ fd = loc) := by
          rintro ⟨rfl, rfl⟩
          rw [ht.flags] at hfree
          exact absurd hfree (by decide)
        simp only [hr, fdIndex_val]
        exact ⟨honly.other pid fd hne, setLedger_other hne⟩
  | close pid' fd' =>
      simp only [fileStep] at hstep
      split at hstep
      · rename_i k v hclose
        obtain rfl := Option.some.inj hstep
        rcases close_cases s.kernel pid' fd' with ⟨hr, honly, -⟩ | ⟨f, hf, -, -, honly⟩
        · rw [hclose] at hr honly
          have hval : v = -1 := Outcome.returned.inj hr
          have huser := ht.user
          exact ⟨honly.other pid fd (by omega), by simp only [if_pos hval]⟩
        · rw [hclose] at honly
          have hne : ¬ (pid = pid' ∧ fd = f) := by
            rintro ⟨rfl, rfl⟩
            exact hon ⟨rfl, hf⟩
          refine ⟨honly.other pid fd hne, ?_⟩
          simp only [hf]
          split_ifs
          · rfl
          · exact setLedger_other hne
      · cases hstep
  | read pid' fd' buf nbytes interrupts =>
      simp only [fileStep] at hstep
      split at hstep
      · rename_i k stores v hread
        obtain rfl := Option.some.inj hstep
        cases hf : fdIndex fd' with
        | none =>
            rw [read_bad_fd _ _ _ hf] at hread
            obtain ⟨rfl, rfl, hval⟩ := ReadCall.mk.inj hread
            simp only [setLedger_none, ite_self]
            exact ⟨rfl, trivial⟩
        | some f =>
            have hframe := read_frame hguard.2.2 s.kernel pid' hf buf nbytes
            rw [hread] at hframe
            have hne : ¬ (pid = pid' ∧ fd = f) := by
              rintro ⟨rfl, rfl⟩
              exact hon ⟨rfl, hf⟩
            refine ⟨hframe.only.other pid fd hne, ?_⟩
            simp only
            split_ifs
            · rfl
            · exact setLedger_other hne
      · cases hstep
  | other f =>
      obtain rfl := Option.some.inj hstep
      exact ⟨by rw [descriptor, descriptor, (hguard s.kernel).2], rfl⟩

/-! ## Whole sessions -/

theorem fresh_tracked (k : Kernel) : Tracked k.fs (FileSession.fresh k) := by
  refine ⟨rfl, ?_, ?_⟩
  · intro pid hs
    cases hs
  · intro pid fd e he
    cases he

theorem session_tracked {k : Kernel} (hwf : WellFormed k.fs) {evs : List FileEvent}
    {s : FileSession} (hrun : Run fileStep FileGuard (FileSession.fresh k) evs s) :
    Tracked k.fs s :=
  hrun.invariant (fileStep_tracked hwf) (fresh_tracked k)

/--
Reading a file by descriptor delivers the file.  After any session, for every
live descriptor that was opened on a regular file:

* the next read returns exactly the rest of the file, or `nbytes` bytes of it,
  from the position that the earlier reads have reached;
* what the earlier reads have returned together is the file up to that
  position, which is the descriptor's own and never passes the size;
* no call on another descriptor, of this process or another, disturbs it.
-/
theorem session_reads_deliver_file (k : Kernel) (hwf : WellFormed k.fs) (evs : List FileEvent)
    (s : FileSession) (hrun : Run fileStep FileGuard (FileSession.fresh k) evs s)
    (pid : Fin 6) (fd : Fin 8) (e : Opened) (hlive : s.ledger pid fd = some e)
    (hreg : RegularFile k.fs e.dentry) :
    let inode := (dentryAt k.fs e.dentry).inodeNum
    let size := fileSize k.fs inode
    (∀ (interrupts : Kernel → Kernel) (buf : Nat) (nbytes : Int),
      buf ≠ 0 → 0 ≤ nbytes → nbytes < 2147483648 →
      let n := min nbytes (size - e.total)
      (read interrupts s.kernel pid fd buf nbytes).outcome = .returned n ∧
      (read interrupts s.kernel pid fd buf nbytes).stores =
        sliceStores k.fs inode e.total n.toNat) ∧
    e.delivered = fileBytes k.fs inode e.total.toNat ∧
    ((descriptor s.kernel pid fd).filePos.toNat : Int) = e.total ∧
    e.total ≤ size ∧
    (∀ (ev : FileEvent) (s' : FileSession), FileGuard s ev → fileStep s ev = some s' →
      ¬ ev.On pid fd →
      descriptor s'.kernel pid fd = descriptor s.kernel pid fd ∧
        s'.ledger pid fd = s.ledger pid fd) := by
  intro inode size
  have h := session_tracked hwf hrun
  have ht := h.live pid fd e hlive
  have himage := h.image
  have hreg' : RegularFile s.kernel.fs e.dentry := by
    rw [himage]
    exact hreg
  obtain ⟨hpos, htotal, hbytes⟩ := ht.regular hreg'
  rw [himage] at htotal hbytes
  refine ⟨?_, hbytes, hpos, htotal, ?_⟩
  · intro interrupts buf nbytes hbuf h0 h1
    obtain ⟨hn, hstores, -⟩ := read_tracked (himage ▸ hwf) ht hreg' interrupts hbuf h0 h1
    rw [himage] at hn hstores
    exact ⟨hn, hstores⟩
  · intro ev s' hguard hstep hon
    exact fileStep_other h hguard hstep hlive hon

/-- An image with one file, `a`, of the three bytes `xyz`. -/
def oneFileImage : Mem := fun a =>
  if a = 0 ∨ a = 4 ∨ a = 8 then 1
  else if a = 64 then 0x61
  else if a = 96 then 2
  else if a = 4096 then 3
  else if a = 8192 then 0x78
  else if a = 8193 then 0x79
  else if a = 8194 then 0x7A
  else 0

theorem oneFileImage_wellFormed : WellFormed oneFileImage := by
  apply wellFormed_of_one_file (by decide +kernel) (by decide +kernel) (by decide +kernel)
  exact fileInImage_of_one_block (by decide +kernel) (by decide +kernel) (by decide +kernel)

/-- The session that starts process 0, which opens the file as descriptor 2. -/
theorem session_reads_deliver_file_open :
    ∃ (s : FileSession) (e : Opened), s.ledger 0 2 = some e ∧
      RegularFile oneFileImage e.dentry ∧
      (read id s.kernel 0 2 1 2).outcome = .returned 2 ∧
      (read id s.kernel 0 2 1 2).stores = [(0, 0x78), (1, 0x79)] := by
  have hrun : Run fileStep FileGuard (FileSession.fresh (Kernel.zero (fun _ => 0) oneFileImage))
      [.start 0, .openFile 0 [0x61]] _ :=
    Run.cons trivial rfl (Run.cons trivial rfl (Run.nil _))
  have hreg : RegularFile oneFileImage 0 := by
    unfold RegularFile
    decide +kernel
  obtain ⟨hread, -⟩ := session_reads_deliver_file _ oneFileImage_wellFormed _ _ hrun 0 2
    ⟨0, 0, []⟩ rfl hreg
  obtain ⟨hn, hstores⟩ := hread id 1 2 (by decide) (by decide) (by decide)
  exact ⟨_, ⟨0, 0, []⟩, rfl, hreg, hn, hstores⟩

end OopsOs
