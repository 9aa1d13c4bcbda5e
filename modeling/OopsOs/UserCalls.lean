import OopsOs.Arguments
import OopsOs.DirectoryListing
import OopsOs.DirectoryNames
import OopsOs.FileSlices
import OopsOs.Grep
import OopsOs.ProgramOutput
import OopsOs.VideoMap
import OopsOs.Lib.Programs

/-!
# The system calls as the programs see them

The programs of `syscalls/` and `fish/` make the calls of `ece391syscall.S`.
`Serves` is what the kernel may answer to a call of the process `pid`.  Between
its calls, and while one of them waits, others may run; what they do is a
parameter, and `LeavesAlone` is the condition that they keep the image and the
process's control block.  A program that has mapped the video page also stores
into it by itself; such a store is an event of its own, so that others may run
before it too.

A descriptor of a program stands for the bytes that it has yet to deliver:
`Delivers` says which, and `Delivers.read` is the specification of a read.
`contents` are the bytes that stand behind a name before it is opened.
-/

namespace OopsOs

open ByteMem Programs

/-! ## Calls and answers -/

inductive UserCall
  | getargs (nbytes : Int)
  | openFile (filename : Buffer)
  | close (fd : Int)
  | read (fd nbytes : Int)
  | write (fd : Int) (buf : Buffer) (nbytes : Int)
  | execute (command : Buffer)
  | vidmap (screenStart : Nat)
  /-- Not a call: a store of the program at an offset of the page from `vidmap`. -/
  | poke (offset : Nat) (b : UInt8)

/-- The value of a call, and its stores into the program's buffer. -/
structure Answer where
  value : Int
  stores : Stores

abbrev UserProgram (A : Type) := Program UserCall Answer A

/-- A run as a program sees it. -/
abbrev Trace := List (UserCall × Answer)

/--
What the kernel `k` answers to a call of the process `pid`, with `others` before
it takes the call up.  From the start of a child until it halts, the kernel is
the others' too.

The process runs in its own page, and `get_pcb` finds its own control block: its
calls are served with the slot `pid`.  A call is taken up as one step, but for
the wait of a read, in which `interrupts` come.  `vidmap` is followed if the
process is the `process_num` of a terminal, and nobody takes the mapping away:
then `VideoMapped.userStore_returned` says where a `poke` goes.
-/
inductive Serves (others : Kernel → Kernel → Prop) (pid : Fin 6) :
    Kernel → UserCall → Answer → Kernel → Prop
  | getargs {k k₁ : Kernel} {nbytes v : Int} :
      others k k₁ → (getargs k₁ pid nbytes).outcome = .returned v →
      Serves others pid k (.getargs nbytes) ⟨v, (getargs k₁ pid nbytes).stores⟩
        (getargs k₁ pid nbytes).kernel
  | openFile {k k₁ : Kernel} {filename : Buffer} {name : List UInt8} :
      others k k₁ → StringAt filename 0 name →
      Serves others pid k (.openFile filename) ⟨(openFile k₁ pid name).2, []⟩
        (openFile k₁ pid name).1
  | close {k k₁ : Kernel} {fd v : Int} :
      others k k₁ → (close k₁ pid fd).2 = .returned v →
      Serves others pid k (.close fd) ⟨v, []⟩ (close k₁ pid fd).1
  | read {k k₁ : Kernel} {interrupts : Kernel → Kernel} {fd nbytes v : Int} {buf : Nat} :
      others k k₁ → (∀ k, others k (interrupts k)) → buf ≠ 0 →
      (read interrupts k₁ pid fd buf nbytes).outcome = .returned v →
      Serves others pid k (.read fd nbytes) ⟨v, (read interrupts k₁ pid fd buf nbytes).stores⟩
        (read interrupts k₁ pid fd buf nbytes).kernel
  | write {k k₁ : Kernel} {fd nbytes v : Int} {buf : Buffer} :
      others k k₁ → (write k₁ pid fd (some buf) nbytes).2 = .returned v →
      Serves others pid k (.write fd buf nbytes) ⟨v, []⟩ (write k₁ pid fd (some buf) nbytes).1
  | executeRefused {k k₁ : Kernel} {command : Buffer} {cmd : List UInt8} {saved : Context} :
      others k k₁ → StringAt command 0 cmd → (execute k₁ cmd saved).2 = none →
      Serves others pid k (.execute command) ⟨-1, []⟩ (execute k₁ cmd saved).1
  | executeReturned {k k₁ k₂ : Kernel} {command : Buffer} {cmd : List UInt8} {saved : Context}
      {child : Fin 6} (status : Int) :
      others k k₁ → StringAt command 0 cmd → (execute k₁ cmd saved).2 = some child →
      others k₁ k₂ →
      Serves others pid k (.execute command) ⟨status, []⟩ k₂
  | vidmap {k : Kernel} {s : PagedKernel} {L : PageLayout} {screenStart : Nat} :
      others k s.kernel → processTerm s.kernel (s.kernel.pcb pid).processNum ≠ none →
      Serves others pid k (.vidmap screenStart) ⟨(vidmap L s pid screenStart).value, []⟩
        (vidmap L s pid screenStart).state.kernel
  | poke {k k₁ : Kernel} {offset : Nat} {b : UInt8} :
      others k k₁ → offset < 4096 →
      Serves others pid k (.poke offset b) ⟨0, []⟩
        (k₁.setMem (k₁.console.mem.store (video + offset) b))

/-- The image and the control block of the process are as they were. -/
structure SameOwn (pid : Fin 6) (k k' : Kernel) : Prop where
  fs : k'.fs = k.fs
  pcb : k'.pcb pid = k.pcb pid

/--
The others leave the image and the control block of the process alone.  That
they do not run on its kernel stack, or with its page, is part of `Serves`.
-/
def LeavesAlone (others : Kernel → Kernel → Prop) (pid : Fin 6) : Prop :=
  ∀ k k', others k k' → SameOwn pid k k'

theorem LeavesAlone.keepsProcess {others : Kernel → Kernel → Prop} {pid : Fin 6}
    (h : LeavesAlone others pid) {interrupts : Kernel → Kernel}
    (hothers : ∀ k, others k (interrupts k)) : KeepsProcess pid interrupts := by
  intro k
  exact ⟨(h _ _ (hothers k)).fs, (h _ _ (hothers k)).pcb⟩

theorem SameOwn.trans {pid : Fin 6} {k k' k'' : Kernel} (h : SameOwn pid k k')
    (h' : SameOwn pid k' k'') : SameOwn pid k k'' :=
  ⟨h'.fs.trans h.fs, h'.pcb.trans h.pcb⟩

theorem SameOwn.descriptor {pid : Fin 6} {k k' : Kernel} (h : SameOwn pid k k') (fd : Fin 8) :
    descriptor k' pid fd = descriptor k pid fd := by
  rw [OopsOs.descriptor, OopsOs.descriptor, h.pcb]

theorem SameOwn.own {pid : Fin 6} {k k' : Kernel} (h : SameOwn pid k k') (fd : Fin 8) :
    OnlyOwn pid fd k k' :=
  ⟨h.fs, fun fd' _ => h.descriptor fd'⟩

/-! ## A process by itself -/

def answered (call : ReadCall) : Option (Answer × Kernel) :=
  match call.outcome with
  | .returned v => some (⟨v, call.stores⟩, call.kernel)
  | _ => none

/-- The string at index `i`, if it ends within `n` bytes. -/
def textAt (buf : Buffer) (i : Nat) : Nat → Option (List UInt8)
  | 0 => none
  | n + 1 => if buf i = 0 then some [] else (textAt buf (i + 1) n).map (fun l => buf i :: l)

/-- The answers while only `interrupts` come in, to a read that waits, and no child is started. -/
def serveAlone (interrupts : Kernel → Kernel) (pid : Fin 6) (k : Kernel) :
    UserCall → Option (Answer × Kernel)
  | .getargs nbytes => answered (getargs k pid nbytes)
  | .openFile filename =>
      (textAt filename 0 1024).map (fun name =>
        (⟨(openFile k pid name).2, []⟩, (openFile k pid name).1))
  | .close fd => answered ⟨(close k pid fd).1, [], (close k pid fd).2⟩
  | .read fd nbytes => answered (read interrupts k pid fd 1 nbytes)
  | .write fd buf nbytes =>
      answered ⟨(write k pid fd (some buf) nbytes).1, [], (write k pid fd (some buf) nbytes).2⟩
  | .execute command =>
      (textAt command 0 1024).bind (fun cmd =>
        if (execute k cmd .zero).2 = none then some (⟨-1, []⟩, (execute k cmd .zero).1) else none)
  | .vidmap screenStart =>
      let s : PagedKernel := ⟨k, fun _ => 0, fun _ => 0, fun _ => 0, none⟩
      if processTerm k (k.pcb pid).processNum ≠ none then
        some (⟨(vidmap successivePages s pid screenStart).value, []⟩,
          (vidmap successivePages s pid screenStart).state.kernel)
      else none
  | .poke offset b =>
      if offset < 4096 then
        some (⟨0, []⟩, k.setMem (k.console.mem.store (video + offset) b))
      else none

theorem textAt_eq_some {buf : Buffer} {i n : Nat} {l : List UInt8} (h : textAt buf i n = some l) :
    StringAt buf i l := by
  induction n generalizing i l with
  | zero => cases h
  | succ n ih =>
      rw [textAt] at h
      split_ifs at h with hzero
      · cases h
        refine ⟨by simp, ?_⟩
        intro j hj
        obtain rfl : j = 0 := Nat.le_zero.mp hj
        exact hzero
      · obtain ⟨rest, hrest, rfl⟩ := Option.map_eq_some_iff.mp h
        exact StringAt.cons hzero rfl (ih hrest)

theorem answered_eq_some {call : ReadCall} {r : Answer} {k : Kernel}
    (h : answered call = some (r, k)) :
    call.outcome = .returned r.value ∧ r = ⟨r.value, call.stores⟩ ∧ k = call.kernel := by
  unfold answered at h
  cases hout : call.outcome with
  | returned v =>
      rw [hout] at h
      cases h
      exact ⟨rfl, rfl, rfl⟩
  | waiting =>
      rw [hout] at h
      cases h
  | wild =>
      rw [hout] at h
      cases h

theorem serves_of_serveAlone {others : Kernel → Kernel → Prop} {interrupts : Kernel → Kernel}
    (hrefl : ∀ k, others k k) (hint : ∀ k, others k (interrupts k)) {pid : Fin 6} (k : Kernel)
    (q : UserCall) (r : Answer) (k' : Kernel) (h : serveAlone interrupts pid k q = some (r, k')) :
    Serves others pid k q r k' := by
  cases q with
  | getargs nbytes =>
      obtain ⟨hv, hr, rfl⟩ := answered_eq_some h
      rw [hr]
      exact .getargs (hrefl k) hv
  | openFile filename =>
      obtain ⟨name, hname, heq⟩ := Option.map_eq_some_iff.mp h
      cases heq
      exact .openFile (hrefl k) (textAt_eq_some hname)
  | close fd =>
      obtain ⟨hv, hr, rfl⟩ := answered_eq_some h
      rw [hr]
      exact .close (hrefl k) hv
  | read fd nbytes =>
      obtain ⟨hv, hr, rfl⟩ := answered_eq_some h
      rw [hr]
      exact .read (hrefl k) hint one_ne_zero hv
  | write fd buf nbytes =>
      obtain ⟨hv, hr, rfl⟩ := answered_eq_some h
      rw [hr]
      exact .write (hrefl k) hv
  | execute command =>
      obtain ⟨cmd, hcmd, hrest⟩ := Option.bind_eq_some_iff.mp h
      split_ifs at hrest with hnone
      cases hrest
      exact .executeRefused (hrefl k) (textAt_eq_some hcmd) hnone
  | vidmap screenStart =>
      rw [serveAlone] at h
      split_ifs at h with hterm
      cases h
      exact .vidmap (s := ⟨k, fun _ => 0, fun _ => 0, fun _ => 0, none⟩) (hrefl k) hterm
  | poke offset b =>
      rw [serveAlone] at h
      split_ifs at h with hoffset
      cases h
      exact .poke (hrefl k) hoffset

theorem leavesAlone_eq (pid : Fin 6) : LeavesAlone Eq pid := by
  rintro k _ rfl
  exact ⟨rfl, rfl⟩

/-! ## The program's buffers and output -/

/-- The stores that put the bytes of the list at the beginning of the buffer. -/
def storesOf (c : List UInt8) : Stores := blockStores 0 (fun i => c.getD i 0) c.length

theorem map_snd_storesOf (c : List UInt8) : (storesOf c).map Prod.snd = c := by
  rw [storesOf, blockStores, List.map_map]
  apply List.ext_getElem
  · simp
  · intro j hj hjc
    rw [List.getElem_map, List.getElem_range]
    exact List.getD_eq_getElem _ 0 hjc

/-- The program's buffer after a call has stored into it. -/
def filled (buf : Buffer) (stores : Stores) : Buffer :=
  fun i => Mem.storeAll (fun a => buf a.toNat) stores (i : Int)

theorem filled_storesOf (buf : Buffer) (c : List UInt8) :
    filled buf (storesOf c) = buf.write 0 c := by
  funext x
  rw [filled, storesOf, Mem.storeAll_blockStores, Buffer.write_apply]
  by_cases hx : x < c.length
  · rw [if_pos (by omega), if_pos (by omega)]
    congr 1
  · rw [if_neg (by omega), if_neg (by omega)]
    rfl

/-- The 32 bytes of `arguments` are the argument as a string, if it leaves room for the NUL. -/
theorem stringAt_arguments (buf : Buffer) {a : List UInt8} (hnul : ∀ c ∈ a, c ≠ 0)
    (hlen : a.length ≤ 31) :
    StringAt (filled buf (storesOf ((List.range 32).map (fun j => a.getD j 0)))) 0 a := by
  rw [filled_storesOf]
  refine ⟨hnul, ?_⟩
  intro j hj
  have hj32 : j < ((List.range 32).map (fun j => a.getD j 0)).length := by
    rw [List.length_map, List.length_range]
    omega
  rw [Buffer.write_at _ _ hj32, List.getD_eq_getElem _ 0 hj32, List.getElem_map,
    List.getElem_range]

/-- The bytes that a call writes to descriptor 1. -/
def written (c : UserCall × Answer) : List UInt8 :=
  match c.1 with
  | .write fd buf nbytes => if fd = 1 then (List.range nbytes.toNat).map buf else []
  | _ => []

/-- All bytes that a run writes to descriptor 1, in order. -/
def stdout (t : Trace) : List UInt8 := t.flatMap written

@[simp] theorem stdout_nil : stdout [] = [] := rfl

@[simp] theorem stdout_cons (c : UserCall × Answer) (t : Trace) :
    stdout (c :: t) = written c ++ stdout t := rfl

@[simp] theorem stdout_append (t t' : Trace) : stdout (t ++ t') = stdout t ++ stdout t' :=
  List.flatMap_append

/-- A write of the bytes at the beginning of a buffer. -/
theorem written_of_shows {buf : Buffer} {c : List UInt8} (h : buf.Shows 0 c) (r : Answer) :
    written (.write 1 buf c.length, r) = c := by
  rw [written]
  simp only [if_true, Int.toNat_natCast]
  apply List.ext_getElem
  · simp
  · intro j hj hjc
    rw [List.getElem_map, List.getElem_range, ← List.getD_eq_getElem _ 0 hjc, ← h j hjc,
      Nat.zero_add]

/-- `ece391_fdputs`. -/
def fdputs (fuel : Nat) (fd : Int) (s : Buffer) : UserProgram Unit :=
  match ece391Strlen fuel s 0 with
  | none => .spin
  | some len => .call (.write fd s len) (fun _ => .done ())

/-- `ece391_fdputs (1, ..)` of a string literal. -/
def putsText (m : String) : UserProgram Unit :=
  fdputs ((literal m).length + 1) 1 (cstr (literal m))

/-- A call that puts nothing on the screen but what it is told to write. -/
def Quiet (c : UserCall × Answer) : Prop :=
  match c.1 with
  | .getargs _ => c.2.value ≠ -1
  | .openFile _ => c.2.value ≠ -1
  | .close _ => c.2.value ≠ -1
  | .read _ nbytes => c.2.value ≠ -1 ∧ nbytes ≠ 0
  | .write _ _ _ => c.2.value ≠ -1
  | .execute _ => False
  | .vidmap _ => True
  | .poke _ _ => False

/-- The run makes no call but writes. -/
def OnlyWrites (t : Trace) : Prop := ∀ c ∈ t, ∃ fd buf nbytes, c.1 = .write fd buf nbytes

theorem ensures_putsText_onlyWrites {others : Kernel → Kernel → Prop} {pid : Fin 6} (m : String)
    (k : Kernel) : (putsText m).Ensures (Serves others pid) (fun t _ _ => OnlyWrites t) k := by
  rw [putsText, fdputs]
  cases ece391Strlen ((literal m).length + 1) (cstr (literal m)) 0 with
  | none =>
      intro c hc
      cases hc
  | some len =>
      intro r k' _ c hc
      obtain rfl := List.mem_singleton.mp hc
      exact ⟨1, _, len, rfl⟩

/-- What no write changes is as before behind a text. -/
theorem ensures_putsText_keeps {others : Kernel → Kernel → Prop} {pid : Fin 6} {P : Kernel → Prop}
    (hP : ∀ k buf nbytes r k', P k → Serves others pid k (.write 1 buf nbytes) r k' → P k')
    (m : String) {k : Kernel} (h : P k) :
    (putsText m).Ensures (Serves others pid) (fun _ _ k' => P k') k := by
  rw [putsText, fdputs]
  cases ece391Strlen ((literal m).length + 1) (cstr (literal m)) 0 with
  | none => exact h
  | some len => exact fun r k' hserve => hP k _ _ r k' h hserve

/-! ## What stands behind a name -/

/-- The name field of a directory entry, as `directory_read` delivers it. -/
def nameField (fs : Mem) (i : Nat) : List UInt8 :=
  (List.range 32).map (fun j => (entryName fs i).getD j 0)

theorem length_nameField (fs : Mem) (i : Nat) : (nameField fs i).length = 32 := by
  simp [nameField]

theorem nameStores_eq_storesOf (fs : Mem) (i : Nat) :
    nameStores (dentryAt fs i).name = storesOf (nameField fs i) := by
  rw [nameStores_eq_blockStores, storesOf, length_nameField]
  unfold blockStores
  apply List.map_congr_left
  intro j hj
  have hj : j < 32 := List.mem_range.mp hj
  beta_reduce
  rw [dif_pos hj, nameField, List.getD_eq_getElem _ _ (by simpa using hj), List.getElem_map,
    List.getElem_range, entryName_getD fs i hj]

/-- The name fields from entry `i` on, as far as `read_dentry_by_index` accepts the index. -/
def listing (fs : Mem) (i : Nat) : List UInt8 :=
  (List.range' i (17 - i)).flatMap (nameField fs)

theorem listing_cons (fs : Mem) {i : Nat} (h : i < 17) :
    listing fs i = nameField fs i ++ listing fs (i + 1) := by
  rw [listing, show 17 - i = (17 - (i + 1)) + 1 by omega, List.range'_succ, List.flatMap_cons]
  rfl

theorem listing_end (fs : Mem) : listing fs 17 = [] := rfl

def wholeFile (fs : Mem) (inode : Int) : List UInt8 :=
  fileBytes fs inode (fileSize fs inode).toNat

/-- The bytes that can be read of an entry of the directory; none if it cannot be opened. -/
def entryContents (fs : Mem) (i : Nat) : Option (List UInt8) :=
  if (dentryAt fs i).type = 0 then some []
  else if (dentryAt fs i).type = 1 then some (listing fs 0)
  else if (dentryAt fs i).type = 2 then some (wholeFile fs (dentryAt fs i).inodeNum)
  else none

/-- The bytes that can be read of what a name stands for; none if it cannot be opened. -/
def contents (fs : Mem) (name : List UInt8) : Option (List UInt8) :=
  if name = [] then none else (readDentryByName fs name).bind (entryContents fs)

/-- The slots that bear the name are recorded ones. -/
def NameRecorded (fs : Mem) (name : List UInt8) : Prop :=
  ∀ i, readDentryByName fs name = some i → (i : Int) < numDirEntries fs

/-! ## What a descriptor has yet to deliver -/

/-- The descriptor stands in a file of the image, with these bytes behind its position. -/
structure FileRest (fs : Mem) (d : FileDescriptor) (l : List UInt8) : Prop where
  table : d.descriptorOpPtr = .fileTable
  file : ∃ inode : Int, d.inodeNum = UInt32.ofInt inode ∧ 0 ≤ inode ∧ inode < 2147483648 ∧
    (0 ≤ fileSize fs inode ∧ fileSize fs inode ≤ 1023 * 4096) ∧
    (d.filePos.toNat : Int) ≤ fileSize fs inode ∧ l = (wholeFile fs inode).drop d.filePos.toNat

/-- The descriptor stands before entry `i` of the directory. -/
structure ListingRest (d : FileDescriptor) (i : Nat) : Prop where
  table : d.descriptorOpPtr = .directoryTable
  position : d.filePos.toNat = i
  inside : i ≤ 17

/-- What a descriptor stands for. -/
inductive Source (fs : Mem) (d : FileDescriptor) : List UInt8 → Prop
  | clock : d.descriptorOpPtr = .rtcTable → Source fs d []
  | listing {i : Nat} : ListingRest d i → Source fs d (listing fs i)
  | file {l : List UInt8} : FileRest fs d l → Source fs d l

structure Delivers (pid : Fin 6) (fd : Fin 8) (k : Kernel) (l : List UInt8) : Prop where
  user : 2 ≤ fd.val
  flags : (descriptor k pid fd).flags = 1
  source : Source k.fs (descriptor k pid fd) l

theorem Delivers.of_same {pid : Fin 6} {fd : Fin 8} {k k' : Kernel} {l : List UInt8}
    (h : Delivers pid fd k l) (hfs : k'.fs = k.fs)
    (hd : descriptor k' pid fd = descriptor k pid fd) : Delivers pid fd k' l := by
  refine ⟨h.user, ?_, ?_⟩
  · rw [hd]
    exact h.flags
  · rw [hfs, hd]
    exact h.source

theorem length_wholeFile {fs : Mem} {inode : Int} (h : 0 ≤ fileSize fs inode) :
    ((wholeFile fs inode).length : Int) = fileSize fs inode := by
  simp [wholeFile, fileBytes, h]

/-- A slice of a file is a part of the whole. -/
theorem sliceStores_eq_storesOf (fs : Mem) (inode : Int) {pos n : Nat}
    (h : (pos : Int) + n ≤ fileSize fs inode) :
    sliceStores fs inode pos n = storesOf (((wholeFile fs inode).drop pos).take n) := by
  have hlen : (((wholeFile fs inode).drop pos).take n).length = n := by
    have : ((wholeFile fs inode).length : Int) = fileSize fs inode := length_wholeFile (by omega)
    rw [List.length_take, List.length_drop]
    omega
  rw [sliceStores_eq_blockStores, storesOf, hlen]
  unfold blockStores
  apply List.map_congr_left
  intro j hj
  have hj : j < n := List.mem_range.mp hj
  beta_reduce
  rw [List.getD_eq_getElem _ _ (by rw [hlen]; exact hj), List.getElem_take, List.getElem_drop]
  simp [wholeFile, fileBytes]

section Read

variable {others : Kernel → Kernel → Prop} {pid : Fin 6} (hothers : LeavesAlone others pid)
variable {fd : Fin 8} {k k' : Kernel} {l : List UInt8} {nbytes : Int} {r : Answer}
include hothers

/-- A `read` on an open descriptor other than 0 and 1 goes to the descriptor's table. -/
theorem serves_read_cases (h2 : 2 ≤ fd.val) (hflags : (descriptor k pid fd).flags = 1)
    (hserve : Serves others pid k (.read fd.val nbytes) r k') :
    ∃ k₁ buf call, others k k₁ ∧ buf ≠ 0 ∧ call.outcome = .returned r.value ∧
      r.stores = call.stores ∧ k' = call.kernel ∧
      match (descriptor k pid fd).descriptorOpPtr with
      | .rtcTable => ∃ interrupts, (∀ k, others k (interrupts k)) ∧ call = rtcRead interrupts k₁
      | .directoryTable => call = directoryRead k₁ pid fd
      | .fileTable => call = fileRead k₁ pid fd buf nbytes
      | _ => True := by
  cases hserve with
  | @read k₁ interrupts _ _ v buf hk hint hbuf hv =>
      have hsame := hothers _ _ hk
      refine ⟨k₁, buf, _, hk, hbuf, hv, rfl, rfl, ?_⟩
      have hbad : ¬ ((descriptor k pid fd).flags = 0 ∨ buf = 0 ∨ fd = 1) := by
        rw [hflags]
        rintro (hzero | hb | rfl)
        · exact absurd hzero (by decide)
        · exact hbuf hb
        · exact absurd h2 (by decide)
      have hzero : ¬ fd = 0 := by
        rintro rfl
        exact absurd h2 (by decide)
      unfold read
      rw [fdIndex_val]
      simp only [pointStdin, if_neg hzero, hsame.descriptor, if_neg hbad]
      cases (descriptor k pid fd).descriptorOpPtr with
      | rtcTable => exact ⟨interrupts, hint, rfl⟩
      | directoryTable => rfl
      | fileTable => rfl
      | null => trivial
      | termTable => trivial
      | word w => trivial

/-- A read of a file: as many of the bytes behind the position as are asked for. -/
theorem serves_read_file (h2 : 2 ≤ fd.val) (hflags : (descriptor k pid fd).flags = 1)
    (hrest : FileRest k.fs (descriptor k pid fd) l) (h0 : 0 ≤ nbytes) (h1 : nbytes < 2147483648)
    (hserve : Serves others pid k (.read fd.val nbytes) r k') :
    r.value = (l.take nbytes.toNat).length ∧ r.stores = storesOf (l.take nbytes.toNat) ∧
      FileRest k'.fs (descriptor k' pid fd) (l.drop nbytes.toNat) ∧
      (descriptor k' pid fd).flags = 1 := by
  obtain ⟨k₁, buf, call, hk, hbuf, hv, hstores, rfl, hcall⟩ :=
    serves_read_cases hothers h2 hflags hserve
  have hsame := hothers _ _ hk
  rw [hrest.table] at hcall
  obtain rfl : call = fileRead k₁ pid fd buf nbytes := hcall
  obtain ⟨inode, hinode, hi0, hi1, hsize, hpos, rfl⟩ := hrest.file
  have hd := hsame.descriptor fd
  have hlen := length_wholeFile hsize.1
  rw [← hsame.fs] at hsize hpos
  obtain ⟨hout, hst, hnext⟩ := fileRead_regular k₁ pid fd buf nbytes inode hbuf h0 h1
    (by rw [hd, hflags]) (by rw [hd, hrest.table]) (by rw [hd, hinode]) hi0 hi1 hsize
    (by rw [hd]; exact hpos)
  rw [hd, hsame.fs] at hout hst hnext
  rw [hsame.fs] at hsize hpos
  obtain ⟨honly, hhandle⟩ := fileRead_frame k₁ pid fd buf nbytes
  have hcount : (((wholeFile k.fs inode).drop (descriptor k pid fd).filePos.toNat).take
      nbytes.toNat).length =
      (min nbytes (fileSize k.fs inode - (descriptor k pid fd).filePos.toNat)).toNat := by
    rw [List.length_take, List.length_drop]
    omega
  have hfs : (fileRead k₁ pid fd buf nbytes).kernel.fs = k.fs := honly.fs.trans hsame.fs
  refine ⟨?_, ?_, ⟨?_, inode, ?_, hi0, hi1, ?_, ?_, ?_⟩, ?_⟩
  · rw [hv] at hout
    rw [hcount, Outcome.returned.inj hout]
    omega
  · rw [hstores, hst, sliceStores_eq_storesOf _ _ (by omega)]
    congr 1
    rw [List.take_eq_take_iff, List.length_drop]
    omega
  · rw [hhandle.descriptorOpPtr, hd, hrest.table]
  · rw [hhandle.inodeNum, hd, hinode]
  · rw [hfs]
    exact hsize
  · rw [hfs, hnext]
    omega
  · rw [hfs, List.drop_drop, List.drop_eq_drop_iff]
    omega
  · rw [hhandle.flags, hd, hflags]

/-- A read of the directory: the next name field, or 0 behind the last. -/
theorem serves_read_listing {i : Nat} (h2 : 2 ≤ fd.val) (hflags : (descriptor k pid fd).flags = 1)
    (hrest : ListingRest (descriptor k pid fd) i)
    (hserve : Serves others pid k (.read fd.val nbytes) r k') :
    k'.fs = k.fs ∧ (descriptor k' pid fd).flags = 1 ∧
      ((i < 17 ∧ r.value = 32 ∧ r.stores = storesOf (nameField k.fs i) ∧
          ListingRest (descriptor k' pid fd) (i + 1)) ∨
        (i = 17 ∧ r.value = 0 ∧ r.stores = [] ∧ ListingRest (descriptor k' pid fd) 17)) := by
  obtain ⟨k₁, buf, call, hk, hbuf, hv, hstores, rfl, hcall⟩ :=
    serves_read_cases hothers h2 hflags hserve
  have hsame := hothers _ _ hk
  rw [hrest.table] at hcall
  obtain rfl : call = directoryRead k₁ pid fd := hcall
  have hd := hsame.descriptor fd
  obtain ⟨honly, hhandle⟩ := directoryRead_frame k₁ pid fd
  have hle := hrest.inside
  have hlists : Lists k.fs pid fd i k₁ := by
    refine ⟨hsame.fs, by rw [hd, hrest.table], by rw [hd, hflags]; decide, ?_⟩
    rw [hd, hrest.position]
    omega
  have htable : (descriptor (directoryRead k₁ pid fd).kernel pid fd).descriptorOpPtr =
      .directoryTable := by
    rw [hhandle.descriptorOpPtr, hd, hrest.table]
  refine ⟨honly.fs.trans hsame.fs, by rw [hhandle.flags, hd, hflags], ?_⟩
  rcases Nat.lt_or_ge i 17 with hlt | hge
  · left
    obtain ⟨hout, hst, hnext⟩ := hlists.directoryRead_before hlt
    rw [hv] at hout
    refine ⟨hlt, Outcome.returned.inj hout, ?_, htable, ?_, by omega⟩
    · rw [hstores, hst, nameStores_eq_storesOf]
    · rw [hnext.position]
      omega
  · right
    obtain ⟨hout, hnext⟩ := hlists.directoryRead_after hge
    rw [hv] at hout
    refine ⟨by omega, Outcome.returned.inj hout, ?_, htable, ?_, le_refl 17⟩
    · have hend : readDentryByIndex k₁.fs ((descriptor k₁ pid fd).filePos.toNat : Int) = none := by
        rw [hd, hrest.position, readDentryByIndex, if_pos (by omega)]
      rw [hstores, directoryRead]
      simp only [hend]
    · rw [hnext.position]
      omega

/-- A read of the clock stores nothing and returns 0. -/
theorem serves_read_clock (h2 : 2 ≤ fd.val) (hflags : (descriptor k pid fd).flags = 1)
    (htable : (descriptor k pid fd).descriptorOpPtr = .rtcTable)
    (hserve : Serves others pid k (.read fd.val nbytes) r k') :
    r.value = 0 ∧ r.stores = [] ∧ SameOwn pid k k' := by
  obtain ⟨k₁, buf, call, hk, hbuf, hv, hstores, rfl, hcall⟩ :=
    serves_read_cases hothers h2 hflags hserve
  have hsame := hothers _ _ hk
  rw [htable] at hcall
  obtain ⟨interrupts, hint, rfl⟩ : ∃ interrupts, (∀ k, others k (interrupts k)) ∧
      call = rtcRead interrupts k₁ := hcall
  obtain ⟨hfs, hpcb⟩ := rtcRead_process (hothers.keepsProcess hint) k₁
  have hown := hsame.trans ⟨hfs, hpcb⟩
  unfold rtcRead at hv hstores
  by_cases hflag : (interrupts { k₁ with isRtcInterruptFlag := 1 }).isRtcInterruptFlag = 0
  · simp only [if_pos hflag] at hv hstores
    exact ⟨(Outcome.returned.inj hv).symm, hstores, hown⟩
  · simp only [if_neg hflag] at hv
    cases hv

/--
A read of a descriptor that a program has opened: the next part of what it has
yet to deliver, which is empty only at the end.
-/
theorem Delivers.read (h : Delivers pid fd k l) (h0 : 0 < nbytes) (h1 : nbytes < 2147483648)
    (hserve : Serves others pid k (.read fd.val nbytes) r k') :
    ∃ c rest, l = c ++ rest ∧ (c = [] → l = []) ∧ r.value = c.length ∧ r.stores = storesOf c ∧
      Delivers pid fd k' rest := by
  obtain ⟨h2, hflags, hsource⟩ := h
  cases hsource with
  | clock htable =>
      obtain ⟨hv, hst, hsame⟩ := serves_read_clock hothers h2 hflags htable hserve
      refine ⟨[], [], rfl, fun h => h, hv, hst, h2, ?_, .clock ?_⟩
      · rw [hsame.descriptor, hflags]
      · rw [hsame.descriptor, htable]
  | @listing i hrest =>
      obtain ⟨hfs, hflags', hcase⟩ := serves_read_listing hothers h2 hflags hrest hserve
      rcases hcase with ⟨hlt, hv, hst, hnext⟩ | ⟨rfl, hv, hst, hnext⟩
      · refine ⟨nameField k.fs i, OopsOs.listing k.fs (i + 1), listing_cons k.fs hlt, ?_, ?_, hst,
          h2, hflags', ?_⟩
        · intro hnil
          have hlen := length_nameField k.fs i
          rw [hnil] at hlen
          cases hlen
        · rw [hv, length_nameField]
          rfl
        · rw [← hfs]
          exact .listing hnext
      · refine ⟨[], [], rfl, fun h => h, hv, hst, h2, hflags', ?_⟩
        rw [← listing_end k'.fs]
        exact .listing hnext
  | file hrest =>
      obtain ⟨hv, hst, hnext, hflags'⟩ :=
        serves_read_file hothers h2 hflags hrest (le_of_lt h0) h1 hserve
      refine ⟨l.take nbytes.toNat, l.drop nbytes.toNat, (List.take_append_drop ..).symm, ?_, hv,
        hst, h2, hflags', .file hnext⟩
      intro hnil
      rcases List.take_eq_nil_iff.mp hnil with hzero | hl
      · omega
      · exact hl

end Read

/-! ## The other calls -/

/-- Descriptors 0 and 1 of the process are as `execute` leaves them. -/
structure Standard (pid : Fin 6) (k : Kernel) : Prop where
  stdin : (descriptor k pid 0).flags ≠ 0
  stdout : (descriptor k pid 1).flags ≠ 0
  table : (descriptor k pid 1).descriptorOpPtr = .termTable

/-- The process has been started with the argument `a` and has made no call yet. -/
structure Begun (pid : Fin 6) (a : List UInt8) (k : Kernel) : Prop extends Standard pid k where
  free : ∀ fd : Fin 8, 2 ≤ fd.val → (descriptor k pid fd).flags = 0
  arguments : ∀ j, j < 32 → (k.pcb pid).arguments j = a.getD j 0

theorem Standard.of_same {pid : Fin 6} {k k' : Kernel} (h : Standard pid k)
    (hd : ∀ fd : Fin 8, fd.val < 2 → descriptor k' pid fd = descriptor k pid fd) :
    Standard pid k' := by
  refine ⟨?_, ?_, ?_⟩
  · rw [hd 0 (by decide)]
    exact h.stdin
  · rw [hd 1 (by decide)]
    exact h.stdout
  · rw [hd 1 (by decide)]
    exact h.table

theorem Standard.of_read {pid : Fin 6} {k k' : Kernel} {f : Fin 8} (h : Standard pid k)
    (hown : OwnRead pid f k k') : Standard pid k' := by
  have hflags : ∀ fd, (descriptor k' pid fd).flags = (descriptor k pid fd).flags := by
    intro fd
    by_cases heq : fd = f
    · rw [heq, hown.flags]
    · rw [hown.only.other fd heq]
  refine ⟨?_, ?_, ?_⟩
  · rw [hflags]
    exact h.stdin
  · rw [hflags]
    exact h.stdout
  · by_cases heq : 1 = f
    · subst heq
      rw [(hown.handle (by decide)).descriptorOpPtr]
      exact h.table
    · rw [hown.only.other 1 heq]
      exact h.table

/-- `execute` begins the process that it starts. -/
theorem execute_begun {k : Kernel} {cmd : List UInt8} {saved : Context} {pid : Fin 6}
    (h : (execute k cmd saved).2 = some pid) :
    Begun pid (parse cmd).2 (execute k cmd saved).1 ∧ (execute k cmd saved).1.fs = k.fs := by
  have harg := fun j (hj : j < 32) => execute_arguments h hj
  rcases execute_cases k cmd saved with ⟨-, text, heq⟩ | ⟨pid', -, -, heq⟩
  · rw [heq] at h
    cases h
  · rw [heq] at h harg ⊢
    cases h
    have hd := descriptor_enterProcess (allocateSlot (reportName k (parse cmd).1) pid) pid
      (parse cmd).2 saved
    refine ⟨⟨⟨?_, ?_, ?_⟩, ?_, harg⟩, ?_⟩
    · rw [hd]
      simp [enteredDescriptor]
    · rw [hd]
      simp [enteredDescriptor]
    · rw [hd]
      simp [enteredDescriptor]
    · intro fd hfd
      have h0 : fd ≠ 0 := by
        rintro rfl
        exact absurd hfd (by decide)
      have h1 : fd ≠ 1 := by
        rintro rfl
        exact absurd hfd (by decide)
      rw [hd, enteredDescriptor, if_neg h0, if_neg h1]
    · exact reportName_fs k (parse cmd).1

/-- The descriptor that `open` takes is neither 0 nor 1. -/
theorem Opens.user {pid : Fin 6} {k k' : Kernel} {i : Nat} {loc : Fin 8}
    (h : Opens k pid i loc k') (hstd : Standard pid k) : 2 ≤ loc.val := by
  have hflags := freeDescriptor_flags h.free
  by_contra hlow
  have hcase : loc = 0 ∨ loc = 1 := by omega
  rcases hcase with rfl | rfl
  · exact hstd.stdin hflags
  · exact hstd.stdout hflags

/-- What `open` leaves on an entry of the directory: a descriptor for the entry's bytes. -/
theorem Opens.delivers {pid : Fin 6} {k k' : Kernel} {i : Nat} {loc : Fin 8} {l : List UInt8} (h : Opens k pid i loc k')
    (hwf : WellFormed k.fs) (hrecorded : (i : Int) < numDirEntries k.fs)
    (hstd : Standard pid k) (hl : entryContents k.fs i = some l) : Delivers pid loc k' l := by
  obtain ⟨op, inode, pos, hkind, hd⟩ := h.entry
  have hfs := h.only.fs
  refine ⟨h.user hstd, by rw [hd], ?_⟩
  unfold openKind at hkind
  unfold entryContents at hl
  rw [hd]
  split_ifs at hkind hl with h0 h1 h2
  · cases hkind
    cases hl
    exact .clock rfl
  · cases hkind
    cases hl
    rw [← hfs]
    exact .listing ⟨rfl, rfl, by decide⟩
  · cases hkind
    cases hl
    obtain ⟨hi0, hi1⟩ := hwf.inodes i hrecorded
    have hsize := hwf.sizes _ hi0 hi1
    have hnodes : numIndexNodes k.fs < 2147483648 := by
      unfold numIndexNodes int32At
      exact BitVec.toInt_lt
    refine .file ⟨rfl, _, rfl, hi0, by omega, ?_, ?_, ?_⟩
    · rw [hfs]
      exact hsize
    · rw [hfs]
      exact hsize.1
    · rw [hfs]
      rfl

/-- An `open` that does not fail only fills in a descriptor. -/
theorem openFile_accepted {k : Kernel} {pid : Fin 6} {filename : List UInt8}
    (h : (openFile k pid filename).2 ≠ -1) :
    ∃ loc d, (openFile k pid filename).1 = setDescriptor k pid loc d := by
  unfold openFile at h ⊢
  split_ifs at h ⊢
  · exact absurd rfl h
  · unfold reportName readDentryByName at h ⊢
    split_ifs at h ⊢ with hlong
    · exact absurd rfl h
    · cases hfind : findDentryFrom k.fs filename 0 64 with
      | none =>
          simp only [hfind] at h
          exact absurd rfl h
      | some i =>
          simp only [hfind, openEntry] at h ⊢
          cases hkind : openKind (dentryAt k.fs i) with
          | none =>
              rw [hkind] at h
              exact absurd rfl h
          | some kind =>
              rw [hkind] at h
              simp only at h ⊢
              cases hfree : freeDescriptor k pid with
              | none =>
                  rw [hfree] at h
                  exact absurd rfl h
              | some loc => exact ⟨loc, _, rfl⟩

theorem close_accepted {k : Kernel} {pid : Fin 6} {fd v : Int}
    (hv : (close k pid fd).2 = .returned v) (h : v ≠ -1) :
    ∃ f : Fin 8, 2 ≤ f.val ∧
      (close k pid fd).1 = setDescriptor k pid f { descriptor k pid f with flags := 0 } := by
  have haccepted : ∃ f, fdIndex fd = some f ∧ 2 ≤ f.val ∧ (descriptor k pid f).flags ≠ 0 := by
    by_contra hno
    push Not at hno
    have hrefused : (close k pid fd).2 = .returned (-1) :=
      (close_refused (fun f hf => (Nat.lt_or_ge f.val 2).imp_right (hno f hf))).1
    rw [hv] at hrefused
    exact h (Outcome.returned.inj hrefused)
  obtain ⟨f, hf, h2, hflags⟩ := haccepted
  refine ⟨f, h2, ?_⟩
  rw [fdIndex_eq hf, (close_live h2 hflags).1]

theorem contents_eq_none_iff {fs : Mem} {name : List UInt8} :
    contents fs name = none ↔ name = [] ∨ readDentryByName fs name = none ∨
      ∃ i, readDentryByName fs name = some i ∧ openKind (dentryAt fs i) = none := by
  unfold contents
  by_cases hnil : name = []
  · simp [hnil]
  · rw [if_neg hnil]
    cases readDentryByName fs name with
    | none => simp
    | some i =>
        unfold entryContents openKind
        simp only [hnil, Option.bind_some, Option.some.injEq, exists_eq_left', false_or]
        split_ifs <;> simp

section Calls

variable {others : Kernel → Kernel → Prop} {pid : Fin 6} (hothers : LeavesAlone others pid)
variable {k k' : Kernel} {r : Answer}
include hothers

/-- A read leaves the process's other descriptors alone. -/
theorem serves_read_own {fd : Fin 8} {nbytes : Int}
    (hserve : Serves others pid k (.read fd.val nbytes) r k') : OnlyOwn pid fd k k' := by
  cases hserve with
  | @read k₁ interrupts _ _ _ buf hk hint _ _ =>
      have hsame := hothers _ _ hk
      have hown := read_own (hothers.keepsProcess hint) k₁ (fdIndex_val fd) buf nbytes
      refine ⟨hown.only.fs.trans hsame.fs, ?_⟩
      intro fd' hne
      rw [hown.only.other fd' hne, hsame.descriptor]

omit hothers in
theorem Standard.of_own {fd : Fin 8} (hstd : Standard pid k) (h2 : 2 ≤ fd.val)
    (h : OnlyOwn pid fd k k') : Standard pid k' := by
  refine hstd.of_same ?_
  intro fd' hlow
  apply h.other
  rintro rfl
  omega

/-- A write on descriptor 1: all of it or nothing. -/
theorem serves_write (h : Standard pid k) {buf : Buffer} {nbytes : Int} (h0 : 0 ≤ nbytes)
    (hserve : Serves others pid k (.write 1 buf nbytes) r k') :
    (r.value = nbytes ∨ r.value = 0) ∧ SameOwn pid k k' := by
  cases hserve with
  | @write k₁ _ _ v _ hk hv =>
      have hsame := hothers _ _ hk
      obtain ⟨hfs, hpcb⟩ := write_files k₁ pid 1 (some buf) nbytes
      have hd := hsame.descriptor 1
      refine ⟨?_, hsame.trans ⟨hfs, congrFun hpcb pid⟩⟩
      have hflags : (descriptor k₁ pid 1).flags ≠ 0 := by
        rw [hd]
        exact h.stdout
      have htable : (descriptor k₁ pid 1).descriptorOpPtr = .termTable := by
        rw [hd]
        exact h.table
      by_cases hfull : (k₁.terminal k₁.activeTerminal).bufferIndex = 128
      · rw [write_of_full hflags htable buf h0 hfull] at hv
        exact .inr (Outcome.returned.inj hv).symm
      · rw [write_of_room hflags htable buf h0 hfull] at hv
        exact .inl (Outcome.returned.inj hv).symm

/-- `getargs` in a process that has been started with the argument `a`. -/
theorem serves_getargs {a : List UInt8} (h : Begun pid a k) (hnul : ∀ c ∈ a, c ≠ 0)
    {nbytes : Int} (hserve : Serves others pid k (.getargs nbytes) r k') :
    SameOwn pid k k' ∧
      ((a = [] ∧ r.value = -1) ∨
        (a ≠ [] ∧ r.value = 0 ∧
          r.stores = storesOf ((List.range 32).map (fun j => a.getD j 0)))) := by
  cases hserve with
  | @getargs k₁ _ v hk hv =>
      have hsame := hothers _ _ hk
      have hargs : ∀ j, j < 32 → (k₁.pcb pid).arguments j = a.getD j 0 := by
        intro j hj
        rw [hsame.pcb]
        exact h.arguments j hj
      by_cases ha : a = []
      · rw [getargs_nil hargs ha] at hv ⊢
        exact ⟨hsame.trans ⟨rfl, rfl⟩, .inl ⟨ha, (Outcome.returned.inj hv).symm⟩⟩
      · rw [getargs_cons hargs ha hnul] at hv ⊢
        refine ⟨hsame, .inr ⟨ha, (Outcome.returned.inj hv).symm, ?_⟩⟩
        unfold storesOf blockStores
        rw [List.length_map, List.length_range]
        apply List.map_congr_left
        intro j hj
        have hj : j < 32 := List.mem_range.mp hj
        have hlen : j < ((List.range 32).map (fun j => a.getD j 0)).length := by
          rw [List.length_map, List.length_range]
          exact hj
        beta_reduce
        rw [hargs j hj, List.getD_eq_getElem _ 0 hlen, List.getElem_map, List.getElem_range]

/-- `open` by a process that has a free descriptor. -/
theorem serves_open_cases (hfree : ∃ fd, (descriptor k pid fd).flags = 0) {filename : Buffer}
    {name : List UInt8} (hname : StringAt filename 0 name)
    (hserve : Serves others pid k (.openFile filename) r k') :
    (contents k.fs name = none ∧ r.value = -1 ∧ SameOwn pid k k') ∨
      ∃ k₁ i l loc, SameOwn pid k k₁ ∧ readDentryByName k.fs name = some i ∧
        contents k.fs name = some l ∧ entryContents k.fs i = some l ∧ r.value = (loc.val : Int) ∧
        Opens k₁ pid i loc k' := by
  cases hserve with
  | @openFile k₁ _ name' hk hname' =>
      obtain rfl := hname.unique hname'
      have hsame := hothers _ _ hk
      have hempty : cstr name 0 = 0 ↔ name = [] := by
        cases name with
        | nil => exact iff_of_true rfl rfl
        | cons c cs =>
            refine iff_of_false ?_ (List.cons_ne_nil c cs)
            exact hname.nonzero c (List.mem_cons_self ..)
      have hfree₁ : freeDescriptor k₁ pid ≠ none := by
        intro hnone
        obtain ⟨fd, hfd⟩ := hfree
        apply freeDescriptor_eq_none_iff.mp hnone fd
        rw [hsame.descriptor, hfd]
      have hrefused : OpenRefused k₁ pid name ↔ contents k₁.fs name = none := by
        rw [contents_eq_none_iff, OpenRefused, hempty]
        simp only [hfree₁, or_false]
      by_cases h : OpenRefused k₁ pid name
      · left
        obtain ⟨hr, hfs, hpcb⟩ := openFile_refused h
        rw [hrefused, hsame.fs] at h
        exact ⟨h, hr, hsame.trans ⟨hfs, congrFun hpcb pid⟩⟩
      · right
        obtain ⟨i, loc, hi, hr, hopens⟩ := openFile_opens h
        rw [hrefused, hsame.fs] at h
        rw [hsame.fs] at hi
        obtain ⟨l, hl⟩ := Option.ne_none_iff_exists'.mp h
        refine ⟨k₁, i, l, loc, hsame, hi, hl, ?_, hr, hopens⟩
        have hne : name ≠ [] := by
          intro hnil
          exact h (contents_eq_none_iff.mpr (.inl hnil))
        rwa [contents, if_neg hne, hi, Option.bind_some] at hl

/-- After `open` a descriptor that was free delivers what stands behind the name. -/
theorem serves_open (hstd : Standard pid k) (hfree : ∃ fd, (descriptor k pid fd).flags = 0)
    (hwf : WellFormed k.fs) {filename : Buffer} {name : List UInt8}
    (hname : StringAt filename 0 name) (hrecorded : NameRecorded k.fs name)
    (hserve : Serves others pid k (.openFile filename) r k') :
    (contents k.fs name = none ∧ r.value = -1 ∧ SameOwn pid k k') ∨
      ∃ l loc, contents k.fs name = some l ∧ r.value = (loc.val : Int) ∧ Delivers pid loc k' l ∧
        (descriptor k pid loc).flags = 0 ∧ OnlyOwn pid loc k k' := by
  rcases serves_open_cases hothers hfree hname hserve with
    hfail | ⟨k₁, i, l, loc, hsame, hi, hl, hentry, hr, hopens⟩
  · exact .inl hfail
  · have hstd₁ : Standard pid k₁ := hstd.of_same (fun fd _ => hsame.descriptor fd)
    have hi' := hrecorded i hi
    rw [← hsame.fs] at hwf hentry hi'
    refine .inr ⟨l, loc, hl, hr, hopens.delivers hwf hi' hstd₁ hentry, ?_, ?_⟩
    · rw [← hsame.descriptor]
      exact freeDescriptor_flags hopens.free
    · refine ⟨hopens.only.fs.trans hsame.fs, ?_⟩
      intro fd hne
      rw [hopens.only.own.other fd hne, hsame.descriptor]

omit hothers in
theorem literal_nonzero {m : String} (h : (literal m).all (fun c => c != 0) = true) :
    ∀ c ∈ literal m, c ≠ 0 := by
  intro c hc
  exact bne_iff_ne.mp (List.all_eq_true.mp h c hc)

/-- A text of the program, without NULs, is written as a whole. -/
theorem ensures_putsText {m : String} (hm : ∀ c ∈ literal m, c ≠ 0) (hstd : Standard pid k) :
    (putsText m).Ensures (Serves others pid)
      (fun t o k' => o = some () ∧ stdout t = literal m ∧ SameOwn pid k k') k := by
  have hlen : ece391Strlen ((literal m).length + 1) (cstr (literal m)) 0 =
      some (literal m).length := strlenAt_eq (stringAt_cstr hm) (Nat.lt_succ_self _)
  have hshows : Buffer.Shows (cstr (literal m)) 0 (literal m) := by
    intro j _
    rw [cstr, Nat.zero_add]
  rw [putsText, fdputs, hlen]
  intro r k' hserve
  refine ⟨rfl, ?_, (serves_write hothers hstd (Int.natCast_nonneg _) hserve).2⟩
  rw [stdout_cons, written_of_shows hshows, stdout_nil, List.append_nil]

/-- The end of a program that says what went wrong. -/
theorem ensures_complaint {A : Type} {m : String} (hm : ∀ c ∈ literal m, c ≠ 0)
    (hstd : Standard pid k) (a : A) :
    ((putsText m).bind (fun _ => .done a)).Ensures (Serves others pid)
      (fun t o k' => o = some a ∧ stdout t = literal m ∧ SameOwn pid k k') k := by
  rw [Program.ensures_bind]
  refine (ensures_putsText hothers hm hstd).mono ?_
  rintro t o k' ⟨rfl, ht, hsame⟩
  refine ⟨rfl, ?_, hsame⟩
  rw [stdout_append, ht, stdout_nil, List.append_nil]

end Calls

end OopsOs
