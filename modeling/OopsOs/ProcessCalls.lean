import OopsOs.FileReads
import OopsOs.ProcessFrames

/-!
# The calls of one process on its descriptors

A process opens, closes, reads, writes and halts; between its calls, and while
one of its reads waits, the rest of the kernel may do anything that leaves the
image and this process's control block alone.

For each call there is the list of the `descriptor_op_ptr` values that it goes
through.  `halt` closes descriptors in a loop; `haltCloses_eq` says that this
loop is what the model of `halt` does in one step.

A control block is memory.  `Pcb.words` are its words in the order of `pcb_t`,
and `enterProcess_words` says that what `execute` leaves behind is the
initialised block with two words stored over its beginning, as
`go_to_ring_three` does.
-/

namespace OopsOs

open ByteMem

inductive Call
  | openFile (filename : List UInt8)
  | close (fd : Int)
  | read (fd : Int) (buf : Nat) (nbytes : Int) (interrupts : Kernel → Kernel)
  | write (fd : Int) (buf : Option (Nat → UInt8)) (nbytes : Int)
  | halt (saved : Context)
  /-- Anything else that the kernel does. -/
  | other (f : Kernel → Kernel)

/--
The kernel, and the descriptors that the results of the calls show to be live:
a successful `open` makes one live, a successful `close` frees one.
-/
structure CallState where
  kernel : Kernel
  live : Finset (Fin 8)

/-- The descriptors of a process that has made no call yet. -/
def CallState.started (k : Kernel) : CallState := ⟨k, {0, 1}⟩

def processStep (pid : Fin 6) (s : CallState) : Call → Option CallState
  | .openFile filename =>
      some
        { kernel := (OopsOs.openFile s.kernel pid filename).1
          live := (fdIndex (OopsOs.openFile s.kernel pid filename).2).elim s.live
            (fun loc => insert loc s.live) }
  | .close fd =>
      some
        { kernel := (OopsOs.close s.kernel pid fd).1
          live :=
            if (OopsOs.close s.kernel pid fd).2 = .returned 0 then
              (fdIndex fd).elim s.live (fun f => s.live.erase f)
            else s.live }
  | .read fd buf nbytes interrupts =>
      some { s with kernel := (OopsOs.read interrupts s.kernel pid fd buf nbytes).kernel }
  | .write fd buf nbytes =>
      some { s with kernel := (OopsOs.write s.kernel pid fd buf nbytes).1 }
  | .halt saved => some (CallState.started (OopsOs.halt s.kernel pid saved).1)
  | .other f => some { s with kernel := f s.kernel }

/-- The rest of the kernel leaves the image and the process's control block alone. -/
def Undisturbed (pid : Fin 6) (_ : CallState) : Call → Prop
  | .read _ _ _ interrupts => KeepsProcess pid interrupts
  | .other f => KeepsProcess pid f
  | _ => True

/-! ## The pointers that the calls go through -/

/-- The four tables of `systemcalls.c`. -/
def operationTables : List OpPtr := [.termTable, .rtcTable, .directoryTable, .fileTable]

/-- The `->open` at the end of `open`, after `populate_pcb`. -/
def openDispatch (k : Kernel) (pid : Fin 6) (filename : List UInt8) : List OpPtr :=
  ((fdIndex (openFile k pid filename).2).map (fun loc =>
    (descriptor (openFile k pid filename).1 pid loc).descriptorOpPtr)).toList

/-- The `->close` of `close`. -/
def closeDispatch (k : Kernel) (pid : Fin 6) (fd : Int) : List OpPtr :=
  match fdIndex fd with
  | none => []
  | some fd =>
      if (descriptor k pid fd).flags = 0 ∨ fd = 1 ∨ fd = 0 then []
      else [(descriptor k pid fd).descriptorOpPtr]

/-- The `->read` of `read`, with descriptor 0 pointed at the terminal's table first. -/
def readDispatch (k : Kernel) (pid : Fin 6) (fd : Int) (buf : Nat) : List OpPtr :=
  match fdIndex fd with
  | none => []
  | some fd =>
      if (descriptor k pid fd).flags = 0 ∨ buf = 0 ∨ fd = 1 then []
      else [(descriptor (pointStdin k pid fd) pid fd).descriptorOpPtr]

/-- The `->write` of `write`. -/
def writeDispatch (k : Kernel) (pid : Fin 6) (fd : Int) (buf : Option (Nat → UInt8)) :
    List OpPtr :=
  match fdIndex fd with
  | none => []
  | some fd =>
      if (descriptor k pid fd).flags = 0 ∨ fd = 0 ∨ buf.isNone = true then []
      else [(descriptor k pid fd).descriptorOpPtr]

/-- One turn of the loop of `halt`: the kernel, and the pointers gone through so far. -/
def haltClose (slot : Fin 6) (r : Kernel × List OpPtr) (i : Fin 8) : Kernel × List OpPtr :=
  let r :=
    if (descriptor r.1 slot i).flags = 1 then
      ((close r.1 slot i.val).1, r.2 ++ closeDispatch r.1 slot i.val)
    else r
  (setDescriptor r.1 slot i { descriptor r.1 slot i with flags := 0, descriptorOpPtr := .null },
    r.2)

/-- The loop of `halt` over the descriptors 2 to 7. -/
def haltCloses (k : Kernel) (slot : Fin 6) : Kernel × List OpPtr :=
  [2, 3, 4, 5, 6, 7].foldl (haltClose slot) (k, [])

def dispatches (k : Kernel) (pid : Fin 6) : Call → List OpPtr
  | .openFile filename => openDispatch k pid filename
  | .close fd => closeDispatch k pid fd
  | .read fd buf _ _ => readDispatch k pid fd buf
  | .write fd buf _ => writeDispatch k pid fd buf
  | .halt _ => (haltCloses k pid).2
  | .other _ => []

/-! ## A call goes astray exactly if it goes through another pointer -/

theorem mem_operationTables {p : OpPtr} :
    p ∈ operationTables ↔
      p = .termTable ∨ p = .rtcTable ∨ p = .directoryTable ∨ p = .fileTable := by
  simp [operationTables]

theorem close_wild_iff (k : Kernel) (pid : Fin 6) (fd : Int) :
    (close k pid fd).2 = .wild ↔ ∃ p ∈ closeDispatch k pid fd, p ∉ operationTables := by
  by_cases hzero : fd = 0
  · subst hzero
    simp [close, closeDispatch, show fdIndex 0 = some 0 from rfl]
  · unfold close closeDispatch
    simp only [if_neg hzero]
    cases fdIndex fd with
    | none => simp
    | some f =>
        simp only
        split_ifs
        · simp
        · cases (descriptor k pid f).descriptorOpPtr <;> simp [operationTables]

/-- `close` on a live descriptor other than 0 and 1. -/
theorem close_live {k : Kernel} {pid : Fin 6} {f : Fin 8} (h2 : 2 ≤ f.val)
    (hflags : (descriptor k pid f).flags ≠ 0) :
    (close k pid f.val).1 = setDescriptor k pid f { descriptor k pid f with flags := 0 } ∧
      closeDispatch k pid f.val = [(descriptor k pid f).descriptorOpPtr] ∧
      ((descriptor k pid f).descriptorOpPtr ∈ operationTables →
        (close k pid f.val).2 = .returned 0) := by
  have hzero : ¬ (f.val : Int) = 0 := by omega
  have hbad : ¬ ((descriptor k pid f).flags = 0 ∨ f = 1 ∨ f = 0) := by
    rintro (h | rfl | rfl)
    · exact hflags h
    · exact absurd h2 (by decide)
    · exact absurd h2 (by decide)
  unfold close closeDispatch
  simp only [if_neg hzero, fdIndex_val, if_neg hbad]
  refine ⟨trivial, trivial, ?_⟩
  intro htable
  rcases mem_operationTables.mp htable with h | h | h | h <;> simp only [h]

/-- `close` on anything else. -/
theorem close_refused {k : Kernel} {pid : Fin 6} {fd : Int}
    (h : ∀ f, fdIndex fd = some f → f.val < 2 ∨ (descriptor k pid f).flags = 0) :
    (close k pid fd).2 = .returned (-1) ∧ closeDispatch k pid fd = [] := by
  by_cases hzero : fd = 0
  · subst hzero
    simp [close, closeDispatch, show fdIndex 0 = some 0 from rfl]
  · unfold close closeDispatch
    simp only [if_neg hzero]
    cases hf : fdIndex fd with
    | none => exact ⟨rfl, rfl⟩
    | some f =>
        have hbad : (descriptor k pid f).flags = 0 ∨ f = 1 ∨ f = 0 := by
          rcases h f hf with hlow | hflags
          · right
            omega
          · exact Or.inl hflags
        simp only [if_pos hbad]
        exact ⟨trivial, trivial⟩

theorem write_wild_iff (k : Kernel) (pid : Fin 6) (fd : Int) (buf : Option (Nat → UInt8))
    (nbytes : Int) :
    (write k pid fd buf nbytes).2 = .wild ↔
      ∃ p ∈ writeDispatch k pid fd buf, p ∉ operationTables := by
  unfold write writeDispatch
  cases fdIndex fd with
  | none => simp
  | some f =>
      simp only
      split_ifs
      · simp
      · cases (descriptor k pid f).descriptorOpPtr <;> simp [operationTables]

theorem terminalRead_not_wild (interrupts : Kernel → Kernel) (k : Kernel) (buffer : Nat)
    (nbytes : Int) : (terminalRead interrupts k buffer nbytes).outcome ≠ .wild := by
  unfold terminalRead
  simp only
  split_ifs <;> simp

theorem rtcRead_not_wild (interrupts : Kernel → Kernel) (k : Kernel) :
    (rtcRead interrupts k).outcome ≠ .wild := by
  unfold rtcRead
  simp only
  split_ifs <;> simp

theorem directoryRead_not_wild (k : Kernel) (pid : Fin 6) (fd : Fin 8) :
    (directoryRead k pid fd).outcome ≠ .wild := by
  unfold directoryRead
  simp only
  split <;> simp

theorem fileRead_not_wild (k : Kernel) (pid : Fin 6) (fd : Fin 8) (buf : Nat) (nbytes : Int) :
    (fileRead k pid fd buf nbytes).outcome ≠ .wild := by
  unfold fileRead
  simp only
  split_ifs
  · simp
  · simp
  · simp
  all_goals split <;> simp

theorem read_wild_iff (interrupts : Kernel → Kernel) (k : Kernel) (pid : Fin 6) (fd : Int)
    (buf : Nat) (nbytes : Int) :
    (read interrupts k pid fd buf nbytes).outcome = .wild ↔
      ∃ p ∈ readDispatch k pid fd buf, p ∉ operationTables := by
  unfold read readDispatch
  cases fdIndex fd with
  | none => simp
  | some f =>
      simp only
      split_ifs
      · simp
      · cases (descriptor (pointStdin k pid f) pid f).descriptorOpPtr with
        | null => simp [operationTables]
        | word w => simp [operationTables]
        | termTable => simp [operationTables, terminalRead_not_wild]
        | rtcTable => simp [operationTables, rtcRead_not_wild]
        | directoryTable => simp [operationTables, directoryRead_not_wild]
        | fileTable => simp [operationTables, fileRead_not_wild]

/-! ## The loop of `halt` -/

/-- The kernel after the loop of `halt` has been over the descriptors of the list. -/
def closedAt (k : Kernel) (slot : Fin 6) (l : List (Fin 8)) : Kernel :=
  { k with
    pcb := Function.update k.pcb slot
      { k.pcb slot with
        fileDescriptorArray := fun fd =>
          if fd ∈ l then { descriptor k slot fd with flags := 0, descriptorOpPtr := .null }
          else descriptor k slot fd } }

theorem closedAt_nil (k : Kernel) (slot : Fin 6) : closedAt k slot [] = k := by
  simp [closedAt, descriptor]

theorem descriptor_closedAt {k : Kernel} {slot : Fin 6} {l : List (Fin 8)} {i : Fin 8}
    (hi : i ∉ l) : descriptor (closedAt k slot l) slot i = descriptor k slot i := by
  simp [descriptor, closedAt, hi]

/-- A descriptor cleared in the loop, whatever has been stored into it before. -/
theorem setDescriptor_closedAt (k : Kernel) (slot : Fin 6) (l : List (Fin 8)) (i : Fin 8) :
    setDescriptor (closedAt k slot l) slot i
        { descriptor k slot i with flags := 0, descriptorOpPtr := .null } =
      closedAt k slot (l ++ [i]) := by
  unfold setDescriptor closedAt
  simp only [Function.update_self, Function.update_idem]
  congr 2
  simp only [Pcb.mk.injEq, and_self, and_true]
  funext fd
  by_cases hfd : fd = i
  · subst hfd
    simp
  · simp [hfd]

theorem setDescriptor_setDescriptor (k : Kernel) (slot : Fin 6) (i : Fin 8)
    (d d' : FileDescriptor) :
    setDescriptor (setDescriptor k slot i d) slot i d' = setDescriptor k slot i d' := by
  simp [setDescriptor]

theorem haltClose_closedAt {k : Kernel} {slot : Fin 6} {l : List (Fin 8)} {i : Fin 8}
    (hi : i ∉ l) (h2 : 2 ≤ i.val) (ds : List OpPtr) :
    haltClose slot (closedAt k slot l, ds) i =
      (closedAt k slot (l ++ [i]),
        ds ++ if (descriptor k slot i).flags = 1 then [(descriptor k slot i).descriptorOpPtr]
          else []) := by
  have hd : descriptor (closedAt k slot l) slot i = descriptor k slot i := descriptor_closedAt hi
  unfold haltClose
  simp only [hd]
  split_ifs with hflags
  · have hlive : (descriptor (closedAt k slot l) slot i).flags ≠ 0 := by
      rw [hd, hflags]
      decide
    obtain ⟨hkernel, hdispatch, -⟩ := close_live h2 hlive
    simp only [hkernel, hdispatch, hd, descriptor_setDescriptor_self,
      setDescriptor_setDescriptor, setDescriptor_closedAt]
  · simp only [hd, setDescriptor_closedAt, List.append_nil]

theorem haltCloses_from {k : Kernel} {slot : Fin 6} {l₀ l : List (Fin 8)} (ds : List OpPtr)
    (hnodup : (l₀ ++ l).Nodup) (h2 : ∀ i ∈ l, 2 ≤ i.val) :
    l.foldl (haltClose slot) (closedAt k slot l₀, ds) =
      (closedAt k slot (l₀ ++ l),
        ds ++ l.flatMap (fun i =>
          if (descriptor k slot i).flags = 1 then [(descriptor k slot i).descriptorOpPtr]
          else [])) := by
  induction l generalizing l₀ ds with
  | nil => simp
  | cons i l ih =>
      have hi : i ∉ l₀ := by
        intro hmem
        exact List.disjoint_of_nodup_append hnodup hmem List.mem_cons_self
      rw [List.foldl_cons, haltClose_closedAt hi (h2 i List.mem_cons_self), ih]
      · simp
      · simpa using hnodup
      · intro j hj
        exact h2 j (List.mem_cons_of_mem i hj)

/-- The loop leaves the kernel that `halt` goes on with, and goes through open descriptors only. -/
theorem haltCloses_eq (k : Kernel) (slot : Fin 6) :
    haltCloses k slot =
      (closeDescriptors k slot,
        [2, 3, 4, 5, 6, 7].flatMap (fun i =>
          if (descriptor k slot i).flags = 1 then [(descriptor k slot i).descriptorOpPtr]
          else [])) := by
  have hloop : [2, 3, 4, 5, 6, 7].foldl (haltClose slot) (closedAt k slot [], []) = _ :=
    haltCloses_from [] (by decide) (by decide)
  have hmem : ∀ fd : Fin 8, fd ∈ [2, 3, 4, 5, 6, 7] ↔ 2 ≤ fd.val := by
    decide
  have hclosed : closedAt k slot [2, 3, 4, 5, 6, 7] = closeDescriptors k slot := by
    unfold closedAt closeDescriptors
    simp only [hmem]
  rw [closedAt_nil] at hloop
  unfold haltCloses
  rw [hloop, List.nil_append, List.nil_append, hclosed]

/-! ## The control block as memory -/

/-- Word `j` of a `file_descriptor_t`. -/
def FileDescriptor.word (address : OpPtr → UInt32) (d : FileDescriptor) : Nat → UInt32
  | 0 => address d.descriptorOpPtr
  | 1 => d.inodeNum
  | 2 => d.filePos
  | _ => d.flags

/--
The words of a `pcb_t`: eight descriptors of four words each, then `esp`,
`ebp`, `process_num` and the argument bytes.  `address` gives the addresses of
the tables.
-/
def Pcb.words (address : OpPtr → UInt32) (p : Pcb) (i : Nat) : UInt32 :=
  if h : i < 32 then (p.fileDescriptorArray ⟨i / 4, by omega⟩).word address (i % 4)
  else if i = 32 then UInt32.ofNat p.saved.esp
  else if i = 33 then UInt32.ofNat p.saved.ebp
  else if i = 34 then UInt32.ofNat p.processNum.val
  else
    UInt32.ofNat
      ((p.arguments (4 * (i - 35))).toNat + 256 * (p.arguments (4 * (i - 35) + 1)).toNat +
        65536 * (p.arguments (4 * (i - 35) + 2)).toNat +
        16777216 * (p.arguments (4 * (i - 35) + 3)).toNat)

/-- The block as `execute` has filled it in when it calls `go_to_ring_three`. -/
def initializedPcb (k : Kernel) (pid : Fin 6) (args : List UInt8) (saved : Context) : Pcb :=
  { (initPcb k pid).pcb pid with
    saved := saved
    arguments := fun i => if i < 32 then args.getD i 0 else (k.pcb pid).arguments i }

/-- `movl %esp, (%ecx)` and `movl %ebp, 4(%ecx)`. -/
def goToRingThree (words : Nat → UInt32) (esp ebp : UInt32) : Nat → UInt32 :=
  Function.update (Function.update words 0 esp) 1 ebp

/--
The block of a new process is the initialised one with ESP and EBP of
`go_to_ring_three` stored over its first two words.
-/
theorem enterProcess_words (address : OpPtr → UInt32)
    (hword : ∀ w, address (.word w) = UInt32.ofNat w) (k : Kernel) (pid : Fin 6)
    (args : List UInt8) (saved : Context) :
    ((enterProcess k pid args saved).pcb pid).words address =
      goToRingThree ((initializedPcb k pid args saved).words address)
        (UInt32.ofNat (saved.esp - 16)) (UInt32.ofNat (saved.esp - 16)) := by
  have hpcb : (enterProcess k pid args saved).pcb pid =
      { initializedPcb k pid args saved with
        fileDescriptorArray :=
          Function.update (initializedPcb k pid args saved).fileDescriptorArray 0
            { (initializedPcb k pid args saved).fileDescriptorArray 0 with
              descriptorOpPtr := .word (saved.esp - 16)
              inodeNum := UInt32.ofNat (saved.esp - 16) } } := by
    simp [enterProcess, setDescriptor, descriptor, initializedPcb, initPcb]
  rw [hpcb]
  funext i
  unfold goToRingThree
  rcases i with _ | _ | i
  · simp [Pcb.words, FileDescriptor.word, hword]
  · simp [Pcb.words, FileDescriptor.word]
  · -- no other word of descriptor 0, and no other descriptor, is touched
    rw [Function.update_of_ne (by omega), Function.update_of_ne (by omega)]
    unfold Pcb.words
    by_cases hi : i + 2 < 32
    · rw [dif_pos hi, dif_pos hi]
      by_cases hfirst : i + 2 < 4
      · have hrest : i = 0 ∨ i = 1 := by omega
        rcases hrest with rfl | rfl
        · rfl
        · rfl
      · have hne : (⟨(i + 2) / 4, by omega⟩ : Fin 8) ≠ 0 := by
          intro h
          have := congrArg Fin.val h
          simp at this
          omega
        simp only [Function.update_of_ne hne]
    · rw [dif_neg hi, dif_neg hi]

end OopsOs
