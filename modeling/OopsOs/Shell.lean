import OopsOs.ExecuteEffects
import OopsOs.LineInput
import OopsOs.UserCalls

/-!
# The shell

`main` of `ece391shell.c` reads a line, compares it with `exit`, and executes
it if it is not empty.  The loop ends with `exit` only: in a process as
`execute` starts it, no read from the keyboard fails.

`buf` has 1024 bytes, and `terminal_read` does not look at the 1023 it is told:
it stores the whole line of the terminal, a newline and a NUL.  A line of at most
1022 bytes fits; a longer one, which takes the right arrow, goes over the frame
of `main`, and the program is followed no further.

What a line is and what the shell has executed are read off the run, from the
answers to its calls.  `ShellSession` is what the one says about the other.
-/

namespace OopsOs

open ByteMem Programs

/-! ## The program -/

/-- `ece391_strcmp` of the strings at indices `i` and `j`. -/
def ece391Strcmp (s1 : Buffer) (i : Nat) (s2 : Buffer) (j : Nat) : Nat → Option Int
  | 0 => none
  | fuel + 1 =>
      if s1 i = s2 j then
        if s1 i = 0 then some 0 else ece391Strcmp s1 (i + 1) s2 (j + 1) fuel
      else some (((s1 i).toNat : Int) - (s2 j).toNat)

/-- The message for the value of `execute`. -/
def reportStatus (rval : Int) : UserProgram Unit :=
  if rval = -1 then putsText "no such command\n"
  else if rval = 256 then putsText "program terminated by exception\n"
  else if rval ≠ 0 then putsText "program terminated abnormally\n"
  else .done ()

/-- The rest of a turn, with the line in `buf`. -/
def shellLine (buf : Buffer) : UserProgram (Buffer ⊕ Int) :=
  match ece391Strcmp buf 0 (cstr (literal "exit")) 0 5 with
  | none => .spin
  | some v =>
      if v = 0 then .done (.inr 0)
      else if buf 0 = 0 then .done (.inl buf)
      else
        .call (.execute buf) (fun rval =>
          (reportStatus rval.value).bind (fun _ => .done (.inl buf)))

/-- `BUFSIZE`, the size of `buf`. -/
def bufsize : Int := 1024

/-- Every store is inside `buf`. -/
def InsideBuf (stores : Stores) : Prop := ∀ z ∈ stores, 0 ≤ z.1 ∧ z.1 < bufsize

instance (stores : Stores) : Decidable (InsideBuf stores) :=
  inferInstanceAs (Decidable (∀ z ∈ stores, _))

/-- One turn of the loop of `main`, up to a store behind `buf`. -/
def shellTurn (buf : Buffer) : UserProgram (Buffer ⊕ Int) :=
  (putsText "391OS> ").bind (fun _ =>
    .call (.read 0 (bufsize - 1)) (fun cnt =>
      if ¬ InsideBuf cnt.stores then .spin
      else if cnt.value = -1 then
        (putsText "read from keyboard failed\n").bind (fun _ => .done (.inr 3))
      else
        let buf := filled buf cnt.stores
        let len :=
          if 0 < cnt.value ∧ buf (cnt.value - 1).toNat = 0x0A then cnt.value - 1 else cnt.value
        shellLine (Function.update buf len.toNat 0)))

/-- `main` of `ece391shell.c`, with `buf` as the stack has it. -/
def shellMain (turns : Nat) (buf : Buffer) : UserProgram Int :=
  (putsText "Starting 391 Shell\n").bind (fun _ => .loop shellTurn turns buf)

/-! ## What a run shows -/

/-- The line that a read from the keyboard delivers, without its newline and up to a NUL. -/
def lineRead (r : Answer) : List UInt8 :=
  ((r.stores.map Prod.snd).take (r.value.toNat - 1)).takeWhile (fun c => c ≠ 0)

def linesRead (t : Trace) : List (List UInt8) :=
  t.filterMap (fun c =>
    match c.1 with
    | .read fd _ => if fd = 0 then some (lineRead c.2) else none
    | _ => none)

/-- The commands passed to `execute`, each with the value of the call. -/
def executions (t : Trace) : List (Buffer × Int) :=
  t.filterMap (fun c =>
    match c.1 with
    | .execute command => some (command, c.2.value)
    | _ => none)

def exitText : List UInt8 := literal "exit"

/-- The lines that are to be executed. -/
def commandsIn (lines : List (List UInt8)) : List (List UInt8) :=
  (lines.takeWhile (fun l => l ≠ exitText)).filter (fun l => l ≠ [])

def statusText (rval : Int) : List UInt8 :=
  if rval = -1 then literal "no such command\n"
  else if rval = 256 then literal "program terminated by exception\n"
  else if rval ≠ 0 then literal "program terminated abnormally\n"
  else []

/-- The prompts and messages, for the lines and the values of `execute`. -/
def transcript : List (List UInt8) → List Int → List UInt8
  | [], _ => []
  | l :: lines, values =>
      literal "391OS> " ++
        if l = exitText then []
        else if l = [] then transcript lines values
        else
          match values with
          | [] => []
          | v :: values => statusText v ++ transcript lines values

/-- No read of the run stores outside of `buf`. -/
def ReadsInside (t : Trace) : Prop :=
  ∀ c ∈ t, ∀ fd nbytes, c.1 = .read fd nbytes → InsideBuf c.2.stores

/-- From the first prompt on: what is read, executed and written, and how the run ends. -/
structure ShellSession (t : Trace) (o : Option Int) : Prop where
  reads : ReadsInside t
  executes : List.Forall₂ (fun (e : Buffer × Int) l => StringAt e.1 0 l)
    (executions t) (commandsIn (linesRead t))
  writes : stdout t = transcript (linesRead t) ((executions t).map Prod.snd)
  ends : o = if exitText ∈ linesRead t then some 0 else none

@[simp] theorem linesRead_append (t t' : Trace) :
    linesRead (t ++ t') = linesRead t ++ linesRead t' := List.filterMap_append

@[simp] theorem executions_append (t t' : Trace) :
    executions (t ++ t') = executions t ++ executions t' := List.filterMap_append

theorem OnlyWrites.linesRead {t : Trace} (h : OnlyWrites t) : linesRead t = [] := by
  apply List.filterMap_eq_nil_iff.mpr
  intro c hc
  obtain ⟨fd, buf, nbytes, hcall⟩ := h c hc
  simp only [hcall]

theorem OnlyWrites.executions {t : Trace} (h : OnlyWrites t) : executions t = [] := by
  apply List.filterMap_eq_nil_iff.mpr
  intro c hc
  obtain ⟨fd, buf, nbytes, hcall⟩ := h c hc
  simp only [hcall]

theorem OnlyWrites.readsInside {t : Trace} (h : OnlyWrites t) : ReadsInside t := by
  intro c hc fd nbytes hread
  obtain ⟨fd', buf, nbytes', hcall⟩ := h c hc
  rw [hcall] at hread
  cases hread

theorem ReadsInside.append {t t' : Trace} (h : ReadsInside t) (h' : ReadsInside t') :
    ReadsInside (t ++ t') := by
  intro c hc
  exact (List.mem_append.mp hc).elim (h c) (h' c)

/-- What one turn of the loop shows, by the line it reads. -/
inductive ShellTurn (t : Trace) : Option (Buffer ⊕ Int) → Prop
  | exit : linesRead t = [exitText] → executions t = [] → stdout t = literal "391OS> " →
      ShellTurn t (some (.inr 0))
  | empty {buf : Buffer} : linesRead t = [[]] → executions t = [] →
      stdout t = literal "391OS> " → ShellTurn t (some (.inl buf))
  | command {buf : Buffer} {l : List UInt8} {v : Int} : l ≠ exitText → l ≠ [] →
      linesRead t = [l] → StringAt buf 0 l → executions t = [(buf, v)] →
      stdout t = literal "391OS> " ++ statusText v → ShellTurn t (some (.inl buf))

theorem transcript_cons (l : List UInt8) (lines : List (List UInt8)) (values : List Int) :
    transcript (l :: lines) values =
      literal "391OS> " ++
        if l = exitText then []
        else if l = [] then transcript lines values
        else
          match values with
          | [] => []
          | v :: values => statusText v ++ transcript lines values := by
  cases values with
  | nil => rfl
  | cons v values => rfl

theorem ShellSession.nil : ShellSession [] none :=
  ⟨fun _ hc => (List.not_mem_nil hc).elim, .nil, rfl, rfl⟩

theorem ShellTurn.last {t : Trace} {status : Int} (h : ShellTurn t (some (.inr status)))
    (hreads : ReadsInside t) : status = 0 ∧ ShellSession t (some 0) := by
  cases h with
  | exit hlines hexec hout =>
      refine ⟨rfl, hreads, ?_, ?_, ?_⟩
      · rw [hlines, hexec, commandsIn, List.takeWhile_cons_of_neg (by simp)]
        exact .nil
      · rw [hlines, hexec, hout, transcript_cons, if_pos rfl, List.append_nil]
      · rw [hlines, if_pos (by simp)]

theorem ShellTurn.first {t t' : Trace} {buf : Buffer} {o : Option Int}
    (h : ShellTurn t (some (.inl buf))) (hreads : ReadsInside t) (h' : ShellSession t' o) :
    ShellSession (t ++ t') o := by
  have hempty : ([] : List UInt8) ≠ exitText := by decide
  cases h with
  | empty hlines hexec hout =>
      refine ⟨hreads.append h'.reads, ?_, ?_, ?_⟩
      · rw [linesRead_append, executions_append, hlines, hexec, commandsIn, List.singleton_append,
          List.takeWhile_cons_of_pos (by simpa using hempty),
          List.filter_cons_of_neg (by simp)]
        exact h'.executes
      · rw [linesRead_append, executions_append, stdout_append, hlines, hexec, hout,
          List.singleton_append, transcript_cons, if_neg hempty, if_pos rfl, h'.writes]
        rfl
      · rw [h'.ends, linesRead_append, hlines]
        simp [hempty.symm]
  | @command _ l v hexit hne hlines hbuf hexec hout =>
      refine ⟨hreads.append h'.reads, ?_, ?_, ?_⟩
      · rw [linesRead_append, executions_append, hlines, hexec, commandsIn, List.singleton_append,
          List.singleton_append, List.takeWhile_cons_of_pos (by simpa using hexit),
          List.filter_cons_of_pos (by simpa using hne)]
        exact .cons hbuf h'.executes
      · rw [linesRead_append, executions_append, stdout_append, hlines, hexec, hout,
          List.singleton_append, List.singleton_append, List.map_cons, transcript_cons, if_neg hexit,
          if_neg hne, h'.writes, List.append_assoc]
      · rw [h'.ends, linesRead_append, hlines]
        simp [hexit.symm]

/-! ## Comparing strings -/

theorem ece391Strcmp_eq {s1 s2 : Buffer} {i j fuel : Nat} {a b : List UInt8}
    (h1 : StringAt s1 i a) (h2 : StringAt s2 j b) (hfuel : b.length < fuel) :
    ∃ v, ece391Strcmp s1 i s2 j fuel = some v ∧ (v = 0 ↔ a = b) := by
  induction b generalizing i j a fuel with
  | nil =>
      obtain ⟨fuel, rfl⟩ := Nat.exists_eq_succ_of_ne_zero (by omega : fuel ≠ 0)
      have hend : s2 j = 0 := h2.end_zero
      rw [ece391Strcmp, hend]
      cases a with
      | nil =>
          have hstart : s1 i = 0 := h1.end_zero
          rw [if_pos hstart, if_pos hstart]
          exact ⟨0, rfl, by simp⟩
      | cons c a =>
          obtain ⟨hbyte, hc⟩ := h1.head
          have hnat : c.toNat ≠ 0 := fun h => hc (UInt8.toNat_inj.mp h)
          rw [if_neg (by rw [hbyte]; exact hc), hbyte]
          refine ⟨_, rfl, iff_of_false ?_ (List.cons_ne_nil c a)⟩
          simpa using hnat
  | cons d b ih =>
      obtain ⟨fuel, rfl⟩ := Nat.exists_eq_succ_of_ne_zero (by omega : fuel ≠ 0)
      obtain ⟨hd, hd0⟩ := h2.head
      rw [ece391Strcmp, hd]
      by_cases hsame : s1 i = d
      · rw [if_pos hsame, if_neg (by rw [hsame]; exact hd0)]
        cases a with
        | nil => exact absurd (hsame.symm.trans h1.end_zero) hd0
        | cons c a =>
            obtain rfl : c = d := h1.head.1.symm.trans hsame
            obtain ⟨v, hv, hiff⟩ := ih h1.tail h2.tail (Nat.lt_of_succ_lt_succ hfuel)
            exact ⟨v, hv, by rw [hiff]; simp⟩
      · rw [if_neg hsame]
        refine ⟨_, rfl, iff_of_false ?_ ?_⟩
        · intro hzero
          exact hsame (UInt8.toNat_inj.mp (by omega))
        · rintro rfl
          exact hsame h1.head.1

/-! ## The lengths of the lines -/

/-- The line, and one that waits to be read, has room for a newline and a NUL in `buf`. -/
structure Line.Fits (l : Line) : Prop where
  index : 0 ≤ l.index ∧ l.index ≤ bufsize - 2
  readIndex : 0 ≤ l.readIndex
  unread : l.readFlag = 1 → l.readIndex ≤ bufsize - 2

def LineLengths (k : Kernel) : Prop := ∀ t, (k.line t).Fits

theorem LineLengths.of_same {k k' : Kernel} (h : LineLengths k) (hsame : SameInput k k') :
    LineLengths k' := by
  rw [LineLengths, hsame.line]
  exact h

theorem LineLengths.update {k k' : Kernel} {t : Fin 3} {l : Line} (h : LineLengths k)
    (hline : k'.line = Function.update k.line t l) (hl : l.Fits) : LineLengths k' := by
  intro u
  rw [hline, Function.update_apply]
  split_ifs
  · exact hl
  · exact h u

/-- Only the right arrow makes a line longer than the buffer of the terminal. -/
theorem Line.Fits.press {l : Line} (h : l.Fits) {key : LineKey}
    (hright : key = .right → l.index < bufsize - 2) : (l.press key).Fits := by
  obtain ⟨⟨hlow, hhigh⟩, hread, hunread⟩ := h
  rw [bufsize] at hright hhigh
  cases key with
  | enter => exact ⟨⟨le_refl (0 : Int), (by decide : (0 : Int) ≤ bufsize - 2)⟩, hlow, fun _ => hhigh⟩
  | char c =>
      unfold Line.press
      simp only
      split_ifs with hroom
      · refine ⟨⟨Int.add_nonneg hlow (by decide), ?_⟩, hread, hunread⟩
        rw [bufsize]
        simp only
        omega
      · exact ⟨⟨hlow, hhigh⟩, hread, hunread⟩
  | backspace =>
      refine ⟨⟨le_max_left 0 _, ?_⟩, hread, hunread⟩
      simp only [Line.press, bufsize]
      omega
  | left =>
      unfold Line.press
      simp only
      split_ifs with hzero
      · exact ⟨⟨hlow, hhigh⟩, hread, hunread⟩
      · refine ⟨?_, hread, hunread⟩
        simp only [bufsize]
        omega
  | right =>
      have hless := hright rfl
      refine ⟨?_, hread, hunread⟩
      simp only [Line.press, bufsize]
      omega
  | display t => exact ⟨⟨hlow, hhigh⟩, hread, hunread⟩
  | other => exact ⟨⟨hlow, hhigh⟩, hread, hunread⟩

theorem defaultKey_ne_right (k : Kernel) (code : Nat) : defaultKey k code ≠ .right := by
  unfold defaultKey
  split_ifs <;> simp

theorem lineKey_right {k : Kernel} {code : Nat} (h : lineKey k code = .right) : code = 77 := by
  unfold lineKey at h
  split at h <;> first
    | rfl
    | cases h
    | exact absurd h (defaultKey_ne_right k _)

/-- Without the right arrow all lines fit. -/
theorem pressKeys_lineLengths {k : Kernel} (h : LineLengths k) {codes : List Nat}
    (hcodes : 77 ∉ codes) : LineLengths (pressKeys k codes) := by
  induction codes generalizing k with
  | nil => exact h
  | cons code codes ih =>
      obtain ⟨hcode, hrest⟩ := not_or.mp (mt List.mem_cons.mpr hcodes)
      refine ih (h.update (keyboardHandler_pressed k code).line ?_) hrest
      refine (h k.activeTerminal).press ?_
      intro hright
      exact absurd (lineKey_right hright).symm hcode

theorem write_input (k : Kernel) (pid : Fin 6) (fd : Int) (buf : Option (Nat → UInt8))
    (nbytes : Int) : SameInput k (write k pid fd buf nbytes).1 := by
  unfold write
  cases fdIndex fd with
  | none => exact SameInput.printf k _
  | some fd =>
      simp only
      split_ifs
      · exact SameInput.printf k _
      · cases (descriptor k pid fd).descriptorOpPtr with
        | termTable => exact terminalWrite_input k buf nbytes
        | null => exact SameInput.refl k
        | rtcTable => exact SameInput.refl k
        | directoryTable => exact SameInput.refl k
        | fileTable => exact SameInput.refl k
        | word w => exact SameInput.refl k

/-! ## One call -/

theorem lineStores_eq {T : Terminal} (h : 0 ≤ T.readIndex) :
    ∃ line : List UInt8, T.readIndex = line.length ∧ lineStores T = storesOf (line ++ [0x0A, 0]) := by
  obtain ⟨n, hn⟩ := Int.eq_ofNat_of_zero_le h
  refine ⟨(List.range n).map (fun (i : Nat) => T.keyboardBuffer (i : Int)), by simp [hn], ?_⟩
  have hlen : ((List.range n).map (fun (i : Nat) => T.keyboardBuffer (i : Int)) ++
      [0x0A, 0]).length = n + 2 := by
    simp
  rw [lineStores, hn, storesOf, hlen, blockStores, List.range_succ, List.range_succ]
  simp only [Int.toNat_natCast, List.map_append, List.append_assoc, zero_add]
  congr 1
  · apply List.map_congr_left
    intro i hi
    have hi : i < n := List.mem_range.mp hi
    rw [List.getD_append _ _ _ _ (by simpa using hi), List.getD_eq_getElem _ _ (by simpa using hi)]
    simp
  · simp

/-- On descriptor 0 `read` is `terminal_read`. -/
theorem read_stdin (interrupts : Kernel → Kernel) {k : Kernel} {pid : Fin 6}
    (hflags : (descriptor k pid 0).flags ≠ 0) {buf : Nat} (hbuf : buf ≠ 0) (nbytes : Int) :
    read interrupts k pid 0 buf nbytes =
      terminalRead interrupts (pointStdin k pid 0) buf nbytes := by
  have hcond : ¬ ((descriptor k pid 0).flags = 0 ∨ buf = 0 ∨ (0 : Fin 8) = 1) := by
    simp [hflags, hbuf]
  have htable : (descriptor (pointStdin k pid 0) pid 0).descriptorOpPtr = .termTable := by
    simp [pointStdin, setDescriptor, descriptor]
  unfold read
  rw [show fdIndex 0 = some 0 from rfl]
  simp only [if_neg hcond, htable]

theorem terminalRead_returns {interrupts : Kernel → Kernel} {k : Kernel} {buf : Nat}
    {nbytes v : Int} (hk : LineLengths k)
    (hint : ∀ k, LineLengths k → LineLengths (interrupts k)) (hbuf : buf ≠ 0) (h0 : 0 < nbytes)
    (hv : (terminalRead interrupts k buf nbytes).outcome = .returned v) :
    (∃ line : List UInt8, v = line.length + 1 ∧ line.length ≤ bufsize - 2 ∧
        (terminalRead interrupts k buf nbytes).stores = storesOf (line ++ [0x0A, 0])) ∧
      LineLengths (terminalRead interrupts k buf nbytes).kernel := by
  have hpolled : LineLengths (polledLine interrupts k) := by
    unfold polledLine
    split_ifs
    · exact hk
    · exact hint k hk
  simp only [terminalRead] at hv ⊢
  rw [if_neg (by omega), if_neg (by omega)] at hv ⊢
  generalize polledLine interrupts k = z at hpolled hv ⊢
  obtain ⟨hindex, hread, hunread⟩ := hpolled z.activeTerminal
  by_cases hflag : (z.terminal z.activeTerminal).readFlag = 1
  · simp only [if_pos hflag] at hv ⊢
    obtain ⟨line, hline, hstores⟩ := lineStores_eq hread
    refine ⟨⟨line, ?_, ?_, hstores⟩, ?_⟩
    · rw [← hline]
      exact (Outcome.returned.inj hv).symm
    · rw [← hline]
      exact hunread hflag
    · refine hpolled.update (line_modifyTerminal z _ _)
        ⟨hindex, Int.add_nonneg hread (by decide), ?_⟩
      intro hpublished
      exact absurd hpublished zero_ne_one
  · simp only [if_neg hflag] at hv
    cases hv

/-- A shell that is about to make a call. -/
structure ShellReady (pid : Fin 6) (k : Kernel) : Prop extends Standard pid k where
  lengths : LineLengths k

section Calls

variable {others : Kernel → Kernel → Prop} {pid : Fin 6} (hothers : LeavesAlone others pid)
variable (hlines : ∀ k k', others k k' → LineLengths k → LineLengths k')
variable {k k' : Kernel} {r : Answer}
include hothers hlines

/-- A read from the keyboard by a started process: a line with its newline and a NUL. -/
theorem serves_read_stdin {nbytes : Int} (h : ShellReady pid k) (h0 : 0 < nbytes)
    (hserve : Serves others pid k (.read 0 nbytes) r k') :
    (∃ line : List UInt8, r.value = line.length + 1 ∧ line.length ≤ bufsize - 2 ∧
        r.stores = storesOf (line ++ [0x0A, 0])) ∧
      ShellReady pid k' := by
  cases hserve with
  | @read k₁ interrupts _ _ v buf hk hint hbuf hv =>
      have hsame := hothers _ _ hk
      have hstd₁ : Standard pid k₁ := h.toStandard.of_same (fun fd _ => hsame.descriptor fd)
      have hown := read_own (hothers.keepsProcess hint) k₁ (fdIndex_val 0) buf nbytes
      have hlengths : LineLengths (pointStdin k₁ pid 0) := hlines k k₁ hk h.lengths
      rw [show ((0 : Fin 8).val : Int) = 0 from rfl, read_stdin interrupts hstd₁.stdin hbuf] at hown
      rw [read_stdin interrupts hstd₁.stdin hbuf] at hv ⊢
      obtain ⟨hline, hlengths'⟩ :=
        terminalRead_returns hlengths (fun k hk => hlines _ _ (hint k) hk) hbuf h0 hv
      exact ⟨hline, hstd₁.of_read hown, hlengths'⟩

/-- `execute` leaves its caller as it was, whether it starts a process or not. -/
theorem serves_execute {command : Buffer} (h : ShellReady pid k)
    (hserve : Serves others pid k (.execute command) r k') : ShellReady pid k' := by
  cases hserve with
  | @executeRefused k₁ _ cmd saved hk _ hnone =>
      have hsame := hothers _ _ hk
      have hstd : Standard pid k₁ := h.toStandard.of_same (fun fd _ => hsame.descriptor fd)
      refine ⟨?_, (hlines _ _ hk h.lengths).of_same (execute_input k₁ cmd saved)⟩
      rcases execute_blocks k₁ cmd saved with ⟨-, hpcb⟩ | ⟨p, hsome, -⟩
      · refine hstd.of_same ?_
        intro fd _
        rw [descriptor, hpcb, ← descriptor]
      · rw [hnone] at hsome
        cases hsome
  | executeReturned status hk _ _ hchild =>
      have hsame := (hothers _ _ hk).trans (hothers _ _ hchild)
      exact ⟨h.toStandard.of_same (fun fd _ => hsame.descriptor fd),
        hlines _ _ hchild (hlines _ _ hk h.lengths)⟩

omit hothers hlines in
/-- The line, its newline and the NUL are inside `buf`. -/
theorem insideBuf_line {line : List UInt8} (h : line.length ≤ bufsize - 2) :
    InsideBuf (storesOf (line ++ [0x0A, 0])) := by
  intro z hz
  rw [storesOf, blockStores] at hz
  obtain ⟨j, hj, rfl⟩ := List.mem_map.mp hz
  have hj : j < (line ++ [0x0A, 0]).length := List.mem_range.mp hj
  rw [List.length_append, List.length_cons, List.length_cons, List.length_nil] at hj
  rw [bufsize] at h ⊢
  simp only
  omega

/-- A text of the shell, as its only call. -/
theorem ensures_message (h : ShellReady pid k) {m : String} (hm : ∀ c ∈ literal m, c ≠ 0) :
    (putsText m).Ensures (Serves others pid)
      (fun t o k' => (o = some () ∧ stdout t = literal m) ∧ OnlyWrites t ∧ ShellReady pid k')
      k := by
  have htext : (putsText m).Ensures (Serves others pid)
      (fun t o _ => o = some () ∧ stdout t = literal m) k :=
    (ensures_putsText hothers hm h.toStandard).mono (fun _ _ _ hpost => ⟨hpost.1, hpost.2.1⟩)
  refine htext.and ((ensures_putsText_onlyWrites m k).and (ensures_putsText_keeps ?_ m h))
  intro k buf nbytes r k' hk hserve
  cases hserve with
  | @write k₁ _ _ v _ hother hv =>
      have hsame := hothers _ _ hother
      obtain ⟨-, hpcb⟩ := write_files k₁ pid 1 (some buf) nbytes
      refine ⟨hk.toStandard.of_same ?_, ?_⟩
      · intro fd _
        rw [descriptor, hpcb, ← descriptor, hsame.descriptor]
      · exact (hlines _ _ hother hk.lengths).of_same (write_input k₁ pid 1 (some buf) nbytes)

theorem ensures_reportStatus (h : ShellReady pid k) (v : Int) :
    (reportStatus v).Ensures (Serves others pid)
      (fun t o k' => (o = some () ∧ stdout t = statusText v) ∧ OnlyWrites t ∧ ShellReady pid k')
      k := by
  have hmessage : ∀ m : String, (∀ c ∈ literal m, c ≠ 0) → (putsText m).Ensures (Serves others pid)
      (fun t o k' => (o = some () ∧ stdout t = literal m) ∧ OnlyWrites t ∧ ShellReady pid k') k :=
    fun m hm => ensures_message hothers hlines h hm
  unfold reportStatus statusText
  split_ifs
  · exact hmessage "no such command\n" (by decide +kernel)
  · exact hmessage "program terminated by exception\n" (by decide +kernel)
  · exact hmessage "program terminated abnormally\n" (by decide +kernel)
  · refine ⟨⟨rfl, rfl⟩, ?_, h⟩
    intro c hc
    cases hc

/-- The rest of a turn, behind the prompt and the read of the line `l`. -/
theorem ensures_shellLine (h : ShellReady pid k) {buf : Buffer} {l : List UInt8}
    (hbuf : StringAt buf 0 l) (t₀ : Trace) (hline : linesRead t₀ = [l])
    (hexec : executions t₀ = []) (hout : stdout t₀ = literal "391OS> ")
    (hreads : ReadsInside t₀) :
    (shellLine buf).Ensures (Serves others pid)
      (fun t o k' => (ShellTurn (t₀ ++ t) o ∧ ReadsInside (t₀ ++ t)) ∧ ShellReady pid k') k := by
  obtain ⟨v, hv, hiff⟩ := ece391Strcmp_eq hbuf
    (stringAt_cstr (l := exitText) (literal_nonzero (by decide))) (by decide : exitText.length < 5)
  rw [shellLine, show literal "exit" = exitText from rfl, hv]
  simp only
  by_cases hexit : l = exitText
  · rw [if_pos (hiff.mpr hexit)]
    rw [hexit] at hline
    refine ⟨?_, h⟩
    rw [List.append_nil]
    exact ⟨.exit hline hexec hout, hreads⟩
  · rw [if_neg (fun hv => hexit (hiff.mp hv))]
    by_cases hzero : buf 0 = 0
    · have hl : l = [] := by
        cases l with
        | nil => rfl
        | cons c l => exact absurd (hbuf.head.1.symm.trans hzero) hbuf.head.2
      rw [if_pos hzero]
      rw [hl] at hline
      refine ⟨?_, h⟩
      rw [List.append_nil]
      exact ⟨.empty hline hexec hout, hreads⟩
    · have hl : l ≠ [] := by
        rintro rfl
        exact hzero hbuf.end_zero
      rw [if_neg hzero]
      intro rval k₁ hserve
      have h₁ := serves_execute hothers hlines h hserve
      rw [Program.ensures_bind]
      refine (ensures_reportStatus hothers hlines h₁ rval.value).mono ?_
      rintro t o k' ⟨⟨rfl, ht⟩, hwrites, h'⟩
      have hcall : ReadsInside [(.execute buf, rval)] := by
        intro c hc fd nbytes hread
        rw [List.mem_singleton.mp hc] at hread
        cases hread
      refine ⟨⟨.command (v := rval.value) hexit hl ?_ hbuf ?_ ?_, ?_⟩, h'⟩
      · rw [linesRead_append, hline, List.append_nil, linesRead, List.filterMap_cons]
        simp only
        rw [← linesRead, hwrites.linesRead, List.append_nil]
      · rw [executions_append, hexec, List.append_nil, executions, List.filterMap_cons]
        simp only
        rw [← executions, hwrites.executions, List.nil_append]
      · rw [stdout_append, hout, List.append_nil, stdout_cons, ht]
        rfl
      · rw [List.append_nil]
        exact hreads.append (hcall.append hwrites.readsInside)

theorem ensures_shellTurn (h : ShellReady pid k) (buf : Buffer) :
    (shellTurn buf).Ensures (Serves others pid)
      (fun t o k' => (ShellTurn t o ∧ ReadsInside t) ∧ ShellReady pid k') k := by
  rw [shellTurn, Program.ensures_bind]
  refine (ensures_message hothers hlines h (m := "391OS> ")
    (literal_nonzero (by decide))).mono ?_
  rintro t o k₁ ⟨⟨rfl, ht⟩, hwrites, h₁⟩ cnt k₂ hread
  obtain ⟨⟨line, hv, hfits, hst⟩, h₂⟩ := serves_read_stdin hothers hlines h₁ (by decide) hread
  have hinside : InsideBuf cnt.stores := by
    rw [hst]
    exact insideBuf_line hfits
  beta_reduce
  rw [if_neg (not_not.mpr hinside), if_neg (by omega), hst, filled_storesOf, hv]
  -- the newline is the last byte that counts, and a NUL takes its place
  have hbytes := Buffer.shows_write buf 0 (line ++ [0x0A, 0])
  obtain ⟨hline, hrest⟩ := (Buffer.shows_append _ _ _ _).mp hbytes
  have hnewline := hrest 0 (by simp)
  have hindex : ((line.length : Int) + 1 - 1).toNat = line.length := by omega
  rw [Nat.zero_add, Nat.add_zero, List.getD_cons_zero] at hnewline
  simp only [hindex, hnewline, and_true, if_pos (by omega : 0 < (line.length : Int) + 1)]
  have hbuf : StringAt (Function.update (buf.write 0 (line ++ [0x0A, 0])) line.length 0) 0
      (line.takeWhile (fun c => c ≠ 0)) := by
    refine Buffer.Shows.stringAt_takeWhile (hline.congr ?_) ?_
    · intro x _ hx
      rw [Function.update_of_ne (by omega)]
    · rw [Nat.zero_add, Function.update_self]
  have hread' : lineRead cnt = line.takeWhile (fun c => c ≠ 0) := by
    have hcount : ((line.length : Int) + 1).toNat - 1 = line.length := by omega
    rw [lineRead, hst, hv, map_snd_storesOf, hcount, List.take_left]
  refine (ensures_shellLine hothers hlines h₂ hbuf (t ++ [(.read 0 (bufsize - 1), cnt)])
    ?_ ?_ ?_ ?_).mono ?_
  · rw [linesRead_append, hwrites.linesRead, ← hread']
    rfl
  · rw [executions_append, hwrites.executions]
    rfl
  · rw [stdout_append, ht]
    rfl
  · refine hwrites.readsInside.append ?_
    intro c hc fd nbytes _
    rw [List.mem_singleton.mp hc]
    exact hinside
  · rintro t' o k' h
    rwa [List.append_assoc] at h

theorem ensures_shellLoop (h : ShellReady pid k) (turns : Nat) (buf : Buffer) :
    (Program.loop shellTurn turns buf).Ensures (Serves others pid)
      (fun t o _ => ShellSession t o) k := by
  refine Program.ensures_loop_open (I := fun _ k => ShellReady pid k)
    (fun _ _ _ => ShellSession.nil) ?_ turns h
  intro buf k h
  refine (ensures_shellTurn hothers hlines h buf).mono ?_
  rintro t o k' ⟨⟨hturn, hreads⟩, h'⟩
  cases o with
  | none => cases hturn
  | some z =>
      cases z with
      | inl buf' => exact .inr ⟨buf', rfl, h', fun t' o' _ hrest => hturn.first hreads hrest⟩
      | inr status =>
          obtain ⟨rfl, hlast⟩ := hturn.last hreads
          exact .inl ⟨0, rfl, hlast⟩

end Calls

/--
Others leave the image and the control block of the shell alone, and no line
becomes longer than 1022 bytes.  Then every read of the shell stays inside its
buffer; it executes the lines that it has read in their order, each one that is
not empty exactly once, up to a line `exit`, and ends there and only there.  It
writes a prompt for each line, and behind it the message for the value of
`execute`.
-/
theorem shell_executes_lines {k₀ : Kernel} {cmd : List UInt8} {saved : Context} {pid : Fin 6}
    (hexec : (execute k₀ cmd saved).2 = some pid) (hlengths : LineLengths k₀)
    {others : Kernel → Kernel → Prop} (hothers : LeavesAlone others pid)
    (hlines : ∀ k k', others k k' → LineLengths k → LineLengths k') {turns : Nat} {buf : Buffer}
    {t : Trace} {o : Option Int} {k : Kernel}
    (hrun : (shellMain turns buf).Runs (Serves others pid) (execute k₀ cmd saved).1 t o k) :
    ReadsInside t ∧
      List.Forall₂ (fun (e : Buffer × Int) l => StringAt e.1 0 l)
        (executions t) (commandsIn (linesRead t)) ∧
      stdout t = literal "Starting 391 Shell\n" ++
        transcript (linesRead t) ((executions t).map Prod.snd) ∧
      o = if exitText ∈ linesRead t then some 0 else none := by
  have h : ShellReady pid (execute k₀ cmd saved).1 :=
    ⟨(execute_begun hexec).1.toStandard, hlengths.of_same (execute_input k₀ cmd saved)⟩
  have hmain : (shellMain turns buf).Ensures (Serves others pid)
      (fun t o _ => ∃ t₁ t₂, t = t₁ ++ t₂ ∧ OnlyWrites t₁ ∧
        stdout t₁ = literal "Starting 391 Shell\n" ∧ ShellSession t₂ o)
      (execute k₀ cmd saved).1 := by
    rw [shellMain, Program.ensures_bind]
    refine (ensures_message hothers hlines h (m := "Starting 391 Shell\n")
      (literal_nonzero (by decide))).mono ?_
    rintro t₁ o₁ k₁ ⟨⟨rfl, ht⟩, hwrites, h₁⟩
    refine (ensures_shellLoop hothers hlines h₁ turns buf).mono ?_
    exact fun t₂ o₂ _ hsession => ⟨t₁, t₂, rfl, hwrites, ht, hsession⟩
  obtain ⟨t₁, t₂, rfl, hwrites, ht, hreads, hexecutes, hout, hends⟩ :=
    Program.ensures_iff.mp hmain t o k hrun
  simp only [executions_append, linesRead_append, stdout_append, hwrites.executions,
    hwrites.linesRead, ht, List.nil_append]
  exact ⟨hwrites.readsInside.append hreads, hexecutes, by rw [hout], hends⟩

/-! ## A session -/

/-- Keys other than the right arrow are pressed. -/
def Typing (k k' : Kernel) : Prop := ∃ codes, 77 ∉ codes ∧ k' = pressKeys k codes

theorem typing_leavesAlone (pid : Fin 6) : LeavesAlone Typing pid := by
  rintro k _ ⟨codes, -, rfl⟩
  induction codes generalizing k with
  | nil => exact ⟨rfl, rfl⟩
  | cons code codes ih =>
      have hsame := keyboardHandler_same k code
      exact SameOwn.trans ⟨hsame.fs, congrFun hsame.pcb pid⟩ (ih (keyboardHandler k code))

/-- The user types `x`, and `exit` when asked again. -/
def typesExit (k : Kernel) : Kernel :=
  if (k.terminal 0).readIndex = 0 then pressKeys k [45, 28] else pressKeys k [18, 45, 23, 20, 28]

/-- There is no command `x`. -/
theorem shell_executes_lines_typed :
    ∃ t k, (shellMain 3 (fun _ => 0)).Runs (Serves Typing 0)
        (execute (Kernel.zero (fun _ => 0) shellImage) shellCommand .zero).1 t (some 0) k ∧
      linesRead t = [[0x78], exitText] ∧
      List.Forall₂ (fun (e : Buffer × Int) l => StringAt e.1 0 l) (executions t) [[0x78]] ∧
      stdout t = literal "Starting 391 Shell\n391OS> no such command\n391OS> " := by
  have hvals : ((shellMain 3 (fun _ => 0)).exec (serveAlone typesExit 0)
      (execute (Kernel.zero (fun _ => 0) shellImage) shellCommand .zero).1).map
        (fun z => (linesRead z.1, (executions z.1).map Prod.snd, z.2.1)) =
      some ([[0x78], exitText], [-1], some 0) := by
    decide +kernel
  obtain ⟨⟨t, o, k⟩, hexec, hz⟩ := Option.map_eq_some_iff.mp hvals
  simp only [Prod.mk.injEq] at hz
  obtain ⟨hlines, hvalues, rfl⟩ := hz
  have hrefl : ∀ k, Typing k k := fun k => ⟨[], by decide, rfl⟩
  have hint : ∀ k, Typing k (typesExit k) := by
    intro k
    unfold typesExit
    split_ifs
    · exact ⟨_, by decide, rfl⟩
    · exact ⟨_, by decide, rfl⟩
  have hrun := Program.runs_of_exec (serves_of_serveAlone hrefl hint) hexec
  have hlengths : LineLengths (Kernel.zero (fun _ => 0) shellImage) := by
    intro u
    refine ⟨⟨le_refl (0 : Int), (by decide : (0 : Int) ≤ bufsize - 2)⟩, le_refl (0 : Int), ?_⟩
    exact fun _ => (by decide : (0 : Int) ≤ bufsize - 2)
  have hkeeps : ∀ k k', Typing k k' → LineLengths k → LineLengths k' := by
    rintro k _ ⟨codes, hcodes, rfl⟩ h
    exact pressKeys_lineLengths h hcodes
  obtain ⟨-, hexecutes, hout, -⟩ := shell_executes_lines (by decide +kernel) hlengths
    (typing_leavesAlone 0) hkeeps hrun
  rw [hlines] at hexecutes
  refine ⟨t, k, hrun, hlines, hexecutes, ?_⟩
  rw [hout, hlines, hvalues]
  decide +kernel

end OopsOs
