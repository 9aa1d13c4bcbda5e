import OopsOs.Numerals
import OopsOs.Printf
import OopsOs.Lib.Lines

/-!
# `grep`

`do_one_file` reads a file in chunks of at most 1024 bytes into `data`, behind
what is left of the line that the last chunk has cut, and ends each line in
place with a NUL before it searches it.  An unfinished line is copied down to
the start of `data`, unless the chunk is the last one or has no other line.

The byte behind the valid ones decides whether the last line is unfinished.
In a full buffer that byte is `data[1024]`, which no read stores into: a newline
left there makes `do_one_file` take the first part of a cut line for a line.
The search compares the first character of the pattern as a signed one, so that
no line has a pattern that starts with a byte from 128 on.  In all other cases
`do_one_file` prints the lines that contain the pattern, each with the name of
the file in front (`reports_matching_lines_iff`).
-/

namespace OopsOs

open ByteMem Lines

/-! ## The user library -/

def ece391Strlen (fuel : Nat) (s : Buffer) (p : Nat) : Option Nat := strlenAt fuel s p

/-- `ece391_strcpy` within one array, from index `src` to index `dst`. -/
def ece391Strcpy (data : Buffer) : Nat → Nat → Nat → Option Buffer
  | 0, _, _ => none
  | fuel + 1, dst, src =>
      let copied := Function.update data dst (data src)
      if data src ≠ 0 then ece391Strcpy copied fuel (dst + 1) (src + 1) else some copied

/-- `ece391_strncmp` of the strings at indices `i` and `j`. -/
def ece391Strncmp (s1 : Buffer) (i : Nat) (s2 : Buffer) (j : Nat) : Nat → Int
  | 0 => 0
  | n + 1 =>
      if s1 i = s2 j then
        if s1 i = 0 ∨ n = 0 then 0 else ece391Strncmp s1 (i + 1) s2 (j + 1) n
      else ((s1 i).toNat : Int) - (s2 j).toNat

/-- The bytes that `ece391_fdputs` passes to `ece391_write`. -/
def ece391Fdputs (fuel : Nat) (s : Buffer) (p : Nat) : Option (List UInt8) :=
  (ece391Strlen fuel s p).map (fun len => (List.range len).map (fun j => s (p + j)))

/-- The bytes of a string literal. -/
def literal (m : String) : List UInt8 := m.toList.map (fun c => UInt8.ofNat c.toNat)

/-! ## `do_one_file` -/

/-- What a call of `do_one_file` works on. -/
structure GrepCall where
  s : Buffer
  fname : Buffer
  openResult : Int
  /-- The bytes that a read of `nbytes` stores at a position of the file; `none` if it fails. -/
  read : Nat → Nat → Option (List UInt8)
  closeResult : Int

structure GrepState where
  data : Buffer
  last : Nat
  /-- The bytes written to file descriptor 1. -/
  output : List UInt8

/-- A read that stores the bytes behind the valid data. -/
def GrepState.stored (z : GrepState) (bytes : List UInt8) : GrepState :=
  ⟨z.data.write z.last bytes, z.last + bytes.length, z.output⟩

/-- The loop over `line_end` with `n` bytes of valid data left. -/
def lineEndFrom (data : Buffer) (lineEnd : Nat) : Nat → Nat
  | 0 => lineEnd
  | n + 1 => if data lineEnd ≠ 0x0A then lineEndFrom data (lineEnd + 1) n else lineEnd

/-- The loop over `check` with `n` bytes of the line left: does it find the pattern? -/
def searchFrom (s : Buffer) (sLen : Nat) (data : Buffer) (check : Nat) : Nat → Bool
  | 0 => false
  | n + 1 =>
      if charValue (s 0) = (data check).toNat ∧ ece391Strncmp data check s 0 sLen = 0 then true
      else searchFrom s sLen data (check + 1) n

/-- The calls of `ece391_fdputs` for the line at `lineStart`. -/
def printLine (E : GrepCall) (fuel : Nat) (data : Buffer) (lineStart : Nat) :
    Option (List UInt8) :=
  (ece391Fdputs fuel E.fname 0).bind (fun name =>
    (ece391Fdputs fuel data lineStart).map (fun line => name ++ [0x3A] ++ line ++ [0x0A]))

/-- What the search of one line prints. -/
def searchLine (E : GrepCall) (fuel sLen : Nat) (data : Buffer) (lineStart lineEnd : Nat) :
    Option (List UInt8) :=
  if searchFrom E.s sLen data lineStart (lineEnd - lineStart) then printLine E fuel data lineStart
  else some []

/-- The loop over the lines in `data` after a read of `cnt` bytes. -/
def lineLoop (E : GrepCall) (fuel sLen cnt : Nat) : Nat → Nat → GrepState → Option GrepState
  | 0, _, _ => none
  | n + 1, lineStart, z =>
      let lineEnd := lineEndFrom z.data lineStart (z.last - lineStart)
      let data := Function.update z.data lineEnd 0
      if z.data lineEnd ≠ 0x0A ∧ cnt ≠ 0 ∧ lineStart ≠ 0 then
        (ece391Strcpy data fuel 0 lineStart).map (fun data =>
          ⟨data, z.last - lineStart, z.output⟩)
      else
        (searchLine E fuel sLen data lineStart lineEnd).bind (fun printed =>
          if lineEnd + 1 ≥ z.last then some ⟨data, 0, z.output ++ printed⟩
          else lineLoop E fuel sLen cnt n (lineEnd + 1) ⟨data, z.last, z.output ++ printed⟩)

/-- The loop over the reads, with the file at position `pos`; then the file is closed. -/
def readLoop (E : GrepCall) (fuel sLen : Nat) :
    Nat → Nat → GrepState → Option (Int × List UInt8)
  | 0, _, _ => none
  | n + 1, pos, z =>
      match E.read pos (1024 - z.last) with
      | none => some (-1, z.output ++ literal "file read failed\n")
      | some bytes =>
          (lineLoop E fuel sLen bytes.length fuel 0 (z.stored bytes)).bind (fun z =>
            if bytes.length = 0 then
              if E.closeResult = -1 then some (-1, z.output ++ literal "file close failed\n")
              else some (0, z.output)
            else readLoop E fuel sLen n (pos + bytes.length) z)

/-- `do_one_file` with `data` as the stack has it: its value and the bytes it prints. -/
def doOneFile (fuel : Nat) (E : GrepCall) (data : Buffer) : Option (Int × List UInt8) :=
  (ece391Strlen fuel E.s 0).bind (fun sLen =>
    if E.openResult = -1 then some (-1, literal "file open failed\n")
    else readLoop E fuel sLen fuel 0 ⟨data, 0, []⟩)

/-! ## The string functions -/

theorem ece391Fdputs_eq {s : Buffer} {p : Nat} {l : List UInt8} (h : StringAt s p l) {fuel : Nat}
    (hfuel : l.length < fuel) : ece391Fdputs fuel s p = some l := by
  rw [ece391Fdputs, ece391Strlen, strlenAt_eq h hfuel, Option.map_some]
  congr 1
  apply List.ext_getElem
  · simp
  · intro j hj hjl
    rw [List.getElem_map, List.getElem_range, h.bytes j (Nat.le_of_lt hjl),
      List.getD_eq_getElem _ _ hjl]

/-- A copy to a lower index reads each byte before it is overwritten. -/
theorem ece391Strcpy_eq {data : Buffer} {dst src : Nat} {l : List UInt8}
    (h : StringAt data src l) (hdst : dst ≤ src) {fuel : Nat} (hfuel : l.length < fuel) :
    ece391Strcpy data fuel dst src = some (data.write dst (l ++ [0])) := by
  induction l generalizing data dst src fuel with
  | nil =>
      cases fuel with
      | zero => simp at hfuel
      | succ fuel =>
          have hend : data src = 0 := h.end_zero
          rw [ece391Strcpy, hend, if_neg (by simp), List.nil_append, Buffer.update_eq_write]
  | cons c l ih =>
      cases fuel with
      | zero => simp at hfuel
      | succ fuel =>
          have hrest : StringAt (Function.update data dst c) (src + 1) l := by
            refine ⟨h.tail.nonzero, ?_⟩
            intro j hj
            rw [Function.update_of_ne (by omega)]
            exact h.tail.bytes j hj
          rw [ece391Strcpy, h.head.1, if_pos h.head.2,
            ih hrest (by omega) (Nat.lt_of_succ_lt_succ hfuel), Buffer.write_cons,
            List.cons_append]

theorem ece391Strncmp_eq_zero {s1 s2 : Buffer} {i j : Nat} {l p : List UInt8}
    (h : StringAt s1 i l) (hp : StringAt s2 j p) :
    ece391Strncmp s1 i s2 j p.length = 0 ↔ p <+: l := by
  induction p generalizing i j l with
  | nil => simp [ece391Strncmp]
  | cons c p ih =>
      have hdiffer : ∀ a b : UInt8, a ≠ b → ((a.toNat : Int) - b.toNat = 0 ↔ False) := by
        intro a b hab
        rw [iff_false]
        intro hzero
        exact hab (UInt8.toNat_inj.mp (by omega))
      rw [List.length_cons, ece391Strncmp, hp.head.1]
      cases l with
      | nil =>
          have hend : s1 i = 0 := h.end_zero
          rw [hend, if_neg hp.head.2.symm, hdiffer _ _ hp.head.2.symm]
          simp
      | cons d l =>
          rw [h.head.1, List.cons_prefix_cons]
          by_cases hd : d = c
          · rw [if_pos hd, ← ih h.tail hp.tail]
            by_cases hlast : p.length = 0
            · rw [if_pos (.inr hlast), hlast]
              simp [hd, ece391Strncmp]
            · rw [if_neg (by simp [h.head.2, hlast])]
              simp [hd]
          · rw [if_neg hd, hdiffer _ _ hd]
            simp [Ne.symm hd]

theorem charValue_eq_toNat (c d : UInt8) : charValue c = d.toNat ↔ c.toNat < 128 ∧ c = d := by
  have hc := c.toNat_lt
  have hd := d.toNat_lt
  rw [← UInt8.toNat_inj]
  unfold charValue
  split_ifs <;> omega

/-- The lines that the search finds: none if the pattern starts with a negative `char`. -/
def finds (pattern l : List UInt8) : Bool :=
  decide ((pattern.headD 0).toNat < 128 ∧ pattern <:+: l)

theorem finds_iff (c : UInt8) (rest l : List UInt8) :
    finds (c :: rest) l = true ↔ c.toNat < 128 ∧ c :: rest <:+: l := decide_eq_true_iff

theorem finds_nil {pattern : List UInt8} (hne : pattern ≠ []) : finds pattern [] = false := by
  simp [finds, hne]

theorem searchFrom_eq {s data : Buffer} {pattern l : List UInt8} {check : Nat}
    (hs : StringAt s 0 pattern) (hne : pattern ≠ []) (h : StringAt data check l) :
    searchFrom s pattern.length data check l.length = finds pattern l := by
  obtain ⟨c, rest, rfl⟩ := List.exists_cons_of_ne_nil hne
  induction l generalizing check with
  | nil =>
      rw [finds_nil hne]
      rfl
  | cons d l ih =>
      rw [List.length_cons (a := d), searchFrom, ih h.tail]
      simp only [ece391Strncmp_eq_zero h hs, hs.head.1, h.head.1, charValue_eq_toNat]
      rw [Bool.eq_iff_iff, finds_iff, List.infix_cons_iff]
      by_cases hfound : (c.toNat < 128 ∧ c = d) ∧ c :: rest <+: d :: l
      · rw [if_pos hfound]
        exact iff_of_true rfl ⟨hfound.1.1, .inl hfound.2⟩
      · rw [if_neg hfound, finds_iff]
        refine and_congr_right ?_
        intro hlow
        rw [or_iff_right]
        intro hhere
        exact hfound ⟨⟨hlow, (List.cons_prefix_cons.mp hhere).1⟩, hhere⟩

/-! ## The lines in `data` -/

/-- How a line is printed. -/
def lineOutput (name l : List UInt8) : List UInt8 := name ++ [0x3A] ++ l ++ [0x0A]

/-- The lines of a text that contain the pattern, each with the name in front. -/
def report (pattern name text : List UInt8) : List UInt8 :=
  chosen 0x0A (fun l => decide (pattern <:+: l)) (lineOutput name) text

/-- What `do_one_file` prints for a text that it does not cut. -/
def printed (pattern name text : List UInt8) : List UInt8 :=
  chosen 0x0A (finds pattern) (lineOutput name) text

/--
A search of a file for a pattern: the file has no NUL and no line of more than
1023 characters, all calls succeed, and a read stores as many bytes as it is
asked for or the rest of the file.
-/
structure GrepCall.Searches (E : GrepCall) (pattern name file : List UInt8) : Prop where
  patternAt : StringAt E.s 0 pattern
  nonempty : pattern ≠ []
  nameAt : StringAt E.fname 0 name
  opens : E.openResult ≠ -1
  reads : ∀ pos nbytes, E.read pos nbytes = some ((file.drop pos).take nbytes)
  closes : E.closeResult ≠ -1
  text : ∀ c ∈ file, c ≠ 0
  lines : ∀ l ∈ file.splitOn 0x0A, l.length ≤ 1023

variable {E : GrepCall} {pattern name file : List UInt8}

theorem lineEndFrom_eq {data : Buffer} {a n : Nat} {l : List UInt8} (h : data.Shows a l)
    (hl : 0x0A ∉ l) (hn : l.length ≤ n) (hend : n = l.length ∨ data (a + l.length) = 0x0A) :
    lineEndFrom data a n = a + l.length := by
  induction l generalizing a n with
  | nil =>
      cases n with
      | zero => rfl
      | succ n =>
          have hhere : data a = 0x0A := hend.resolve_left (Nat.succ_ne_zero n)
          rw [lineEndFrom, if_neg (not_not.mpr hhere)]
          rfl
  | cons c l ih =>
      cases n with
      | zero => simp at hn
      | succ n =>
          obtain ⟨hc, hrest⟩ := (data.shows_cons a c l).mp h
          have hshift : a + (c :: l).length = a + 1 + l.length := by
            rw [List.length_cons, Nat.add_right_comm, Nat.add_assoc]
          rw [hshift] at hend ⊢
          rw [lineEndFrom, hc, if_pos (List.ne_of_not_mem_cons hl).symm]
          exact ih hrest (List.not_mem_of_not_mem_cons hl) (Nat.le_of_succ_le_succ hn) (hend.imp_left Nat.succ.inj)

theorem searchLine_eq (hE : E.Searches pattern name file) {fuel a : Nat} {data : Buffer}
    {l : List UInt8} (h : StringAt data a l) (hname : name.length < fuel) (hl : l.length < fuel) :
    searchLine E fuel pattern.length data a (a + l.length) =
      some (shown (finds pattern) (lineOutput name) l) := by
  rw [searchLine, Nat.add_sub_cancel_left, searchFrom_eq hE.patternAt hE.nonempty h, shown]
  by_cases hfound : finds pattern l = true
  · rw [if_pos hfound, if_pos hfound, printLine, ece391Fdputs_eq hE.nameAt hname,
      ece391Fdputs_eq h hl]
    rfl
  · rw [if_neg hfound, if_neg hfound]

/-- One turn of the loop that takes `l` for a line. -/
theorem lineLoop_turn (hE : E.Searches pattern name file) {fuel a : Nat} (cnt n : Nat)
    {z : GrepState} {l : List UInt8} (h : z.data.Shows a l) (hnonzero : ∀ c ∈ l, c ≠ 0)
    (hl : 0x0A ∉ l) (hlast : a + l.length ≤ z.last)
    (hend : z.last = a + l.length ∨ z.data (a + l.length) = 0x0A)
    (htaken : ¬ (z.data (a + l.length) ≠ 0x0A ∧ cnt ≠ 0 ∧ a ≠ 0))
    (hname : name.length < fuel) (hfuel : z.last < fuel) :
    lineLoop E fuel pattern.length cnt (n + 1) a z =
      if a + l.length + 1 ≥ z.last then
        some ⟨Function.update z.data (a + l.length) 0, 0,
          z.output ++ shown (finds pattern) (lineOutput name) l⟩
      else
        lineLoop E fuel pattern.length cnt n (a + l.length + 1)
          ⟨Function.update z.data (a + l.length) 0, z.last,
            z.output ++ shown (finds pattern) (lineOutput name) l⟩ := by
  have hlineEnd : lineEndFrom z.data a (z.last - a) = a + l.length :=
    lineEndFrom_eq h hl (by omega) (hend.imp_left (by omega))
  have hstring : StringAt (Function.update z.data (a + l.length) 0) a l := by
    refine Buffer.Shows.stringAt (h.congr ?_) hnonzero (Function.update_self ..)
    intro x _ hx
    exact Function.update_of_ne (Nat.ne_of_lt hx) ..
  rw [lineLoop]
  simp only [hlineEnd]
  rw [if_neg htaken, searchLine_eq hE hstring hname (by omega), Option.bind_some]

/-- The turns for finished lines that are not the end of the data. -/
theorem lineLoop_lines (hE : E.Searches pattern name file) {fuel : Nat} (cnt n : Nat)
    {ls : List (List UInt8)} {rest : List UInt8} (hls : ∀ l ∈ ls, 0x0A ∉ l) (hrest : rest ≠ [])
    {a : Nat} {z : GrepState} (h : z.data.Shows a (joined 0x0A ls rest))
    (hnonzero : ∀ c ∈ joined 0x0A ls rest, c ≠ 0)
    (hlast : z.last = a + (joined 0x0A ls rest).length)
    (hname : name.length < fuel) (hfuel : z.last < fuel) :
    ∃ data', (∀ x, a + (joined 0x0A ls []).length ≤ x → data' x = z.data x) ∧
      lineLoop E fuel pattern.length cnt (ls.length + n) a z =
        lineLoop E fuel pattern.length cnt n (a + (joined 0x0A ls []).length)
          ⟨data', z.last, z.output ++ ls.flatMap (shown (finds pattern) (lineOutput name))⟩ := by
  induction ls generalizing a z with
  | nil => exact ⟨z.data, fun _ _ => rfl, by simp⟩
  | cons l ls ih =>
      have hpos : 0 < (joined 0x0A ls rest).length := by
        rw [joined_eq_append, List.length_append]
        exact Nat.add_pos_right _ (List.length_pos_iff.mpr hrest)
      rw [joined_cons] at h hnonzero hlast
      obtain ⟨hl, hbehind⟩ := (z.data.shows_append a l _).mp h
      obtain ⟨hnewline, hbehind⟩ := (z.data.shows_cons _ _ _).mp hbehind
      rw [List.length_append, List.length_cons] at hlast
      have hturn := lineLoop_turn hE cnt (ls.length + n) hl
        (fun c hc => hnonzero c (List.mem_append_left _ hc)) (hls l (List.mem_cons_self ..))
        (by omega) (.inr hnewline) (fun htaken => htaken.1 hnewline) hname hfuel
      rw [if_neg (by omega)] at hturn
      obtain ⟨data', hsame, hrun⟩ := ih (fun l' hl' => hls l' (List.mem_cons_of_mem l hl'))
        (a := a + l.length + 1)
        (z := ⟨Function.update z.data (a + l.length) 0, z.last,
          z.output ++ shown (finds pattern) (lineOutput name) l⟩)
        (hbehind.congr (fun x hx _ => Function.update_of_ne (by omega) ..))
        (fun c hc => hnonzero c (List.mem_append_right _ (List.mem_cons_of_mem _ hc)))
        (by simp only; omega) hfuel
      have hshift : a + (joined 0x0A (l :: ls) []).length =
          a + l.length + 1 + (joined 0x0A ls []).length := by
        rw [joined_cons, List.length_append, List.length_cons]
        omega
      rw [hshift]
      refine ⟨data', ?_, ?_⟩
      · intro x hx
        rw [hsame x hx]
        exact Function.update_of_ne (by omega) ..
      · rw [List.length_cons, Nat.add_right_comm, hturn, hrun, List.flatMap_cons,
          List.append_assoc]

/-- From the start of `data` to the last turn. -/
theorem lineLoop_last_turn (hE : E.Searches pattern name file) {fuel : Nat} (cnt : Nat)
    {ls : List (List UInt8)} {rest : List UInt8} (hls : ∀ l ∈ ls, 0x0A ∉ l)
    (hrest : rest ≠ [] ∨ ls = []) {z : GrepState} (h : z.data.Shows 0 (joined 0x0A ls rest))
    (hnonzero : ∀ c ∈ joined 0x0A ls rest, c ≠ 0) (hlast : z.last = (joined 0x0A ls rest).length)
    (hname : name.length < fuel) (hfuel : z.last < fuel) :
    ∃ data' n, data'.Shows (joined 0x0A ls []).length rest ∧
      (∀ x, (joined 0x0A ls []).length ≤ x → data' x = z.data x) ∧
      lineLoop E fuel pattern.length cnt fuel 0 z =
        lineLoop E fuel pattern.length cnt (n + 1) (joined 0x0A ls []).length
          ⟨data', z.last, z.output ++ ls.flatMap (shown (finds pattern) (lineOutput name))⟩ := by
  have hturns : ls.length + (fuel - ls.length - 1 + 1) = fuel := by
    have hle : ls.length ≤ (joined 0x0A ls rest).length := length_le_length_joined ls rest
    omega
  have hshows : z.data.Shows (joined 0x0A ls []).length rest := by
    rw [joined_eq_append] at h
    have hbehind := ((z.data.shows_append 0 _ _).mp h).2
    rwa [Nat.zero_add] at hbehind
  by_cases hnil : rest = []
  · obtain rfl := hrest.resolve_left (not_not.mpr hnil)
    refine ⟨z.data, fuel - 1, hshows, fun _ _ => rfl, ?_⟩
    rw [Nat.sub_add_cancel (by omega)]
    simp
  · obtain ⟨data', hsame, hrun⟩ := lineLoop_lines hE cnt (fuel - ls.length - 1 + 1) hls hnil
      h hnonzero (by rw [hlast, Nat.zero_add]) hname hfuel
    rw [Nat.zero_add] at hsame hrun
    rw [hturns] at hrun
    exact ⟨data', fuel - ls.length - 1, hshows.congr (fun x hx _ => hsame x hx), hsame, hrun⟩

theorem printed_finished (hE : E.Searches pattern name file) {ls : List (List UInt8)}
    {l : List UInt8} (hls : ∀ l ∈ ls, 0x0A ∉ l) (hl : 0x0A ∉ l) :
    printed pattern name (joined 0x0A ls (l ++ [0x0A])) =
      ls.flatMap (shown (finds pattern) (lineOutput name)) ++
        shown (finds pattern) (lineOutput name) l := by
  have hone : l ++ [0x0A] = joined 0x0A [l] [] := by rw [joined_cons, joined_nil]
  rw [printed, chosen_joined hls, hone, chosen_joined (by simpa using hl),
    chosen_nil (finds_nil hE.nonempty), List.append_nil, List.flatMap_singleton]

/-- The data end with a finished line: all lines are printed and nothing is left. -/
theorem lineLoop_finished (hE : E.Searches pattern name file) {fuel : Nat} (cnt : Nat)
    {ls : List (List UInt8)} {l : List UInt8} (hls : ∀ l ∈ ls, 0x0A ∉ l) (hl : 0x0A ∉ l)
    {z : GrepState} (h : z.data.Shows 0 (joined 0x0A ls (l ++ [0x0A])))
    (hnonzero : ∀ c ∈ joined 0x0A ls (l ++ [0x0A]), c ≠ 0)
    (hlast : z.last = (joined 0x0A ls (l ++ [0x0A])).length)
    (hname : name.length < fuel) (hfuel : z.last < fuel) :
    ∃ data', (∀ x, z.last ≤ x → data' x = z.data x) ∧
      lineLoop E fuel pattern.length cnt fuel 0 z =
        some ⟨data', 0, z.output ++ printed pattern name (joined 0x0A ls (l ++ [0x0A]))⟩ := by
  obtain ⟨data', n, hshows, hsame, hrun⟩ :=
    lineLoop_last_turn hE cnt hls (.inl (by simp)) h hnonzero hlast hname hfuel
  obtain ⟨hline, hend⟩ := (data'.shows_append _ l [0x0A]).mp hshows
  have hnewline : data' ((joined 0x0A ls []).length + l.length) = 0x0A :=
    ((data'.shows_cons _ _ _).mp hend).1
  rw [joined_eq_append] at hnonzero hlast
  simp only [List.length_append, List.length_singleton] at hlast
  have hturn := lineLoop_turn hE cnt n
    (z := ⟨data', z.last, z.output ++ ls.flatMap (shown (finds pattern) (lineOutput name))⟩) hline
    (fun c hc => hnonzero c (List.mem_append_right _ (List.mem_append_left _ hc))) hl
    (by simp only; omega) (.inr hnewline) (fun htaken => htaken.1 hnewline) hname hfuel
  rw [if_pos (by simp only; omega)] at hturn
  refine ⟨Function.update data' ((joined 0x0A ls []).length + l.length) 0, ?_, ?_⟩
  · intro x hx
    rw [← hsame x (by omega)]
    exact Function.update_of_ne (by omega) ..
  · rw [hrun, hturn, printed_finished hE hls hl, List.append_assoc]

/-- An unfinished line that is taken for a line: all lines are printed and nothing is left. -/
theorem lineLoop_taken (hE : E.Searches pattern name file) {fuel cnt : Nat}
    {ls : List (List UInt8)} {p : List UInt8} (hls : ∀ l ∈ ls, 0x0A ∉ l) (hp : 0x0A ∉ p)
    (hrest : p ≠ [] ∨ ls = []) {z : GrepState} (h : z.data.Shows 0 (joined 0x0A ls p))
    (hnonzero : ∀ c ∈ joined 0x0A ls p, c ≠ 0) (hlast : z.last = (joined 0x0A ls p).length)
    (htaken : ¬ (z.data z.last ≠ 0x0A ∧ cnt ≠ 0 ∧ ls ≠ []))
    (hname : name.length < fuel) (hfuel : z.last < fuel) :
    ∃ data', data' z.last = 0 ∧ (∀ x, z.last < x → data' x = z.data x) ∧
      lineLoop E fuel pattern.length cnt fuel 0 z =
        some ⟨data', 0, z.output ++ printed pattern name (joined 0x0A ls p)⟩ := by
  obtain ⟨data', n, hshows, hsame, hrun⟩ :=
    lineLoop_last_turn hE cnt hls hrest h hnonzero hlast hname hfuel
  rw [joined_eq_append] at hnonzero hlast
  rw [List.length_append] at hlast
  have hstart : (joined 0x0A ls []).length ≠ 0 → ls ≠ [] := by
    rintro hne rfl
    exact hne rfl
  have hturn := lineLoop_turn hE cnt n
    (z := ⟨data', z.last, z.output ++ ls.flatMap (shown (finds pattern) (lineOutput name))⟩) hshows
    (fun c hc => hnonzero c (List.mem_append_right _ hc)) hp (by simp only; omega) (.inl hlast)
    (by
      simp only
      rw [← hlast, hsame _ (by omega)]
      rintro ⟨hbyte, hcnt, hne⟩
      exact htaken ⟨hbyte, hcnt, hstart hne⟩) hname hfuel
  rw [if_pos (by simp only; omega), ← hlast] at hturn
  refine ⟨Function.update data' z.last 0, Function.update_self .., ?_, ?_⟩
  · intro x hx
    rw [← hsame x (by omega)]
    exact Function.update_of_ne (by omega) ..
  · rw [hrun, hturn, printed, chosen_joined hls, chosen_line hp, List.append_assoc]

/-- An unfinished line that is kept: the lines before it are printed. -/
theorem lineLoop_kept (hE : E.Searches pattern name file) {fuel cnt : Nat}
    {ls : List (List UInt8)} {p : List UInt8} (hls : ∀ l ∈ ls, 0x0A ∉ l) (hp : 0x0A ∉ p)
    (hne : p ≠ []) {z : GrepState} (h : z.data.Shows 0 (joined 0x0A ls p))
    (hnonzero : ∀ c ∈ joined 0x0A ls p, c ≠ 0) (hlast : z.last = (joined 0x0A ls p).length)
    (hkept : z.data z.last ≠ 0x0A ∧ cnt ≠ 0 ∧ ls ≠ [])
    (hname : name.length < fuel) (hfuel : z.last < fuel) :
    ∃ data', data'.Shows 0 p ∧ (∀ x, z.last ≤ x → data' x = z.data x ∨ data' x = 0) ∧
      lineLoop E fuel pattern.length cnt fuel 0 z =
        some ⟨data', p.length, z.output ++ printed pattern name (joined 0x0A ls [])⟩ := by
  obtain ⟨data', n, hshows, hsame, hrun⟩ :=
    lineLoop_last_turn hE cnt hls (.inl hne) h hnonzero hlast hname hfuel
  rw [joined_eq_append] at hnonzero hlast
  rw [List.length_append] at hlast
  have hstart : 0 < (joined 0x0A ls []).length :=
    Nat.lt_of_lt_of_le (List.length_pos_iff.mpr hkept.2.2) (length_le_length_joined ls [])
  have hleft : z.last - (joined 0x0A ls []).length = p.length := by omega
  have hlineEnd : lineEndFrom data' (joined 0x0A ls []).length
      (z.last - (joined 0x0A ls []).length) = z.last := by
    rw [lineEndFrom_eq hshows hp (by omega) (.inl (by omega)), hlast]
  have hstring : StringAt (Function.update data' z.last 0) (joined 0x0A ls []).length p := by
    refine Buffer.Shows.stringAt (hshows.congr ?_)
      (fun c hc => hnonzero c (List.mem_append_right _ hc)) ?_
    · intro x _ hx
      exact Function.update_of_ne (by omega) ..
    · rw [← hlast]
      exact Function.update_self ..
  refine ⟨Buffer.write (Function.update data' z.last 0) 0 (p ++ [0]), ?_, ?_, ?_⟩
  · exact ((Buffer.shows_append _ 0 p [0]).mp (Buffer.shows_write _ 0 (p ++ [0]))).1
  · intro x hx
    rw [Buffer.write_after _ (by simp only [List.length_append, List.length_singleton]; omega)]
    by_cases hxlast : x = z.last
    · rw [hxlast]
      exact .inr (Function.update_self ..)
    · rw [← hsame x (by omega)]
      exact .inl (Function.update_of_ne hxlast ..)
  · rw [hrun, lineLoop]
    simp only [hlineEnd]
    rw [hsame z.last (by omega), if_pos ⟨hkept.1, hkept.2.1, by omega⟩,
      ece391Strcpy_eq hstring (Nat.zero_le _) (by omega), Option.map_some, printed,
      chosen_joined hls, chosen_nil (finds_nil hE.nonempty), List.append_nil, hleft]

/-- What the loop over the lines makes of a state whose data are `v`. -/
inductive AfterLines (pattern name : List UInt8) (cnt : Nat) (v : List UInt8) (z : GrepState) :
    GrepState → Prop
  | finished {u : List UInt8} {data' : Buffer} (hv : v = u ++ [0x0A])
      (hsame : ∀ x, z.last ≤ x → data' x = z.data x) :
      AfterLines pattern name cnt v z ⟨data', 0, z.output ++ printed pattern name v⟩
  | taken {data' : Buffer} (hopen : ∀ u, v ≠ u ++ [0x0A])
      (htaken : z.data z.last = 0x0A ∨ cnt = 0 ∨ 0x0A ∉ v) (hend : data' z.last = 0)
      (hsame : ∀ x, z.last < x → data' x = z.data x) :
      AfterLines pattern name cnt v z ⟨data', 0, z.output ++ printed pattern name v⟩
  | kept {ls : List (List UInt8)} {p : List UInt8} {data' : Buffer} (hv : v = joined 0x0A ls p)
      (hls : ∀ l ∈ ls, 0x0A ∉ l) (hp : 0x0A ∉ p) (hopen : ∀ u, v ≠ u ++ [0x0A])
      (hkept : z.data z.last ≠ 0x0A ∧ cnt ≠ 0) (hshows : data'.Shows 0 p)
      (hsame : ∀ x, z.last ≤ x → data' x = z.data x ∨ data' x = 0) :
      AfterLines pattern name cnt v z
        ⟨data', p.length, z.output ++ printed pattern name (joined 0x0A ls [])⟩

theorem lineLoop_afterLines (hE : E.Searches pattern name file) {fuel : Nat} (cnt : Nat)
    {v : List UInt8} {z : GrepState} (h : z.data.Shows 0 v) (hnonzero : ∀ c ∈ v, c ≠ 0)
    (hlast : z.last = v.length) (hname : name.length < fuel) (hfuel : z.last < fuel) :
    ∃ z', AfterLines pattern name cnt v z z' ∧
      lineLoop E fuel pattern.length cnt fuel 0 z = some z' := by
  obtain ⟨ls, p, rfl, hls, hp⟩ := exists_joined 0x0A v
  by_cases hrest : p ≠ [] ∨ ls = []
  · have hopen := joined_ne_closed hp hrest
    by_cases hkept : z.data z.last ≠ 0x0A ∧ cnt ≠ 0 ∧ ls ≠ []
    · obtain ⟨data', hshows, hsame, hrun⟩ :=
        lineLoop_kept hE hls hp (hrest.resolve_right hkept.2.2) h hnonzero hlast hkept hname hfuel
      exact ⟨_, .kept rfl hls hp hopen ⟨hkept.1, hkept.2.1⟩ hshows hsame, hrun⟩
    · obtain ⟨data', hend, hsame, hrun⟩ :=
        lineLoop_taken hE hls hp hrest h hnonzero hlast hkept hname hfuel
      refine ⟨_, .taken hopen ?_ hend hsame, hrun⟩
      by_contra hnot
      push Not at hnot
      refine hkept ⟨hnot.1, hnot.2.1, ?_⟩
      rintro rfl
      exact hp hnot.2.2
  · push Not at hrest
    obtain ⟨rfl, hne⟩ := hrest
    obtain ⟨before, l, rfl⟩ := (List.eq_nil_or_concat' ls).resolve_left hne
    rw [joined_concat] at h hnonzero hlast ⊢
    obtain ⟨data', hsame, hrun⟩ := lineLoop_finished hE cnt
      (fun l' hl' => hls l' (List.mem_append_left _ hl')) (hls l (by simp)) h hnonzero hlast hname
      hfuel
    exact ⟨_, .finished (u := joined 0x0A before l) (by rw [joined_append]) hsame, hrun⟩

/-! ## The reads -/

/-- Before a read at position `pos`, the data are the unfinished line `t`. -/
structure Pending (file : List UInt8) (pos : Nat) (t : List UInt8) (z : GrepState) : Prop where
  last : z.last = t.length
  shows : z.data.Shows 0 t
  unfinished : 0x0A ∉ t
  rest : t ++ file.drop pos <:+: file

theorem Pending.empty (file : List UInt8) (pos : Nat) (data : Buffer) (out : List UInt8) :
    Pending file pos [] ⟨data, 0, out⟩ := by
  refine ⟨rfl, ?_, by simp, ?_⟩
  · intro j hj
    simp at hj
  · exact (List.drop_suffix pos file).isInfix

theorem GrepCall.Searches.length_le (hE : E.Searches pattern name file) {l : List UInt8}
    (h : l <:+: file) (hl : 0x0A ∉ l) : l.length ≤ 1023 := by
  obtain ⟨line, hline, hwithin⟩ := exists_line_of_isInfix h hl
  exact Nat.le_trans hwithin.length_le (hE.lines line hline)

theorem Pending.length_le (hE : E.Searches pattern name file) {pos : Nat} {t : List UInt8}
    {z : GrepState} (hz : Pending file pos t z) : t.length ≤ 1023 :=
  hE.length_le ((List.prefix_append t _).isInfix.trans hz.rest) hz.unfinished

@[simp] theorem GrepState.stored_last (z : GrepState) (bytes : List UInt8) :
    (z.stored bytes).last = z.last + bytes.length := rfl

@[simp] theorem GrepState.stored_output (z : GrepState) (bytes : List UInt8) :
    (z.stored bytes).output = z.output := rfl

theorem GrepState.stored_after (z : GrepState) {bytes : List UInt8} {x : Nat}
    (h : z.last + bytes.length ≤ x) : (z.stored bytes).data x = z.data x :=
  z.data.write_after h

/-- The bytes of a read at position `pos`: they fill the buffer or are the rest of the file. -/
structure NextBytes (file : List UInt8) (pos : Nat) (z : GrepState) (bytes : List UInt8) :
    Prop where
  rest : file.drop pos = bytes ++ file.drop (pos + bytes.length)
  room : z.last + bytes.length ≤ 1024
  full : z.last + bytes.length = 1024 ∨ file.drop (pos + bytes.length) = []

section NextBytes

variable {pos : Nat} {t bytes : List UInt8} {z : GrepState}

theorem Pending.nextBytes (hE : E.Searches pattern name file) (hz : Pending file pos t z) :
    NextBytes file pos z ((file.drop pos).take (1024 - t.length)) := by
  have ht := hz.length_le hE
  refine ⟨?_, ?_, ?_⟩
  · rw [← List.drop_drop]
    exact (List.prefix_iff_eq_append.mp (List.take_prefix _ _)).symm
  · rw [hz.last, List.length_take]
    omega
  · rw [hz.last, List.length_take, List.drop_eq_nil_iff, List.length_drop]
    omega

theorem NextBytes.within (hz : Pending file pos t z) (hbytes : NextBytes file pos z bytes) :
    t ++ bytes <:+: file := by
  refine List.IsInfix.trans (List.IsPrefix.isInfix ?_) hz.rest
  rw [hbytes.rest, ← List.append_assoc]
  exact List.prefix_append _ _

theorem NextBytes.length_eq (hbytes : NextBytes file pos z bytes) :
    (file.drop pos).length = bytes.length + (file.drop (pos + bytes.length)).length := by
  rw [← List.length_append, ← hbytes.rest]

theorem NextBytes.shows (hz : Pending file pos t z) :
    (z.stored bytes).data.Shows 0 (t ++ bytes) := by
  rw [Buffer.shows_append, Nat.zero_add]
  unfold GrepState.stored
  rw [hz.last]
  refine ⟨hz.shows.congr ?_, z.data.shows_write _ _⟩
  intro x _ hx
  exact z.data.write_before bytes (by omega)

/-- An unfinished line is taken for a line only where the file ends. -/
theorem NextBytes.at_end_of_taken (hE : E.Searches pattern name file) (hz : Pending file pos t z)
    (hbytes : NextBytes file pos z bytes)
    (hpeek : z.data 1024 ≠ 0x0A ∨ t.length + (file.drop pos).length < 1024)
    (hcnt : bytes.length ≠ 0)
    (htaken : (z.stored bytes).data (z.stored bytes).last = 0x0A ∨ bytes.length = 0 ∨
      0x0A ∉ t ++ bytes) : file.drop (pos + bytes.length) = [] := by
  refine hbytes.full.resolve_left ?_
  intro hfilled
  have hlen := hbytes.length_eq
  rw [GrepState.stored_last, hfilled, z.stored_after hbytes.room] at htaken
  rw [hz.last] at hfilled
  rcases htaken with hnewline | hzero | hnone
  · rcases hpeek with hne | hshort
    · exact hne hnewline
    · omega
  · exact hcnt hzero
  · have hshort := hE.length_le (hbytes.within hz) hnone
    rw [List.length_append] at hshort
    omega

/-- The loop over the lines puts no newline behind the buffer. -/
theorem NextBytes.next_peek (hbytes : NextBytes file pos z bytes)
    (hpeek : z.data 1024 ≠ 0x0A ∨ t.length + (file.drop pos).length < 1024) {data' : Buffer}
    (hsame : data' 1024 = (z.stored bytes).data 1024 ∨ data' 1024 = 0) {k : Nat}
    (hk : k ≤ t.length + bytes.length) :
    data' 1024 ≠ 0x0A ∨ k + (file.drop (pos + bytes.length)).length < 1024 := by
  have hlen := hbytes.length_eq
  rcases hsame with hsame | hzero
  · rw [hsame, z.stored_after hbytes.room]
    exact hpeek.imp_right (by omega)
  · rw [hzero]
    exact .inl (by decide)

end NextBytes

/-- One turn of the loop over the reads. -/
theorem readLoop_turn (hE : E.Searches pattern name file) {fuel : Nat} (n : Nat) {pos : Nat}
    {t bytes : List UInt8} {z : GrepState} (hz : Pending file pos t z)
    (hread : bytes = (file.drop pos).take (1024 - t.length)) (hname : name.length < fuel)
    (hfuel : 1024 < fuel) :
    ∃ z', AfterLines pattern name bytes.length (t ++ bytes) (z.stored bytes) z' ∧
      readLoop E fuel pattern.length (n + 1) pos z =
        if bytes.length = 0 then some (0, z'.output)
        else readLoop E fuel pattern.length n (pos + bytes.length) z' := by
  have hbytes : NextBytes file pos z bytes := by
    rw [hread]
    exact hz.nextBytes hE
  have hlast : (z.stored bytes).last = (t ++ bytes).length := by
    rw [List.length_append, ← hz.last]
    rfl
  obtain ⟨z', hafter, hrun⟩ := lineLoop_afterLines hE bytes.length (NextBytes.shows hz)
    (fun c hc => hE.text c ((hbytes.within hz).subset hc)) hlast hname
    (Nat.lt_of_le_of_lt hbytes.room hfuel)
  refine ⟨z', hafter, ?_⟩
  rw [readLoop, hE.reads, hz.last, ← hread]
  simp only
  rw [hrun, Option.bind_some, if_neg hE.closes]

/--
The rest of the file is printed line by line, unless a full buffer can be
followed by a newline.
-/
theorem readLoop_uncut (hE : E.Searches pattern name file) {fuel : Nat}
    (hname : name.length < fuel) (hfuel : 1024 < fuel) (n : Nat) {pos : Nat} {t : List UInt8}
    {z : GrepState} (hz : Pending file pos t z)
    (hpeek : z.data 1024 ≠ 0x0A ∨ t.length + (file.drop pos).length < 1024)
    (hn : (file.drop pos).length < n) :
    readLoop E fuel pattern.length n pos z =
      some (0, z.output ++ printed pattern name (t ++ file.drop pos)) := by
  induction n generalizing pos t z with
  | zero => omega
  | succ n ih =>
      obtain ⟨bytes, hread⟩ : ∃ bytes, bytes = (file.drop pos).take (1024 - t.length) := ⟨_, rfl⟩
      have hbytes : NextBytes file pos z bytes := by
        rw [hread]
        exact hz.nextBytes hE
      obtain ⟨z', hafter, hrun⟩ := readLoop_turn hE n hz hread hname hfuel
      have ht := hz.length_le hE
      have hlen := hbytes.length_eq
      by_cases hcnt : bytes.length = 0
      · -- the file has been read to its end
        have hfull := hbytes.full
        rw [hz.last] at hfull
        have hall : file.drop pos = bytes := by
          rw [hbytes.rest, hfull.resolve_left (by omega), List.append_nil]
        rw [hrun, if_pos hcnt, hall]
        cases hafter with
        | finished => rfl
        | taken => rfl
        | kept _ _ _ _ hkept => exact absurd hcnt hkept.2
      · rw [hrun, if_neg hcnt, hbytes.rest, ← List.append_assoc]
        cases hafter with
        | @finished u data' hv hsame =>
            have hpeek' := hbytes.next_peek hpeek (.inl (hsame 1024 hbytes.room))
              (Nat.zero_le _)
            rw [ih (Pending.empty ..) hpeek' (by omega), hv, printed, printed, printed,
              chosen_append_of_closed (finds_nil hE.nonempty), List.nil_append, List.append_assoc]
            rfl
        | @taken data' hopen htaken hend hsame =>
            have hnil := hbytes.at_end_of_taken hE hz hpeek hcnt htaken
            rw [ih (Pending.empty ..) (.inr (by simp [hnil])) (by omega), hnil,
              List.append_nil, printed, printed, List.append_nil,
              chosen_nil (finds_nil hE.nonempty), List.append_nil]
            rfl
        | @kept ls p data' hv hls hp hopen hkept hshows hsame =>
            have hp' : p.length ≤ t.length + bytes.length := by
              rw [← List.length_append, hv, joined_eq_append, List.length_append]
              omega
            have hpeek' := hbytes.next_peek hpeek (hsame 1024 hbytes.room) hp'
            have hpending : Pending file (pos + bytes.length) p
                ⟨data', p.length,
                  (z.stored bytes).output ++ printed pattern name (joined 0x0A ls [])⟩ := by
              refine ⟨rfl, hshows, hp, List.IsInfix.trans (List.IsSuffix.isInfix ?_) hz.rest⟩
              rw [hbytes.rest, ← List.append_assoc, hv, joined_eq_append, List.append_assoc]
              exact List.suffix_append _ _
            rw [ih hpending hpeek' (by omega), hv, joined_append, printed, printed, printed,
              chosen_joined hls, chosen_joined hls, chosen_nil (finds_nil hE.nonempty)]
            simp

/-! ## A newline behind the buffer -/

/-- The first full buffer that does not end with a newline ends at position `a`. -/
structure FirstOpen (file : List UInt8) (a : Nat) : Prop where
  positive : 0 < a
  whole : 1024 ∣ a
  le : a ≤ file.length
  opens : file.getD (a - 1) 0 ≠ 0x0A
  before : ∀ b, 0 < b → b < a → 1024 ∣ b → file.getD (b - 1) 0 = 0x0A

theorem take_eq_append_getD {l : List UInt8} {a : Nat} (ha : 0 < a) (hle : a ≤ l.length) :
    l.take a = l.take (a - 1) ++ [l.getD (a - 1) 0] := by
  obtain ⟨k, rfl⟩ := Nat.exists_eq_add_of_lt ha
  rw [Nat.zero_add, Nat.add_sub_cancel, List.take_succ_eq_append_getElem (by omega),
    List.getD_eq_getElem _ _ (by omega)]

/-- A text that ends at a line end is printed independently of what follows. -/
theorem printed_take_append (hE : E.Searches pattern name file) {a : Nat} (hle : a ≤ file.length)
    (hclosed : a = 0 ∨ file.getD (a - 1) 0 = 0x0A) (v : List UInt8) :
    printed pattern name (file.take a ++ v) =
      printed pattern name (file.take a) ++ printed pattern name v := by
  rcases Nat.eq_zero_or_pos a with rfl | hpos
  · rw [List.take_zero, List.nil_append, printed, printed,
      chosen_nil (finds_nil hE.nonempty), List.nil_append]
  · rw [take_eq_append_getD hpos hle, hclosed.resolve_left (Nat.ne_of_gt hpos)]
    exact chosen_append_of_closed (finds_nil hE.nonempty) _ _

/-- A full buffer with a newline behind it: all of it is printed, also an unfinished line. -/
theorem readLoop_full_buffer (hE : E.Searches pattern name file) {fuel : Nat}
    (hname : name.length < fuel) (hfuel : 1024 < fuel) (n : Nat) {pos : Nat} {data : Buffer}
    (hpeek : data 1024 = 0x0A) (hstart : pos = 0 ∨ file.getD (pos - 1) 0 = 0x0A)
    (hwhole : pos + 1024 ≤ file.length) :
    ∃ data', data' 1024 = (if file.getD (pos + 1023) 0 = 0x0A then 0x0A else 0) ∧
      readLoop E fuel pattern.length (n + 1) pos
          ⟨data, 0, printed pattern name (file.take pos)⟩ =
        readLoop E fuel pattern.length n (pos + 1024)
          ⟨data', 0, printed pattern name (file.take (pos + 1024))⟩ := by
  have hlen : ((file.drop pos).take 1024).length = 1024 := by
    rw [List.length_take, List.length_drop]
    omega
  have hbytes : (file.drop pos).take 1024 =
      (file.drop pos).take 1023 ++ [file.getD (pos + 1023) 0] := by
    rw [take_eq_append_getD (by decide) (by rw [List.length_drop]; omega)]
    simp [List.getD_eq_getElem?_getD]
  have hprinted : printed pattern name (file.take pos) ++
      printed pattern name ((file.drop pos).take 1024) =
        printed pattern name (file.take (pos + 1024)) := by
    rw [← printed_take_append hE (by omega) hstart, ← List.take_add]
  obtain ⟨z', hafter, hrun⟩ := readLoop_turn hE n
    (Pending.empty file pos data (printed pattern name (file.take pos)))
    (show (file.drop pos).take 1024 = _ from rfl) hname hfuel
  rw [if_neg (by rw [hlen]; decide), hlen] at hrun
  rw [hrun]
  have hlast : (GrepState.stored ⟨data, 0, printed pattern name (file.take pos)⟩
      ((file.drop pos).take 1024)).last = 1024 := by
    rw [GrepState.stored_last, hlen]
  have hstored : (GrepState.stored ⟨data, 0, printed pattern name (file.take pos)⟩
      ((file.drop pos).take 1024)).data 1024 = 0x0A :=
    (GrepState.stored_after _ (by rw [hlen])).trans hpeek
  have hclosed : file.getD (pos + 1023) 0 = 0x0A →
      [] ++ (file.drop pos).take 1024 = (file.drop pos).take 1023 ++ [0x0A] := by
    intro hend
    rw [List.nil_append, hbytes, hend]
  cases hafter with
  | @finished u data' hv hsame =>
      rw [List.nil_append, hbytes] at hv
      refine ⟨data', ?_, ?_⟩
      · rw [if_pos (List.singleton_inj.mp (List.append_inj_right' hv rfl)),
          hsame 1024 (by rw [hlast]), hstored]
      · rw [GrepState.stored_output, List.nil_append, hprinted]
  | @taken data' hopen htaken hzero hsame =>
      rw [hlast] at hzero
      refine ⟨data', ?_, ?_⟩
      · rw [if_neg (fun hend => hopen _ (hclosed hend)), hzero]
      · rw [GrepState.stored_output, List.nil_append, hprinted]
  | kept _ _ _ _ hkept =>
      rw [hlast, hstored] at hkept
      exact absurd rfl hkept.1

/-- With a newline in `data[1024]`, the file is cut at the end of the first open buffer. -/
theorem readLoop_newline (hE : E.Searches pattern name file) {fuel : Nat}
    (hname : name.length < fuel) (hfuel : 1024 < fuel) (n : Nat) {pos : Nat} {data : Buffer}
    (hpeek : data 1024 = 0x0A) (hpos : 1024 ∣ pos) (hle : pos ≤ file.length)
    (hclosed : ∀ b, 0 < b → b ≤ pos → 1024 ∣ b → file.getD (b - 1) 0 = 0x0A)
    (hn : (file.drop pos).length < n) :
    (∃ a, FirstOpen file a ∧
      readLoop E fuel pattern.length n pos ⟨data, 0, printed pattern name (file.take pos)⟩ =
        some (0, printed pattern name (file.take a) ++ printed pattern name (file.drop a))) ∨
    ((∀ a, ¬ FirstOpen file a) ∧
      readLoop E fuel pattern.length n pos ⟨data, 0, printed pattern name (file.take pos)⟩ =
        some (0, printed pattern name file)) := by
  induction n generalizing pos data with
  | zero => omega
  | succ n ih =>
      have hstart : pos = 0 ∨ file.getD (pos - 1) 0 = 0x0A := by
        rcases Nat.eq_zero_or_pos pos with hzero | hpositive
        · exact .inl hzero
        · exact .inr (hclosed pos hpositive (Nat.le_refl _) hpos)
      by_cases hwhole : pos + 1024 ≤ file.length
      · have hnext : 1024 ∣ pos + 1024 := (Nat.dvd_add_right hpos).mpr (Nat.dvd_refl _)
        have hless : (file.drop (pos + 1024)).length < n := by
          rw [List.length_drop] at hn ⊢
          omega
        obtain ⟨data', hdata, hrun⟩ :=
          readLoop_full_buffer hE hname hfuel n hpeek hstart hwhole
        rw [hrun]
        by_cases hend : file.getD (pos + 1023) 0 = 0x0A
        · rw [if_pos hend] at hdata
          refine ih hdata hnext hwhole ?_ hless
          intro b hb hble hmultiple
          rcases Nat.lt_or_ge pos b with hlater | hearlier
          · obtain rfl : b = pos + 1024 := by omega
            exact hend
          · exact hclosed b hb hearlier hmultiple
        · rw [if_neg hend] at hdata
          refine .inl ⟨pos + 1024, ⟨by omega, hnext, hwhole, hend, ?_⟩, ?_⟩
          · intro b hb hlt hmultiple
            exact hclosed b hb (by omega) hmultiple
          · exact readLoop_uncut hE hname hfuel n (Pending.empty file (pos + 1024) data' _)
              (.inl (by simp [hdata])) hless
      · refine .inr ⟨?_, ?_⟩
        · intro a ha
          have hfirst : a ≤ pos := by
            have hend := ha.le
            have hmultiple := ha.whole
            omega
          exact ha.opens (hclosed a ha.positive hfirst ha.whole)
        · rw [readLoop_uncut hE hname hfuel (n + 1) (Pending.empty file pos data _)
            (.inr (by simp only [List.length_nil, List.length_drop]; omega)) hn, List.nil_append,
            ← printed_take_append hE hle hstart, List.take_append_drop]

theorem FirstOpen.unique {a b : Nat} (ha : FirstOpen file a) (hb : FirstOpen file b) : a = b := by
  rcases Nat.lt_trichotomy a b with hlt | heq | hlt
  · exact absurd (hb.before a ha.positive hlt ha.whole) ha.opens
  · exact heq
  · exact absurd (ha.before b hb.positive hlt hb.whole) hb.opens

/-! ## Whole runs -/

theorem doOneFile_eq (hE : E.Searches pattern name file) {fuel : Nat} (data : Buffer)
    (hpattern : pattern.length < fuel) :
    doOneFile fuel E data = readLoop E fuel pattern.length fuel 0
      ⟨data, 0, printed pattern name (file.take 0)⟩ := by
  rw [doOneFile, ece391Strlen, strlenAt_eq hE.patternAt hpattern, Option.bind_some,
    if_neg hE.opens, List.take_zero, printed, chosen_nil (finds_nil hE.nonempty)]

/-- Enough turns for every loop. -/
def grepFuel (pattern name file : List UInt8) : Nat :=
  pattern.length + name.length + file.length + 1025

theorem doOneFile_uncut (hE : E.Searches pattern name file) {data : Buffer}
    (huncut : data 1024 = 0x0A → ∀ a, ¬ FirstOpen file a) {fuel : Nat}
    (hfuel : grepFuel pattern name file ≤ fuel) :
    doOneFile fuel E data = some (0, printed pattern name file) := by
  unfold grepFuel at hfuel
  rw [doOneFile_eq hE data (by omega)]
  by_cases hpeek : data 1024 = 0x0A
  · have hrun := readLoop_newline hE (show name.length < fuel by omega) (by omega) fuel hpeek
      (Nat.dvd_zero _) (Nat.zero_le _) (by omega) (by rw [List.drop_zero]; omega)
    rcases hrun with ⟨a, ha, -⟩ | ⟨-, hrun⟩
    · exact absurd ha (huncut hpeek a)
    · exact hrun
  · rw [readLoop_uncut hE (by omega) (by omega) fuel (Pending.empty file 0 data _) (.inl hpeek)
      (by rw [List.drop_zero]; omega), ← printed_take_append hE (Nat.zero_le _) (.inl rfl)]
    rfl

theorem doOneFile_cut (hE : E.Searches pattern name file) {data : Buffer}
    (hpeek : data 1024 = 0x0A) {a : Nat} (ha : FirstOpen file a) {fuel : Nat}
    (hfuel : grepFuel pattern name file ≤ fuel) :
    doOneFile fuel E data =
      some (0, printed pattern name (file.take a) ++ printed pattern name (file.drop a)) := by
  unfold grepFuel at hfuel
  rw [doOneFile_eq hE data (by omega)]
  have hrun := readLoop_newline hE (show name.length < fuel by omega) (by omega) fuel hpeek
    (Nat.dvd_zero _) (Nat.zero_le _) (by omega) (by rw [List.drop_zero]; omega)
  rcases hrun with ⟨b, hb, hrun⟩ | ⟨hnone, -⟩
  · rwa [hb.unique ha] at hrun
  · exact absurd ha (hnone a)

/-! ## When all matching lines are printed -/

/-- `do_one_file` returns 0 and prints the report. -/
def ReportsMatchingLines (E : GrepCall) (data : Buffer) (pattern name file : List UInt8) : Prop :=
  ∃ N, ∀ fuel, N ≤ fuel → doOneFile fuel E data = some (0, report pattern name file)

/--
The first full buffer that does not end with a newline ends within a line, at
position `a`, and that line contains the pattern.
-/
structure CutsMatch (pattern file : List UInt8) (a : Nat) : Prop where
  first : FirstOpen file a
  inside : firstLine 0x0A (file.drop a) ≠ []
  found : pattern <:+: lastLine 0x0A (file.take a) ++ firstLine 0x0A (file.drop a)

theorem printed_of_low (hlow : (pattern.headD 0).toNat < 128) (v : List UInt8) :
    printed pattern name v = report pattern name v := by
  have hselect : finds pattern = fun l => decide (pattern <:+: l) := by
    funext l
    simp only [finds, hlow, true_and]
  rw [printed, report, hselect]

theorem printed_of_high (hhigh : ¬ (pattern.headD 0).toNat < 128) (v : List UInt8) :
    printed pattern name v = [] := by
  rw [printed, chosen_eq_nil_iff (by simp [lineOutput])]
  intro l _
  simp only [finds, hhigh, false_and, decide_false]

theorem report_eq_nil_iff (v : List UInt8) :
    report pattern name v = [] ↔ ∀ l ∈ v.splitOn 0x0A, ¬ pattern <:+: l := by
  rw [report, chosen_eq_nil_iff (by simp [lineOutput])]
  simp only [decide_eq_false_iff_not]

/-- The two parts of a line that contains the pattern are printed differently. -/
theorem shown_append_iff {x y : List UInt8} (hx : x ≠ []) (hy : y ≠ []) :
    shown (fun l => decide (pattern <:+: l)) (lineOutput name) x ++
        shown (fun l => decide (pattern <:+: l)) (lineOutput name) y =
      shown (fun l => decide (pattern <:+: l)) (lineOutput name) (x ++ y) ↔
    ¬ pattern <:+: x ++ y := by
  have hxpos := List.length_pos_iff.mpr hx
  have hypos := List.length_pos_iff.mpr hy
  unfold shown
  constructor
  · intro heq hfound
    have hlength := congrArg List.length heq
    rw [if_pos (decide_eq_true hfound)] at hlength
    split_ifs at hlength <;>
      simp only [lineOutput, List.length_append, List.length_singleton, List.length_nil] at hlength <;>
      omega
  · intro hnone
    rw [if_neg, if_neg, if_neg (by simpa using hnone)]
    · rfl
    · simpa using fun hfound : pattern <:+: y => hnone (hfound.trans (List.suffix_append x y).isInfix)
    · simpa using fun hfound : pattern <:+: x => hnone (hfound.trans (List.prefix_append x y).isInfix)

/-- A file cut at `a` is printed line by line unless the cut goes through a matching line. -/
theorem report_cut_iff (hE : E.Searches pattern name file) {a : Nat} (ha : FirstOpen file a) :
    report pattern name (file.take a) ++ report pattern name (file.drop a) =
      report pattern name file ↔ ¬ CutsMatch pattern file a := by
  have hlast : lastLine 0x0A (file.take a) ≠ [] := by
    rw [take_eq_append_getD ha.positive ha.le]
    exact lastLine_concat ha.opens _
  rw [report, report, report]
  nth_rewrite 3 [← List.take_append_drop a file]
  rw [chosen_append_iff]
  by_cases hinside : firstLine 0x0A (file.drop a) = []
  · refine iff_of_true ?_ (fun hcut => hcut.inside hinside)
    have hempty : shown (fun l => decide (pattern <:+: l)) (lineOutput name) [] = [] := by
      simp [shown, hE.nonempty]
    rw [hinside, hempty, List.append_nil, List.append_nil]
  · rw [shown_append_iff hlast hinside, not_iff_not]
    exact ⟨fun hfound => ⟨ha, hinside, hfound⟩, CutsMatch.found⟩

/-- A cut line that contains the pattern is a line of the file. -/
theorem CutsMatch.exists_line {a : Nat} (h : CutsMatch pattern file a) :
    ∃ l ∈ file.splitOn 0x0A, pattern <:+: l := by
  have hline : lastLine 0x0A (file.take a) ++ firstLine 0x0A (file.drop a) ∈
      (file.take a ++ file.drop a).splitOn 0x0A := lastLine_append_firstLine_mem _ _
  rw [List.take_append_drop] at hline
  exact ⟨_, hline, h.found⟩

/-- What `do_one_file` prints decides whether it prints the report. -/
theorem reportsMatchingLines_iff_of_output {data : Buffer} {out : List UInt8}
    (hrun : ∀ fuel, grepFuel pattern name file ≤ fuel → doOneFile fuel E data = some (0, out)) :
    ReportsMatchingLines E data pattern name file ↔ out = report pattern name file := by
  constructor
  · rintro ⟨N, hreport⟩
    have hboth := (hrun _ (Nat.le_max_left _ N)).symm.trans (hreport _ (Nat.le_max_right _ N))
    exact (Prod.mk.inj (Option.some.inj hboth)).2
  · rintro rfl
    exact ⟨_, hrun⟩

/--
`do_one_file` prints the matching lines if and only if there are none, or the
pattern starts with a non-negative `char` and no matching line is cut at a
newline behind the buffer.
-/
theorem reports_matching_lines_iff (E : GrepCall) (data : Buffer)
    (pattern name file : List UInt8) (hE : E.Searches pattern name file) :
    ReportsMatchingLines E data pattern name file ↔
      (∀ l ∈ file.splitOn 0x0A, ¬ pattern <:+: l) ∨
        ((pattern.headD 0).toNat < 128 ∧
          ¬ (data 1024 = 0x0A ∧ ∃ a, CutsMatch pattern file a)) := by
  by_cases hlow : (pattern.headD 0).toNat < 128
  · rw [and_iff_right hlow]
    have hnone : (∀ l ∈ file.splitOn 0x0A, ¬ pattern <:+: l) →
        ¬ (data 1024 = 0x0A ∧ ∃ a, CutsMatch pattern file a) := by
      rintro hlines ⟨-, a, hcut⟩
      obtain ⟨l, hl, hfound⟩ := hcut.exists_line
      exact hlines l hl hfound
    rw [or_iff_right_of_imp hnone]
    by_cases hcut : data 1024 = 0x0A ∧ ∃ a, FirstOpen file a
    · obtain ⟨hpeek, a, ha⟩ := hcut
      rw [reportsMatchingLines_iff_of_output (fun fuel hfuel => doOneFile_cut hE hpeek ha hfuel),
        printed_of_low hlow, printed_of_low hlow, report_cut_iff hE ha, not_iff_not]
      constructor
      · exact fun h => ⟨hpeek, a, h⟩
      · rintro ⟨-, b, hb⟩
        rwa [ha.unique hb.first]
    · have huncut : data 1024 = 0x0A → ∀ a, ¬ FirstOpen file a :=
        fun hpeek a ha => hcut ⟨hpeek, a, ha⟩
      rw [reportsMatchingLines_iff_of_output (fun fuel hfuel => doOneFile_uncut hE huncut hfuel)]
      refine iff_of_true (printed_of_low hlow file) ?_
      rintro ⟨hpeek, a, ha⟩
      exact huncut hpeek a ha.first
  · have hprints : ∀ fuel, grepFuel pattern name file ≤ fuel →
        doOneFile fuel E data = some (0, []) := by
      intro fuel hfuel
      by_cases hcut : data 1024 = 0x0A ∧ ∃ a, FirstOpen file a
      · obtain ⟨hpeek, a, ha⟩ := hcut
        rw [doOneFile_cut hE hpeek ha hfuel, printed_of_high hlow, printed_of_high hlow]
        rfl
      · rw [doOneFile_uncut hE (fun hpeek a ha => hcut ⟨hpeek, a, ha⟩) hfuel, printed_of_high hlow]
    rw [reportsMatchingLines_iff_of_output hprints, eq_comm, report_eq_nil_iff]
    exact (or_iff_left (fun h => hlow h.1)).symm

/-- The calls for a file that can be read. -/
def grepOf (pattern name file : List UInt8) : GrepCall where
  s := cstr pattern
  fname := cstr name
  openResult := 2
  read := fun pos nbytes => some ((file.drop pos).take nbytes)
  closeResult := 0

theorem grepOf_searches (hpattern : ∀ c ∈ pattern, c ≠ 0) (hne : pattern ≠ [])
    (hname : ∀ c ∈ name, c ≠ 0) (htext : ∀ c ∈ file, c ≠ 0)
    (hlines : ∀ l ∈ file.splitOn 0x0A, l.length ≤ 1023) :
    (grepOf pattern name file).Searches pattern name file where
  patternAt := stringAt_cstr hpattern
  nonempty := hne
  nameAt := stringAt_cstr hname
  opens := by simp [grepOf]
  reads := fun _ _ => rfl
  closes := by simp [grepOf]
  text := htext
  lines := hlines

/-- `abc`, `xx` and `b` in three lines. -/
def threeLines : List UInt8 := [0x61, 0x62, 0x63, 0x0A, 0x78, 0x78, 0x0A, 0x62]

theorem threeLines_searches :
    (grepOf [0x62] [0x66] threeLines).Searches [0x62] [0x66] threeLines :=
  grepOf_searches (by simp) (by simp) (by simp) (by simp [threeLines]) (by decide)

theorem reports_matching_lines_iff_three_lines :
    ReportsMatchingLines (grepOf [0x62] [0x66] threeLines) (fun _ => 0x0A) [0x62] [0x66]
      threeLines := by
  refine (reports_matching_lines_iff _ (fun _ => 0x0A) _ _ _ threeLines_searches).mpr
    (.inr ⟨by decide, ?_⟩)
  rintro ⟨-, a, hcut⟩
  have hpos := hcut.first.positive
  have hwhole := hcut.first.whole
  have hle : a ≤ 8 := hcut.first.le
  omega

/-- A line of `a` up to position 1000, and a line of `b` across position 1024. -/
def cutFile : List UInt8 :=
  (List.replicate 1000 0x61 ++ 0x0A :: List.replicate 23 0x62) ++ List.replicate 8 0x62

theorem newline_not_mem_replicate (n : Nat) {c : UInt8} (hc : c ≠ 0x0A) :
    0x0A ∉ List.replicate n c := by
  rw [List.mem_replicate]
  rintro ⟨-, rfl⟩
  exact hc rfl

theorem cutFile_lines :
    cutFile.splitOn 0x0A = [List.replicate 1000 0x61, List.replicate 31 0x62] := by
  rw [cutFile, List.append_assoc, List.cons_append, List.replicate_append_replicate,
    List.splitOn_append_cons_self_of_not_mem (newline_not_mem_replicate 1000 (by decide)),
    List.splitOn_eq_singleton (newline_not_mem_replicate (23 + 8) (by decide))]

theorem cutFile_searches :
    (grepOf [0x62] [0x66] cutFile).Searches [0x62] [0x66] cutFile := by
  refine grepOf_searches (by simp) (by simp) (by simp) ?_ ?_
  · intro c hc
    simp only [cutFile, List.mem_append, List.mem_cons, List.mem_replicate] at hc
    rcases hc with (⟨-, rfl⟩ | rfl | ⟨-, rfl⟩) | ⟨-, rfl⟩ <;> decide
  · intro l hl
    rw [cutFile_lines] at hl
    rcases List.mem_pair.mp hl with rfl | rfl <;> rw [List.length_replicate] <;> omega

theorem cutFile_cutsMatch : CutsMatch [0x62] cutFile 1024 := by
  have hlength : cutFile.length = 1032 := by
    rw [cutFile, List.length_append, List.length_append, List.length_cons, List.length_replicate,
      List.length_replicate, List.length_replicate]
  have hdrop : cutFile.drop 1024 = List.replicate 8 0x62 := by
    refine List.drop_left' ?_
    rw [List.length_append, List.length_cons, List.length_replicate, List.length_replicate]
  refine ⟨⟨by omega, Nat.dvd_refl _, by omega, by decide +kernel, ?_⟩, ?_, ?_⟩
  · intro b hb hlt hmultiple
    omega
  · rw [hdrop]
    decide
  · have hfound : [0x62] <:+: firstLine 0x0A (cutFile.drop 1024) := by
      rw [hdrop]
      decide
    exact hfound.trans (List.suffix_append _ _).isInfix

/--
With a newline behind the buffer, the two parts of the line of `b` are printed
as two lines; a line that is the pattern `0x80` is not printed.
-/
theorem matching_lines_misreported :
    ((grepOf [0x62] [0x66] cutFile).Searches [0x62] [0x66] cutFile ∧
      ¬ ReportsMatchingLines (grepOf [0x62] [0x66] cutFile) (fun _ => 0x0A) [0x62] [0x66]
        cutFile) ∧
    ((grepOf [0x80] [0x66] [0x80]).Searches [0x80] [0x66] [0x80] ∧
      ¬ ReportsMatchingLines (grepOf [0x80] [0x66] [0x80]) (fun _ => 0) [0x80] [0x66]
        [0x80]) := by
  have hhigh : (grepOf [0x80] [0x66] [0x80]).Searches [0x80] [0x66] [0x80] :=
    grepOf_searches (by simp) (by simp) (by simp) (by simp) (by decide)
  refine ⟨⟨cutFile_searches, ?_⟩, hhigh, ?_⟩
  · have hcut := cutFile_cutsMatch
    rw [reportsMatchingLines_iff_of_output
      (fun fuel hfuel => doOneFile_cut cutFile_searches rfl hcut.first hfuel),
      printed_of_low (by decide), printed_of_low (by decide),
      report_cut_iff cutFile_searches hcut.first, not_not]
    exact hcut
  · rw [reportsMatchingLines_iff_of_output (fun fuel hfuel =>
      doOneFile_uncut hhigh (fun hpeek => absurd hpeek (by decide)) hfuel)]
    decide

end OopsOs
