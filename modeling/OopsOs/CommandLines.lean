import Mathlib.Data.List.GetD
import Mathlib.Data.List.TakeWhile
import OopsOs.Processes
import OopsOs.Lib.Buffers

/-!
# `parse`, store by store

`parse` splits a command line into the two arrays of 33 bytes that `execute`
declares.  It is modelled here by its stores, in order: the two terminators at
index `ARG_SIZE + 1`, the zeros, and then one character a turn of the last
loop.  The arrays lie anywhere in memory, apart from each other and from the
command.

The strings that are left in the arrays are those of the function `parse` of
`OopsOs.Processes`, as long as both fit.
-/

namespace OopsOs

open ByteMem

/-! ## The stores -/

/-- The two arrays that `parse` fills. -/
inductive ParseArray
  | file
  | arg
deriving DecidableEq, Repr

/-- One store of `parse`: array, index and byte. -/
structure ParseStore where
  array : ParseArray
  index : Int
  byte : UInt8
deriving DecidableEq, Repr

def argSize : Nat := 32

/-- The first `while` loop: the number of characters before a blank or the end. -/
def cmdLength : List UInt8 → Nat
  | [] => 0
  | c :: cs => if c ≠ 0x20 ∧ c ≠ 0 then cmdLength cs + 1 else 0

/-- The second `while` loop, at character `i` of the command. -/
def parseLoop (cmdLength : Int) : List UInt8 → Int → Bool → List ParseStore
  | [], _, _ => []
  | c :: cs, i, cmdFirst =>
      if c = 0 then []
      else if c = 0x20 ∧ cmdFirst = false then parseLoop cmdLength cs (i + 1) true
      else if cmdFirst = true then
        ⟨.arg, i - cmdLength - 1, c⟩ :: parseLoop cmdLength cs (i + 1) cmdFirst
      else ⟨.file, i, c⟩ :: parseLoop cmdLength cs (i + 1) cmdFirst

/-- One of the two `for` loops: zeros at the indices below `ARG_SIZE + 1`. -/
def clearStores (a : ParseArray) : List ParseStore :=
  (List.range (argSize + 1)).map (fun (i : Nat) => ⟨a, (i : Int), 0⟩)

/-- All stores of `parse`. -/
def parseStores (cmd : List UInt8) : List ParseStore :=
  [⟨.arg, argSize + 1, 0⟩, ⟨.file, argSize + 1, 0⟩] ++ clearStores .arg ++ clearStores .file ++
    parseLoop (cmdLength cmd) cmd 0 false

/-- The address of an array, with the two of them at `file` and `arg`. -/
def ParseArray.address (file arg : Int) : ParseArray → Int
  | .file => file
  | .arg => arg

/-- A store by its address. -/
def ParseStore.place (file arg : Int) (st : ParseStore) : Int × UInt8 :=
  (st.array.address file arg + st.index, st.byte)

/-- The memory after `parse`. -/
def parseMem (m : Mem) (file arg : Int) (cmd : List UInt8) : Mem :=
  m.storeAll ((parseStores cmd).map (ParseStore.place file arg))

/-- The string in the array of 33 bytes at `a`. -/
def arrayText (m : Mem) (a : Int) : List UInt8 :=
  textFrom (fun j => m (a + (j : Int))) 0 (argSize + 1)

/-! ## What the loops store -/

theorem parse_nul (cs : List UInt8) : parse (0 :: cs) = ([], []) := by
  simp [parse]

theorem parse_blank (cs : List UInt8) :
    parse (0x20 :: cs) = ([], cs.takeWhile (fun c => c ≠ 0)) := by
  simp [parse]

theorem parse_letter {c : UInt8} (cs : List UInt8) (h0 : c ≠ 0) (hblank : c ≠ 0x20) :
    parse (c :: cs) = (c :: (parse cs).1, (parse cs).2) := by
  simp [parse, h0, hblank]

/-- The characters of a string, at consecutive indices from `i` on. -/
def stringStores (a : ParseArray) : List UInt8 → Int → List ParseStore
  | [], _ => []
  | c :: cs, i => ⟨a, i, c⟩ :: stringStores a cs (i + 1)

/-- After the first blank everything up to the end goes to `arg`. -/
theorem parseLoop_argument (len : Int) (cs : List UInt8) (i : Int) :
    parseLoop len cs i true = stringStores .arg (cs.takeWhile (fun c => c ≠ 0)) (i - len - 1) := by
  induction cs generalizing i with
  | nil =>
      rfl
  | cons c cs ih =>
      unfold parseLoop
      by_cases h0 : c = 0
      · simp [h0, stringStores]
      · have hnext : i + 1 - len - 1 = i - len - 1 + 1 := by ring
        rw [if_neg h0, if_neg (by simp), if_pos rfl, ih, hnext]
        simp [h0, stringStores]

/--
The loop stores the two parts of the command from index 0 of its array on.
Before the first blank `cmd_length` is `i` and what is still to come.
-/
theorem parseLoop_eq (cs : List UInt8) (i : Int) :
    parseLoop (i + cmdLength cs) cs i false =
      stringStores .file (parse cs).1 i ++ stringStores .arg (parse cs).2 0 := by
  induction cs generalizing i with
  | nil =>
      rfl
  | cons c cs ih =>
      unfold parseLoop
      by_cases h0 : c = 0
      · subst h0
        rw [if_pos rfl, parse_nul]
        rfl
      rw [if_neg h0]
      by_cases hblank : c = 0x20
      · subst hblank
        have hstart : i + 1 - (i + (cmdLength (0x20 :: cs) : Int)) - 1 = 0 := by
          simp [cmdLength]
        rw [if_pos ⟨rfl, rfl⟩, parseLoop_argument, hstart, parse_blank]
        rfl
      · have hlen : i + (cmdLength (c :: cs) : Int) = i + 1 + cmdLength cs := by
          simp only [cmdLength, if_pos (And.intro hblank h0)]
          push_cast
          ring
        rw [if_neg (by simp [hblank]), if_neg (by simp), hlen, ih, parse_letter cs h0 hblank]
        rfl

theorem parseStores_eq (cmd : List UInt8) :
    parseStores cmd =
      [⟨.arg, argSize + 1, 0⟩, ⟨.file, argSize + 1, 0⟩] ++ clearStores .arg ++ clearStores .file ++
        (stringStores .file (parse cmd).1 0 ++ stringStores .arg (parse cmd).2 0) := by
  have hloop := parseLoop_eq cmd 0
  rw [zero_add] at hloop
  unfold parseStores
  rw [hloop]

/-! ## The arrays afterwards -/

theorem stringStores_place (file arg : Int) (a : ParseArray) (l : List UInt8) (i : Int) :
    (stringStores a l i).map (ParseStore.place file arg) =
      blockStores (a.address file arg + i) (fun j => l.getD j 0) l.length := by
  induction l generalizing i with
  | nil =>
      rfl
  | cons c cs ih =>
      rw [stringStores, List.map_cons, ih, List.length_cons, blockStores_succ, add_assoc]
      rfl

theorem clearStores_place (file arg : Int) (a : ParseArray) :
    (clearStores a).map (ParseStore.place file arg) =
      blockStores (a.address file arg) (fun _ => 0) (argSize + 1) := by
  unfold clearStores blockStores
  rw [List.map_map]
  rfl

/-- The memory after `parse`, by the last store to each address. -/
theorem parseMem_apply (m : Mem) (file arg : Int) (cmd : List UInt8) (x : Int) :
    parseMem m file arg cmd x =
      if arg ≤ x ∧ x < arg + (parse cmd).2.length then (parse cmd).2.getD (x - arg).toNat 0
      else if file ≤ x ∧ x < file + (parse cmd).1.length then
        (parse cmd).1.getD (x - file).toNat 0
      else if file ≤ x ∧ x < file + 33 then 0
      else if arg ≤ x ∧ x < arg + 33 then 0
      else m.storeAll [(arg + 33, 0), (file + 33, 0)] x := by
  unfold parseMem
  rw [parseStores_eq]
  simp only [List.map_append, Mem.storeAll_append, stringStores_place, clearStores_place,
    Mem.storeAll_blockStores, add_zero]
  rfl

section Arrays

variable (m : Mem) {file arg : Int} {cmd : List UInt8}
variable (hapart : file + 33 ≤ arg ∨ arg + 33 ≤ file)
include hapart

theorem parseMem_file (harg : (parse cmd).2.length ≤ 33) {j : Nat} (hj : j < 33) :
    parseMem m file arg cmd (file + j) = (parse cmd).1.getD j 0 := by
  rw [parseMem_apply, if_neg (by omega)]
  by_cases hin : j < (parse cmd).1.length
  · have hidx : (file + (j : Int) - file).toNat = j := by omega
    rw [if_pos (by omega), hidx]
  · rw [if_neg (by omega), if_pos (by omega), List.getD_eq_default _ _ (by omega)]

theorem parseMem_arg (hname : (parse cmd).1.length ≤ 33) {j : Nat} (hj : j < 33) :
    parseMem m file arg cmd (arg + j) = (parse cmd).2.getD j 0 := by
  rw [parseMem_apply]
  by_cases hin : j < (parse cmd).2.length
  · have hidx : (arg + (j : Int) - arg).toNat = j := by omega
    rw [if_pos (by omega), hidx]
  · rw [if_neg (by omega), if_neg (by omega), if_neg (by omega), if_pos (by omega),
      List.getD_eq_default _ _ (by omega)]

end Arrays

theorem parse_no_nul {cmd : List UInt8} :
    (∀ c ∈ (parse cmd).1, c ≠ 0) ∧ ∀ c ∈ (parse cmd).2, c ≠ 0 := by
  have htext : ∀ c ∈ cmd.takeWhile (fun c => c ≠ 0), c ≠ 0 := by
    intro c hc
    simpa using List.mem_takeWhile_imp hc
  constructor
  · intro c hc
    exact htext c ((List.takeWhile_prefix _).subset hc)
  · intro c hc
    exact htext c ((List.dropWhile_suffix _).subset ((List.drop_suffix 1 _).subset hc))

/-- The strings that `parse` leaves in the two arrays, if both parts fit. -/
theorem arrayText_parseMem (m : Mem) {file arg : Int} {cmd : List UInt8}
    (hapart : file + 33 ≤ arg ∨ arg + 33 ≤ file) (hname : (parse cmd).1.length ≤ 32)
    (harg : (parse cmd).2.length ≤ 32) :
    arrayText (parseMem m file arg cmd) file = (parse cmd).1 ∧
      arrayText (parseMem m file arg cmd) arg = (parse cmd).2 := by
  constructor
  · apply textFrom_eq _ _ 0 _ (by unfold argSize; omega) parse_no_nul.1
    intro j hj
    rw [Nat.zero_add]
    exact parseMem_file m hapart (by omega) hj
  · apply textFrom_eq _ _ 0 _ (by unfold argSize; omega) parse_no_nul.2
    intro j hj
    rw [Nat.zero_add]
    exact parseMem_arg m hapart (by omega) hj

/-! ## Splitting at the first blank -/

/-- A prefix of the command without a blank. -/
def BlankFree (cmd p : List UInt8) : Prop := p <+: cmd ∧ (0x20 : UInt8) ∉ p

/-- The longest prefix without a blank ends before the first blank. -/
theorem takeWhile_longest (cmd : List UInt8) :
    BlankFree cmd (cmd.takeWhile (fun c => c ≠ 0x20)) ∧
      ∀ p, BlankFree cmd p → p <+: cmd.takeWhile (fun c => c ≠ 0x20) := by
  constructor
  · refine ⟨List.takeWhile_prefix _, ?_⟩
    intro hmem
    simpa using List.mem_takeWhile_imp hmem
  · rintro p ⟨⟨rest, rfl⟩, hfree⟩
    have hall : ∀ c ∈ p, decide (c ≠ 0x20) = true := by
      intro c hc
      simp only [decide_eq_true_eq]
      rintro rfl
      exact hfree hc
    rw [List.takeWhile_append_of_pos hall]
    exact List.prefix_append p _

/-- A command with a blank is put together again by one blank. -/
theorem takeWhile_blank_drop {cmd : List UInt8} (h : (0x20 : UInt8) ∈ cmd) :
    cmd.takeWhile (fun c => c ≠ 0x20) ++ [0x20] ++
      (cmd.dropWhile (fun c => c ≠ 0x20)).drop 1 = cmd := by
  induction cmd with
  | nil =>
      cases h
  | cons c cs ih =>
      by_cases hblank : c = 0x20
      · subst hblank
        simp
      · have hrest : (0x20 : UInt8) ∈ cs := by
          rcases List.mem_cons.mp h with heq | hmem
          · exact absurd heq.symm hblank
          · exact hmem
        have := ih hrest
        simp only [List.takeWhile_cons, List.dropWhile_cons, decide_eq_true_eq] at this ⊢
        rw [if_pos hblank, if_pos hblank, List.cons_append, List.cons_append, this]

theorem takeWhile_of_no_blank {cmd : List UInt8} (h : (0x20 : UInt8) ∉ cmd) :
    cmd.takeWhile (fun c => c ≠ 0x20) = cmd ∧
      (cmd.dropWhile (fun c => c ≠ 0x20)).drop 1 = [] := by
  have hall : ∀ c ∈ cmd, decide (c ≠ 0x20) = true := by
    intro c hc
    simp only [decide_eq_true_eq]
    rintro rfl
    exact h hc
  constructor
  · exact List.takeWhile_eq_self_iff.mpr hall
  · rw [List.dropWhile_eq_nil_iff.mpr hall]
    rfl

theorem parse_eq_of_no_nul {cmd : List UInt8} (hnul : ∀ c ∈ cmd, c ≠ 0) :
    parse cmd = (cmd.takeWhile (fun c => c ≠ 0x20),
      (cmd.dropWhile (fun c => c ≠ 0x20)).drop 1) := by
  have htext : cmd.takeWhile (fun c => c ≠ 0) = cmd :=
    List.takeWhile_eq_self_iff.mpr (fun c hc => by simpa using hnul c hc)
  unfold parse
  rw [htext]

/--
A command whose two parts have at most 32 characters is split at its first
blank, and nothing of it is lost.
-/
theorem parse_splits_at_first_blank (m : Mem) (file arg : Int) (cmd : List UInt8)
    (hapart : file + 33 ≤ arg ∨ arg + 33 ≤ file) (hnul : ∀ c ∈ cmd, c ≠ 0)
    (hname : (cmd.takeWhile (fun c => c ≠ 0x20)).length ≤ 32)
    (hrest : ((cmd.dropWhile (fun c => c ≠ 0x20)).drop 1).length ≤ 32) :
    let fileText := arrayText (parseMem m file arg cmd) file
    let argText := arrayText (parseMem m file arg cmd) arg
    (BlankFree cmd fileText ∧ ∀ p, BlankFree cmd p → p <+: fileText) ∧
      ((0x20 : UInt8) ∈ cmd → fileText ++ [0x20] ++ argText = cmd) ∧
      ((0x20 : UInt8) ∉ cmd → fileText = cmd ∧ argText = []) := by
  intro fileText argText
  have hparse := parse_eq_of_no_nul hnul
  obtain ⟨hfile, harg⟩ := arrayText_parseMem m hapart (by rw [hparse]; exact hname)
    (by rw [hparse]; exact hrest)
  rw [hparse] at hfile harg
  have hfileText : fileText = cmd.takeWhile (fun c => c ≠ 0x20) := hfile
  have hargText : argText = (cmd.dropWhile (fun c => c ≠ 0x20)).drop 1 := harg
  rw [hfileText, hargText]
  exact ⟨takeWhile_longest cmd, takeWhile_blank_drop, takeWhile_of_no_blank⟩

/-- `ls  a`: the second blank belongs to the argument. -/
theorem parse_splits_at_first_blank_twice :
    arrayText (parseMem (fun _ => 0xFF) 0 64 [0x6C, 0x73, 0x20, 0x20, 0x61]) 0 ++ [0x20] ++
      arrayText (parseMem (fun _ => 0xFF) 0 64 [0x6C, 0x73, 0x20, 0x20, 0x61]) 64 =
        [0x6C, 0x73, 0x20, 0x20, 0x61] := by
  obtain ⟨-, hblank, -⟩ := parse_splits_at_first_blank (fun _ => 0xFF) 0 64
    [0x6C, 0x73, 0x20, 0x20, 0x61] (by decide) (by simp) (by decide) (by decide)
  exact hblank (by decide)

/-! ## The bounds of the arrays -/

/-- Every store is to an index of its array, and both arrays hold a terminated string. -/
structure ParsesInBounds (m : Mem) (file arg : Int) (cmd : List UInt8) : Prop where
  indices : ∀ st ∈ parseStores cmd, 0 ≤ st.index ∧ st.index ≤ 32
  fileTerminated : ∃ j : Int, 0 ≤ j ∧ j ≤ 32 ∧ parseMem m file arg cmd (file + j) = 0
  argTerminated : ∃ j : Int, 0 ≤ j ∧ j ≤ 32 ∧ parseMem m file arg cmd (arg + j) = 0

theorem terminators_mem (cmd : List UInt8) (a : ParseArray) :
    ⟨a, argSize + 1, 0⟩ ∈ parseStores cmd := by
  cases a with
  | file => simp [parseStores]
  | arg => simp [parseStores]

/-- The indices to which a string is stored. -/
theorem stringStores_indices (a : ParseArray) (l : List UInt8) (i x : Int) :
    (∃ st ∈ stringStores a l i, st.index = x) ↔ i ≤ x ∧ x < i + l.length := by
  induction l generalizing i with
  | nil =>
      simp only [stringStores, List.not_mem_nil, false_and, exists_false, List.length_nil,
        false_iff]
      omega
  | cons c cs ih =>
      simp only [stringStores, List.mem_cons, exists_eq_or_imp, ih, List.length_cons]
      push_cast
      omega

theorem stringStores_in_bounds_iff (a : ParseArray) (l : List UInt8) :
    (∀ st ∈ stringStores a l 0, 0 ≤ st.index ∧ st.index ≤ 32) ↔ l.length ≤ 33 := by
  constructor
  · intro h
    by_contra hlong
    obtain ⟨st, hst, hindex⟩ := (stringStores_indices a l 0 33).mpr ⟨by omega, by omega⟩
    have := (h st hst).2
    omega
  · intro hlen st hst
    have := (stringStores_indices a l 0 st.index).mp ⟨st, hst, rfl⟩
    omega

/--
No command is parsed in bounds: the terminators are stored at index 33, one
past the arrays.  The characters stay in bounds up to 33 on each side.
-/
theorem parse_never_in_bounds (m : Mem) (file arg : Int) (cmd : List UInt8) :
    ¬ ParsesInBounds m file arg cmd ∧
      ((∀ st ∈ parseLoop (cmdLength cmd) cmd 0 false, 0 ≤ st.index ∧ st.index ≤ 32) ↔
        (parse cmd).1.length ≤ 33 ∧ (parse cmd).2.length ≤ 33) := by
  constructor
  · intro h
    have hindex := (h.indices _ (terminators_mem cmd .arg)).2
    simp [argSize] at hindex
  · have hloop := parseLoop_eq cmd 0
    rw [zero_add] at hloop
    rw [hloop, ← stringStores_in_bounds_iff .file, ← stringStores_in_bounds_iff .arg]
    exact List.forall_mem_append

/-- The command `shell` is among them. -/
theorem shell_parsed_out_of_bounds : ¬ ParsesInBounds (fun _ => 0) 0 64 shellCommand := by
  intro h
  have hindex := h.indices ⟨.file, 33, 0⟩ (by decide +kernel)
  exact absurd hindex.2 (by decide)

end OopsOs
