import OopsOs.Numerals

/-!
# `printf`

`printf` walks the format and the words of the argument area in step.  The
head of its loop and the label `format_char_switch` are the two places at which
it looks at a byte of the format; the model is one loop with both, the label
carrying the `alternate` flag.

The format is read from an array that goes on behind its NUL, and every index
read is recorded.  A format that ends inside a conversion is read past its NUL:
the inner switch takes the NUL for a conversion character and the loop goes on
behind it (`stops_at_end_iff`).  On all other formats the output is the
concatenation of what the directives stand for (`printf_renders`).
-/

namespace OopsOs

open ByteMem

/-! ## The code -/

/-- What a call of `printf` works on. -/
structure PrintfCall where
  format : Buffer
  /-- The words after `format` on the stack. -/
  args : List UInt32
  /-- The memory that string arguments point into. -/
  memory : Buffer
  /-- What `conv_buf` holds before the conversion of an argument. -/
  stack : Nat → Buffer

structure PrintfState where
  /-- The bytes passed to `putc`. -/
  output : List UInt8
  esp : Nat
  /-- The indices at which the format has been read. -/
  reads : List Nat

namespace PrintfState

def putc (z : PrintfState) (c : UInt8) : PrintfState := { z with output := z.output ++ [c] }

def readAt (z : PrintfState) (buf : Nat) : PrintfState := { z with reads := z.reads ++ [buf] }

/-- A conversion of the word at `esp`; `none` if there is no such argument. -/
def convert (z : PrintfState) (E : PrintfCall) (text : Buffer → UInt32 → Option (List UInt8)) :
    Option PrintfState :=
  (E.args[z.esp]?).bind (fun w =>
    (text (E.stack z.esp) w).map (fun out =>
      { z with output := z.output ++ out, esp := z.esp + 1 }))

end PrintfState

/-- The bytes that `puts` passes to `putc` for the string at index `p`. -/
def putsAt : Nat → Buffer → Nat → Option (List UInt8)
  | 0, _, _ => none
  | fuel + 1, s, p => if s p ≠ 0 then (putsAt fuel s (p + 1)).map (fun l => s p :: l) else some []

/-- The loop `while (i < 8) conv_buf[i] = '0', i++` with `n` turns left. -/
def padLoop (s : Buffer) (i : Nat) : Nat → Buffer
  | 0 => s
  | n + 1 => padLoop (Function.update s i 0x30) (i + 1) n

/-- `%x`, and `%#x` with `conv_buf` filled up in front of the digits at index 8. -/
def hexText (fuel : Nat) (alternate : Bool) (convBuf : Buffer) (w : UInt32) : Option (List UInt8) :=
  if alternate then
    (itoa fuel w.toNat convBuf 8 16).bind (fun s =>
      (strlenAt fuel s 8).bind (fun startingIndex =>
        putsAt fuel (padLoop s startingIndex (8 - startingIndex)) startingIndex))
  else (itoa fuel w.toNat convBuf 0 16).bind (fun s => putsAt fuel s 0)

/-- `%u`. -/
def unsignedText (fuel : Nat) (convBuf : Buffer) (w : UInt32) : Option (List UInt8) :=
  (itoa fuel w.toNat convBuf 0 10).bind (fun s => putsAt fuel s 0)

/-- `%d`; the negation wraps. -/
def signedText (fuel : Nat) (convBuf : Buffer) (w : UInt32) : Option (List UInt8) :=
  let value := toS32 w.toNat
  if value < 0 then
    (itoa fuel (toU32 (toS32 (-value))).toNat (Function.update convBuf 0 0x2D) 1 10).bind
      (fun s => putsAt fuel s 0)
  else (itoa fuel (toU32 value).toNat convBuf 0 10).bind (fun s => putsAt fuel s 0)

/-- The inner switch on all characters but `#`. -/
def conversionSwitch (E : PrintfCall) (fuel : Nat) (alternate : Bool) (c : UInt8)
    (z : PrintfState) : Option PrintfState :=
  if c = 0x25 then some (z.putc 0x25)
  else if c = 0x78 then z.convert E (hexText fuel alternate)
  else if c = 0x75 then z.convert E (unsignedText fuel)
  else if c = 0x64 then z.convert E (signedText fuel)
  else if c = 0x63 then z.convert E (fun _ w => some [w.toUInt8])
  else if c = 0x73 then z.convert E (fun _ w => putsAt fuel E.memory w.toNat)
  else some z

/--
The loop at index `buf`: at its head (`none`), or at `format_char_switch` with
the flag `alternate`.
-/
def printfLoop (E : PrintfCall) (fuel : Nat) :
    Nat → Option Bool → Nat → PrintfState → Option (Nat × PrintfState)
  | 0, _, _, _ => none
  | n + 1, none, buf, z =>
      let c := E.format buf
      if c = 0 then some (buf, z.readAt buf)
      else if c = 0x25 then printfLoop E fuel n (some false) (buf + 1) (z.readAt buf)
      else printfLoop E fuel n none (buf + 1) ((z.readAt buf).putc c)
  | n + 1, some alternate, buf, z =>
      let c := E.format buf
      if c = 0x23 then printfLoop E fuel n (some true) (buf + 1) (z.readAt buf)
      else
        (conversionSwitch E fuel alternate c (z.readAt buf)).bind (fun z =>
          printfLoop E fuel n none (buf + 1) z)

/-- `printf`: its value and its state at the end. -/
def printf (fuel : Nat) (E : PrintfCall) : Option (Nat × PrintfState) :=
  printfLoop E fuel fuel none 0 ⟨[], 0, []⟩

/-! ## What a format stands for -/

inductive Directive
  | literal (c : UInt8)
  | conversion (alternate : Bool) (c : UInt8)

/-- The directives of the rest of a format, from the loop's head or inside a conversion. -/
def directives : Option Bool → List UInt8 → List Directive
  | _, [] => []
  | none, c :: rest =>
      if c = 0x25 then directives (some false) rest else .literal c :: directives none rest
  | some alternate, c :: rest =>
      if c = 0x23 then directives (some true) rest
      else .conversion alternate c :: directives none rest

/-- Every `%` is followed by zero or more `#` and then some other character. -/
def Complete : Option Bool → List UInt8 → Prop
  | none, [] => True
  | some _, [] => False
  | none, c :: rest => if c = 0x25 then Complete (some false) rest else Complete none rest
  | some _, c :: rest => if c = 0x23 then Complete (some true) rest else Complete none rest

/-- The conversion characters that stand for an argument. -/
def takesArgument (c : UInt8) : Prop := c = 0x78 ∨ c = 0x75 ∨ c = 0x64 ∨ c = 0x63 ∨ c = 0x73

instance (c : UInt8) : Decidable (takesArgument c) := by
  unfold takesArgument
  infer_instance

/-- The canonical decimal numeral of a signed number. -/
def signedNumeral (v : Int) : List UInt8 :=
  if v < 0 then 0x2D :: numeralText 10 v.natAbs else numeralText 10 v.natAbs

/-- The numeral filled up with zeros on the left to eight digits. -/
def paddedHex (n : Nat) : List UInt8 :=
  List.replicate (8 - (numeralText 16 n).length) 0x30 ++ numeralText 16 n

/-- What a conversion of the word `w` shows; `strings` are the strings that words point to. -/
def conversionText (strings : UInt32 → List UInt8) (alternate : Bool) (c : UInt8) (w : UInt32) :
    List UInt8 :=
  if c = 0x78 then (if alternate then paddedHex w.toNat else numeralText 16 w.toNat)
  else if c = 0x75 then numeralText 10 w.toNat
  else if c = 0x64 then signedNumeral (toS32 w.toNat)
  else if c = 0x63 then [w.toUInt8]
  else strings w

/-- The text that the directives stand for, given the arguments that are left. -/
def rendering (strings : UInt32 → List UInt8) : List Directive → List UInt32 → List UInt8
  | [], _ => []
  | .literal c :: ds, args => c :: rendering strings ds args
  | .conversion alternate c :: ds, args =>
      if takesArgument c then
        match args with
        | [] => []
        | w :: args => conversionText strings alternate c w ++ rendering strings ds args
      else (if c = 0x25 then [0x25] else []) ++ rendering strings ds args

/-- There is an argument for every conversion that takes one, and a string for every `%s`. -/
def Supplied (strings : UInt32 → List UInt8) (memory : Buffer) :
    List Directive → List UInt32 → Prop
  | [], _ => True
  | .literal _ :: ds, args => Supplied strings memory ds args
  | .conversion _ c :: ds, args =>
      if takesArgument c then
        match args with
        | [] => False
        | w :: args =>
            (c = 0x73 → StringAt memory w.toNat (strings w)) ∧ Supplied strings memory ds args
      else Supplied strings memory ds args

section Directives

variable (strings : UInt32 → List UInt8) (memory : Buffer) (alternate : Bool) {c : UInt8}
variable (ds : List Directive) (w : UInt32) (args : List UInt32)

theorem rendering_argument (hc : takesArgument c) :
    rendering strings (.conversion alternate c :: ds) (w :: args) =
      conversionText strings alternate c w ++ rendering strings ds args := by
  simp [rendering, hc]

theorem rendering_other (hc : ¬ takesArgument c) :
    rendering strings (.conversion alternate c :: ds) args =
      (if c = 0x25 then [0x25] else []) ++ rendering strings ds args := by
  cases args <;> simp [rendering, hc]

theorem supplied_argument (hc : takesArgument c) :
    Supplied strings memory (.conversion alternate c :: ds) args ↔
      ∃ w rest, args = w :: rest ∧ (c = 0x73 → StringAt memory w.toNat (strings w)) ∧
        Supplied strings memory ds rest := by
  cases args with
  | nil => simp [Supplied, hc]
  | cons w rest => simp [Supplied, hc]

theorem supplied_other (hc : ¬ takesArgument c) :
    Supplied strings memory (.conversion alternate c :: ds) args ↔
      Supplied strings memory ds args := by
  cases args <;> simp [Supplied, hc]

end Directives

/-! ## The conversions -/

theorem putsAt_eq {s : Buffer} {p : Nat} {l : List UInt8} (h : StringAt s p l) {fuel : Nat}
    (hfuel : l.length < fuel) : putsAt fuel s p = some l := by
  induction fuel generalizing p l with
  | zero => omega
  | succ fuel ih =>
      unfold putsAt
      cases l with
      | nil =>
          have hzero : s p = 0 := h.end_zero
          rw [if_neg (not_not.mpr hzero)]
      | cons c rest =>
          rw [h.head.1, if_pos h.head.2, ih h.tail (by simpa using hfuel)]
          rfl

theorem padLoop_eq (s : Buffer) (i n : Nat) :
    padLoop s i n = s.write i (List.replicate n 0x30) := by
  induction n generalizing s i with
  | zero => simp [padLoop]
  | succ n ih => rw [padLoop, ih, Buffer.write_cons, List.replicate_succ]

theorem length_numeralText_hex (w : UInt32) : (numeralText 16 w.toNat).length ≤ 8 := by
  rw [numeralText, List.length_map]
  exact length_numeral_le (by decide) (by decide) w.toNat_lt

/-- `%#x` shows eight digits. -/
theorem length_paddedHex (w : UInt32) : (paddedHex w.toNat).length = 8 := by
  have hlen := length_numeralText_hex w
  rw [paddedHex, List.length_append, List.length_replicate]
  omega

theorem toS32_range (z : Int) : -2147483648 ≤ toS32 z ∧ toS32 z < 2147483648 := by
  unfold toS32
  omega

/-- The wrapped negation of a negative `int`, as the unsigned number that `itoa` converts. -/
theorem toU32_negated {v : Int} (hlo : -2147483648 ≤ v) (hneg : v < 0) :
    (toU32 (toS32 (-v))).toNat = v.natAbs := by
  unfold toU32 toS32
  omega

theorem toU32_kept {v : Int} (hpos : ¬ v < 0) (hhi : v < 2147483648) :
    (toU32 v).toNat = v.natAbs := by
  unfold toU32
  omega

section Conversions

variable {fuel : Nat} (hfuel : 34 ≤ fuel)
include hfuel

/-- A number converted into a buffer and put out from there. -/
theorem puts_itoa {radix value : Nat} (hr : 2 ≤ radix) (hr' : radix ≤ 36) (buf : Buffer) (p : Nat)
    (hvalue : value < 4294967296) :
    (itoa fuel value buf p radix).bind (fun s => putsAt fuel s p) =
      some (numeralText radix value) := by
  have hlen := length_numeralText_le hr hvalue
  rw [itoa_eq hr hr' buf p hvalue (by omega), Option.bind_some]
  exact putsAt_eq (stringAt_write buf p (numeralText_ne_zero hr hr' value)) (by omega)

theorem unsignedText_eq (convBuf : Buffer) (w : UInt32) :
    unsignedText fuel convBuf w = some (numeralText 10 w.toNat) :=
  puts_itoa hfuel (by decide) (by decide) convBuf 0 w.toNat_lt

/-- The digits behind a minus sign. -/
theorem puts_negative (convBuf : Buffer) {n : Nat} (hn : n < 4294967296) :
    (itoa fuel n (Function.update convBuf 0 0x2D) 1 10).bind (fun s => putsAt fuel s 0) =
      some (0x2D :: numeralText 10 n) := by
  have hlen : (numeralText 10 n).length ≤ 32 := length_numeralText_le (by decide) hn
  have hnonzero : ∀ c ∈ 0x2D :: numeralText 10 n, c ≠ 0 := by
    intro c hc
    rcases List.mem_cons.mp hc with rfl | hc
    · decide
    · exact numeralText_ne_zero (by decide) (by decide) n c hc
  have hwrite : itoa fuel n (Function.update convBuf 0 0x2D) 1 10 =
      some (convBuf.write 0 ((0x2D :: numeralText 10 n) ++ [0])) := by
    rw [itoa_eq (by decide) (by decide) _ 1 hn (by omega)]
    exact congrArg some (Buffer.write_cons convBuf 0 0x2D (numeralText 10 n ++ [0]))
  rw [hwrite, Option.bind_some]
  refine putsAt_eq (stringAt_write convBuf 0 hnonzero) ?_
  simp only [List.length_cons]
  omega

theorem signedText_eq (convBuf : Buffer) (w : UInt32) :
    signedText fuel convBuf w = some (signedNumeral (toS32 w.toNat)) := by
  obtain ⟨hlo, hhi⟩ := toS32_range w.toNat
  unfold signedText signedNumeral
  simp only
  by_cases hneg : toS32 w.toNat < 0
  · rw [if_pos hneg, if_pos hneg, toU32_negated hlo hneg]
    exact puts_negative hfuel convBuf (by omega)
  · rw [if_neg hneg, if_neg hneg, toU32_kept hneg hhi]
    exact puts_itoa hfuel (by decide) (by decide) convBuf 0 (by omega)

/-- The zeros are stored up to the digits, and the string is put out from the first of them. -/
theorem hexText_alternate (convBuf : Buffer) (w : UInt32) :
    hexText fuel true convBuf w = some (paddedHex w.toNat) := by
  have hlen := length_numeralText_hex w
  have hnonzero : ∀ c ∈ numeralText 16 w.toNat, c ≠ 0 :=
    numeralText_ne_zero (by decide) (by decide) w.toNat
  obtain ⟨text, htext⟩ : ∃ text, numeralText 16 w.toNat = text := ⟨_, rfl⟩
  unfold hexText paddedHex
  rw [if_pos rfl, itoa_eq (by decide) (by decide) convBuf 8 w.toNat_lt (by omega),
    Option.bind_some]
  rw [htext] at hlen hnonzero ⊢
  rw [strlenAt_eq (stringAt_write convBuf 8 hnonzero) (by omega), Option.bind_some, padLoop_eq]
  have hzeros : (List.replicate (8 - text.length) (0x30 : UInt8)).length = 8 - text.length :=
    List.length_replicate
  apply putsAt_eq
  · refine ⟨?_, ?_⟩
    · intro c hc
      rcases List.mem_append.mp hc with hzero | hdigit
      · rw [List.eq_of_mem_replicate hzero]
        decide
      · exact hnonzero c hdigit
    · intro j hj
      rw [List.length_append, hzeros] at hj
      rcases Nat.lt_or_ge j (8 - text.length) with hlt | hge
      · rw [Buffer.write_at _ _ (by omega), List.getD_append _ _ _ _ (by omega)]
      · have hindex : text.length + j = 8 + (j - (8 - text.length)) := by omega
        rw [Buffer.write_after _ (by omega), hindex,
          (stringAt_write convBuf 8 hnonzero).bytes _ (by omega),
          List.getD_append_right _ _ _ _ (by omega), hzeros]
  · rw [List.length_append, hzeros]
    omega

theorem hexText_eq (alternate : Bool) (convBuf : Buffer) (w : UInt32) :
    hexText fuel alternate convBuf w =
      some (if alternate then paddedHex w.toNat else numeralText 16 w.toNat) := by
  cases alternate with
  | true => exact hexText_alternate hfuel convBuf w
  | false => exact puts_itoa hfuel (by decide) (by decide) convBuf 0 w.toNat_lt

end Conversions

/-! ## The inner switch -/

theorem convert_eq {z : PrintfState} {E : PrintfCall} {w : UInt32} (hw : E.args[z.esp]? = some w)
    {text : Buffer → UInt32 → Option (List UInt8)} {out : List UInt8}
    (htext : text (E.stack z.esp) w = some out) :
    z.convert E text = some { z with output := z.output ++ out, esp := z.esp + 1 } := by
  rw [PrintfState.convert, hw, Option.bind_some, htext]
  rfl

/-- A conversion that takes an argument puts out its text. -/
theorem conversionSwitch_argument {E : PrintfCall} {fuel : Nat} (hfuel : 34 ≤ fuel)
    (strings : UInt32 → List UInt8) {z : PrintfState} {w : UInt32}
    (hw : E.args[z.esp]? = some w) (alternate : Bool) {c : UInt8} (hc : takesArgument c)
    (hstring : c = 0x73 → StringAt E.memory w.toNat (strings w) ∧ (strings w).length < fuel) :
    conversionSwitch E fuel alternate c z =
      some { z with
        output := z.output ++ conversionText strings alternate c w
        esp := z.esp + 1 } := by
  unfold conversionSwitch conversionText
  rcases hc with rfl | rfl | rfl | rfl | rfl
  · rw [if_neg (by decide), if_pos rfl, convert_eq hw (hexText_eq hfuel alternate _ w), if_pos rfl]
  · rw [if_neg (by decide), if_neg (by decide), if_pos rfl,
      convert_eq hw (unsignedText_eq hfuel _ w), if_neg (by decide), if_pos rfl]
  · rw [if_neg (by decide), if_neg (by decide), if_neg (by decide), if_pos rfl,
      convert_eq hw (signedText_eq hfuel _ w), if_neg (by decide), if_neg (by decide), if_pos rfl]
  · simp [PrintfState.convert, hw]
  · obtain ⟨hat, hlen⟩ := hstring rfl
    simp [PrintfState.convert, hw, putsAt_eq hat hlen]

/-- All other characters show nothing but a `%` for themselves. -/
theorem conversionSwitch_other (E : PrintfCall) (fuel : Nat) (z : PrintfState) (alternate : Bool)
    {c : UInt8} (hc : ¬ takesArgument c) :
    conversionSwitch E fuel alternate c z =
      some { z with output := z.output ++ if c = 0x25 then [0x25] else [] } := by
  unfold takesArgument at hc
  simp only [not_or] at hc
  obtain ⟨hx, hu, hd, hchar, hs⟩ := hc
  unfold conversionSwitch
  by_cases hpercent : c = 0x25
  · rw [if_pos hpercent, if_pos hpercent]
    rfl
  · rw [if_neg hpercent, if_neg hx, if_neg hu, if_neg hd, if_neg hchar, if_neg hs,
      if_neg hpercent, List.append_nil]

/--
The switch keeps what is to be put out in all: the output so far and the text
of the directives that are left.
-/
theorem conversionSwitch_step {E : PrintfCall} {fuel : Nat} (hfuel : 34 ≤ fuel)
    {strings : UInt32 → List UInt8} (hlens : ∀ w ∈ E.args, (strings w).length < fuel)
    {alternate : Bool} {c : UInt8} {ds : List Directive} {z : PrintfState}
    (hsupplied : Supplied strings E.memory (.conversion alternate c :: ds) (E.args.drop z.esp)) :
    ∃ z', conversionSwitch E fuel alternate c z = some z' ∧ z'.reads = z.reads ∧
      Supplied strings E.memory ds (E.args.drop z'.esp) ∧
      z'.output ++ rendering strings ds (E.args.drop z'.esp) =
        z.output ++ rendering strings (.conversion alternate c :: ds) (E.args.drop z.esp) := by
  by_cases hc : takesArgument c
  · obtain ⟨w, rest, hargs, hstring, hleft⟩ :=
      (supplied_argument strings E.memory alternate ds _ hc).mp hsupplied
    have hw : E.args[z.esp]? = some w := by
      rw [← List.head?_drop, hargs]
      rfl
    have hrest : E.args.drop (z.esp + 1) = rest := by
      rw [← List.tail_drop, hargs]
      rfl
    refine ⟨_, conversionSwitch_argument hfuel strings hw alternate hc ?_, rfl, ?_, ?_⟩
    · intro hs
      exact ⟨hstring hs, hlens w (List.mem_of_getElem? hw)⟩
    · rwa [hrest]
    · simp only [hrest, hargs]
      rw [rendering_argument strings alternate ds w rest hc, List.append_assoc]
  · rw [supplied_other strings E.memory alternate ds _ hc] at hsupplied
    refine ⟨_, conversionSwitch_other E fuel z alternate hc, rfl, hsupplied, ?_⟩
    simp only
    rw [rendering_other strings alternate ds _ hc, List.append_assoc]

/-! ## The loop -/

/-- Where the loop is after the character `c`. -/
def nextMode : Option Bool → UInt8 → Option Bool
  | none, c => if c = 0x25 then some false else none
  | some _, c => if c = 0x23 then some true else none

/-- What one turn with the character `c` does besides reading it. -/
def printfTurn (E : PrintfCall) (fuel : Nat) :
    Option Bool → UInt8 → PrintfState → Option PrintfState
  | none, c, z => if c = 0x25 then some z else some (z.putc c)
  | some alternate, c, z => if c = 0x23 then some z else conversionSwitch E fuel alternate c z

theorem complete_cons (mode : Option Bool) (c : UInt8) (rest : List UInt8) :
    Complete mode (c :: rest) ↔ Complete (nextMode mode c) rest := by
  cases mode with
  | none =>
      rw [Complete, nextMode]
      split_ifs <;> exact Iff.rfl
  | some alternate =>
      rw [Complete, nextMode]
      split_ifs <;> exact Iff.rfl

/-- A turn of the loop that is not the last one. -/
theorem printfLoop_turn {E : PrintfCall} {fuel p : Nat} (n : Nat) {mode : Option Bool}
    (z : PrintfState) (hgoes : mode = none → E.format p ≠ 0) :
    printfLoop E fuel (n + 1) mode p z =
      (printfTurn E fuel mode (E.format p) (z.readAt p)).bind (fun z =>
        printfLoop E fuel n (nextMode mode (E.format p)) (p + 1) z) := by
  cases mode with
  | none =>
      rw [printfLoop, printfTurn, nextMode, if_neg (hgoes rfl)]
      by_cases hpercent : E.format p = 0x25
      · rw [if_pos hpercent, if_pos hpercent, if_pos hpercent, Option.bind_some]
      · rw [if_neg hpercent, if_neg hpercent, if_neg hpercent, Option.bind_some]
  | some alternate =>
      rw [printfLoop, printfTurn, nextMode]
      by_cases hhash : E.format p = 0x23
      · rw [if_pos hhash, if_pos hhash, if_pos hhash, Option.bind_some]
      · rw [if_neg hhash, if_neg hhash, if_neg hhash]

/-- A turn keeps what is to be put out in all. -/
theorem printfTurn_step {E : PrintfCall} {fuel : Nat} (hfuel : 34 ≤ fuel)
    {strings : UInt32 → List UInt8} (hlens : ∀ w ∈ E.args, (strings w).length < fuel)
    {mode : Option Bool} {c : UInt8} {rest : List UInt8} {z : PrintfState}
    (hsupplied : Supplied strings E.memory (directives mode (c :: rest)) (E.args.drop z.esp)) :
    ∃ z', printfTurn E fuel mode c z = some z' ∧ z'.reads = z.reads ∧
      Supplied strings E.memory (directives (nextMode mode c) rest) (E.args.drop z'.esp) ∧
      z'.output ++ rendering strings (directives (nextMode mode c) rest) (E.args.drop z'.esp) =
        z.output ++ rendering strings (directives mode (c :: rest)) (E.args.drop z.esp) := by
  cases mode with
  | none =>
      rw [printfTurn, nextMode]
      rw [directives] at hsupplied ⊢
      by_cases hpercent : c = 0x25
      · rw [if_pos hpercent] at hsupplied
        rw [if_pos hpercent, if_pos hpercent, if_pos hpercent]
        exact ⟨z, rfl, rfl, hsupplied, rfl⟩
      · rw [if_neg hpercent] at hsupplied
        rw [if_neg hpercent, if_neg hpercent, if_neg hpercent]
        refine ⟨z.putc c, rfl, rfl, hsupplied, ?_⟩
        rw [rendering]
        exact List.append_assoc z.output [c] _
  | some alternate =>
      rw [printfTurn, nextMode]
      rw [directives] at hsupplied ⊢
      by_cases hhash : c = 0x23
      · rw [if_pos hhash] at hsupplied
        rw [if_pos hhash, if_pos hhash, if_pos hhash]
        exact ⟨z, rfl, rfl, hsupplied, rfl⟩
      · rw [if_neg hhash] at hsupplied
        rw [if_neg hhash, if_neg hhash, if_neg hhash]
        exact conversionSwitch_step hfuel hlens hsupplied

/--
The loop on a complete rest of the format, from either place: it stops at the
NUL, reads nothing behind it and puts out the text of the directives.  The
induction is on the rest of the format.
-/
theorem printfLoop_eq {E : PrintfCall} {fuel : Nat} (hfuel : 34 ≤ fuel)
    {strings : UInt32 → List UInt8} (hlens : ∀ w ∈ E.args, (strings w).length < fuel)
    {l : List UInt8} {mode : Option Bool} {p n : Nat} {z : PrintfState}
    (hl : StringAt E.format p l) (hcomplete : Complete mode l)
    (hsupplied : Supplied strings E.memory (directives mode l) (E.args.drop z.esp))
    (hn : l.length < n) :
    ∃ z', printfLoop E fuel n mode p z = some (p + l.length, z') ∧
      z'.output = z.output ++ rendering strings (directives mode l) (E.args.drop z.esp) ∧
      ∀ i ∈ z'.reads, i ∈ z.reads ∨ i ≤ p + l.length := by
  induction l generalizing mode p n z with
  | nil =>
      obtain ⟨n, rfl⟩ : ∃ m, n = m + 1 := ⟨n - 1, by omega⟩
      cases mode with
      | some alternate => exact hcomplete.elim
      | none =>
          have hzero : E.format p = 0 := hl.end_zero
          refine ⟨z.readAt p, ?_, ?_, ?_⟩
          · rw [printfLoop, if_pos hzero]
            rfl
          · exact (List.append_nil _).symm
          · intro i hi
            rcases List.mem_append.mp hi with hold | hnew
            · exact .inl hold
            · exact .inr (le_of_eq (List.mem_singleton.mp hnew))
  | cons c rest ih =>
      obtain ⟨n, rfl⟩ : ∃ m, n = m + 1 := ⟨n - 1, by omega⟩
      obtain ⟨hc, hne⟩ := hl.head
      have hend : p + (c :: rest).length = p + 1 + rest.length := by
        simp only [List.length_cons]
        omega
      obtain ⟨z₁, hturn, hsame, hsupplied', htotal⟩ :=
        printfTurn_step (z := z.readAt p) hfuel hlens hsupplied
      obtain ⟨z', hrun, hout, hall⟩ := ih (z := z₁) hl.tail ((complete_cons ..).mp hcomplete)
        hsupplied' (Nat.lt_of_succ_lt_succ hn)
      rw [hend]
      refine ⟨z', ?_, hout.trans htotal, ?_⟩
      · rw [printfLoop_turn n z (fun _ => by rwa [hc]), hc, hturn, Option.bind_some]
        exact hrun
      · intro i hi
        rcases hall i hi with hold | hle
        · rw [hsame] at hold
          rcases List.mem_append.mp hold with hz | hp
          · exact .inl hz
          · rw [List.mem_singleton.mp hp]
            exact .inr (by omega)
        · exact .inr hle

/-- The inner switch reads nothing of the format but the character it is about. -/
theorem conversionSwitch_reads {E : PrintfCall} {fuel : Nat} {alternate : Bool} {c : UInt8}
    {z z' : PrintfState} (h : conversionSwitch E fuel alternate c z = some z') :
    z'.reads = z.reads := by
  have hconvert : ∀ text, z.convert E text = some z' → z'.reads = z.reads := by
    intro text htext
    obtain ⟨w, -, hw⟩ := Option.bind_eq_some_iff.mp htext
    obtain ⟨out, -, rfl⟩ := Option.map_eq_some_iff.mp hw
    rfl
  unfold conversionSwitch at h
  split_ifs at h
  · obtain rfl := Option.some.inj h
    rfl
  · exact hconvert _ h
  · exact hconvert _ h
  · exact hconvert _ h
  · exact hconvert _ h
  · exact hconvert _ h
  · obtain rfl := Option.some.inj h
    rfl

theorem printfTurn_reads {E : PrintfCall} {fuel : Nat} {mode : Option Bool} {c : UInt8}
    {z z' : PrintfState} (h : printfTurn E fuel mode c z = some z') : z'.reads = z.reads := by
  cases mode with
  | none =>
      rw [printfTurn] at h
      split_ifs at h
      · obtain rfl := Option.some.inj h
        rfl
      · obtain rfl := Option.some.inj h
        rfl
  | some alternate =>
      rw [printfTurn] at h
      split_ifs at h
      · obtain rfl := Option.some.inj h
        rfl
      · exact conversionSwitch_reads h

/-- What has been read stays on the record, and the next byte is read at once. -/
theorem printfLoop_reads {E : PrintfCall} {fuel n : Nat} {mode : Option Bool} {p v : Nat}
    {z z' : PrintfState} (hrun : printfLoop E fuel n mode p z = some (v, z')) :
    ∀ i ∈ (z.readAt p).reads, i ∈ z'.reads := by
  induction n generalizing mode p z with
  | zero => cases hrun
  | succ n ih =>
      intro i hi
      by_cases hgoes : mode = none → E.format p ≠ 0
      · rw [printfLoop_turn n z hgoes] at hrun
        obtain ⟨z₁, hturn, hrest⟩ := Option.bind_eq_some_iff.mp hrun
        apply ih hrest
        apply List.mem_append_left
        rwa [printfTurn_reads hturn]
      · push Not at hgoes
        obtain ⟨rfl, hzero⟩ := hgoes
        rw [printfLoop, if_pos hzero] at hrun
        obtain ⟨-, rfl⟩ := Prod.mk.inj (Option.some.inj hrun)
        exact hi

/-- A rest of the format that is cut off in a conversion is read past its NUL. -/
theorem printfLoop_incomplete {E : PrintfCall} {fuel n : Nat} {l : List UInt8}
    {mode : Option Bool} {p v : Nat} {z z' : PrintfState} (hl : StringAt E.format p l)
    (hincomplete : ¬ Complete mode l) (hrun : printfLoop E fuel n mode p z = some (v, z')) :
    p + l.length + 1 ∈ z'.reads := by
  induction l generalizing mode p n z with
  | nil =>
      cases n with
      | zero => cases hrun
      | succ n =>
          have hmode : mode ≠ none := by
            rintro rfl
            exact hincomplete trivial
          rw [printfLoop_turn n z (fun hnone => absurd hnone hmode)] at hrun
          obtain ⟨z₁, -, hrest⟩ := Option.bind_eq_some_iff.mp hrun
          exact printfLoop_reads hrest _ (List.mem_append_right _ (List.mem_singleton_self _))
  | cons c rest ih =>
      obtain ⟨hc, hne⟩ := hl.head
      have hend : p + (c :: rest).length + 1 = p + 1 + rest.length + 1 := by
        simp only [List.length_cons]
        omega
      rw [hend]
      cases n with
      | zero => cases hrun
      | succ n =>
          rw [printfLoop_turn n z (fun _ => by rwa [hc]), hc] at hrun
          obtain ⟨z₁, -, hrest⟩ := Option.bind_eq_some_iff.mp hrun
          exact ih hl.tail (fun h => hincomplete ((complete_cons ..).mpr h)) hrest

/-! ## Whole calls -/

/-- With enough turns for the strings and the format, a complete format is rendered. -/
theorem printf_eq {E : PrintfCall} {strings : UInt32 → List UInt8} {l : List UInt8}
    (hl : StringAt E.format 0 l) (hcomplete : Complete none l)
    (hsupplied : Supplied strings E.memory (directives none l) E.args) :
    ∃ N, ∀ fuel, N ≤ fuel → ∃ z, printf fuel E = some (l.length, z) ∧
      z.output = rendering strings (directives none l) E.args ∧ ∀ i ∈ z.reads, i ≤ l.length := by
  refine ⟨34 + (l.length + 1) + (E.args.map (fun w => (strings w).length + 1)).sum, ?_⟩
  intro fuel hfuel
  have hlens : ∀ w ∈ E.args, (strings w).length < fuel := by
    intro w hw
    have := List.single_le_sum (fun _ _ => Nat.zero_le _) _
      (List.mem_map_of_mem (f := fun w => (strings w).length + 1) hw)
    omega
  obtain ⟨z, hrun, hout, hreads⟩ := printfLoop_eq (z := ⟨[], 0, []⟩) (n := fuel) (by omega) hlens hl
    hcomplete (by simpa using hsupplied) (by omega)
  rw [Nat.zero_add] at hrun hreads
  refine ⟨z, hrun, by simpa using hout, ?_⟩
  intro i hi
  rcases hreads i hi with hnone | hle
  · cases hnone
  · exact hle

/-- A call with the given format, words, and one string at address 0x1000. -/
def sampleCall (format : List UInt8) (args : List UInt32) (string : List UInt8) : PrintfCall where
  format := cstr format
  args := args
  memory := Buffer.write (fun _ => 0) 0x1000 (string ++ [0])
  stack := fun _ _ => 0x55

theorem stringAt_cstr {l : List UInt8} (h : ∀ c ∈ l, c ≠ 0) : StringAt (cstr l) 0 l := by
  refine ⟨h, ?_⟩
  intro j _
  rw [cstr, Nat.zero_add]

/-- `%d=%#x%s%%`. -/
def sampleFormat : List UInt8 := [0x25, 0x64, 0x3D, 0x25, 0x23, 0x78, 0x25, 0x73, 0x25, 0x25]

theorem sampleFormat_complete : Complete none sampleFormat := by
  simp [Complete, sampleFormat]

theorem sampleCall_supplied :
    Supplied (fun _ => [0x68, 0x69]) (sampleCall sampleFormat [] [0x68, 0x69]).memory
      (directives none sampleFormat) [0x80000000, 0x0E, 0x1000] := by
  have hstring : StringAt (sampleCall sampleFormat [] [0x68, 0x69]).memory 0x1000 [0x68, 0x69] :=
    stringAt_write _ _ (by simp)
  simpa [Supplied, directives, sampleFormat, takesArgument] using hstring

/-- `printf` returns the length of its format and has not read behind the format's NUL. -/
def StopsAtEnd (E : PrintfCall) (l : List UInt8) : Prop :=
  ∃ N, ∀ fuel, N ≤ fuel →
    ∃ z, printf fuel E = some (l.length, z) ∧ ∀ i ∈ z.reads, i ≤ l.length

theorem stops_at_end_iff (E : PrintfCall) (strings : UInt32 → List UInt8) (l : List UInt8)
    (hl : StringAt E.format 0 l)
    (hsupplied : Supplied strings E.memory (directives none l) E.args) :
    StopsAtEnd E l ↔ Complete none l := by
  constructor
  · rintro ⟨N, hstops⟩
    by_contra hincomplete
    obtain ⟨z, hrun, hreads⟩ := hstops N (Nat.le_refl N)
    have hpast := hreads _ (printfLoop_incomplete hl hincomplete hrun)
    omega
  · intro hcomplete
    obtain ⟨N, hN⟩ := printf_eq hl hcomplete hsupplied
    refine ⟨N, ?_⟩
    intro fuel hfuel
    obtain ⟨z, hrun, -, hreads⟩ := hN fuel hfuel
    exact ⟨z, hrun, hreads⟩

theorem stops_at_end_iff_sample :
    StopsAtEnd (sampleCall sampleFormat [0x80000000, 0x0E, 0x1000] [0x68, 0x69]) sampleFormat :=
  (stops_at_end_iff (sampleCall sampleFormat [0x80000000, 0x0E, 0x1000] [0x68, 0x69])
    (fun _ => [0x68, 0x69]) sampleFormat (stringAt_cstr (by simp [sampleFormat])) sampleCall_supplied).mpr
      sampleFormat_complete

/-- The format `%` is read at index 2, behind its NUL at index 1. -/
theorem percent_reads_past_end :
    StringAt (sampleCall [0x25] [] []).format 0 [0x25] ∧
    (printf 34 (sampleCall [0x25] [] [])).map (fun r => (r.1, r.2.reads)) =
      some (2, [0, 1, 2]) ∧
    ¬ StopsAtEnd (sampleCall [0x25] [] []) [0x25] := by
  have hl : StringAt (sampleCall [0x25] [] []).format 0 [0x25] := stringAt_cstr (by simp)
  refine ⟨hl, by decide +kernel, ?_⟩
  rintro ⟨N, hstops⟩
  obtain ⟨z, hrun, hreads⟩ := hstops N (Nat.le_refl N)
  have hincomplete : ¬ Complete none [0x25] := by simp [Complete]
  have hpast := hreads _ (printfLoop_incomplete hl hincomplete hrun)
  simp at hpast

/-- The text of the directives is what `printf` passes to `putc`. -/
theorem printf_renders (E : PrintfCall) (strings : UInt32 → List UInt8) (l : List UInt8)
    (hl : StringAt E.format 0 l) (hcomplete : Complete none l)
    (hsupplied : Supplied strings E.memory (directives none l) E.args) :
    ∃ N, ∀ fuel, N ≤ fuel → ∃ z, printf fuel E = some (l.length, z) ∧
      z.output = rendering strings (directives none l) E.args := by
  obtain ⟨N, hN⟩ := printf_eq hl hcomplete hsupplied
  refine ⟨N, ?_⟩
  intro fuel hfuel
  obtain ⟨z, hrun, hout, -⟩ := hN fuel hfuel
  exact ⟨z, hrun, hout⟩

theorem printf_renders_sample :
    ∃ N, ∀ fuel, N ≤ fuel → ∃ z,
      printf fuel (sampleCall sampleFormat [0x80000000, 0x0E, 0x1000] [0x68, 0x69]) =
        some (10, z) ∧
      z.output = "-2147483648=0000000Ehi%".toList.map (fun c => UInt8.ofNat c.toNat) := by
  have htext : rendering (fun _ => [0x68, 0x69]) (directives none sampleFormat)
      [0x80000000, 0x0E, 0x1000] =
        "-2147483648=0000000Ehi%".toList.map (fun c => UInt8.ofNat c.toNat) := by
    simp [rendering, directives, sampleFormat, takesArgument, conversionText, signedNumeral, toS32,
      paddedHex, numeralText, numeral]
    decide
  rw [← htext]
  exact printf_renders (sampleCall sampleFormat [0x80000000, 0x0E, 0x1000] [0x68, 0x69])
    (fun _ => [0x68, 0x69]) sampleFormat (stringAt_cstr (by simp [sampleFormat])) sampleFormat_complete
    sampleCall_supplied

/-! ## Texts without conversions -/

theorem directives_plain {l : List UInt8} (h : 0x25 ∉ l) :
    directives none l = l.map Directive.literal := by
  induction l with
  | nil => rfl
  | cons c rest ih =>
      have hc : c ≠ 0x25 := fun hc => h (hc ▸ List.mem_cons_self ..)
      rw [directives, if_neg hc, ih (fun hmem => h (List.mem_cons_of_mem c hmem)), List.map_cons]

theorem complete_plain {l : List UInt8} (h : 0x25 ∉ l) : Complete none l := by
  induction l with
  | nil => trivial
  | cons c rest ih =>
      have hc : c ≠ 0x25 := fun hc => h (hc ▸ List.mem_cons_self ..)
      rw [Complete, if_neg hc]
      exact ih (fun hmem => h (List.mem_cons_of_mem c hmem))

theorem rendering_plain (strings : UInt32 → List UInt8) (l : List UInt8) (args : List UInt32) :
    rendering strings (l.map Directive.literal) args = l := by
  induction l with
  | nil => rfl
  | cons c rest ih => rw [List.map_cons, rendering, ih]

theorem supplied_plain (strings : UInt32 → List UInt8) (memory : Buffer) (l : List UInt8)
    (args : List UInt32) : Supplied strings memory (l.map Directive.literal) args := by
  induction l with
  | nil => trivial
  | cons c rest ih => exact ih

/-- The messages of the kernel: what its `printf` puts on the console is the output of the loop. -/
theorem kernel_printf_eq (k : Kernel) {text : String} {E : PrintfCall}
    (hl : StringAt E.format 0 (text.toList.map (fun c => UInt8.ofNat c.toNat)))
    (hplain : 0x25 ∉ text.toList.map (fun c => UInt8.ofNat c.toNat)) :
    ∃ N, ∀ fuel, N ≤ fuel → ∃ v z, printf fuel E = some (v, z) ∧
      k.printf text = k.onConsole (fun s => z.output.foldl Console.putc s) := by
  have hsupplied := supplied_plain (fun _ => []) E.memory
    (text.toList.map (fun c => UInt8.ofNat c.toNat)) E.args
  rw [← directives_plain hplain] at hsupplied
  obtain ⟨N, hN⟩ := printf_eq hl (complete_plain hplain) hsupplied
  refine ⟨N, ?_⟩
  intro fuel hfuel
  obtain ⟨z, hrun, hout, -⟩ := hN fuel hfuel
  rw [directives_plain hplain, rendering_plain] at hout
  refine ⟨_, z, hrun, ?_⟩
  rw [hout]
  rfl

end OopsOs
