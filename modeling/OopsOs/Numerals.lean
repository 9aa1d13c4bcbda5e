import OopsOs.FileSystem
import OopsOs.Lib.Text

/-!
# Number conversion

`itoa` of `lib.c` and `ece391_itoa` of the user library store the digits from
the lowest to the highest, end them with a NUL and reverse the string in place.
The two differ in the reversal: the user library's returns early from a string
of at most one byte.

Each loop counts its turns; `none` is a loop that has not ended with the turns
it was given.  `itoa_eq` is the specification: the buffer shows the numeral and
a NUL and is otherwise as it was.
-/

namespace OopsOs

open ByteMem

/-- The loop of `strlen` for the string at index `p`. -/
def strlenLoop (s : Buffer) (p : Nat) : Nat → Nat → Option Nat
  | 0, _ => none
  | fuel + 1, len => if s (p + len) ≠ 0 then strlenLoop s p fuel (len + 1) else some len

def strlenAt (fuel : Nat) (s : Buffer) (p : Nat) : Option Nat := strlenLoop s p fuel 0

/-- The loop of `strrev`; its `end` is `last`. -/
def strrevLoop (p : Nat) : Nat → Int → Int → Buffer → Option Buffer
  | 0, _, _, _ => none
  | fuel + 1, beg, last, s =>
      if beg < last then
        strrevLoop p fuel (beg + 1) (last - 1) (s.swap (p + beg.toNat) (p + last.toNat))
      else some s

def strrev (fuel : Nat) (s : Buffer) (p : Nat) : Option Buffer :=
  (strlenAt fuel s p).bind (fun len => strrevLoop p fuel 0 (toS32 ((len : Int) - 1)) s)

/-- The user library's reversal. -/
def ece391Strrev (fuel : Nat) (s : Buffer) (p : Nat) : Option Buffer :=
  (strlenAt fuel s p).bind (fun len =>
    if toS32 ((len : Int) - 1) ≤ 0 then some s
    else strrevLoop p fuel 0 (toS32 ((len : Int) - 1)) s)

/-- The digits table, which both libraries have. -/
def lookup : List UInt8 :=
  "0123456789ABCDEFGHIJKLMNOPQRSTUVWXYZ".toList.map (fun c => UInt8.ofNat c.toNat)

/-- The digit loop: digits of `newval` from `newbuf` on, lowest first. -/
def itoaLoop (radix : Nat) : Nat → Nat → Buffer → Nat → Option (Buffer × Nat)
  | 0, _, _, _ => none
  | fuel + 1, newval, s, newbuf =>
      if newval > 0 then
        itoaLoop radix fuel (newval / radix)
          (Function.update s newbuf (lookup.getD (newval % radix) 0)) (newbuf + 1)
      else some (s, newbuf)

/-- A number conversion into the buffer from index `p` on, with its string reversal. -/
def itoaWith (reverse : Nat → Buffer → Nat → Option Buffer) (fuel value : Nat) (buf : Buffer)
    (p radix : Nat) : Option Buffer :=
  if value = 0 then some (Function.update (Function.update buf p 0x30) (p + 1) 0)
  else
    (itoaLoop radix fuel value buf p).bind (fun r => reverse fuel (Function.update r.1 r.2 0) p)

def itoa : Nat → Nat → Buffer → Nat → Nat → Option Buffer := itoaWith strrev

def ece391Itoa : Nat → Nat → Buffer → Nat → Nat → Option Buffer := itoaWith ece391Strrev

/-! ## The functions on strings -/

theorem strlenLoop_eq {s : Buffer} {p : Nat} {l : List UInt8} {k : Nat}
    (h : StringAt s (p + k) l) {fuel : Nat} (hfuel : l.length < fuel) :
    strlenLoop s p fuel k = some (k + l.length) := by
  induction fuel generalizing k l with
  | zero => omega
  | succ fuel ih =>
      unfold strlenLoop
      cases l with
      | nil =>
          have hzero : s (p + k) = 0 := h.end_zero
          rw [if_neg (not_not.mpr hzero)]
          rfl
      | cons c rest =>
          rw [if_pos (h.head.1 ▸ h.head.2), ih h.tail (by simpa using hfuel), List.length_cons]
          congr 1
          omega

theorem strlenAt_eq {s : Buffer} {p : Nat} {l : List UInt8} (h : StringAt s p l) {fuel : Nat}
    (hfuel : l.length < fuel) : strlenAt fuel s p = some l.length := by
  have hloop := strlenLoop_eq (k := 0) h hfuel
  rwa [Nat.zero_add] at hloop

/-- The loop between `beg` and `beg + n - 1` reverses these `n` bytes. -/
theorem strrevLoop_eq (p : Nat) :
    ∀ (n fuel beg : Nat) (s : Buffer), n < fuel →
      strrevLoop p fuel beg ((beg : Int) + n - 1) s = some (s.mirror (p + beg) n)
  | n, 0, beg, s, hfuel => by
      omega
  | 0, fuel + 1, beg, s, hfuel => by
      rw [strrevLoop, if_neg (by omega), Buffer.mirror_of_le_one s _ (by omega)]
  | 1, fuel + 1, beg, s, hfuel => by
      rw [strrevLoop, if_neg (by omega), Buffer.mirror_of_le_one s _ (by omega)]
  | n + 2, fuel + 1, beg, s, hfuel => by
      have hlast : ((beg : Int) + ((n + 2 : Nat) : Int) - 1).toNat = beg + n + 1 := by omega
      have hinner : (beg : Int) + ((n + 2 : Nat) : Int) - 1 - 1 =
          ((beg + 1 : Nat) : Int) + n - 1 := by
        push_cast
        ring
      have hbeg : (beg : Int) + 1 = ((beg + 1 : Nat) : Int) := by push_cast; rfl
      rw [strrevLoop, if_pos (by omega), hlast, hinner, hbeg, Int.toNat_natCast,
        strrevLoop_eq p n fuel (beg + 1) _ (by omega)]
      have hstep := s.mirror_swap (p + beg) n
      rw [← hstep, ← Nat.add_assoc, ← Nat.add_assoc, ← Nat.add_assoc]

theorem strrev_eq {s : Buffer} {p : Nat} {l : List UInt8} (h : StringAt s p l) {fuel : Nat}
    (hfuel : l.length < fuel) (hlen : l.length < 2147483648) :
    strrev fuel s p = some (s.mirror p l.length) := by
  have hloop := strrevLoop_eq p l.length fuel 0 s hfuel
  rw [strrev, strlenAt_eq h hfuel, Option.bind_some, toS32_of_small (by omega) (by omega)]
  rwa [Nat.cast_zero, zero_add, Nat.add_zero] at hloop

/-- The early return of the user library leaves what the loop would leave. -/
theorem ece391Strrev_eq_strrev (fuel : Nat) (s : Buffer) (p : Nat) :
    ece391Strrev fuel s p = strrev fuel s p := by
  cases fuel with
  | zero => rfl
  | succ fuel =>
      unfold ece391Strrev strrev
      congr 1
      funext len
      split_ifs with hshort
      · rw [strrevLoop, if_neg (by omega)]
      · rfl

theorem ece391Itoa_eq_itoa : ece391Itoa = itoa := by
  have hreverse : ece391Strrev = strrev := by
    funext fuel s p
    exact ece391Strrev_eq_strrev fuel s p
  rw [ece391Itoa, itoa, hreverse]

/-! ## The numeral -/

/-- The character of a digit: `0` to `9`, then `A` to `Z`. -/
def digitChar (d : Nat) : UInt8 := if d < 10 then UInt8.ofNat (0x30 + d) else UInt8.ofNat (0x37 + d)

/-- The string of a number in a radix. -/
def numeralText (radix n : Nat) : List UInt8 := (numeral radix n).map digitChar

theorem lookup_eq_digitChar : ∀ d < 36, lookup.getD d 0 = digitChar d := by
  decide +kernel

theorem digitChar_ne_zero : ∀ d < 36, digitChar d ≠ 0 := by
  decide +kernel

section Radix

variable {radix : Nat} (hr : 2 ≤ radix) (hr' : radix ≤ 36)
include hr hr'

theorem itoaLoop_eq {fuel newval : Nat} (s : Buffer) (newbuf : Nat)
    (hfuel : (Nat.digits radix newval).length < fuel) :
    itoaLoop radix fuel newval s newbuf =
      some (s.write newbuf ((Nat.digits radix newval).map digitChar),
        newbuf + (Nat.digits radix newval).length) := by
  induction fuel generalizing newval s newbuf with
  | zero => omega
  | succ fuel ih =>
      unfold itoaLoop
      by_cases hpos : newval > 0
      · have hdigits : Nat.digits radix newval =
            newval % radix :: Nat.digits radix (newval / radix) :=
          Nat.digits_def' (by omega) hpos
        have hlt : newval % radix < radix := Nat.mod_lt newval (by omega)
        rw [hdigits, List.length_cons] at hfuel
        rw [if_pos hpos, lookup_eq_digitChar _ (by omega), ih _ _ (by omega), Buffer.write_cons,
          hdigits, List.map_cons, List.length_cons]
        congr 2
        omega
      · obtain rfl : newval = 0 := by omega
        rw [if_neg hpos]
        simp

theorem numeralText_ne_zero (n : Nat) : ∀ c ∈ numeralText radix n, c ≠ 0 := by
  intro c hc
  obtain ⟨d, hd, rfl⟩ := List.mem_map.mp hc
  have hlt := (numeral_isNumeral hr n).digits d hd
  exact digitChar_ne_zero d (by omega)

/-- `itoa` writes the numeral and a NUL, and nothing else. -/
theorem itoa_eq {fuel value : Nat} (buf : Buffer) (p : Nat) (hvalue : value < 4294967296)
    (hfuel : 33 ≤ fuel) :
    itoa fuel value buf p radix = some (buf.write p (numeralText radix value ++ [0])) := by
  unfold itoa itoaWith
  by_cases hzero : value = 0
  · rw [if_pos hzero, hzero, Buffer.update_eq_write _ (p + 1), Buffer.write_cons]
    rfl
  · have hpow : value < radix ^ 32 :=
      lt_of_lt_of_le hvalue (le_trans (by norm_num) (Nat.pow_le_pow_left hr 32))
    have hlen : (Nat.digits radix value).length ≤ 32 :=
      (Nat.digits_length_le_iff (by omega) value).mpr hpow
    have htext : numeralText radix value = ((Nat.digits radix value).map digitChar).reverse := by
      rw [numeralText, numeral, if_neg hzero, List.map_reverse]
    have hnonzero : ∀ c ∈ (Nat.digits radix value).map digitChar, c ≠ 0 := by
      intro c hc
      apply numeralText_ne_zero hr hr' value
      rw [htext]
      exact List.mem_reverse.mpr hc
    have hlength : ((Nat.digits radix value).map digitChar).length =
        (Nat.digits radix value).length := List.length_map _
    rw [if_neg hzero, itoaLoop_eq hr hr' buf p (by omega), Option.bind_some,
      Buffer.update_eq_write, ← hlength, Buffer.write_append,
      strrev_eq (stringAt_write buf p hnonzero) (by omega) (by omega), Buffer.mirror_write, htext]

end Radix

theorem length_numeralText_le {radix value : Nat} (hr : 2 ≤ radix) (hvalue : value < 4294967296) :
    (numeralText radix value).length ≤ 32 := by
  rw [numeralText, List.length_map]
  apply length_numeral_le hr (by decide)
  exact lt_of_lt_of_le hvalue (le_trans (by norm_num) (Nat.pow_le_pow_left hr 32))

/--
Both conversions return, with the same buffer: it holds the numeral of the
value and a NUL in its first 33 bytes, and the bytes around them are unchanged.
-/
theorem number_conversion_exact (value radix : Nat) (buf : Buffer) (p : Nat)
    (hvalue : value < 4294967296) (hr : 2 ≤ radix) (hr' : radix ≤ 36) :
    ∃ (buf' : Buffer) (ds : List Nat),
      (∀ fuel, 33 ≤ fuel → itoa fuel value buf p radix = some buf' ∧
        ece391Itoa fuel value buf p radix = some buf') ∧
      StringAt buf' p (ds.map digitChar) ∧
      IsNumeral radix ds ∧ digitsValue radix ds = value ∧
      ds.length + 1 ≤ 33 ∧
      ∀ x, x < p ∨ p + 33 ≤ x → buf' x = buf x := by
  have hlen := length_numeralText_le hr hvalue
  refine ⟨buf.write p (numeralText radix value ++ [0]), numeral radix value, ?_, ?_, ?_, ?_, ?_, ?_⟩
  · intro fuel hfuel
    rw [ece391Itoa_eq_itoa, itoa_eq hr hr' buf p hvalue hfuel]
    exact ⟨rfl, rfl⟩
  · exact stringAt_write buf p (numeralText_ne_zero hr hr' value)
  · exact numeral_isNumeral hr value
  · exact numeral_value radix value
  · rw [numeralText, List.length_map] at hlen
    omega
  · intro x hx
    rcases hx with hbefore | hafter
    · exact Buffer.write_before buf _ hbefore
    · apply Buffer.write_after
      simp only [List.length_append, List.length_singleton]
      omega

theorem number_conversion_exact_largest :
    ∃ buf' ds, itoa 33 4294967295 (fun _ => 0) 0 2 = some buf' ∧
      ece391Itoa 33 4294967295 (fun _ => 0) 0 2 = some buf' ∧
      StringAt buf' 0 (ds.map digitChar) ∧ digitsValue 2 ds = 4294967295 := by
  obtain ⟨buf', ds, hrun, hat, -, hvalue, -, -⟩ :=
    number_conversion_exact 4294967295 2 (fun _ => 0) 0 (by decide) (by decide) (by decide)
  obtain ⟨hkernel, huser⟩ := hrun 33 (Nat.le_refl 33)
  exact ⟨buf', ds, hkernel, huser, hat, hvalue⟩

end OopsOs
