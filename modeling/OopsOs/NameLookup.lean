import OopsOs.FileSlices

/-!
# Looking up a name in the directory

`strncmp` with a bound compares the strings up to that bound, so the scan of
`read_dentry_by_name` finds the first of 64 slots that bears the name.  The
boot block holds 63 slots, and `num_dir_entries` says how many of them are
recorded; the scan goes by neither number.  Slot 63 is the beginning of the
first index node.
-/

namespace OopsOs

open ByteMem

/-! ## Comparing strings -/

theorem charValue_injective : Function.Injective charValue := by
  intro a b h
  have ha := a.toNat_lt
  have hb := b.toNat_lt
  unfold charValue at h
  apply UInt8.toNat_inj.mp
  split_ifs at h <;> omega

/-- `strncmp` is 0 exactly if both strings are the same up to the bound. -/
theorem strncmpFrom_eq_zero_iff (s1 s2 : Nat → UInt8) (i n : Nat) :
    strncmpFrom s1 s2 i n = 0 ↔ textFrom s1 i n = textFrom s2 i n := by
  induction n generalizing i with
  | zero =>
      exact iff_of_true rfl rfl
  | succ n ih =>
      unfold strncmpFrom textFrom
      by_cases heq : s1 i = s2 i
      · rw [heq]
        by_cases hzero : s2 i = 0
        · simp [hzero]
        · simp [hzero, ih]
      · have hvalue : charValue (s1 i) - charValue (s2 i) ≠ 0 := by
          intro h
          exact heq (charValue_injective (by omega))
        rw [if_pos (Or.inl heq)]
        refine iff_of_false hvalue ?_
        split_ifs with h1 h2 h2
        · exact absurd (h1.trans h2.symm) heq
        · simp
        · simp
        · intro h
          exact heq (List.cons.inj h).1

theorem textFrom_cstr {l : List UInt8} {n : Nat} (hnul : ∀ c ∈ l, c ≠ 0) (hlen : l.length ≤ n) :
    textFrom (cstr l) 0 n = l := by
  apply textFrom_eq (cstr l) l 0 n hlen hnul
  intro j _
  rw [Nat.zero_add]
  rfl

theorem strlen_eq_length {l : List UInt8} (hnul : ∀ c ∈ l, c ≠ 0) : strlen l = l.length := by
  induction l with
  | nil =>
      rfl
  | cons c cs ih =>
      have hc : c ≠ 0 := hnul c (List.mem_cons_self ..)
      rw [strlen, if_neg hc, ih (fun c' hmem => hnul c' (List.mem_cons_of_mem c hmem))]
      rfl

/-! ## The scan -/

/-- The name in slot `i` of the directory: up to its first NUL, at most 32 bytes. -/
def entryName (fs : Mem) (i : Nat) : List UInt8 :=
  textFrom (fun j => fs (64 + 64 * (i : Int) + (j : Int))) 0 32

section Scan

variable {fs : Mem} {fname : List UInt8}
variable (hnul : ∀ c ∈ fname, c ≠ 0) (hlen : fname.length ≤ 32)
include hnul hlen

theorem strncmp_entry_iff (i : Nat) :
    strncmp (cstr fname) (fun j => fs (64 + 64 * i + j)) 32 = 0 ↔ entryName fs i = fname := by
  rw [strncmp, strncmpFrom_eq_zero_iff, textFrom_cstr hnul hlen]
  exact eq_comm

theorem findDentryFrom_succ (i n : Nat) :
    findDentryFrom fs fname i (n + 1) =
      if entryName fs i = fname then some i else findDentryFrom fs fname (i + 1) n := by
  simp only [findDentryFrom, strncmp_entry_iff hnul hlen]

theorem findDentryFrom_eq_some_iff (i n j : Nat) :
    findDentryFrom fs fname i n = some j ↔
      IsLeast {m | i ≤ m ∧ m < i + n ∧ entryName fs m = fname} j := by
  induction n generalizing i with
  | zero =>
      constructor
      · intro h
        cases h
      · rintro ⟨⟨hlo, hhi, -⟩, -⟩
        omega
  | succ n ih =>
      rw [findDentryFrom_succ hnul hlen]
      by_cases hhere : entryName fs i = fname
      · rw [if_pos hhere]
        constructor
        · intro h
          have hij : i = j := Option.some.inj h
          subst hij
          exact ⟨⟨le_refl i, by omega, hhere⟩, fun m hm => hm.1⟩
        · rintro ⟨⟨hlo, -, -⟩, hleast⟩
          have hji : j ≤ i := hleast ⟨le_refl i, by omega, hhere⟩
          rw [le_antisymm hlo hji]
      · rw [if_neg hhere, ih]
        -- slot `i` does not bear the name, so both sets are the same
        have hset : {m | i + 1 ≤ m ∧ m < i + 1 + n ∧ entryName fs m = fname} =
            {m | i ≤ m ∧ m < i + (n + 1) ∧ entryName fs m = fname} := by
          ext m
          constructor
          · rintro ⟨hlo, hhi, hm⟩
            exact ⟨by omega, by omega, hm⟩
          · rintro ⟨hlo, hhi, hm⟩
            have hne : m ≠ i := by
              rintro rfl
              exact hhere hm
            exact ⟨by omega, by omega, hm⟩
        rw [hset]

theorem findDentryFrom_eq_none_iff (i n : Nat) :
    findDentryFrom fs fname i n = none ↔
      ∀ m, i ≤ m → m < i + n → entryName fs m ≠ fname := by
  induction n generalizing i with
  | zero =>
      exact iff_of_true rfl (fun m hlo hhi => by omega)
  | succ n ih =>
      rw [findDentryFrom_succ hnul hlen]
      by_cases hhere : entryName fs i = fname
      · rw [if_pos hhere]
        constructor
        · intro h
          cases h
        · intro h
          exact absurd hhere (h i (le_refl i) (by omega))
      · rw [if_neg hhere, ih]
        constructor
        · intro h m hlo hhi
          rcases Nat.eq_or_lt_of_le hlo with rfl | hlt
          · exact hhere
          · exact h m hlt (by omega)
        · intro h m hlo hhi
          exact h m (by omega) (by omega)

theorem readDentryByName_eq_some_iff (i : Nat) :
    readDentryByName fs fname = some i ↔ IsLeast {m | m < 64 ∧ entryName fs m = fname} i := by
  unfold readDentryByName
  rw [strlen_eq_length hnul, if_neg (by omega), findDentryFrom_eq_some_iff hnul hlen]
  simp

theorem readDentryByName_eq_none_iff :
    readDentryByName fs fname = none ↔ ∀ m, m < 64 → entryName fs m ≠ fname := by
  unfold readDentryByName
  rw [strlen_eq_length hnul, if_neg (by omega), findDentryFrom_eq_none_iff hnul hlen]
  simp

end Scan

theorem readDentryByName_of_long {fname : List UInt8} (hnul : ∀ c ∈ fname, c ≠ 0)
    (hlong : 32 < fname.length) (fs : Mem) : readDentryByName fs fname = none := by
  unfold readDentryByName
  rw [strlen_eq_length hnul, if_pos hlong]

/-! ## The call -/

/-- `read_dentry_by_name`: its result and its stores into the caller's `dentry`. -/
def dentryByName (fs : Mem) (fname : List UInt8) : Int × Stores :=
  match readDentryByName fs fname with
  | none => (-1, [])
  | some i => (0, copyOut fs 0 (64 + 64 * i) 64)

/-- What a lookup in a directory of `n` entries is to do. -/
structure LooksUp (fs : Mem) (n : Nat) (fname : List UInt8) (r : Int × Stores) : Prop where
  accepts : r.1 = 0 ↔ fname.length ≤ 32 ∧ ∃ i, i < n ∧ entryName fs i = fname
  fills : r.1 = 0 → ∃ i, IsLeast {i | i < n ∧ entryName fs i = fname} i ∧
    r.2 = copyOut fs 0 (64 + 64 * i) 64
  refuses : r.1 ≠ 0 → r = (-1, [])

/-- No slot that is not recorded bears a name that no recorded one bears. -/
def NoStrayEntry (fs : Mem) (n : Nat) (fname : List UInt8) : Prop :=
  fname.length ≤ 32 → (∃ i, i < n ∧ entryName fs i = fname) ∨
    ∀ i, n ≤ i → i < 64 → entryName fs i ≠ fname

section Call

variable {fs : Mem} {fname : List UInt8} {n : Nat}

theorem dentryByName_none (h : readDentryByName fs fname = none) :
    dentryByName fs fname = (-1, []) := by
  unfold dentryByName
  rw [h]

theorem dentryByName_some {i : Nat} (h : readDentryByName fs fname = some i) :
    dentryByName fs fname = (0, copyOut fs 0 (64 + 64 * i) 64) := by
  unfold dentryByName
  rw [h]

/-- A recorded entry that bears the name is found before any other slot. -/
theorem isLeast_recorded (hn : n ≤ 63) {i : Nat}
    (hi : IsLeast {m | m < 64 ∧ entryName fs m = fname} i)
    (hrecorded : ∃ j, j < n ∧ entryName fs j = fname) :
    IsLeast {m | m < n ∧ entryName fs m = fname} i := by
  obtain ⟨j, hj, hname⟩ := hrecorded
  have hij : i ≤ j := hi.2 ⟨by omega, hname⟩
  constructor
  · exact ⟨by omega, hi.1.2⟩
  · rintro m ⟨hm, hmname⟩
    exact hi.2 ⟨by omega, hmname⟩

theorem looksUp_of_none (h : readDentryByName fs fname = none)
    (habsent : ¬ (fname.length ≤ 32 ∧ ∃ i, i < n ∧ entryName fs i = fname)) :
    LooksUp fs n fname (dentryByName fs fname) := by
  rw [dentryByName_none h]
  exact ⟨iff_of_false (by decide) habsent, fun h0 => absurd h0 (by decide), fun _ => rfl⟩

/--
`read_dentry_by_name` looks up the directory's names exactly if no slot beyond
the recorded ones is taken for an entry.
-/
theorem looksUp_iff_noStrayEntry (hcount : (n : Int) = numDirEntries fs) (hn : n ≤ 63)
    (hnul : ∀ c ∈ fname, c ≠ 0) :
    LooksUp fs n fname (dentryByName fs fname) ↔ NoStrayEntry fs n fname := by
  by_cases hlen : fname.length ≤ 32
  · cases hfind : readDentryByName fs fname with
    | none =>
        have hnone := (readDentryByName_eq_none_iff hnul hlen).mp hfind
        refine iff_of_true (looksUp_of_none hfind ?_) ?_
        · rintro ⟨-, i, hi, hname⟩
          exact hnone i (by omega) hname
        · intro _
          right
          intro i _ hi
          exact hnone i hi
    | some i =>
        have hleast := (readDentryByName_eq_some_iff hnul hlen i).mp hfind
        rw [dentryByName_some hfind]
        constructor
        · intro h _
          left
          exact (h.accepts.mp rfl).2
        · intro h
          have hrecorded : ∃ j, j < n ∧ entryName fs j = fname := by
            rcases h hlen with hrec | hstray
            · exact hrec
            · refine ⟨i, ?_, hleast.1.2⟩
              by_contra hge
              exact hstray i (by omega) hleast.1.1 hleast.1.2
          refine ⟨iff_of_true rfl ⟨hlen, hrecorded⟩, ?_, fun h0 => absurd rfl h0⟩
          intro _
          exact ⟨i, isLeast_recorded hn hleast hrecorded, rfl⟩
  · refine iff_of_true (looksUp_of_none ?_ ?_) (fun h => absurd h hlen)
    · exact readDentryByName_of_long hnul (by omega) fs
    · rintro ⟨h, -⟩
      exact hlen h

end Call

/-- The name `a` is recorded. -/
theorem looksUp_iff_noStrayEntry_recorded :
    (1 : Int) = numDirEntries oneFileImage ∧
      LooksUp oneFileImage 1 [0x61] (dentryByName oneFileImage [0x61]) := by
  have hcount : ((1 : Nat) : Int) = numDirEntries oneFileImage := by decide +kernel
  refine ⟨hcount, (looksUp_iff_noStrayEntry hcount (by decide) (by simp)).mpr ?_⟩
  intro _
  left
  exact ⟨0, by decide, by decide +kernel⟩

/-- The empty name is that of every slot that is not in use. -/
theorem empty_name_found :
    WellFormed oneFileImage ∧ (1 : Int) = numDirEntries oneFileImage ∧
      dentryByName oneFileImage [] = (0, copyOut oneFileImage 0 128 64) ∧
      ¬ LooksUp oneFileImage 1 [] (dentryByName oneFileImage []) := by
  have hfind : readDentryByName oneFileImage [] = some 1 := by decide +kernel
  refine ⟨oneFileImage_wellFormed, by decide +kernel, dentryByName_some hfind, ?_⟩
  intro h
  rw [dentryByName_some hfind] at h
  obtain ⟨-, i, hi, hname⟩ := h.accepts.mp rfl
  have hi0 : i = 0 := by omega
  subst hi0
  have hne : entryName oneFileImage 0 ≠ [] := by decide +kernel
  exact hne hname

end OopsOs
