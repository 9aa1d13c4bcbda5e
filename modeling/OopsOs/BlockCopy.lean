import OopsOs.Lib.ByteMem

/-!
# The block copies of `lib.c`

`memcpy` copies single bytes until the destination is 4-byte aligned, then
double words with `rep movsl`, then the remaining bytes.  A double word is
read in full before it is written.

`memcpy_eq_blit` is its specification: the copy is exact whenever it does not
run into source bytes that are still to be read.  `memmove` chooses the
direction in which that cannot happen (`memmove_eq_blit`).
-/

namespace OopsOs

open ByteMem

/-- The byte loop of `memcpy`: `n` times `movb (%esi), %al; movb %al, (%edi)`. -/
def copyBytes (m : Mem) (edi esi : Int) : Nat → Mem
  | 0 => m
  | n + 1 => copyBytes (m.store edi (m esi)) (edi + 1) (esi + 1) n

/-- One `movsl`. -/
def movsl (m : Mem) (edi esi : Int) : Mem :=
  (((m.store edi (m esi)).store (edi + 1) (m (esi + 1))).store
    (edi + 2) (m (esi + 2))).store (edi + 3) (m (esi + 3))

def repMovsl (m : Mem) (edi esi : Int) : Nat → Mem
  | 0 => m
  | n + 1 => repMovsl (movsl m edi esi) (edi + 4) (esi + 4) n

/-- From `.memcpy_aligned` on: `%ecx >> 2` double words and `%ecx & 3` bytes. -/
def memcpyAligned (m : Mem) (edi esi : Int) (ecx : Nat) : Mem :=
  copyBytes (repMovsl m edi esi (ecx / 4))
    (edi + (4 * (ecx / 4) : Nat)) (esi + (4 * (ecx / 4) : Nat)) (ecx % 4)

def memcpy (m : Mem) (edi esi : Int) : Nat → Mem
  | 0 => m
  | n + 1 =>
      if edi % 4 = 0 then memcpyAligned m edi esi (n + 1)
      else memcpy (m.store edi (m esi)) (edi + 1) (esi + 1) n

theorem store_eq_blit (m : Mem) (dst src : Int) :
    m.store dst (m src) = m.blit dst src 1 := by
  funext a
  rw [Mem.store_apply, Mem.blit_apply]
  by_cases h : a = dst
  · subst h
    rw [if_pos rfl, if_pos (by omega), sub_self, add_zero]
  · rw [if_neg h, if_neg (by omega)]

theorem movsl_eq_blit (m : Mem) (dst src : Int) :
    movsl m dst src = m.blit dst src 4 := by
  funext a
  simp only [movsl, Mem.store_apply, Mem.blit_apply]
  by_cases h3 : a = dst + 3
  · rw [if_pos h3, if_pos (by omega), h3]
    congr 1
    ring
  · rw [if_neg h3]
    by_cases h2 : a = dst + 2
    · rw [if_pos h2, if_pos (by omega), h2]
      congr 1
      ring
    · rw [if_neg h2]
      by_cases h1 : a = dst + 1
      · rw [if_pos h1, if_pos (by omega), h1]
        congr 1
        ring
      · rw [if_neg h1]
        by_cases h0 : a = dst
        · rw [if_pos h0, if_pos (by omega), h0, sub_self, add_zero]
        · rw [if_neg h0, if_neg (by omega)]

/-- Copying in blocks of width `w`, each of them exact, is exact as a whole. -/
theorem blocks_eq_blit {w : Nat} {block : Mem → Int → Int → Mem}
    {blocks : Mem → Int → Int → Nat → Mem}
    (hblock : ∀ m dst src, block m dst src = m.blit dst src w)
    (hzero : ∀ m dst src, blocks m dst src 0 = m)
    (hsucc : ∀ m dst src n,
      blocks m dst src (n + 1) = blocks (block m dst src) (dst + w) (src + w) n) :
    ∀ (n : Nat) (m : Mem) (dst src : Int), CopyUp dst src (w * n) →
      blocks m dst src n = m.blit dst src (w * n)
  | 0, m, dst, src, _ => by
      rw [hzero, Nat.mul_zero, Mem.blit_zero]
  | n + 1, m, dst, src, h => by
      have hw : w * (n + 1) = w + w * n := by ring
      rw [hw] at h ⊢
      rw [hsucc, hblock, blocks_eq_blit hblock hzero hsucc n _ _ _ h.tail,
        Mem.blit_blit _ _ _ _ _ h]

theorem copyBytes_eq_blit (n : Nat) (m : Mem) (dst src : Int)
    (h : CopyUp dst src n) :
    copyBytes m dst src n = m.blit dst src n := by
  have hbytes : copyBytes m dst src n = m.blit dst src (1 * n) :=
    blocks_eq_blit store_eq_blit (fun _ _ _ => rfl) (fun _ _ _ _ => rfl) n m dst src
      (by rwa [Nat.one_mul])
  rwa [Nat.one_mul] at hbytes

theorem repMovsl_eq_blit (n : Nat) (m : Mem) (dst src : Int)
    (h : CopyUp dst src (4 * n)) :
    repMovsl m dst src n = m.blit dst src (4 * n) :=
  blocks_eq_blit (w := 4) movsl_eq_blit
    (fun _ _ _ => rfl) (fun _ _ _ _ => rfl) n m dst src h

theorem CopyUp.head {dst src : Int} {w n : Nat} (h : CopyUp dst src (w + n)) :
    CopyUp dst src w := by
  unfold CopyUp at *
  push_cast at h
  omega

theorem memcpyAligned_eq_blit (m : Mem) (dst src : Int) (n : Nat)
    (h : CopyUp dst src n) :
    memcpyAligned m dst src n = m.blit dst src n := by
  have hn : 4 * (n / 4) + n % 4 = n := Nat.div_add_mod n 4
  rw [← hn] at h
  unfold memcpyAligned
  rw [repMovsl_eq_blit _ _ _ _ (CopyUp.head h), copyBytes_eq_blit _ _ _ _ h.tail,
    Mem.blit_blit _ _ _ _ _ h, hn]

/-- `memcpy` is exact when the regions are disjoint or the copy goes downwards. -/
theorem memcpy_eq_blit :
    ∀ (n : Nat) (m : Mem) (dst src : Int), CopyUp dst src n →
      memcpy m dst src n = m.blit dst src n
  | 0, m, dst, src, _ => by
      rw [memcpy, Mem.blit_zero]
  | n + 1, m, dst, src, h => by
      unfold memcpy
      by_cases ha : dst % 4 = 0
      · rw [if_pos ha]
        exact memcpyAligned_eq_blit m dst src (n + 1) h
      · have h' : CopyUp dst src (1 + n) := by rwa [Nat.add_comm]
        have ht : CopyUp (dst + 1) (src + 1) n := h'.tail
        rw [if_neg ha, store_eq_blit, memcpy_eq_blit n _ _ _ ht]
        have hb := Mem.blit_blit m dst src 1 n h'
        rwa [Nat.add_comm 1 n] at hb

/-! ## `memmove` -/

/-- What `movsb` adds to both pointers. -/
def stride (directionFlag : Bool) : Int := if directionFlag then -1 else 1

def repMovsb (directionFlag : Bool) (m : Mem) (edi esi : Int) : Nat → Mem
  | 0 => m
  | n + 1 =>
      repMovsb directionFlag (m.store edi (m esi)) (edi + stride directionFlag)
        (esi + stride directionFlag) n

/-- `cmp %edi, %esi; jae` takes the upward branch; the downward one starts at the last bytes. -/
def memmove (m : Mem) (edi esi : Int) (ecx : Nat) : Mem :=
  if esi ≥ edi then repMovsb false m edi esi ecx
  else repMovsb true m (-1 + edi + ecx) (-1 + esi + ecx) ecx

theorem repMovsb_up (n : Nat) (m : Mem) (dst src : Int) :
    repMovsb false m dst src n = copyBytes m dst src n := by
  induction n generalizing m dst src with
  | zero => rfl
  | succ n ih => exact ih (m.store dst (m src)) (dst + 1) (src + 1)

theorem repMovsb_down (n : Nat) (m : Mem) (dst src : Int) (h : src ≤ dst) :
    repMovsb true m (-1 + dst + n) (-1 + src + n) n = m.blit dst src n := by
  induction n generalizing m with
  | zero =>
      rw [Mem.blit_zero]
      rfl
  | succ n ih =>
      have hdst : -1 + dst + ((n + 1 : Nat) : Int) = dst + n := by push_cast; ring
      have hsrc : -1 + src + ((n + 1 : Nat) : Int) = src + n := by push_cast; ring
      have hdst' : dst + (n : Int) + stride true = -1 + dst + n := by unfold stride; grind
      have hsrc' : src + (n : Int) + stride true = -1 + src + n := by unfold stride; grind
      rw [hdst, hsrc, repMovsb, hdst', hsrc', ih, Mem.blit_store_last m n h]

theorem memmove_eq_blit (m : Mem) (dst src : Int) (n : Nat) :
    memmove m dst src n = m.blit dst src n := by
  unfold memmove
  by_cases hle : src ≥ dst
  · rw [if_pos hle, repMovsb_up, copyBytes_eq_blit n m dst src (.inl hle)]
  · rw [if_neg hle, repMovsb_down n m dst src (by omega)]

/--
`memmove` copies exactly and touches nothing else, whatever the overlap;
`memcpy` does the same on disjoint regions and downwards.
-/
theorem block_copies_exact (m : Mem) (dest src : Int) (n : Nat) :
    (∀ i : Nat, i < n → memmove m dest src n (dest + i) = m (src + i)) ∧
    (∀ a, a < dest ∨ dest + n ≤ a → memmove m dest src n a = m a) ∧
    ((dest + n ≤ src ∨ src + n ≤ dest) ∨ dest ≤ src →
      memcpy m dest src n = memmove m dest src n) := by
  rw [memmove_eq_blit]
  refine ⟨?_, ?_, ?_⟩
  · intro i hi
    rw [Mem.blit_apply, if_pos (by omega)]
    congr 1
    ring
  · intro a ha
    rw [Mem.blit_apply, if_neg (by omega)]
  · intro h
    have hup : CopyUp dest src n := by
      unfold CopyUp
      omega
    exact memcpy_eq_blit n m dest src hup

end OopsOs
