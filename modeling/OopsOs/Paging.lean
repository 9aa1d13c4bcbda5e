import OopsOs.ProgramWindow
import OopsOs.Lib.Machine
import OopsOs.Lib.PageWalk

/-!
# The page tables

`paging_init` maps the first 8 MB for the kernel, `vidmap` maps the video page
into one of three directory slots, and the program window is entry 32.  The
page directory is part of the kernel record; the three page tables and the
addresses they have been linked at are added here.

`Mapped` says what every entry of the directory and of the tables can be.  All
the functions that store into them keep it, and `Mapped.translate_low`,
`Mapped.translate_window` and `Mapped.translate_other` read off from it where
the processor takes each linear address.
-/

namespace OopsOs

open ByteMem Machine PageWalk

/--
The addresses of the three arrays.  They are aligned to pages, and the linker
puts them into the 4 MB of the kernel.
-/
structure PageLayout where
  pTable : Nat
  pTable2 : Nat
  videopTable : Nat
  aligned : 2 ^ 12 ∣ pTable ∧ 2 ^ 12 ∣ pTable2 ∧ 2 ^ 12 ∣ videopTable
  linked : ∀ x ∈ [pTable, pTable2, videopTable], fourMb ≤ x ∧ x < eightMb
  apart : pTable ≠ pTable2 ∧ pTable ≠ videopTable ∧ pTable2 ≠ videopTable

/-- The kernel with its page tables, and the process that the window was last set for. -/
structure PagedKernel where
  kernel : Kernel
  pTable : Nat → Nat
  pTable2 : Nat → Nat
  videopTable : Nat → Nat
  selected : Option (Fin 6)

/-- `paging_init`; entries from 1024 on are not part of the arrays. -/
def pagingInit (L : PageLayout) (s : PagedKernel) : PagedKernel where
  kernel :=
    let pDirectory := fun i => if i < 1024 then 0x2 else s.kernel.pDirectory i
    let pDirectory := Function.update pDirectory 0 (L.pTable ||| 3)
    let pDirectory := Function.update pDirectory 1 (L.pTable2 ||| 0x83)
    { s.kernel with pDirectory := Function.update pDirectory 33 L.videopTable }
  pTable := fun i => if i < 1024 then (i * 0x1000) ||| 3 else s.pTable i
  pTable2 := Function.update s.pTable2 0 0x400000
  videopTable := fun i => if i < 1024 then 2 else s.videopTable i
  selected := none

/-- What `vidmap` leaves: the state, its result, and the store into `*screen_start`. -/
structure VidmapCall where
  state : PagedKernel
  value : Int
  stored : Option Nat

/-- `process_term_num` in `vidmap`: -1 if no terminal has the process. -/
def processTermNum (k : Kernel) (slot : Fin 6) : Int :=
  (processTerm k (k.pcb slot).processNum).elim (-1) (fun t => (t.val : Int))

/-- `vidmap`, called by the process of slot `slot`. -/
def vidmap (L : PageLayout) (s : PagedKernel) (slot : Fin 6) (screenStart : Nat) : VidmapCall :=
  if screenStart = 0 ∨ screenStart < 0x8000000 ∨
      screenStart > 0x8000000 + fourMb * (s.kernel.activeTerminal.val + 1) then
    ⟨s, -1, none⟩
  else
    { state :=
        { s with
          kernel :=
            { s.kernel with
              pDirectory := Function.update s.kernel.pDirectory
                (33 + processTermNum s.kernel slot).toNat (L.videopTable ||| 7) }
          videopTable := Function.update s.videopTable 0
            ((0xB8000 + processTermNum s.kernel slot).toNat ||| 7) }
      value := screenStart
      stored := some (0x8000000 + fourMb * (processTermNum s.kernel slot + 1)).toNat }

/-- The page table at a physical address; `elsewhere` is what other pages hold. -/
def PagedKernel.tableAt (L : PageLayout) (s : PagedKernel) (elsewhere : Nat → Nat → Nat)
    (base : Nat) : Nat → Nat :=
  if base = L.pTable then s.pTable
  else if base = L.pTable2 then s.pTable2
  else if base = L.videopTable then s.videopTable
  else elsewhere base

/-- Where the processor takes a linear address. -/
def PagedKernel.translate (L : PageLayout) (s : PagedKernel) (elsewhere : Nat → Nat → Nat)
    (a : Nat) : Option Mapping :=
  PageWalk.translate s.kernel.pDirectory (s.tableAt L elsewhere) a

inductive PageEvent
  | execute (cmd : List UInt8) (saved : Context)
  | halt (slot : Fin 6) (saved : Context)
  | tick (c inner : Context)
  | vidmap (slot : Fin 6) (screenStart : Nat)
  /-- Anything else that the kernel does. -/
  | other (f : Kernel → Kernel)

/-- A kernel function that selects a process, or none. -/
def PagedKernel.select (s : PagedKernel) (k : Kernel) (p : Option (Fin 6)) : PagedKernel :=
  { s with kernel := k, selected := p.or s.selected }

def pageStep (L : PageLayout) (s : PagedKernel) : PageEvent → Option PagedKernel
  | .execute cmd saved =>
      some (s.select (OopsOs.execute s.kernel cmd saved).1 (OopsOs.execute s.kernel cmd saved).2)
  | .halt slot saved =>
      if (haltSelects s.kernel slot saved).isSome then
        some (s.select (OopsOs.halt s.kernel slot saved).1 (haltSelects s.kernel slot saved))
      else none
  | .tick c inner =>
      some (s.select (pitHandler s.kernel c inner).1 (tickSelects s.kernel c inner))
  | .vidmap slot screenStart => some (OopsOs.vidmap L s slot screenStart).state
  | .other f => some { s with kernel := f s.kernel }

/--
`vidmap` is called by processes that are the `process_num` of a terminal, and
what else the kernel does leaves the page directory alone.
-/
def PageGuard (s : PagedKernel) : PageEvent → Prop
  | .vidmap slot _ => processTerm s.kernel (s.kernel.pcb slot).processNum ≠ none
  | .other f => ∀ k, (f k).pDirectory = k.pDirectory
  | _ => True

/-! ## The invariant -/

structure Mapped (L : PageLayout) (s : PagedKernel) : Prop where
  low : s.kernel.pDirectory 0 = L.pTable ||| 3
  high : s.kernel.pDirectory 1 = L.pTable2 ||| 0x83
  window : s.kernel.pDirectory 32 = s.selected.elim 0x2 programPage
  video : ∀ t : Fin 3, s.kernel.pDirectory (33 + t.val) = L.videopTable ||| 7 ∨
    s.kernel.pDirectory (33 + t.val) = 0x2 ∨ s.kernel.pDirectory (33 + t.val) = L.videopTable
  absent : ∀ i, i < 1024 → i ≠ 0 → i ≠ 1 → i ≠ 32 → (∀ t : Fin 3, i ≠ 33 + t.val) →
    s.kernel.pDirectory i = 0x2
  pTable : ∀ i, i < 1024 → s.pTable i = (i * 0x1000) ||| 3
  videoPage : s.videopTable 0 = 0x2 ∨ s.videopTable 0 = 0xB8000 ||| 7
  videoRest : ∀ i, 0 < i → i < 1024 → s.videopTable i = 0x2

theorem pagingInit_mapped (L : PageLayout) (s : PagedKernel) : Mapped L (pagingInit L s) := by
  refine ⟨?_, ?_, ?_, ?_, ?_, ?_, ?_, ?_⟩
  · simp [pagingInit]
  · simp [pagingInit]
  · simp [pagingInit]
  · intro t
    by_cases ht : t = 0
    · subst ht
      simp [pagingInit]
    · have h1 : 33 + t.val ≠ 1 := by omega
      have hlt : 33 + t.val < 1024 := by omega
      right
      left
      simp [pagingInit, ht, h1, hlt]
  · intro i hlt h0 h1 h32 ht
    have h33 : i ≠ 33 := by simpa using ht 0
    simp [pagingInit, h33, h0, h1, hlt]
  · intro i hlt
    simp [pagingInit, hlt]
  · simp [pagingInit]
  · intro i _ hlt
    simp [pagingInit, hlt]

/-- The number of the terminal does not reach beyond the flag bits. -/
theorem videoEntry : ∀ t : Fin 3, (0xB8000 + (t.val : Int)).toNat ||| 7 = 0xB8000 ||| 7 := by
  decide

/-- Of the kernel's variables `vidmap` changes the page directory at most. -/
theorem vidmap_kernel (L : PageLayout) (s : PagedKernel) (slot : Fin 6) (screenStart : Nat) :
    ∃ pDirectory,
      (vidmap L s slot screenStart).state.kernel = { s.kernel with pDirectory := pDirectory } := by
  unfold vidmap
  split_ifs
  · exact ⟨s.kernel.pDirectory, rfl⟩
  · exact ⟨_, rfl⟩

/-- `vidmap` for a process of terminal `t`: the video page, whatever `t` is. -/
theorem vidmap_eq (L : PageLayout) (s : PagedKernel) {slot : Fin 6} {t : Fin 3}
    (ht : processTerm s.kernel (s.kernel.pcb slot).processNum = some t) (screenStart : Nat) :
    vidmap L s slot screenStart =
      if screenStart = 0 ∨ screenStart < 0x8000000 ∨
          screenStart > 0x8000000 + fourMb * (s.kernel.activeTerminal.val + 1) then
        ⟨s, -1, none⟩
      else
        { state :=
            { s with
              kernel :=
                { s.kernel with
                  pDirectory := Function.update s.kernel.pDirectory (33 + t.val)
                    (L.videopTable ||| 7) }
              videopTable := Function.update s.videopTable 0 (0xB8000 ||| 7) }
          value := screenStart
          stored := some (0x8000000 + fourMb * (t.val + 1)) } := by
  have hnum : processTermNum s.kernel slot = (t.val : Int) := by
    rw [processTermNum, ht]
    rfl
  have hindex : (33 + (t.val : Int)).toNat = 33 + t.val := by omega
  have haddr : (0x8000000 + fourMb * ((t.val : Int) + 1)).toNat =
      0x8000000 + fourMb * (t.val + 1) := by
    unfold fourMb
    omega
  unfold vidmap
  rw [hnum, hindex, haddr, videoEntry t]

section Steps

variable {L : PageLayout} {s : PagedKernel} (h : Mapped L s)
include h

/-- A function that changes the directory in the window at most. -/
theorem Mapped.select {k : Kernel} {p : Option (Fin 6)}
    (hk : k.pDirectory = setWindow s.kernel.pDirectory p) : Mapped L (s.select k p) := by
  have hother : ∀ i, i ≠ 32 → k.pDirectory i = s.kernel.pDirectory i := by
    intro i hi
    rw [hk]
    cases p with
    | none => rfl
    | some p => simp [hi]
  refine ⟨?_, ?_, ?_, ?_, ?_, h.pTable, h.videoPage, h.videoRest⟩
  · rw [PagedKernel.select, hother 0 (by decide)]
    exact h.low
  · rw [PagedKernel.select, hother 1 (by decide)]
    exact h.high
  · rw [PagedKernel.select, hk]
    cases p with
    | none => exact h.window
    | some p => simp
  · intro t
    rw [PagedKernel.select, hother _ (by omega)]
    exact h.video t
  · intro i hlt h0 h1 h32 ht
    rw [PagedKernel.select, hother i h32]
    exact h.absent i hlt h0 h1 h32 ht

theorem Mapped.vidmap {slot : Fin 6}
    (hslot : processTerm s.kernel (s.kernel.pcb slot).processNum ≠ none) (screenStart : Nat) :
    Mapped L (vidmap L s slot screenStart).state := by
  obtain ⟨t, ht⟩ := Option.ne_none_iff_exists'.mp hslot
  rw [vidmap_eq L s ht]
  split_ifs
  · exact h
  · have hother : ∀ i, i ≠ 33 + t.val →
        Function.update s.kernel.pDirectory (33 + t.val) (L.videopTable ||| 7) i =
          s.kernel.pDirectory i := by
      intro i hi
      exact Function.update_of_ne hi _ _
    refine ⟨?_, ?_, ?_, ?_, ?_, h.pTable, ?_, ?_⟩
    · simp only [hother 0 (by omega)]
      exact h.low
    · simp only [hother 1 (by omega)]
      exact h.high
    · simp only [hother 32 (by omega)]
      exact h.window
    · intro u
      by_cases hu : u = t
      · subst hu
        left
        simp
      · simp only [hother (33 + u.val) (by omega)]
        exact h.video u
    · intro i hlt h0 h1 h32 hu
      simp only [hother i (hu t)]
      exact h.absent i hlt h0 h1 h32 hu
    · right
      simp
    · intro i hpos hlt
      simp only [Function.update_of_ne (show i ≠ 0 by omega)]
      exact h.videoRest i hpos hlt

theorem pageStep_mapped {e : PageEvent} {s' : PagedKernel} (hguard : PageGuard s e)
    (hstep : pageStep L s e = some s') : Mapped L s' := by
  cases e with
  | execute cmd saved =>
      obtain rfl := Option.some.inj hstep
      exact h.select (execute_window s.kernel cmd saved).1
  | halt slot saved =>
      simp only [pageStep] at hstep
      split_ifs at hstep
      obtain rfl := Option.some.inj hstep
      exact h.select (halt_window s.kernel slot saved)
  | tick c inner =>
      obtain rfl := Option.some.inj hstep
      exact h.select (pitHandler_window s.kernel c inner).1
  | vidmap slot screenStart =>
      obtain rfl := Option.some.inj hstep
      exact h.vidmap hguard screenStart
  | other f =>
      obtain rfl := Option.some.inj hstep
      exact h.select (p := none) (hguard s.kernel)

end Steps

theorem run_mapped {L : PageLayout} {s₀ s : PagedKernel} {es : List PageEvent}
    (hrun : Run (pageStep L) PageGuard (pagingInit L s₀) es s) : Mapped L s :=
  hrun.invariant (fun _ _ _ hI hC hs => pageStep_mapped hI hC hs) (pagingInit_mapped L s₀)

/-! ## Where the addresses go -/

section Translation

variable {L : PageLayout} {s : PagedKernel} (h : Mapped L s) (elsewhere : Nat → Nat → Nat)
include h

/-- The first 4 MB go through the first page table. -/
theorem Mapped.translate_first {a : Nat} (ha : a < fourMb) :
    s.translate L elsewhere a = some ⟨a, false⟩ := by
  unfold fourMb at ha
  have hentry : s.kernel.pDirectory (a / 2 ^ 22) = L.pTable ||| 3 := by
    rw [show a / 2 ^ 22 = 0 by omega]
    exact h.low
  have htable : s.tableAt L elsewhere L.pTable (a / 2 ^ 12 % 2 ^ 10) =
      (a / 2 ^ 12 * 0x1000) ||| 3 := by
    rw [PagedKernel.tableAt, if_pos rfl, show a / 2 ^ 12 % 2 ^ 10 = a / 2 ^ 12 by omega]
    exact h.pTable _ (by omega)
  have halign : 2 ^ 12 ∣ a / 2 ^ 12 * 0x1000 := Dvd.intro_left (a / 2 ^ 12) rfl
  rw [PagedKernel.translate, translate_table hentry L.aligned.1 (by decide) (by decide)
    (by decide), htable, walkTable, present_entry halign, entry_frame halign (by decide),
    user_entry L.aligned.1, if_pos (by decide)]
  congr 2
  omega

/-- The next 4 MB are one page, the kernel's own. -/
theorem Mapped.translate_second {a : Nat} (hlow : fourMb ≤ a) (ha : a < eightMb) :
    s.translate L elsewhere a = some ⟨a, false⟩ := by
  have hlinked := L.linked L.pTable2 (by simp)
  unfold fourMb at hlow hlinked
  unfold eightMb at ha hlinked
  have hentry : s.kernel.pDirectory (a / 2 ^ 22) = L.pTable2 ||| 0x83 := by
    rw [show a / 2 ^ 22 = 1 by omega]
    exact h.high
  rw [PagedKernel.translate, translate_large hentry L.aligned.2.1 (by decide) (by decide)
    (by decide)]
  congr 2
  omega

theorem Mapped.translate_low {a : Nat} (ha : a < eightMb) :
    s.translate L elsewhere a = some ⟨a, false⟩ := by
  rcases Nat.lt_or_ge a fourMb with hlt | hge
  · exact h.translate_first elsewhere hlt
  · exact h.translate_second elsewhere hge ha

/-- The program window goes to the 4 MB of the selected process. -/
theorem Mapped.translate_window {a : Nat} (hlow : 0x8000000 ≤ a) (hhigh : a < 0x8400000) :
    s.translate L elsewhere a =
      s.selected.map (fun p => ⟨eightMb + fourMb * p.val + (a - 0x8000000), true⟩) := by
  have hslot : a / 2 ^ 22 = 32 := by omega
  have hwindow := h.window
  rw [PagedKernel.translate]
  cases hsel : s.selected with
  | none =>
      rw [hsel] at hwindow
      refine translate_absent ?_
      rw [hslot, hwindow]
      decide
  | some p =>
      rw [hsel] at hwindow
      have hentry : s.kernel.pDirectory (a / 2 ^ 22) = (eightMb + fourMb * p.val) ||| 0x87 := by
        rw [hslot, hwindow]
        rfl
      have halign : 2 ^ 12 ∣ eightMb + fourMb * p.val := by
        unfold eightMb fourMb
        omega
      rw [translate_large hentry halign (by decide) (by decide) (by decide)]
      simp only [Option.map_some, Option.some.injEq, Mapping.mk.injEq]
      refine ⟨?_, by decide⟩
      unfold eightMb fourMb
      omega

/-- The page table of the video slots maps the first page, to the video page, or nothing. -/
theorem Mapped.videoEntry_cases {i : Nat} (hi : i < 1024) :
    s.videopTable i = 0x2 ∨ i = 0 ∧ s.videopTable i = 0xB8000 ||| 7 := by
  rcases Nat.eq_zero_or_pos i with rfl | hpos
  · rcases h.videoPage with h0 | h0
    · exact Or.inl h0
    · exact Or.inr ⟨rfl, h0⟩
  · exact Or.inl (h.videoRest i hpos hi)

/-- What is mapped in a video slot is its first page, and it is the video page. -/
theorem Mapped.translate_video {a : Nat} {t : Fin 3} (hslot : a / 2 ^ 22 = 33 + t.val)
    {m : Mapping} (hm : s.translate L elsewhere a = some m) :
    a / 2 ^ 12 % 2 ^ 10 = 0 ∧ m = ⟨0xB8000 + a % 2 ^ 12, true⟩ := by
  rw [PagedKernel.translate] at hm
  rcases h.video t with hentry | hentry | hentry
  · rw [← hslot] at hentry
    rw [translate_table hentry L.aligned.2.2 (by decide) (by decide) (by decide)] at hm
    have htable : s.tableAt L elsewhere L.videopTable = s.videopTable := by
      rw [PagedKernel.tableAt, if_neg (Ne.symm L.apart.2.1), if_neg (Ne.symm L.apart.2.2),
        if_pos rfl]
    rw [htable, walkTable] at hm
    rcases h.videoEntry_cases (i := a / 2 ^ 12 % 2 ^ 10) (Nat.mod_lt _ (by decide)) with
      hpte | ⟨hzero, hpte⟩
    · rw [hpte] at hm
      cases hm
    · rw [hpte, user_entry L.aligned.2.2] at hm
      refine ⟨hzero, ?_⟩
      exact (Option.some.inj hm).symm
  · rw [translate_absent (by rw [hslot, hentry]; decide)] at hm
    cases hm
  · have habsent : present (L.videopTable ||| 0) = false := by
      rw [present_entry L.aligned.2.2]
      decide
    rw [Nat.or_zero] at habsent
    rw [translate_absent (by rw [hslot, hentry]; exact habsent)] at hm
    cases hm

/-- Nothing else is mapped. -/
theorem Mapped.translate_other {a : Nat} (ha : a < 2 ^ 32) (hlow : eightMb ≤ a)
    (hwindow : ¬ (0x8000000 ≤ a ∧ a < 0x8400000)) {m : Mapping}
    (hm : s.translate L elsewhere a = some m) :
    ∃ t : Fin 3, fourMb * (33 + t.val) ≤ a ∧ a < fourMb * (33 + t.val) + 0x1000 ∧
      m = ⟨0xB8000 + (a - fourMb * (33 + t.val)), true⟩ := by
  by_cases hvideo : ∃ t : Fin 3, a / 2 ^ 22 = 33 + t.val
  · obtain ⟨t, ht⟩ := hvideo
    obtain ⟨hpage, hphys⟩ := h.translate_video elsewhere ht hm
    unfold fourMb
    refine ⟨t, by omega, by omega, ?_⟩
    rw [hphys]
    congr 1
    omega
  · push Not at hvideo
    unfold eightMb at hlow
    have habsent := h.absent (a / 2 ^ 22) (by omega) (by omega) (by omega) (by omega) hvideo
    rw [PagedKernel.translate, translate_absent (by rw [habsent]; decide)] at hm
    cases hm

end Translation

/-! ## Isolation -/

/--
The kernel's 8 MB are mapped to themselves and closed to user code, the program
window goes to the 4 MB of the selected process, and the only other pages are
the video page in the three video slots.
-/
structure Isolated (L : PageLayout) (s : PagedKernel) (elsewhere : Nat → Nat → Nat) : Prop where
  kernel : ∀ a, a < eightMb → s.translate L elsewhere a = some ⟨a, false⟩
  window : ∀ a, 0x8000000 ≤ a → a < 0x8400000 →
    s.translate L elsewhere a =
      s.selected.map (fun p => ⟨eightMb + fourMb * p.val + (a - 0x8000000), true⟩)
  video : ∀ a, a < 2 ^ 32 → eightMb ≤ a → ¬ (0x8000000 ≤ a ∧ a < 0x8400000) →
    ∀ m, s.translate L elsewhere a = some m →
    ∃ t : Fin 3, fourMb * (33 + t.val) ≤ a ∧ a < fourMb * (33 + t.val) + 0x1000 ∧
      m = ⟨0xB8000 + (a - fourMb * (33 + t.val)), true⟩
  user : ∀ a, a < 2 ^ 32 → ∀ m, s.translate L elsewhere a = some m → m.user = true →
    (∃ p : Fin 6, s.selected = some p ∧ eightMb + fourMb * p.val ≤ m.physical ∧
      m.physical < eightMb + fourMb * (p.val + 1)) ∨
    (0xB8000 ≤ m.physical ∧ m.physical < 0xB8000 + 0x1000)

/-- User code gets at the memory of the selected process and at the video page only. -/
theorem Mapped.user_cases {L : PageLayout} {s : PagedKernel} (h : Mapped L s)
    (elsewhere : Nat → Nat → Nat) {a : Nat} (ha : a < 2 ^ 32) {m : Mapping}
    (hm : s.translate L elsewhere a = some m) (huser : m.user = true) :
    (∃ p : Fin 6, s.selected = some p ∧ eightMb + fourMb * p.val ≤ m.physical ∧
      m.physical < eightMb + fourMb * (p.val + 1)) ∨
    (0xB8000 ≤ m.physical ∧ m.physical < 0xB8000 + 0x1000) := by
  rcases Nat.lt_or_ge a eightMb with hlow | hhigh
  · rw [h.translate_low elsewhere hlow] at hm
    cases hm
    cases huser
  · by_cases hwindow : 0x8000000 ≤ a ∧ a < 0x8400000
    · left
      rw [h.translate_window elsewhere hwindow.1 hwindow.2] at hm
      obtain ⟨p, hp, rfl⟩ := Option.map_eq_some_iff.mp hm
      refine ⟨p, hp, ?_, ?_⟩
      · simp only
        omega
      · simp only [fourMb]
        omega
    · right
      obtain ⟨t, hge, hlt, rfl⟩ := h.translate_other elsewhere ha hhigh hwindow hm
      simp only
      omega

theorem Mapped.isolated {L : PageLayout} {s : PagedKernel} (h : Mapped L s)
    (elsewhere : Nat → Nat → Nat) : Isolated L s elsewhere where
  kernel _ ha := h.translate_low elsewhere ha
  window _ hlow hhigh := h.translate_window elsewhere hlow hhigh
  video _ ha hlow hwindow _ hm := h.translate_other elsewhere ha hlow hwindow hm
  user _ ha _ hm huser := h.user_cases elsewhere ha hm huser

/--
After `paging_init` and any sequence of window changes and `vidmap` calls the
address spaces are isolated; and while different processes are selected, the
program window never leads to the same physical frame.
-/
theorem run_isolates {L : PageLayout} {s₀ s : PagedKernel} {es : List PageEvent}
    (hrun : Run (pageStep L) PageGuard (pagingInit L s₀) es s) (elsewhere : Nat → Nat → Nat) :
    Isolated L s elsewhere ∧
      ∀ s₀' es' s', Run (pageStep L) PageGuard (pagingInit L s₀') es' s' →
        ∀ p p', s.selected = some p → s'.selected = some p' → p ≠ p' →
        ∀ a a', 0x8000000 ≤ a → a < 0x8400000 → 0x8000000 ≤ a' → a' < 0x8400000 →
        ∀ m m', s.translate L elsewhere a = some m → s'.translate L elsewhere a' = some m' →
          m.physical / 0x1000 ≠ m'.physical / 0x1000 := by
  have h := run_mapped hrun
  refine ⟨h.isolated elsewhere, ?_⟩
  intro s₀' es' s' hrun' p p' hp hp' hne a a' ha1 ha2 ha1' ha2' m m' hm hm'
  rw [h.translate_window elsewhere ha1 ha2, hp] at hm
  rw [(run_mapped hrun').translate_window elsewhere ha1' ha2', hp'] at hm'
  simp only [Option.map_some, Option.some.injEq] at hm hm'
  subst hm hm'
  have hval : p.val ≠ p'.val := fun heq => hne (Fin.ext heq)
  simp only [eightMb, fourMb]
  omega

/-- The three arrays on successive pages of the kernel. -/
def successivePages : PageLayout where
  pTable := 0x401000
  pTable2 := 0x402000
  videopTable := 0x403000
  aligned := by decide
  linked := by decide
  apart := by decide

/-- A kernel with one executable, `shell`, and blank page tables. -/
def shellPaged : PagedKernel :=
  ⟨Kernel.zero (fun _ => 0) shellImage, fun _ => 0, fun _ => 0, fun _ => 0, none⟩

theorem run_isolates_shell :
    ∃ s, Run (pageStep successivePages) PageGuard (pagingInit successivePages shellPaged)
        [.vidmap 0 0x8000004, .execute shellCommand .zero] s ∧
      s.selected = some 0 ∧ Isolated successivePages s (fun _ _ => 0) := by
  have hguard : processTerm (pagingInit successivePages shellPaged).kernel
      ((pagingInit successivePages shellPaged).kernel.pcb 0).processNum ≠ none := by
    decide
  have hrun : Run (pageStep successivePages) PageGuard (pagingInit successivePages shellPaged)
      [.vidmap 0 0x8000004, .execute shellCommand .zero] _ :=
    Run.cons hguard rfl (Run.cons trivial rfl (Run.nil _))
  refine ⟨_, hrun, ?_, (run_isolates hrun (fun _ _ => 0)).1⟩
  decide +kernel

end OopsOs
