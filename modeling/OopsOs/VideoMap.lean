import OopsOs.Paging
import OopsOs.Switching

/-!
# Drawing through a video mapping

A process that has called `vidmap` stores into the page it was given.  That
page is to be the screen of its own terminal, displayed or not.

`vidmap` puts `(0xB8000 + process_term_num) | 7` into the one table that all
three directory slots share: the number of the terminal disappears in the flag
bits, and nothing changes the entry when terminals are switched.  A store
therefore goes to the video page at any time (`VideoMapped.translate_returned`),
which is the process's own screen exactly while its terminal is displayed.
-/

namespace OopsOs

open ByteMem Machine PageWalk

/-- The paged kernel, and the address that `vidmap` returned to a process of each terminal. -/
structure VideoState where
  paged : PagedKernel
  returned : Fin 3 → Option Nat

/-- A store of user code to a linear address; `none` is a page fault. -/
def userStore (L : PageLayout) (elsewhere : Nat → Nat → Nat) (s : PagedKernel) (a : Nat)
    (b : UInt8) : Option PagedKernel :=
  (s.translate L elsewhere a).bind (fun m =>
    if m.user then
      some { s with kernel := s.kernel.setMem (s.kernel.console.mem.store m.physical b) }
    else none)

inductive VideoEvent
  | vidmap (slot : Fin 6) (screenStart : Nat)
  | switch (newActive : Fin 3)
  /-- A store to offset `o` of the page that a process of terminal `t` was given. -/
  | store (t : Fin 3) (o : Nat) (b : UInt8)
  /-- Anything else that the kernel does. -/
  | other (f : Kernel → Kernel)

def videoStep (L : PageLayout) (elsewhere : Nat → Nat → Nat) (s : VideoState) :
    VideoEvent → Option VideoState
  | .vidmap slot screenStart =>
      (processTerm s.paged.kernel (s.paged.kernel.pcb slot).processNum).map (fun t =>
        { paged := (OopsOs.vidmap L s.paged slot screenStart).state
          returned :=
            if (OopsOs.vidmap L s.paged slot screenStart).value = -1 then s.returned
            else Function.update s.returned t (OopsOs.vidmap L s.paged slot screenStart).stored })
  | .switch newActive =>
      some
        { s with
          paged := { s.paged with kernel := saveAndSwitchTerm s.paged.kernel newActive } }
  | .store t o b =>
      (s.returned t).bind (fun v =>
        (userStore L elsewhere s.paged (v + o) b).map (fun paged => { s with paged := paged }))
  | .other f => some { s with paged := { s.paged with kernel := f s.paged.kernel } }

/-- Stores stay in the page; the rest of the kernel leaves the pages of the screens in place. -/
def VideoGuard (_ : VideoState) : VideoEvent → Prop
  | .store _ o _ => o < 4096
  | .other f => ∀ k, (Laid k → Laid (f k)) ∧
      ∀ t : Fin 3, (f k).pDirectory (33 + t.val) = k.pDirectory (33 + t.val)
  | _ => True

/-- The kernel with the paging and the terminals set up. -/
def VideoState.start (L : PageLayout) (mem fs : Mem) (pTable pTable2 videopTable : Nat → Nat) :
    VideoState :=
  ⟨pagingInit L ⟨terminalOpen (Kernel.zero mem fs), pTable, pTable2, videopTable, none⟩,
    fun _ => none⟩

/-! ## The mapping stays what it is -/

structure VideoMapped (L : PageLayout) (s : VideoState) : Prop where
  laid : Laid s.paged.kernel
  mapped : ∀ t v, s.returned t = some v →
    v = 0x8000000 + fourMb * (t.val + 1) ∧
    s.paged.kernel.pDirectory (33 + t.val) = L.videopTable ||| 7 ∧
    s.paged.videopTable 0 = 0xB8000 ||| 7

theorem start_videoMapped (L : PageLayout) (mem fs : Mem) (pTable pTable2 videopTable : Nat → Nat) :
    VideoMapped L (VideoState.start L mem fs pTable pTable2 videopTable) := by
  refine ⟨⟨?_, ?_⟩, ?_⟩
  · exact (terminalOpen_console (Kernel.zero mem fs)).1
  · exact fun t => (terminalOpen_terminal (Kernel.zero mem fs) t).1
  · intro t v hv
    cases hv

section Steps

variable {L : PageLayout} {s : VideoState} (h : VideoMapped L s)
include h

/-- A kernel function that leaves the video slots and the storage pages in place. -/
theorem VideoMapped.of_kernel {k : Kernel} (hlaid : Laid k)
    (hdir : ∀ t : Fin 3, k.pDirectory (33 + t.val) = s.paged.kernel.pDirectory (33 + t.val)) :
    VideoMapped L { s with paged := { s.paged with kernel := k } } := by
  refine ⟨hlaid, ?_⟩
  intro t v hv
  obtain ⟨haddr, hentry, hpage⟩ := h.mapped t v hv
  exact ⟨haddr, (hdir t).trans hentry, hpage⟩

theorem VideoMapped.vidmap {slot : Fin 6} {t : Fin 3}
    (ht : processTerm s.paged.kernel (s.paged.kernel.pcb slot).processNum = some t)
    (screenStart : Nat) :
    VideoMapped L
      { paged := (vidmap L s.paged slot screenStart).state
        returned :=
          if (vidmap L s.paged slot screenStart).value = -1 then s.returned
          else Function.update s.returned t (vidmap L s.paged slot screenStart).stored } := by
  rw [vidmap_eq L s.paged ht]
  split_ifs with hbad hvalue hvalue
  · exact h
  · exact absurd rfl hvalue
  · -- a refused call is the only one with result -1
    simp at hvalue
  · refine ⟨⟨h.laid.videoMem, h.laid.storage⟩, ?_⟩
    intro u v hv
    simp only [Function.update_self, and_true]
    by_cases hu : u = t
    · subst hu
      simp only [Function.update_self, Option.some.injEq] at hv
      exact ⟨hv.symm, Function.update_self _ _ _⟩
    · simp only [Function.update_of_ne hu] at hv
      obtain ⟨haddr, hentry, -⟩ := h.mapped u v hv
      refine ⟨haddr, ?_⟩
      rw [Function.update_of_ne (by omega)]
      exact hentry

theorem VideoMapped.userStore {elsewhere : Nat → Nat → Nat} {a : Nat} {b : UInt8} {p : PagedKernel}
    (hp : userStore L elsewhere s.paged a b = some p) : VideoMapped L { s with paged := p } := by
  unfold OopsOs.userStore at hp
  cases htrans : s.paged.translate L elsewhere a with
  | none =>
      rw [htrans] at hp
      cases hp
  | some m =>
      rw [htrans] at hp
      simp only [Option.bind_some] at hp
      split_ifs at hp
      obtain rfl := Option.some.inj hp
      exact h.of_kernel ⟨h.laid.videoMem, h.laid.storage⟩ (fun _ => rfl)

theorem videoStep_mapped {elsewhere : Nat → Nat → Nat} {e : VideoEvent} {s' : VideoState}
    (hguard : VideoGuard s e) (hstep : videoStep L elsewhere s e = some s') : VideoMapped L s' := by
  cases e with
  | vidmap slot screenStart =>
      obtain ⟨t, ht, rfl⟩ := Option.map_eq_some_iff.mp hstep
      exact h.vidmap ht screenStart
  | switch newActive =>
      obtain rfl := Option.some.inj hstep
      refine h.of_kernel (saveAndSwitchTerm_laid h.laid newActive) ?_
      intro t
      rw [(saveAndSwitchTerm_window s.paged.kernel newActive).pDirectory]
  | store t o b =>
      obtain ⟨v, -, hv⟩ := Option.bind_eq_some_iff.mp hstep
      obtain ⟨p, hp, rfl⟩ := Option.map_eq_some_iff.mp hv
      exact h.userStore hp
  | other f =>
      obtain rfl := Option.some.inj hstep
      obtain ⟨hlaid, hdir⟩ := hguard s.paged.kernel
      exact h.of_kernel (hlaid h.laid) hdir

end Steps

theorem run_videoMapped {L : PageLayout} {elsewhere : Nat → Nat → Nat} {mem fs : Mem}
    {pTable pTable2 videopTable : Nat → Nat} {s : VideoState} {es : List VideoEvent}
    (hrun : Run (videoStep L elsewhere) VideoGuard
      (VideoState.start L mem fs pTable pTable2 videopTable) es s) : VideoMapped L s :=
  hrun.invariant (fun _ _ _ hI hC hs => videoStep_mapped hI hC hs)
    (start_videoMapped L mem fs pTable pTable2 videopTable)

/-! ## Where a store goes -/

/-- What was returned leads to the video page, whichever terminal is displayed. -/
theorem VideoMapped.translate_returned {L : PageLayout} {s : VideoState} (h : VideoMapped L s)
    (elsewhere : Nat → Nat → Nat) {t : Fin 3} {v o : Nat} (hv : s.returned t = some v)
    (ho : o < 4096) : s.paged.translate L elsewhere (v + o) = some ⟨0xB8000 + o, true⟩ := by
  obtain ⟨haddr, hentry, hpage⟩ := h.mapped t v hv
  unfold fourMb at haddr
  rw [← show (v + o) / 2 ^ 22 = 33 + t.val by omega] at hentry
  have htable : s.paged.tableAt L elsewhere L.videopTable = s.paged.videopTable := by
    rw [PagedKernel.tableAt, if_neg (Ne.symm L.apart.2.1), if_neg (Ne.symm L.apart.2.2),
      if_pos rfl]
  rw [PagedKernel.translate, translate_table hentry L.aligned.2.2 (by decide) (by decide)
    (by decide), htable, show (v + o) / 2 ^ 12 % 2 ^ 10 = 0 by omega, hpage, walkTable,
    if_pos (by decide), user_entry L.aligned.2.2]
  simp only [Option.some.injEq, Mapping.mk.injEq]
  refine ⟨?_, by decide⟩
  rw [show (v + o) % 2 ^ 12 = o by omega]
  rfl

/-- A store through what was returned is a store into the video page. -/
theorem VideoMapped.userStore_returned {L : PageLayout} {s : VideoState} (h : VideoMapped L s)
    (elsewhere : Nat → Nat → Nat) {t : Fin 3} {v o : Nat} (hv : s.returned t = some v)
    (ho : o < 4096) (b : UInt8) :
    OopsOs.userStore L elsewhere s.paged (v + o) b =
      some { s.paged with
        kernel := s.paged.kernel.setMem (s.paged.kernel.console.mem.store (video + o) b) } := by
  rw [OopsOs.userStore, h.translate_returned elsewhere hv ho, Option.bind_some, if_pos rfl]
  rfl

/-- The storage pages are out of reach of a store to the video page. -/
theorem setMem_video_logicalScreen {k : Kernel} (hk : Laid k) {o : Nat} (ho : o < 4096) (b : UInt8)
    {u : Fin 3} (hu : u ≠ k.activeTerminal) :
    logicalScreen (k.setMem (k.console.mem.store (video + o) b)) u = logicalScreen k u := by
  have hpage : page (k.console.mem.store (video + o) b)
      (k.terminal u).videoMemoryStorageLocation =
        page k.console.mem (k.terminal u).videoMemoryStorageLocation := by
    funext i
    have hi := i.isLt
    unfold page
    rw [hk.storage, Mem.store_apply, if_neg]
    unfold video
    omega
  unfold logicalScreen
  rw [Kernel.setMem_activeTerminal, if_neg hu, if_neg hu]
  simp only [storedScreen, Kernel.setMem_terminal, Kernel.setMem_console_mem, hpage]

/--
A store to offset `o` of the page given to a process of terminal `t` goes to
the displayed page or to the terminal's storage page, and changes no other
terminal's screen.
-/
structure StoresToOwnScreen (L : PageLayout) (elsewhere : Nat → Nat → Nat) (s : PagedKernel)
    (t : Fin 3) (v o : Nat) (b : UInt8) : Prop where
  physical : s.translate L elsewhere (v + o) =
    some ⟨if t = s.kernel.activeTerminal then 0xB8000 + o
      else 0xB8000 + 4096 * (t.val + 1) + o, true⟩
  others : ∃ s', userStore L elsewhere s (v + o) b = some s' ∧
    ∀ u, u ≠ t → logicalScreen s'.kernel u = logicalScreen s.kernel u

theorem VideoMapped.storesToOwnScreen_iff {L : PageLayout} {s : VideoState} (h : VideoMapped L s)
    (elsewhere : Nat → Nat → Nat) {t : Fin 3} {v o : Nat} (hv : s.returned t = some v)
    (ho : o < 4096) (b : UInt8) :
    StoresToOwnScreen L elsewhere s.paged t v o b ↔ t = s.paged.kernel.activeTerminal := by
  have htrans := h.translate_returned elsewhere hv ho
  constructor
  · intro hown
    by_contra hne
    have hphys := hown.physical
    rw [htrans, if_neg hne] at hphys
    simp only [Option.some.injEq, Mapping.mk.injEq, and_true] at hphys
    omega
  · intro hact
    refine ⟨by rw [htrans, if_pos hact], ?_⟩
    refine ⟨_, h.userStore_returned elsewhere hv ho b, ?_⟩
    intro u hu
    exact setMem_video_logicalScreen h.laid ho b (hact ▸ hu)

/--
Throughout any sequence of `vidmap` calls, switches and stores, a store through
the returned address is to the process's own screen exactly while its terminal
is the displayed one.
-/
theorem run_stores_to_own_screen_iff {L : PageLayout} {elsewhere : Nat → Nat → Nat} {mem fs : Mem}
    {pTable pTable2 videopTable : Nat → Nat} {s : VideoState} {es : List VideoEvent}
    (hrun : Run (videoStep L elsewhere) VideoGuard
      (VideoState.start L mem fs pTable pTable2 videopTable) es s)
    {t : Fin 3} {v o : Nat} (hv : s.returned t = some v) (ho : o < 4096) (b : UInt8) :
    StoresToOwnScreen L elsewhere s.paged t v o b ↔ t = s.paged.kernel.activeTerminal :=
  (run_videoMapped hrun).storesToOwnScreen_iff elsewhere hv ho b

/-- Blank memory and blank tables, with the terminals opened. -/
def blankVideo : VideoState :=
  VideoState.start successivePages (fun _ => 0) (fun _ => 0) (fun _ => 0) (fun _ => 0) (fun _ => 0)

/-- The same, once the process of slot 0 has called `vidmap`. -/
def mappedVideo : VideoState :=
  ⟨(vidmap successivePages blankVideo.paged 0 0x8000004).state,
    Function.update (fun _ => none) 0 (some 0x8400000)⟩

theorem blankVideo_vidmap :
    videoStep successivePages (fun _ _ => 0) blankVideo (.vidmap 0 0x8000004) =
      some mappedVideo := by
  have hterm : processTerm blankVideo.paged.kernel (blankVideo.paged.kernel.pcb 0).processNum =
      some 0 := by decide +kernel
  have hvalue : (vidmap successivePages blankVideo.paged 0 0x8000004).value ≠ -1 := by
    decide +kernel
  have hstored : (vidmap successivePages blankVideo.paged 0 0x8000004).stored =
      some 0x8400000 := by decide +kernel
  simp only [videoStep, hterm, Option.map_some, if_neg hvalue, hstored]
  rfl

theorem videoStep_switch (L : PageLayout) (elsewhere : Nat → Nat → Nat) (s : VideoState)
    (n : Fin 3) :
    ∃ s', videoStep L elsewhere s (.switch n) = some s' ∧ s'.returned = s.returned ∧
      s'.paged.kernel.activeTerminal = n :=
  ⟨_, rfl, rfl, saveAndSwitchTerm_activeTerminal s.paged.kernel n⟩

theorem run_stores_to_own_screen_after_switches :
    ∃ s, Run (videoStep successivePages (fun _ _ => 0)) VideoGuard blankVideo
        [.vidmap 0 0x8000004, .switch 1, .switch 0] s ∧
      s.returned 0 = some 0x8400000 ∧
      StoresToOwnScreen successivePages (fun _ _ => 0) s.paged 0 0x8400000 0 0x41 := by
  obtain ⟨s₁, h₁, hr₁, -⟩ := videoStep_switch successivePages (fun _ _ => 0) mappedVideo 1
  obtain ⟨s₂, h₂, hr₂, hactive⟩ := videoStep_switch successivePages (fun _ _ => 0) s₁ 0
  have hrun : Run (videoStep successivePages (fun _ _ => 0)) VideoGuard blankVideo
      [.vidmap 0 0x8000004, .switch 1, .switch 0] s₂ :=
    Run.cons trivial blankVideo_vidmap (Run.cons trivial h₁ (Run.cons trivial h₂ (Run.nil _)))
  have hreturned : s₂.returned 0 = some 0x8400000 := by
    rw [hr₂, hr₁]
    rfl
  exact ⟨s₂, hrun, hreturned,
    (run_stores_to_own_screen_iff hrun hreturned (by decide) 0x41).mpr hactive.symm⟩

/-- After a switch, a process of the terminal in the background draws on the displayed page. -/
theorem background_store_shows :
    ∃ s, Run (videoStep successivePages (fun _ _ => 0)) VideoGuard blankVideo
        [.vidmap 0 0x8000004, .switch 1] s ∧
      s.returned 0 = some 0x8400000 ∧
      s.paged.kernel.activeTerminal = 1 ∧
      s.paged.translate successivePages (fun _ _ => 0) 0x8400000 = some ⟨0xB8000, true⟩ ∧
      ¬ StoresToOwnScreen successivePages (fun _ _ => 0) s.paged 0 0x8400000 0 0x41 := by
  obtain ⟨s, hswitch, hr, hactive⟩ :=
    videoStep_switch successivePages (fun _ _ => 0) mappedVideo 1
  have hrun : Run (videoStep successivePages (fun _ _ => 0)) VideoGuard blankVideo
      [.vidmap 0 0x8000004, .switch 1] s :=
    Run.cons trivial blankVideo_vidmap (Run.cons trivial hswitch (Run.nil _))
  have hreturned : s.returned 0 = some 0x8400000 := by
    rw [hr]
    rfl
  have hmapped := run_videoMapped hrun
  refine ⟨s, hrun, hreturned, hactive, ?_, ?_⟩
  · exact hmapped.translate_returned (fun _ _ => 0) hreturned (show 0 < 4096 by decide)
  · rw [hmapped.storesToOwnScreen_iff (fun _ _ => 0) hreturned (by decide) 0x41, hactive]
    decide

/-! ## Which pointers `vidmap` accepts -/

/-- The four bytes at the address lie in the program page. -/
def UserPointer (a : Nat) : Prop := 0x8000000 ≤ a ∧ a + 4 ≤ 0x8000000 + fourMb

/-- `vidmap` accepts the pointer exactly if it is the user's, and refuses it without a trace. -/
structure JudgesPointer (L : PageLayout) (s : PagedKernel) (slot : Fin 6) (screenStart : Nat) :
    Prop where
  accepted : (vidmap L s slot screenStart).value ≠ -1 ↔ UserPointer screenStart
  refused : ¬ UserPointer screenStart →
    (vidmap L s slot screenStart).value = -1 ∧
    (vidmap L s slot screenStart).state.kernel.pDirectory = s.kernel.pDirectory ∧
    (vidmap L s slot screenStart).state.videopTable = s.videopTable

theorem vidmap_value_iff (L : PageLayout) (s : PagedKernel) (slot : Fin 6) (screenStart : Nat) :
    (vidmap L s slot screenStart).value ≠ -1 ↔
      0x8000000 ≤ screenStart ∧
        screenStart ≤ 0x8000000 + fourMb * (s.kernel.activeTerminal.val + 1) := by
  unfold vidmap
  split_ifs with hbad
  · constructor
    · intro h
      exact absurd rfl h
    · intro h
      omega
  · constructor
    · intro _
      omega
    · intro _
      simp only
      omega

theorem vidmap_of_value {L : PageLayout} {s : PagedKernel} {slot : Fin 6} {screenStart : Nat}
    (h : (vidmap L s slot screenStart).value = -1) : (vidmap L s slot screenStart).state = s := by
  unfold vidmap at *
  -- an accepted pointer is not negative
  split_ifs at h ⊢
  rfl

/--
The upper bound of `vidmap` grows with the number of the displayed terminal and
admits the address just past the page: it is right for all pointers but those
above the last word of the page and not above that bound.
-/
theorem judges_pointer_iff (L : PageLayout) (s : PagedKernel) (slot : Fin 6) (screenStart : Nat) :
    JudgesPointer L s slot screenStart ↔
      (screenStart + 4 ≤ 0x8000000 + fourMb ∨
        0x8000000 + fourMb * (s.kernel.activeTerminal.val + 1) < screenStart) := by
  have hvalue := vidmap_value_iff L s slot screenStart
  constructor
  · intro h
    have hiff := hvalue.symm.trans h.accepted
    unfold UserPointer fourMb at *
    omega
  · intro hcond
    have haccepted : (vidmap L s slot screenStart).value ≠ -1 ↔ UserPointer screenStart := by
      rw [hvalue]
      unfold UserPointer fourMb at *
      omega
    refine ⟨haccepted, ?_⟩
    intro hno
    have hfails : (vidmap L s slot screenStart).value = -1 := by
      by_contra hne
      exact hno (haccepted.mp hne)
    rw [vidmap_of_value hfails]
    exact ⟨hfails, rfl, rfl⟩

/-- The address just past the program page is accepted, with terminal 0 displayed. -/
theorem page_end_accepted :
    processTerm blankVideo.paged.kernel (blankVideo.paged.kernel.pcb 0).processNum = some 0 ∧
    blankVideo.paged.kernel.activeTerminal = 0 ∧
    ¬ UserPointer 0x8400000 ∧
    (vidmap successivePages blankVideo.paged 0 0x8400000).value = 0x8400000 ∧
    ¬ JudgesPointer successivePages blankVideo.paged 0 0x8400000 := by
  have hno : ¬ UserPointer 0x8400000 := by
    unfold UserPointer fourMb
    omega
  have hvalue : (vidmap successivePages blankVideo.paged 0 0x8400000).value = 0x8400000 := by
    decide +kernel
  refine ⟨by decide +kernel, by decide +kernel, hno, hvalue, ?_⟩
  intro h
  apply hno
  rw [← h.accepted, hvalue]
  decide

end OopsOs
