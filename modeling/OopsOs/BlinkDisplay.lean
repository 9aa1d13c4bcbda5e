import OopsOs.BlinkList

/-!
# What the blinking nodes show

Additions, the tasklet and `mp1_ioctl_sync` each store a node's status and its
character on the screen.  The first two keep them in step.  The third selects
the character with `cmovl` after a `testb $0x1`, whose result is never negative:
it always shows the off character, whatever status it has copied.
-/

namespace OopsOs

open Links Machine Fish

/-- The character of a node for its status: bit 0 selects the on character. -/
def BlinkStruct.litChar (b : BlinkStruct) : UInt8 :=
  if b.status &&& 1 ≠ 0 then b.onChar else b.offChar

/-- The screen shows the character for the node's status at the node's location. -/
def Fish.Shows (F : Fish) (i : Fin 2000) : Prop :=
  F.screen (2 * (F.blinkArray i).location.toNat) = (F.blinkArray i).litChar

def DisplayMatches (F : Fish) : Prop := ∀ i, F.OnList i → F.Shows i

/-- Additions are of locations 1 to 1999 that no node of the list has. -/
def DistinctAdd (F : Fish) : BlinkEvent → Prop
  | .add user =>
      1 ≤ user.location.toNat ∧ user.location.toNat ≤ 1999 ∧
        ∀ i, F.OnList i → (F.blinkArray i).location ≠ user.location
  | _ => True

/--
A synchronisation of two nodes copies a status with bit 0 clear, or its target
shows the same character on and off.
-/
def SyncsOff (F : Fish) : BlinkEvent → Prop
  | .sync arg =>
      ∀ esi edi, mp1FindHelper F (arg >>> 16).toUInt16 = some (some esi) →
        mp1FindHelper F (arg &&& 0xFFFF).toUInt16 = some (some edi) →
        (F.blinkArray esi).status &&& 1 = 0 ∨
          (F.blinkArray edi).onChar = (F.blinkArray edi).offChar
  | _ => True

/-! ## The bit operations -/

theorem status_bit (s : UInt16) : s &&& 1 ≠ 0 ↔ s.toNat % 2 = 1 := by
  rw [Ne, ← UInt16.toNat_inj, UInt16.toNat_and, UInt16.toNat_one, Nat.and_one_is_mod,
    UInt16.toNat_zero]
  omega

theorem status_toggle (s : UInt16) : (s ^^^ 1) &&& 1 ≠ 0 ↔ ¬ s &&& 1 ≠ 0 := by
  rw [status_bit, status_bit, UInt16.toNat_xor, UInt16.toNat_one, Nat.xor_mod_two_eq_one]
  simp

/-- `cmovl` is never taken. -/
theorem syncChar_eq (b : BlinkStruct) : syncChar b = b.offChar := by
  have hsign : ¬ 0x80 ≤ (b.status.toUInt8 &&& 1).toNat := by
    rw [UInt8.toNat_and, UInt8.toNat_one, Nat.and_one_is_mod]
    omega
  unfold syncChar
  simp only [decide_eq_false hsign]
  rw [if_neg (by decide)]

/-! ## The invariant -/

/-- A proper list of nodes at distinct locations other than 0, each of which the screen shows. -/
structure Showing (F : Fish) (l : List (Fin 2000)) : Prop where
  proper : Proper F l
  positive : ∀ i ∈ l, (F.blinkArray i).location ≠ 0
  distinct : ∀ i ∈ l, ∀ j ∈ l, (F.blinkArray i).location = (F.blinkArray j).location → i = j
  shows : ∀ i ∈ l, F.Shows i

theorem Showing.displayMatches {F : Fish} {l : List (Fin 2000)} (h : Showing F l) :
    DisplayMatches F := by
  intro i hi
  exact h.shows i ((h.proper.lists.onList_iff i).mp hi)

theorem start_showing (screen : Nat → UInt8) : Showing (Fish.start screen) [] :=
  ⟨start_proper screen, by simp, by simp, by simp⟩

section Steps

variable {F : Fish} {l : List (Fin 2000)} (h : Showing F l)
include h

/-- Distinct additions find a slot that is not on the list. -/
theorem Showing.freeSlotFirst {e : BlinkEvent} (_ : DistinctAdd F e) : FreeSlotFirst F e := by
  cases e with
  | add user =>
      intro _ i hi hzero
      exact absurd hzero (h.positive i ((h.proper.lists.onList_iff i).mp hi))
  | remove arg => trivial
  | find location => trivial
  | sync arg => trivial
  | tasklet => trivial

/-- A change of the status of one node and of the cell it blinks in. -/
theorem Showing.change {F' : Fish} {i : Fin 2000} (hi : i ∈ l) (hsame : SameNodes F F')
    (hslots : ∀ j, j ≠ i → F'.blinkArray j = F.blinkArray j)
    (hscreen : ∀ x, x ≠ 2 * (F.blinkArray i).location.toNat → F'.screen x = F.screen x)
    (hshows : F'.Shows i) : Showing F' l := by
  refine ⟨h.proper.of_sameNodes hsame, ?_, ?_, ?_⟩
  · intro j hj
    rw [hsame.location]
    exact h.positive j hj
  · intro j hj k hk hjk
    rw [hsame.location, hsame.location] at hjk
    exact h.distinct j hj k hk hjk
  · intro j hj
    by_cases hji : j = i
    · rwa [hji]
    · have hcell : 2 * (F.blinkArray j).location.toNat ≠ 2 * (F.blinkArray i).location.toNat := by
        intro hcell
        apply hji
        apply h.distinct j hj i hi
        exact UInt16.toNat_inj.mp (by omega)
      rw [Fish.Shows, hslots j hji, hscreen _ hcell]
      exact h.shows j hj

theorem Showing.taskletNode {i : Fin 2000} (hi : i ∈ l) : Showing (taskletNode F i) l := by
  have hsame := taskletNode_sameNodes F i
  have hshows := h.shows i hi
  unfold Fish.Shows BlinkStruct.litChar at hshows
  unfold OopsOs.taskletNode at hsame ⊢
  simp only at hsame ⊢
  split_ifs at hsame ⊢ with hcount hon
  · refine h.change hi hsame (fun j hj => F.setSlot_of_ne hj _) (fun x _ => rfl) ?_
    unfold Fish.Shows BlinkStruct.litChar
    rw [F.setSlot_self]
    exact hshows
  · refine h.change hi hsame (fun j hj => Fish.setSlot_of_ne _ hj _)
      (fun x hx => Function.update_of_ne hx _ _) ?_
    unfold Fish.Shows BlinkStruct.litChar
    rw [Fish.setSlot_self, if_neg (by rw [status_toggle, not_not]; exact hon)]
    exact Function.update_self _ _ _
  · refine h.change hi hsame (fun j hj => Fish.setSlot_of_ne _ hj _)
      (fun x hx => Function.update_of_ne hx _ _) ?_
    unfold Fish.Shows BlinkStruct.litChar
    rw [Fish.setSlot_self, if_pos (by rw [status_toggle]; exact hon)]
    exact Function.update_self _ _ _

theorem Showing.add {i : Fin 2000} (hi : i ∉ l) {user : BlinkStruct}
    (hadd : DistinctAdd F (.add user)) : Showing (F.added i user) (i :: l) := by
  obtain ⟨hlo, -, hdistinct⟩ := hadd
  have hself : (F.added i user).blinkArray i = addedNode F user := F.setSlot_self i _
  have hother : ∀ j ∈ l, (F.added i user).blinkArray j = F.blinkArray j := by
    intro j hj
    have hne : j ≠ i := by
      rintro rfl
      exact hi hj
    exact F.setSlot_of_ne hne _
  have hnew : ∀ j ∈ l, (F.blinkArray j).location ≠ user.location := fun j hj =>
    hdistinct j ((h.proper.lists.onList_iff j).mpr hj)
  refine ⟨h.proper.add hi user, ?_, ?_, ?_⟩
  · intro j hj
    rcases List.mem_cons.mp hj with rfl | hjl
    · rw [hself]
      intro hzero
      have hzero : user.location = 0 := hzero
      rw [hzero] at hlo
      exact absurd hlo (by decide)
    · rw [hother j hjl]
      exact h.positive j hjl
  · intro j hj k hk hjk
    rcases List.mem_cons.mp hj with hji | hjl
    · rcases List.mem_cons.mp hk with hki | hkl
      · rw [hji, hki]
      · rw [hji, hself, hother k hkl] at hjk
        exact absurd hjk.symm (hnew k hkl)
    · rcases List.mem_cons.mp hk with hki | hkl
      · rw [hki, hself, hother j hjl] at hjk
        exact absurd hjk (hnew j hjl)
      · rw [hother j hjl, hother k hkl] at hjk
        exact h.distinct j hjl k hkl hjk
  · intro j hj
    unfold Fish.Shows
    rcases List.mem_cons.mp hj with rfl | hjl
    · have hlit : (addedNode F user).litChar = user.onChar :=
        if_pos (show (1 : UInt16) &&& 1 ≠ 0 by decide)
      rw [hself, hlit]
      exact Function.update_self _ _ _
    · have hcell : 2 * (F.blinkArray j).location.toNat ≠ 2 * user.location.toNat := by
        intro hcell
        exact hnew j hjl (UInt16.toNat_inj.mp (by omega))
      rw [hother j hjl]
      exact (Function.update_of_ne hcell _ _).trans (h.shows j hjl)

/-- A node and its slot leave the list; the others stay as they are. -/
theorem Showing.of_kept {F' : Fish} {l' : List (Fin 2000)} (hproper : Proper F' l')
    (hsub : ∀ j ∈ l', j ∈ l) (hscreen : F'.screen = F.screen)
    (hkept : ∀ j ∈ l', ∃ p, F'.blinkArray j = { F.blinkArray j with next := p }) :
    Showing F' l' := by
  refine ⟨hproper, ?_, ?_, ?_⟩
  · intro j hj
    obtain ⟨p, hp⟩ := hkept j hj
    rw [hp]
    exact h.positive j (hsub j hj)
  · intro j hj k hk hjk
    obtain ⟨p, hp⟩ := hkept j hj
    obtain ⟨q, hq⟩ := hkept k hk
    rw [hp, hq] at hjk
    exact h.distinct j (hsub j hj) k (hsub k hk) hjk
  · intro j hj
    obtain ⟨p, hp⟩ := hkept j hj
    rw [Fish.Shows, hp, hscreen]
    exact h.shows j (hsub j hj)

end Steps

theorem Showing.remove {F : Fish} {l₁ l₂ : List (Fin 2000)} {i : Fin 2000}
    (h : Showing F (l₁ ++ i :: l₂)) :
    Showing (mp1Free (F.storeLink (F.next i) l₁.getLast?) i) (l₁ ++ l₂) := by
  refine h.of_kept h.proper.remove ?_ ?_ ?_
  · intro j hj
    rcases List.mem_append.mp hj with hleft | hright
    · exact List.mem_append_left _ hleft
    · exact List.mem_append_right _ (List.mem_cons_of_mem i hright)
  · cases l₁.getLast? with
    | none => rfl
    | some b => rfl
  · intro j hj
    have hne : j ≠ i := by
      rintro rfl
      exact Chain.not_mem_others h.proper.lists hj
    obtain ⟨p, hp⟩ := storeLink_slot F (F.next i) l₁.getLast? j
    exact ⟨p, by rw [mp1Free, Fish.setSlot_of_ne _ hne, hp]⟩

theorem Showing.tasklet {F : Fish} {l : List (Fin 2000)} (h : Showing F l) :
    ∀ {l' : List (Fin 2000)}, (∀ i ∈ l', i ∈ l) → Showing (l'.foldl OopsOs.taskletNode F) l := by
  intro l' hsub
  induction l' generalizing F with
  | nil => exact h
  | cons i rest ih =>
      exact ih (h.taskletNode (hsub i (List.mem_cons_self ..)))
        (fun j hj => hsub j (List.mem_cons_of_mem i hj))

/-- What a synchronisation shows is right exactly under the condition. -/
theorem syncedNode_shows_iff (esi edi : BlinkStruct) :
    syncChar (syncedNode esi edi) = (syncedNode esi edi).litChar ↔
      esi.status &&& 1 = 0 ∨ edi.onChar = edi.offChar := by
  have hoff : (syncedNode esi edi).offChar = edi.offChar := rfl
  have hon : (syncedNode esi edi).onChar = edi.onChar := rfl
  have hstatus : (syncedNode esi edi).status = esi.status := rfl
  rw [syncChar_eq, BlinkStruct.litChar, hstatus, hoff, hon]
  by_cases hbit : esi.status &&& 1 = 0
  · simp [hbit]
  · rw [if_pos hbit]
    simp [hbit, eq_comm]

/-- The node of a synchronisation and its cell. -/
theorem synced_shows_iff (F : Fish) (esi edi : Fin 2000) :
    ((F.setSlot edi (syncedNode (F.blinkArray esi) (F.blinkArray edi))).mp1Poke
        (2 * (F.blinkArray edi).location.toNat)
        (syncChar (syncedNode (F.blinkArray esi) (F.blinkArray edi)))).Shows edi ↔
      (F.blinkArray esi).status &&& 1 = 0 ∨
        (F.blinkArray edi).onChar = (F.blinkArray edi).offChar := by
  have hslot := F.setSlot_self edi (syncedNode (F.blinkArray esi) (F.blinkArray edi))
  have hcell : (syncedNode (F.blinkArray esi) (F.blinkArray edi)).location =
      (F.blinkArray edi).location := rfl
  rw [← syncedNode_shows_iff]
  unfold Fish.Shows Fish.mp1Poke
  simp only [hslot, hcell, Function.update_self]

theorem Showing.sync {F : Fish} {l : List (Fin 2000)} (h : Showing F l) {arg : UInt32}
    (hsync : SyncsOff F (.sync arg)) :
    ∃ F' r, mp1IoctlSync F arg = some (F', r) ∧ Showing F' l := by
  rcases mp1IoctlSync_cases h.proper.lists arg with ⟨-, hfail⟩ | ⟨esi, edi, hmem, hesi, hedi, hdone⟩
  · exact ⟨F, -1, hfail, h⟩
  · refine ⟨_, 0, hdone, ?_⟩
    have hslot : SameNodes F (F.setSlot edi (syncedNode (F.blinkArray esi) (F.blinkArray edi))) :=
      SameNodes.setSlot F edi rfl rfl rfl rfl
    refine h.change hmem (hslot.trans (SameNodes.poke _ _ _))
      (fun j hj => F.setSlot_of_ne hj _) (fun x hx => Function.update_of_ne hx _ _) ?_
    rw [synced_shows_iff]
    exact hsync esi edi hesi hedi

/-! ## Runs -/

theorem Showing.step {F : Fish} {l : List (Fin 2000)} (h : Showing F l) {e : BlinkEvent}
    (hadd : DistinctAdd F e) (hsync : SyncsOff F e) :
    ∃ l' F', blinkStep F e = some F' ∧ Showing F' l' := by
  cases e with
  | add user =>
      cases hmalloc : mp1Malloc F with
      | none =>
          refine ⟨l, F, ?_, h⟩
          rw [blinkStep, blinkCall, mp1IoctlAdd_fails (.inr hmalloc)]
          rfl
      | some i =>
          have hloc : user.location.toNat < 2000 := by
            have hle := hadd.2.1
            omega
          have hfresh := h.proper.malloc_fresh hloc (h.freeSlotFirst hadd) hmalloc
          refine ⟨i :: l, F.added i user, ?_, h.add hfresh hadd⟩
          rw [blinkStep, blinkCall, mp1IoctlAdd_eq hloc hmalloc]
          rfl
  | remove arg =>
      rcases mp1IoctlRemove_cases h.proper.lists arg with
        ⟨-, hfail⟩ | ⟨l₁, i, l₂, rfl, -, -, hremove⟩
      · exact ⟨l, F, by rw [blinkStep, blinkCall, hfail]; rfl, h⟩
      · exact ⟨l₁ ++ l₂, _, by rw [blinkStep, blinkCall, hremove]; rfl, h.remove⟩
  | find location =>
      refine ⟨l, F, ?_, h⟩
      rw [blinkStep, blinkCall, mp1IoctlFind, mp1FindHelper_eq h.proper.lists]
      rfl
  | sync arg =>
      obtain ⟨F', r, hrun, hF'⟩ := h.sync hsync
      exact ⟨l, F', by rw [blinkStep, blinkCall, hrun]; rfl, hF'⟩
  | tasklet =>
      refine ⟨l, l.foldl OopsOs.taskletNode F, ?_, h.tasklet (fun i hi => hi)⟩
      rw [blinkStep, blinkCall, mp1RtcTasklet_eq h.proper.lists]
      rfl

/-- After a synchronisation that shows the right character the condition was met. -/
theorem Showing.syncsOff {F F' : Fish} {l : List (Fin 2000)} (h : Showing F l) {e : BlinkEvent}
    (hstep : blinkStep F e = some F') (hmatch : DisplayMatches F') : SyncsOff F e := by
  cases e with
  | sync arg =>
      intro esi edi hesi hedi
      rcases mp1IoctlSync_cases h.proper.lists arg with
        ⟨hnone, -⟩ | ⟨esi', edi', hmem, hesi', hedi', hdone⟩
      · rw [hesi, hedi] at hnone
        simp at hnone
      · rw [hesi] at hesi'
        rw [hedi] at hedi'
        obtain rfl := Option.some.inj (Option.some.inj hesi')
        obtain rfl := Option.some.inj (Option.some.inj hedi')
        rw [blinkStep, blinkCall, hdone] at hstep
        obtain rfl := Option.some.inj hstep
        rw [← synced_shows_iff]
        have hslot :
            SameNodes F (F.setSlot edi (syncedNode (F.blinkArray esi) (F.blinkArray edi))) :=
          SameNodes.setSlot F edi rfl rfl rfl rfl
        have hlists := (hslot.trans (SameNodes.poke _ (2 * (F.blinkArray edi).location.toNat)
          (syncChar (syncedNode (F.blinkArray esi) (F.blinkArray edi))))).lists h.proper.lists
        exact hmatch edi ⟨l, hlists, hmem⟩
  | add user => trivial
  | remove arg => trivial
  | find location => trivial
  | tasklet => trivial

theorem blinkStep_showing {F F' : Fish} {e : BlinkEvent} (h : ∃ l, Showing F l)
    (hguard : DistinctAdd F e ∧ SyncsOff F e) (hstep : blinkStep F e = some F') :
    ∃ l, Showing F' l := by
  obtain ⟨l, hl⟩ := h
  obtain ⟨l', F'', hrun, hl'⟩ := hl.step hguard.1 hguard.2
  rw [hrun] at hstep
  obtain rfl := Option.some.inj hstep
  exact ⟨l', hl'⟩

theorem run_showing {screen : Nat → UInt8} {es : List BlinkEvent} {F : Fish}
    (hrun : Run blinkStep (fun F e => DistinctAdd F e ∧ SyncsOff F e) (Fish.start screen) es F) :
    ∃ l, Showing F l :=
  hrun.invariant (fun _ _ _ hI hC hs => blinkStep_showing hI hC hs) ⟨[], start_showing screen⟩

/--
After operations whose additions were distinct and whose synchronisations met
the condition, the display matches the list, and it does so after the next
operation exactly if that meets the condition too.
-/
theorem run_display_matches_iff {screen : Nat → UInt8} {es : List BlinkEvent} {F : Fish}
    (hrun : Run blinkStep (fun F e => DistinctAdd F e ∧ SyncsOff F e) (Fish.start screen) es F) :
    DisplayMatches F ∧
      ∀ e, DistinctAdd F e →
        ((∃ F', blinkStep F e = some F' ∧ DisplayMatches F') ↔ SyncsOff F e) := by
  obtain ⟨l, hl⟩ := run_showing hrun
  refine ⟨hl.displayMatches, ?_⟩
  intro e hadd
  constructor
  · rintro ⟨F', hstep, hmatch⟩
    exact hl.syncsOff hstep hmatch
  · intro hsync
    obtain ⟨l', F', hstep, hl'⟩ := hl.step hadd hsync
    exact ⟨F', hstep, hl'.displayMatches⟩

theorem start_distinctAdd (screen : Nat → UInt8) {location : UInt16}
    (hlo : 1 ≤ location.toNat) (hhi : location.toNat ≤ 1999) :
    DistinctAdd (Fish.start screen) (.add (sampleNode location)) := by
  refine ⟨hlo, hhi, ?_⟩
  intro i hi
  rw [(start_proper screen).lists.onList_iff] at hi
  cases hi

theorem run_display_matches_iff_one_node :
    ∃ F F', Run blinkStep (fun F e => DistinctAdd F e ∧ SyncsOff F e) (Fish.start (fun _ => 0x20))
        [.add (sampleNode 40)] F ∧
      DisplayMatches F ∧ blinkStep F .tasklet = some F' ∧ DisplayMatches F' := by
  have hrun : Run blinkStep (fun F e => DistinctAdd F e ∧ SyncsOff F e)
      (Fish.start (fun _ => 0x20)) [.add (sampleNode 40)] _ :=
    Run.cons ⟨start_distinctAdd _ (by decide) (by decide), trivial⟩ rfl (Run.nil _)
  obtain ⟨hmatch, hnext⟩ := run_display_matches_iff hrun
  obtain ⟨F', hstep, hmatch'⟩ := (hnext .tasklet trivial).mpr trivial
  exact ⟨_, F', hrun, hmatch, hstep, hmatch'⟩

/-- Two nodes, at locations 40 and 540. -/
def twoNodes : Fish :=
  ((Fish.start (fun _ => 0x20)).added 0 (sampleNode 40)).added 1 (sampleNode 540)

theorem twoNodes_run :
    Run blinkStep DistinctAdd (Fish.start (fun _ => 0x20))
      [.add (sampleNode 40), .add (sampleNode 540)] twoNodes := by
  have hlists := ((start_proper (fun _ => 0x20)).add (List.not_mem_nil (a := 0))
    (sampleNode 40)).lists
  have hmalloc : mp1Malloc ((Fish.start (fun _ => 0x20)).added 0 (sampleNode 40)) = some 1 := by
    refine mp1Malloc_iff.mpr ⟨rfl, ?_⟩
    intro j hj
    have hne : j ≠ 0 := by
      rintro rfl
      exact absurd hj (by decide)
    exact Fin.one_le_of_ne_zero hne
  have hfirst : blinkStep (Fish.start (fun _ => 0x20)) (.add (sampleNode 40)) =
      some ((Fish.start (fun _ => 0x20)).added 0 (sampleNode 40)) := by
    rw [blinkStep, blinkCall, mp1IoctlAdd_eq (by decide) (start_malloc _)]
    rfl
  have hsecond : blinkStep ((Fish.start (fun _ => 0x20)).added 0 (sampleNode 40))
      (.add (sampleNode 540)) = some twoNodes := by
    rw [blinkStep, blinkCall, mp1IoctlAdd_eq (by decide) hmalloc]
    rfl
  have hdistinct : DistinctAdd ((Fish.start (fun _ => 0x20)).added 0 (sampleNode 40))
      (.add (sampleNode 540)) := by
    refine ⟨by decide, by decide, ?_⟩
    intro i hi
    rw [hlists.onList_iff] at hi
    obtain rfl := List.mem_singleton.mp hi
    decide
  exact Run.cons (start_distinctAdd _ (by decide) (by decide)) hfirst
    (Run.cons hdistinct hsecond (Run.nil _))

/-- Node 540, which blinks on after the synchronisation with node 40, is shown off. -/
theorem sync_shows_off_character :
    ∃ F', Run blinkStep DistinctAdd (Fish.start (fun _ => 0x20))
        [.add (sampleNode 40), .add (sampleNode 540)] twoNodes ∧
      blinkStep twoNodes (.sync 0x28021C) = some F' ∧
      (F'.blinkArray 1).location = 540 ∧ (F'.blinkArray 1).status = 1 ∧
      (F'.blinkArray 1).onChar = 0x49 ∧ F'.screen 1080 = 0x4D ∧
      ¬ DisplayMatches F' := by
  have hesi : mp1FindHelper twoNodes ((0x28021C : UInt32) >>> 16).toUInt16 = some (some 0) := rfl
  have hedi : mp1FindHelper twoNodes ((0x28021C : UInt32) &&& 0xFFFF).toUInt16 = some (some 1) :=
    rfl
  have hwrong : ¬ ((twoNodes.blinkArray 0).status &&& 1 = 0 ∨
      (twoNodes.blinkArray 1).onChar = (twoNodes.blinkArray 1).offChar) := by
    decide
  rw [← synced_shows_iff] at hwrong
  refine ⟨(twoNodes.setSlot 1 (syncedNode (twoNodes.blinkArray 0) (twoNodes.blinkArray 1))).mp1Poke
    (2 * (twoNodes.blinkArray 1).location.toNat)
    (syncChar (syncedNode (twoNodes.blinkArray 0) (twoNodes.blinkArray 1))),
    twoNodes_run, ?_, rfl, rfl, rfl, rfl, ?_⟩
  · rw [blinkStep, blinkCall, mp1IoctlSync, hesi, Option.bind_some]
    simp only
    rw [hedi]
    rfl
  · intro hmatch
    exact hwrong (hmatch 1 ⟨[1, 0], ⟨rfl, rfl, rfl⟩, by simp⟩)

end OopsOs
