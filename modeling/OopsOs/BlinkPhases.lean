import OopsOs.BlinkDisplay

/-!
# When a node blinks

A node with lengths `a` and `b` is on for `a` ticks of `mp1_rtc_tasklet` from
its addition, off for the next `b`, and so on.  Its countdown is what is left of
the current phase.  Nothing that happens to other nodes in between changes that:
`run_blinks` holds after any additions, removals, searches and synchronisations
that leave the node on the list and are not onto it.
-/

namespace OopsOs

open Machine Fish

/-! ## The clock of a node -/

/-- The node `n` ticks after its addition. -/
structure AtPhase (b : BlinkStruct) (n : Nat) : Prop where
  on : b.status &&& 1 ≠ 0 ↔ n % (b.onLength.toNat + b.offLength.toNat) < b.onLength.toNat
  left : b.countdown.toNat =
    if n % (b.onLength.toNat + b.offLength.toNat) < b.onLength.toNat then
      b.onLength.toNat - n % (b.onLength.toNat + b.offLength.toNat)
    else b.onLength.toNat + b.offLength.toNat - n % (b.onLength.toNat + b.offLength.toNat)

/-- What a tick makes of the node. -/
def ticked (b : BlinkStruct) : BlinkStruct :=
  if positive (b.countdown - 1) then { b with countdown := b.countdown - 1 }
  else if b.status &&& 1 ≠ 0 then { b with countdown := b.offLength, status := b.status ^^^ 1 }
  else { b with countdown := b.onLength, status := b.status ^^^ 1 }

theorem taskletNode_self (F : Fish) (i : Fin 2000) :
    (taskletNode F i).blinkArray i = ticked (F.blinkArray i) := by
  unfold taskletNode ticked
  simp only
  split_ifs
  · exact F.setSlot_self i _
  · exact Fish.setSlot_self _ i _
  · exact Fish.setSlot_self _ i _

theorem taskletNode_of_ne (F : Fish) {i j : Fin 2000} (h : j ≠ i) :
    (taskletNode F i).blinkArray j = F.blinkArray j := by
  unfold taskletNode
  simp only
  split_ifs
  · exact F.setSlot_of_ne h _
  · exact Fish.setSlot_of_ne _ h _
  · exact Fish.setSlot_of_ne _ h _

/-- A tick changes the countdown and the status only. -/
theorem ticked_eq (b : BlinkStruct) :
    ∃ c s, ticked b = { b with countdown := c, status := s } := by
  unfold ticked
  split_ifs
  · exact ⟨_, _, rfl⟩
  · exact ⟨_, _, rfl⟩
  · exact ⟨_, _, rfl⟩

/-- A node that is on the list once is ticked once. -/
theorem foldl_taskletNode_slot {l : List (Fin 2000)} (hnodup : l.Nodup) (F : Fish) (i : Fin 2000) :
    (l.foldl taskletNode F).blinkArray i =
      if i ∈ l then ticked (F.blinkArray i) else F.blinkArray i := by
  induction l generalizing F with
  | nil => rfl
  | cons j rest ih =>
      obtain ⟨hj, hrest⟩ := List.nodup_cons.mp hnodup
      rw [List.foldl_cons, ih hrest]
      by_cases hij : i = j
      · subst hij
        rw [if_neg hj, if_pos (List.mem_cons_self ..), taskletNode_self]
      · rw [taskletNode_of_ne F hij]
        simp [hij]

theorem mod_succ_of_lt {n p : Nat} (h : n % p + 1 < p) : (n + 1) % p = n % p + 1 := by
  rw [Nat.add_mod, Nat.mod_eq_of_lt (by omega : 1 < p), Nat.mod_eq_of_lt h]

theorem mod_succ_of_eq {n p : Nat} (h : n % p + 1 = p) : (n + 1) % p = 0 := by
  rcases Nat.lt_or_ge 1 p with hp | hp
  · rw [Nat.add_mod, Nat.mod_eq_of_lt hp, h, Nat.mod_self]
  · obtain rfl : p = 1 := by omega
    exact Nat.mod_one _

/-- A tick moves the clock by one. -/
theorem AtPhase.tick {b : BlinkStruct} {n : Nat} (h : AtPhase b n) (hon : positive b.onLength)
    (hoff : positive b.offLength) : AtPhase (ticked b) (n + 1) := by
  obtain ⟨hbit, hleft⟩ := h
  have hlt := Nat.mod_lt n (Nat.add_pos_left hon.1 b.offLength.toNat)
  have hcount : 1 ≤ b.countdown.toNat ∧ b.countdown.toNat < 0x8000 := by
    have hon1 := hon.2
    have hoff1 := hoff.2
    split_ifs at hleft <;> omega
  have hdown : (b.countdown - 1).toNat = b.countdown.toNat - 1 :=
    UInt16.toNat_sub_of_le _ _ (UInt16.le_iff_toNat_le.mpr hcount.1)
  unfold ticked
  by_cases hmore : 1 < b.countdown.toNat
  · -- the phase goes on
    have hnext : (n + 1) % (b.onLength.toNat + b.offLength.toNat) =
        n % (b.onLength.toNat + b.offLength.toNat) + 1 := by
      apply mod_succ_of_lt
      split_ifs at hleft <;> omega
    rw [if_pos ⟨by omega, by omega⟩]
    constructor
    · show b.status &&& 1 ≠ 0 ↔
        (n + 1) % (b.onLength.toNat + b.offLength.toNat) < b.onLength.toNat
      rw [hbit, hnext]
      split_ifs at hleft <;> omega
    · simp only
      rw [hdown, hnext]
      split_ifs at hleft ⊢ <;> omega
  · rw [if_neg (fun hpos => by have := hpos.1; omega)]
    by_cases hstatus : b.status &&& 1 ≠ 0
    · -- it was on, and the off phase begins
      have hphase := hbit.mp hstatus
      rw [if_pos hphase] at hleft
      have hnext : (n + 1) % (b.onLength.toNat + b.offLength.toNat) = b.onLength.toNat := by
        have hpos := hoff.1
        rw [mod_succ_of_lt (by omega)]
        omega
      rw [if_pos hstatus]
      constructor
      · show (b.status ^^^ 1) &&& 1 ≠ 0 ↔ _
        rw [status_toggle, hnext]
        exact iff_of_false (fun hno => hno hstatus) (lt_irrefl _)
      · simp only
        rw [hnext, if_neg (lt_irrefl _)]
        omega
    · have hphase := (not_congr hbit).mp hstatus
      rw [if_neg hphase] at hleft
      have hnext : (n + 1) % (b.onLength.toNat + b.offLength.toNat) = 0 :=
        mod_succ_of_eq (by omega)
      rw [if_neg hstatus]
      constructor
      · show (b.status ^^^ 1) &&& 1 ≠ 0 ↔ _
        rw [status_toggle, hnext]
        exact iff_of_true hstatus hon.1
      · show b.onLength.toNat = _
        rw [hnext, if_pos hon.1, Nat.sub_zero]

/-- An addition starts the clock. -/
theorem addedNode_atPhase (F : Fish) {user : BlinkStruct} (hon : positive user.onLength) :
    AtPhase (addedNode F user) 0 := by
  refine ⟨?_, ?_⟩
  · show (1 : UInt16) &&& 1 ≠ 0 ↔ _
    rw [Nat.zero_mod]
    exact iff_of_true (by decide) hon.1
  · show user.onLength.toNat = _
    rw [Nat.zero_mod, if_pos (show 0 < (addedNode F user).onLength.toNat from hon.1)]
    rfl

/-! ## One event -/

/-- The node `user` in slot `i` of the list, `n` ticks after its addition. -/
structure Blinking (F : Fish) (l : List (Fin 2000)) (i : Fin 2000) (user : BlinkStruct) (n : Nat) :
    Prop where
  showing : Showing F l
  listed : i ∈ l
  location : (F.blinkArray i).location = user.location
  onChar : (F.blinkArray i).onChar = user.onChar
  offChar : (F.blinkArray i).offChar = user.offChar
  onLength : (F.blinkArray i).onLength = user.onLength
  offLength : (F.blinkArray i).offLength = user.offLength
  phase : AtPhase (F.blinkArray i) n

/-- The character that a node shows `n` ticks after its addition. -/
def blinkChar (user : BlinkStruct) (n : Nat) : UInt8 :=
  if n % (user.onLength.toNat + user.offLength.toNat) < user.onLength.toNat then user.onChar
  else user.offChar

theorem Blinking.screen {F : Fish} {l : List (Fin 2000)} {i : Fin 2000} {user : BlinkStruct}
    {n : Nat} (h : Blinking F l i user n) :
    F.screen (2 * user.location.toNat) = blinkChar user n := by
  have hshows := h.showing.shows i h.listed
  have hbit := h.phase.on
  rw [Fish.Shows, BlinkStruct.litChar, h.location, h.onChar, h.offChar] at hshows
  rw [h.onLength, h.offLength] at hbit
  rw [hshows, blinkChar]
  by_cases hon : (F.blinkArray i).status &&& 1 ≠ 0
  · rw [if_pos hon, if_pos (hbit.mp hon)]
  · rw [if_neg hon, if_neg (fun hphase => hon (hbit.mpr hphase))]

/-- Nothing but the link of the slot has changed. -/
theorem Blinking.of_kept {F F' : Fish} {l l' : List (Fin 2000)} {i : Fin 2000} {user : BlinkStruct}
    {n : Nat} (h : Blinking F l i user n) (hshowing : Showing F' l') (hlisted : i ∈ l')
    (hkept : ∃ p, F'.blinkArray i = { F.blinkArray i with next := p }) :
    Blinking F' l' i user n := by
  obtain ⟨p, hp⟩ := hkept
  refine ⟨hshowing, hlisted, ?_, ?_, ?_, ?_, ?_, ?_⟩
  · rw [hp, ← h.location]
  · rw [hp, ← h.onChar]
  · rw [hp, ← h.offChar]
  · rw [hp, ← h.onLength]
  · rw [hp, ← h.offLength]
  · rw [hp]
    exact ⟨h.phase.on, h.phase.left⟩

/-- The node stays on the list, and its status is not copied over. -/
def LeavesBlinking (user : BlinkStruct) : BlinkEvent → Prop
  | .remove arg => arg.toUInt16 ≠ user.location
  | .sync arg => (arg &&& 0xFFFF).toUInt16 ≠ user.location
  | _ => True

def BlinkEvent.ticks : BlinkEvent → Nat
  | .tasklet => 1
  | _ => 0

section Step

variable {F F' : Fish} {l : List (Fin 2000)} {i : Fin 2000} {user : BlinkStruct} {n : Nat}
variable (h : Blinking F l i user n)
include h

theorem Blinking.tasklet (hon : positive user.onLength) (hoff : positive user.offLength) :
    Blinking (l.foldl taskletNode F) l i user (n + 1) := by
  have hslot := foldl_taskletNode_slot h.showing.proper.lists.nodup F i
  rw [if_pos h.listed] at hslot
  obtain ⟨c, s, hticked⟩ := ticked_eq (F.blinkArray i)
  refine ⟨h.showing.tasklet (fun j hj => hj), h.listed, ?_, ?_, ?_, ?_, ?_, ?_⟩
  · rw [hslot, hticked, ← h.location]
  · rw [hslot, hticked, ← h.onChar]
  · rw [hslot, hticked, ← h.offChar]
  · rw [hslot, hticked, ← h.onLength]
  · rw [hslot, hticked, ← h.offLength]
  · rw [hslot]
    exact h.phase.tick (by rw [h.onLength]; exact hon) (by rw [h.offLength]; exact hoff)

theorem Blinking.add {j : Fin 2000} (hj : j ∉ l) {other : BlinkStruct}
    (hadd : DistinctAdd F (.add other)) : Blinking (F.added j other) (j :: l) i user n := by
  have hne : i ≠ j := by
    rintro rfl
    exact hj h.listed
  refine h.of_kept (h.showing.add hj hadd) (List.mem_cons_of_mem j h.listed)
    ⟨(F.blinkArray i).next, ?_⟩
  exact F.setSlot_of_ne hne _

/-- Any event that is not about the node leaves it blinking. -/
theorem Blinking.step (hon : positive user.onLength) (hoff : positive user.offLength)
    {e : BlinkEvent} (hguard : DistinctAdd F e ∧ SyncsOff F e) (hleaves : LeavesBlinking user e)
    (hstep : blinkStep F e = some F') : ∃ l', Blinking F' l' i user (n + e.ticks) := by
  cases e with
  | add other =>
      obtain ⟨hlo, hhi, hdistinct⟩ := hguard.1
      cases hmalloc : mp1Malloc F with
      | none =>
          rw [blinkStep, blinkCall, mp1IoctlAdd_fails (.inr hmalloc)] at hstep
          cases hstep
          exact ⟨l, h⟩
      | some j =>
          have hloc : other.location.toNat < 2000 := by omega
          have hfresh := h.showing.proper.malloc_fresh hloc (h.showing.freeSlotFirst hguard.1) hmalloc
          rw [blinkStep, blinkCall, mp1IoctlAdd_eq hloc hmalloc] at hstep
          cases hstep
          exact ⟨j :: l, h.add hfresh hguard.1⟩
  | remove arg =>
      rcases mp1IoctlRemove_cases h.showing.proper.lists arg with
        ⟨-, hfail⟩ | ⟨l₁, j, l₂, rfl, -, hfind, hremove⟩
      · rw [blinkStep, blinkCall, hfail] at hstep
        cases hstep
        exact ⟨l, h⟩
      · rw [blinkStep, blinkCall, hremove] at hstep
        cases hstep
        have hfound : (F.blinkArray j).location = arg.toUInt16 := by
          simpa using List.find?_some hfind
        have hne : i ≠ j := by
          rintro rfl
          exact hleaves (hfound.symm.trans h.location)
        have hlisted : i ∈ l₁ ++ l₂ := by
          have hmem := h.listed
          simp only [List.mem_append, List.mem_cons] at hmem ⊢
          tauto
        refine ⟨l₁ ++ l₂, h.of_kept h.showing.remove hlisted ?_⟩
        obtain ⟨p, hp⟩ := storeLink_slot F (F.next j) l₁.getLast? i
        exact ⟨p, by rw [mp1Free, Fish.setSlot_of_ne _ hne, hp]⟩
  | find location =>
      rw [blinkStep, blinkCall, mp1IoctlFind, mp1FindHelper_eq h.showing.proper.lists] at hstep
      cases hstep
      exact ⟨l, h⟩
  | sync arg =>
      obtain ⟨F'', r, hsync, hshowing⟩ := h.showing.sync hguard.2
      have hF'' : F'' = F' := by
        rw [blinkStep, blinkCall, hsync] at hstep
        exact Option.some.inj hstep
      subst hF''
      refine ⟨l, h.of_kept hshowing h.listed ⟨(F.blinkArray i).next, ?_⟩⟩
      rcases mp1IoctlSync_cases h.showing.proper.lists arg with
        ⟨-, hfail⟩ | ⟨esi, edi, hmem, -, hedi, hdone⟩
      · rw [hfail] at hsync
        cases hsync
        rfl
      · rw [hdone] at hsync
        cases hsync
        have hfound : (F.blinkArray edi).location = (arg &&& 0xFFFF).toUInt16 := by
          rw [mp1FindHelper_eq h.showing.proper.lists] at hedi
          simpa using List.find?_some (Option.some.inj hedi)
        have hne : i ≠ edi := by
          rintro rfl
          exact hleaves (hfound.symm.trans h.location)
        exact F.setSlot_of_ne hne _
  | tasklet =>
      rw [blinkStep, blinkCall, mp1RtcTasklet_eq h.showing.proper.lists] at hstep
      cases hstep
      exact ⟨l, h.tasklet hon hoff⟩

end Step

/-! ## Room for another node -/

/-- The locations of all slots are cells of the screen. -/
def OnScreenSlots (F : Fish) : Prop := ∀ i, (F.blinkArray i).location.toNat < 2000

theorem OnScreenSlots.of_sameNodes {F F' : Fish} (h : OnScreenSlots F) (hsame : SameNodes F F') :
    OnScreenSlots F' := by
  intro i
  rw [hsame.location]
  exact h i

theorem OnScreenSlots.setSlot {F : Fish} (h : OnScreenSlots F) (i : Fin 2000) {b : BlinkStruct}
    (hb : b.location.toNat < 2000) : OnScreenSlots (F.setSlot i b) := by
  intro j
  by_cases hj : j = i
  · rw [hj, F.setSlot_self]
    exact hb
  · rw [F.setSlot_of_ne hj]
    exact h j

theorem OnScreenSlots.step {F F' : Fish} {l : List (Fin 2000)} (h : OnScreenSlots F)
    (hshowing : Showing F l) {e : BlinkEvent} (hstep : blinkStep F e = some F') :
    OnScreenSlots F' := by
  cases e with
  | add user =>
      by_cases hfail : 2000 ≤ user.location.toNat ∨ mp1Malloc F = none
      · rw [blinkStep, blinkCall, mp1IoctlAdd_fails hfail] at hstep
        cases hstep
        exact h
      · rw [not_or, not_le] at hfail
        obtain ⟨hloc, hsome⟩ := hfail
        obtain ⟨i, hi⟩ := Option.ne_none_iff_exists'.mp hsome
        rw [blinkStep, blinkCall, mp1IoctlAdd_eq hloc hi] at hstep
        cases hstep
        exact h.setSlot i (b := addedNode F user) hloc
  | remove arg =>
      rcases mp1IoctlRemove_cases hshowing.proper.lists arg with
        ⟨-, hfail⟩ | ⟨l₁, i, l₂, -, -, -, hremove⟩
      · rw [blinkStep, blinkCall, hfail] at hstep
        cases hstep
        exact h
      · rw [blinkStep, blinkCall, hremove] at hstep
        cases hstep
        refine OnScreenSlots.setSlot ?_ i (by decide)
        intro j
        obtain ⟨p, hp⟩ := storeLink_slot F (F.next i) l₁.getLast? j
        rw [hp]
        exact h j
  | find location =>
      rw [blinkStep, blinkCall, mp1IoctlFind, mp1FindHelper_eq hshowing.proper.lists] at hstep
      cases hstep
      exact h
  | sync arg =>
      obtain ⟨F'', r, hsync, hsame⟩ := mp1IoctlSync_sameNodes hshowing.proper.lists arg
      rw [blinkStep, blinkCall, hsync] at hstep
      cases hstep
      exact h.of_sameNodes hsame
  | tasklet =>
      rw [blinkStep, blinkCall, mp1RtcTasklet_eq hshowing.proper.lists] at hstep
      cases hstep
      exact h.of_sameNodes (foldl_taskletNode_sameNodes l F)

/-- There are more slots than locations. -/
theorem Showing.malloc_succeeds {F : Fish} {l : List (Fin 2000)} (h : Showing F l)
    (hscreen : OnScreenSlots F) : ∃ i, mp1Malloc F = some i := by
  rw [← Option.ne_none_iff_exists']
  intro hnone
  have hfull : ∀ i, (F.blinkArray i).location ≠ 0 := fun i hzero =>
    FirstFit.find?_eq_none_iff.mp hnone i hzero
  have hall : ∀ i, i ∈ l := by
    intro i
    by_contra hi
    exact hfull i (h.proper.free i hi)
  -- 2000 slots with distinct locations among 1, ..., 1999
  have hinto : ∀ i ∈ (Finset.univ : Finset (Fin 2000)),
      (F.blinkArray i).location.toNat ∈ Finset.Icc 1 1999 := by
    intro i _
    rw [Finset.mem_Icc]
    have hzero : (F.blinkArray i).location.toNat ≠ 0 := fun hz =>
      hfull i (UInt16.toNat_inj.mp hz)
    have hlt := hscreen i
    omega
  obtain ⟨i, -, j, -, hne, heq⟩ :=
    Finset.exists_ne_map_eq_of_card_lt_of_maps_to (by simp) hinto
  exact hne (h.distinct i (hall i) j (hall j) (UInt16.toNat_inj.mp heq))

/-! ## Runs -/

theorem run_onScreen {screen : Nat → UInt8} {es : List BlinkEvent} {F : Fish}
    (hrun : Run blinkStep (fun F e => DistinctAdd F e ∧ SyncsOff F e) (Fish.start screen) es F) :
    (∃ l, Showing F l) ∧ OnScreenSlots F := by
  refine hrun.invariant (I := fun F => (∃ l, Showing F l) ∧ OnScreenSlots F) ?_
    ⟨⟨[], start_showing screen⟩, fun _ => (by decide : (0 : UInt16).toNat < 2000)⟩
  rintro F e F' ⟨⟨l, hl⟩, hscreen⟩ hguard hstep
  exact ⟨blinkStep_showing ⟨l, hl⟩ hguard hstep, hscreen.step hl hstep⟩

theorem run_blinking {F F' : Fish} {es : List BlinkEvent} {user : BlinkStruct} {i : Fin 2000}
    (hon : positive user.onLength) (hoff : positive user.offLength) {l : List (Fin 2000)} {n : Nat}
    (hrun : Run blinkStep
      (fun F e => (DistinctAdd F e ∧ SyncsOff F e) ∧ LeavesBlinking user e) F es F')
    (h : Blinking F l i user n) :
    ∃ l', Blinking F' l' i user (n + (es.map BlinkEvent.ticks).sum) := by
  induction hrun generalizing l n with
  | nil => exact ⟨l, h⟩
  | cons hguard hstep _ ih =>
      obtain ⟨l', hl'⟩ := h.step hon hoff hguard.1 hguard.2 hstep
      rw [List.map_cons, List.sum_cons, ← Nat.add_assoc]
      exact ih hl'

theorem blinking_of_add {F F' : Fish} {l : List (Fin 2000)} (h : Showing F l)
    (hscreen : OnScreenSlots F) {user : BlinkStruct} (hadd : DistinctAdd F (.add user))
    (hon : positive user.onLength) (hstep : blinkStep F (.add user) = some F') :
    ∃ i l', Blinking F' l' i user 0 := by
  obtain ⟨hlo, hhi, hdistinct⟩ := hadd
  obtain ⟨i, hi⟩ := h.malloc_succeeds hscreen
  have hloc : user.location.toNat < 2000 := by omega
  have hfresh := h.proper.malloc_fresh hloc (h.freeSlotFirst ⟨hlo, hhi, hdistinct⟩) hi
  rw [blinkStep, blinkCall, mp1IoctlAdd_eq hloc hi] at hstep
  cases hstep
  have hslot : (F.added i user).blinkArray i = addedNode F user := F.setSlot_self i _
  refine ⟨i, i :: l, h.add hfresh ⟨hlo, hhi, hdistinct⟩, List.mem_cons_self .., ?_, ?_, ?_, ?_, ?_,
    ?_⟩
  · rw [hslot]
    rfl
  · rw [hslot]
    rfl
  · rw [hslot]
    rfl
  · rw [hslot]
    rfl
  · rw [hslot]
    rfl
  · rw [hslot]
    exact addedNode_atPhase F hon

/-- The tasklet can always run. -/
theorem run_tasklets {F : Fish} {l : List (Fin 2000)} (h : Showing F l) (user : BlinkStruct)
    (n : Nat) : ∃ F', Run blinkStep
      (fun F e => (DistinctAdd F e ∧ SyncsOff F e) ∧ LeavesBlinking user e) F
      (List.replicate n .tasklet) F' := by
  induction n generalizing F with
  | zero => exact ⟨F, Run.nil F⟩
  | succ n ih =>
      have hnext : Showing (l.foldl OopsOs.taskletNode F) l := h.tasklet (fun i hi => hi)
      obtain ⟨F', hrun⟩ := ih hnext
      refine ⟨F', Run.cons ⟨⟨trivial, trivial⟩, trivial⟩ ?_ hrun⟩
      rw [blinkStep, blinkCall, mp1RtcTasklet_eq h.proper.lists]
      rfl

/--
A node that is added in any state that the program can be in shows its on
character for the first `onLength` ticks, its off character for the next
`offLength`, and so on, whatever is done to other nodes in between.
-/
theorem run_blinks {screen : Nat → UInt8} {es es' : List BlinkEvent} {F F₁ F₂ : Fish}
    {user : BlinkStruct}
    (hrun : Run blinkStep (fun F e => DistinctAdd F e ∧ SyncsOff F e) (Fish.start screen) es F)
    (hadd : DistinctAdd F (.add user)) (hon : positive user.onLength)
    (hoff : positive user.offLength) (hstep : blinkStep F (.add user) = some F₁)
    (hrun' : Run blinkStep
      (fun F e => (DistinctAdd F e ∧ SyncsOff F e) ∧ LeavesBlinking user e) F₁ es' F₂) :
    F₂.screen (2 * user.location.toNat) = blinkChar user (es'.map BlinkEvent.ticks).sum := by
  obtain ⟨⟨l, hl⟩, hscreen⟩ := run_onScreen hrun
  obtain ⟨i, l₁, h₁⟩ := blinking_of_add hl hscreen hadd hon hstep
  obtain ⟨l₂, h₂⟩ := run_blinking hon hoff hrun' h₁
  rw [h₂.screen, Nat.zero_add]

/-- On for seven ticks and off for six: seven ticks after the addition it is off. -/
theorem run_blinks_one_node :
    ∃ F₂, Run blinkStep
        (fun F e => (DistinctAdd F e ∧ SyncsOff F e) ∧ LeavesBlinking (sampleNode 40) e)
        ((Fish.start (fun _ => 0x20)).added 0 (sampleNode 40)) (List.replicate 7 .tasklet) F₂ ∧
      F₂.screen 80 = 0x4D := by
  have hadd : DistinctAdd (Fish.start (fun _ => 0x20)) (.add (sampleNode 40)) :=
    start_distinctAdd _ (by decide) (by decide)
  have hstep : blinkStep (Fish.start (fun _ => 0x20)) (.add (sampleNode 40)) =
      some ((Fish.start (fun _ => 0x20)).added 0 (sampleNode 40)) := by
    rw [blinkStep, blinkCall, mp1IoctlAdd_eq (by decide) (start_malloc _)]
    rfl
  have hshowing := (start_showing (fun _ => 0x20)).add (i := 0) (by simp) hadd
  obtain ⟨F₂, hrun⟩ := run_tasklets hshowing (sampleNode 40) 7
  exact ⟨F₂, hrun, run_blinks (Run.nil _) hadd (by decide) (by decide) hstep hrun⟩

end OopsOs
