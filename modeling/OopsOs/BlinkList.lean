import OopsOs.Lib.FirstFit
import OopsOs.Lib.Links
import OopsOs.Lib.Machine

/-!
# The blink list of `fish`

`blink.S` keeps the blinking characters in a linked list whose nodes are slots
of the static `blink_array`.  `mp1_malloc` takes the first slot whose `location`
is 0, and `mp1_free` zeroes a slot.  Location 0 is also a cell of the screen: a
node that was added with it is on the list and looks free.

As long as every addition finds a free slot in front of such nodes, the list
ends, its operations do what they should, and its walks terminate
(`run_keeps_list_iff`).  Handing out a slot that is on the list makes the list a
cycle (`location_zero_cycle`).
-/

namespace OopsOs

open Links Machine

/-! ## The code -/

/-- `struct mp1_blink_struct`. -/
structure BlinkStruct where
  location : UInt16
  onChar : UInt8
  offChar : UInt8
  onLength : UInt16
  offLength : UInt16
  countdown : UInt16
  status : UInt16
  next : Link (Fin 2000)

def BlinkStruct.zero : BlinkStruct := ⟨0, 0, 0, 0, 0, 0, 0, .null⟩

structure Fish where
  mp1ListHead : Link (Fin 2000)
  blinkArray : Fin 2000 → BlinkStruct
  /-- The page at `vmem_base_addr`, as long as nobody else writes to it. -/
  screen : Nat → UInt8

namespace Fish

/-- The links of all slots. -/
def next (F : Fish) (i : Fin 2000) : Link (Fin 2000) := (F.blinkArray i).next

def setSlot (F : Fish) (i : Fin 2000) (b : BlinkStruct) : Fish :=
  { F with blinkArray := Function.update F.blinkArray i b }

/-- `mp1_poke`. -/
def mp1Poke (F : Fish) (eax : Nat) (cl : UInt8) : Fish :=
  { F with screen := Function.update F.screen eax cl }

/-- The store of a link into the head of the list or into a slot. -/
def storeLink (F : Fish) (link : Link (Fin 2000)) : Option (Fin 2000) → Fish
  | none => { F with mp1ListHead := link }
  | some j => F.setSlot j { F.blinkArray j with next := link }

end Fish

/-- More nodes than there are slots: a walk that visits so many is in a cycle. -/
def walkFuel : Nat := 2001

def mp1Malloc (F : Fish) : Option (Fin 2000) :=
  (List.finRange 2000).find? (fun i => decide ((F.blinkArray i).location = 0))

def mp1Free (F : Fish) (i : Fin 2000) : Fish := F.setSlot i .zero

/-- `mp1_find_helper`, which compares the low word of its argument. -/
def mp1FindHelper (F : Fish) (ax : UInt16) : Option (Option (Fin 2000)) :=
  Links.find F.next (fun i => (F.blinkArray i).location = ax) walkFuel F.mp1ListHead

/-- `jg` after the comparison of a word with 0. -/
def positive (w : UInt16) : Prop := 0 < w.toNat ∧ w.toNat < 0x8000

instance (w : UInt16) : Decidable (positive w) := by
  unfold positive
  infer_instance

/-- One node in the loop of `mp1_rtc_tasklet`. -/
def taskletNode (F : Fish) (i : Fin 2000) : Fish :=
  let b := { F.blinkArray i with countdown := (F.blinkArray i).countdown - 1 }
  if positive b.countdown then F.setSlot i b
  else if b.status &&& 1 ≠ 0 then
    (F.mp1Poke (2 * b.location.toNat) b.offChar).setSlot i
      { b with countdown := b.offLength, status := b.status ^^^ 1 }
  else
    (F.mp1Poke (2 * b.location.toNat) b.onChar).setSlot i
      { b with countdown := b.onLength, status := b.status ^^^ 1 }

def mp1RtcTasklet (F : Fish) : Option Fish :=
  walk Fish.next taskletNode walkFuel F.mp1ListHead F

/-- `mp1_ioctl_add`; `user` is the caller's structure. -/
def mp1IoctlAdd (F : Fish) (user : BlinkStruct) : Fish × Int :=
  if user.location.toNat ≥ 80 * 25 then (F, -1)
  else
    let temp := { user with status := 1, countdown := user.onLength }
    match mp1Malloc F with
    | none => (F, -1)
    | some i =>
        let F := F.setSlot i temp
        let F := F.setSlot i { F.blinkArray i with next := F.mp1ListHead }
        let F := { F with mp1ListHead := .node i }
        let b := F.blinkArray i
        (F.mp1Poke (2 * b.location.toNat) b.onChar, 0)

def mp1IoctlRemove (F : Fish) (arg : UInt32) : Option (Fish × Int) :=
  (mp1FindHelper F arg.toUInt16).bind (fun found =>
    match found with
    | none => some (F, -1)
    | some i =>
        (findField F.next F.mp1ListHead (.node i) walkFuel none).map (fun prev =>
          (mp1Free (F.storeLink (F.next i) prev) i, 0)))

/-- `mp1_ioctl_find`: the result and what is copied out. -/
def mp1IoctlFind (F : Fish) (location : UInt16) : Option (Int × Option BlinkStruct) :=
  (mp1FindHelper F location).map (fun found =>
    match found with
    | none => (-1, none)
    | some i => (0, some (F.blinkArray i)))

/--
The character that `mp1_ioctl_sync` displays: `cmovl` after `testb $0x1` on the
status, which looks at the sign and overflow flags.
-/
def syncChar (b : BlinkStruct) : UInt8 :=
  let result := b.status.toUInt8 &&& 1
  let signFlag := decide (0x80 ≤ result.toNat)
  let overflowFlag := false
  if signFlag ≠ overflowFlag then b.onChar else b.offChar

/-- The node `edi` with the lengths, the countdown and the status of `esi`. -/
def syncedNode (esi edi : BlinkStruct) : BlinkStruct :=
  { edi with
    onLength := esi.onLength
    offLength := esi.offLength
    countdown := esi.countdown
    status := esi.status }

def mp1IoctlSync (F : Fish) (arg : UInt32) : Option (Fish × Int) :=
  (mp1FindHelper F (arg >>> 16).toUInt16).bind (fun found =>
    match found with
    | none => some (F, -1)
    | some esi =>
        (mp1FindHelper F (arg &&& 0xFFFF).toUInt16).map (fun found =>
          match found with
          | none => (F, -1)
          | some edi =>
              let b := syncedNode (F.blinkArray esi) (F.blinkArray edi)
              ((F.setSlot edi b).mp1Poke (2 * b.location.toNat) (syncChar b), 0)))

inductive BlinkEvent
  | add (user : BlinkStruct)
  | remove (arg : UInt32)
  | find (location : UInt16)
  | sync (arg : UInt32)
  | tasklet

/-- The state and the result after an operation; `none` if it does not return. -/
def blinkCall (F : Fish) : BlinkEvent → Option (Fish × Int)
  | .add user => some (mp1IoctlAdd F user)
  | .remove arg => mp1IoctlRemove F arg
  | .find location => (mp1IoctlFind F location).map (fun r => (F, r.1))
  | .sync arg => mp1IoctlSync F arg
  | .tasklet => (mp1RtcTasklet F).map (fun F => (F, 0))

def blinkStep (F : Fish) (e : BlinkEvent) : Option Fish := (blinkCall F e).map Prod.fst

/-- The empty list and the zeroed array. -/
def Fish.start (screen : Nat → UInt8) : Fish := ⟨.null, fun _ => .zero, screen⟩

/-! ## What the list is to be -/

/-- The list leads through these slots. -/
def Fish.Lists (F : Fish) (l : List (Fin 2000)) : Prop := Chain F.next F.mp1ListHead l

/-- What an operation is to do to the list `l`, and to return. -/
def EventOk (F : Fish) (l : List (Fin 2000)) (F' : Fish) (r : Int) : BlinkEvent → Prop
  | .add user =>
      (r = -1 ∧ F'.Lists l) ∨
      (r = 0 ∧ ∃ i, mp1Malloc F = some i ∧ i ∉ l ∧ F'.Lists (i :: l) ∧
        F'.blinkArray i =
          { user with status := 1, countdown := user.onLength, next := F.mp1ListHead })
  | .remove arg =>
      (r = -1 ∧ F'.Lists l ∧ ∀ i ∈ l, (F.blinkArray i).location ≠ arg.toUInt16) ∨
      (r = 0 ∧ ∃ i, l.find? (fun i => decide ((F.blinkArray i).location = arg.toUInt16)) = some i ∧
        F'.Lists (l.erase i))
  | _ => F'.Lists l

/-- The list is a proper one and the operation returns and does what it is to do. -/
def KeepsList (F : Fish) (e : BlinkEvent) : Prop :=
  ∃ l F' r, F.Lists l ∧ l.Nodup ∧ blinkCall F e = some (F', r) ∧ EventOk F l F' r e

/-- The slot is on the list. -/
def Fish.OnList (F : Fish) (i : Fin 2000) : Prop := ∃ l, F.Lists l ∧ i ∈ l

/--
At an addition with a valid location, a slot that is not on the list comes
before every node with location 0.
-/
def FreeSlotFirst (F : Fish) : BlinkEvent → Prop
  | .add user =>
      user.location.toNat < 2000 →
        ∀ i, F.OnList i → (F.blinkArray i).location = 0 → ∃ j < i, ¬ F.OnList j
  | _ => True

/-! ## Frames -/

namespace Fish

@[simp] theorem next_setSlot (F : Fish) (i : Fin 2000) (b : BlinkStruct) :
    (F.setSlot i b).next = Function.update F.next i b.next := by
  funext j
  unfold next setSlot
  by_cases hj : j = i
  · subst hj
    simp
  · simp [hj]

theorem setSlot_self (F : Fish) (i : Fin 2000) (b : BlinkStruct) :
    (F.setSlot i b).blinkArray i = b := Function.update_self _ _ _

theorem setSlot_of_ne (F : Fish) {i j : Fin 2000} (h : j ≠ i) (b : BlinkStruct) :
    (F.setSlot i b).blinkArray j = F.blinkArray j := Function.update_of_ne h _ _

/-- The list, and what the nodes display, are the same; lengths, countdowns and statuses may differ. -/
structure SameNodes (F F' : Fish) : Prop where
  head : F'.mp1ListHead = F.mp1ListHead
  next : ∀ i, (F'.blinkArray i).next = (F.blinkArray i).next
  location : ∀ i, (F'.blinkArray i).location = (F.blinkArray i).location
  onChar : ∀ i, (F'.blinkArray i).onChar = (F.blinkArray i).onChar
  offChar : ∀ i, (F'.blinkArray i).offChar = (F.blinkArray i).offChar

theorem SameNodes.refl (F : Fish) : SameNodes F F :=
  ⟨rfl, fun _ => rfl, fun _ => rfl, fun _ => rfl, fun _ => rfl⟩

theorem SameNodes.trans {F F' F'' : Fish} (h : SameNodes F F') (h' : SameNodes F' F'') :
    SameNodes F F'' :=
  ⟨h'.head.trans h.head, fun i => (h'.next i).trans (h.next i),
    fun i => (h'.location i).trans (h.location i), fun i => (h'.onChar i).trans (h.onChar i),
    fun i => (h'.offChar i).trans (h.offChar i)⟩

/-- A slot stored with its node data as they were. -/
theorem SameNodes.setSlot (F : Fish) (i : Fin 2000) {b : BlinkStruct}
    (hnext : b.next = (F.blinkArray i).next) (hlocation : b.location = (F.blinkArray i).location)
    (hon : b.onChar = (F.blinkArray i).onChar) (hoff : b.offChar = (F.blinkArray i).offChar) :
    SameNodes F (F.setSlot i b) := by
  have hslot : ∀ {β : Type} (g : BlinkStruct → β), g b = g (F.blinkArray i) →
      ∀ j, g ((F.setSlot i b).blinkArray j) = g (F.blinkArray j) := by
    intro β g hg j
    by_cases hj : j = i
    · rw [hj, F.setSlot_self, hg]
    · rw [F.setSlot_of_ne hj]
  exact ⟨rfl, hslot _ hnext, hslot _ hlocation, hslot _ hon, hslot _ hoff⟩

theorem SameNodes.poke (F : Fish) (eax : Nat) (cl : UInt8) : SameNodes F (F.mp1Poke eax cl) :=
  ⟨rfl, fun _ => rfl, fun _ => rfl, fun _ => rfl, fun _ => rfl⟩

theorem SameNodes.next_eq {F F' : Fish} (h : SameNodes F F') : F'.next = F.next := by
  funext i
  exact h.next i

theorem SameNodes.lists {F F' : Fish} (h : SameNodes F F') {l : List (Fin 2000)}
    (hl : F.Lists l) : F'.Lists l := by
  unfold Lists at *
  rwa [h.next_eq, h.head]

theorem Lists.length_lt {F : Fish} {l : List (Fin 2000)} (h : F.Lists l) : l.length < walkFuel := by
  have hle := Chain.length_le h
  rw [Fintype.card_fin] at hle
  unfold walkFuel
  omega

theorem Lists.onList_iff {F : Fish} {l : List (Fin 2000)} (h : F.Lists l) (i : Fin 2000) :
    F.OnList i ↔ i ∈ l := by
  constructor
  · rintro ⟨l', hl', hi⟩
    rwa [h.unique hl']
  · intro hi
    exact ⟨l, h, hi⟩

end Fish

open Fish

theorem taskletNode_sameNodes (F : Fish) (i : Fin 2000) : SameNodes F (taskletNode F i) := by
  unfold taskletNode
  simp only
  split_ifs
  · exact SameNodes.setSlot F i rfl rfl rfl rfl
  · exact (SameNodes.poke F _ _).trans (SameNodes.setSlot _ i rfl rfl rfl rfl)
  · exact (SameNodes.poke F _ _).trans (SameNodes.setSlot _ i rfl rfl rfl rfl)

/-! ## The operations on a proper list -/

theorem mp1FindHelper_eq {F : Fish} {l : List (Fin 2000)} (h : F.Lists l) (ax : UInt16) :
    mp1FindHelper F ax = some (l.find? (fun i => decide ((F.blinkArray i).location = ax))) :=
  find_chain h h.length_lt

theorem mp1RtcTasklet_eq {F : Fish} {l : List (Fin 2000)} (h : F.Lists l) :
    mp1RtcTasklet F = some (l.foldl taskletNode F) :=
  walk_chain (fun s i => (taskletNode_sameNodes s i).next_eq) h h.length_lt

theorem foldl_taskletNode_sameNodes (l : List (Fin 2000)) (F : Fish) :
    SameNodes F (l.foldl taskletNode F) := by
  induction l generalizing F with
  | nil => exact SameNodes.refl F
  | cons i rest ih => exact (taskletNode_sameNodes F i).trans (ih (taskletNode F i))

/-- The slots that are not on the list are free. -/
structure Proper (F : Fish) (l : List (Fin 2000)) : Prop where
  lists : F.Lists l
  free : ∀ i, i ∉ l → (F.blinkArray i).location = 0

theorem Proper.of_sameNodes {F F' : Fish} {l : List (Fin 2000)} (h : Proper F l)
    (hsame : SameNodes F F') : Proper F' l := by
  refine ⟨hsame.lists h.lists, ?_⟩
  intro i hi
  rw [hsame.location]
  exact h.free i hi

theorem start_proper (screen : Nat → UInt8) : Proper (Fish.start screen) [] :=
  ⟨rfl, fun _ _ => rfl⟩

theorem mp1Malloc_iff {F : Fish} {i : Fin 2000} :
    mp1Malloc F = some i ↔ IsLeast {j | (F.blinkArray j).location = 0} i :=
  FirstFit.find?_eq_some_iff

/-- The node that an addition stores. -/
def addedNode (F : Fish) (user : BlinkStruct) : BlinkStruct :=
  { user with status := 1, countdown := user.onLength, next := F.mp1ListHead }

/-- The state after an addition into slot `i`. -/
def Fish.added (F : Fish) (i : Fin 2000) (user : BlinkStruct) : Fish where
  mp1ListHead := .node i
  blinkArray := (F.setSlot i (addedNode F user)).blinkArray
  screen := Function.update F.screen (2 * user.location.toNat) user.onChar

theorem mp1IoctlAdd_eq {F : Fish} {user : BlinkStruct} (hloc : user.location.toNat < 2000)
    {i : Fin 2000} (hi : mp1Malloc F = some i) : mp1IoctlAdd F user = (F.added i user, 0) := by
  unfold mp1IoctlAdd
  rw [if_neg (by omega), hi]
  simp [Fish.added, addedNode, Fish.setSlot, Fish.mp1Poke]

theorem mp1IoctlAdd_fails {F : Fish} {user : BlinkStruct}
    (h : 2000 ≤ user.location.toNat ∨ mp1Malloc F = none) : mp1IoctlAdd F user = (F, -1) := by
  unfold mp1IoctlAdd
  rcases h with hloc | hnone
  · rw [if_pos hloc]
  · rw [hnone]
    simp

theorem Proper.add {F : Fish} {l : List (Fin 2000)} (h : Proper F l) {i : Fin 2000} (hi : i ∉ l)
    (user : BlinkStruct) : Proper (F.added i user) (i :: l) := by
  refine ⟨?_, ?_⟩
  · have hpush := Chain.push h.lists hi
    rw [show F.mp1ListHead = (addedNode F user).next from rfl, ← F.next_setSlot] at hpush
    exact hpush
  · intro j hj
    rw [List.mem_cons, not_or] at hj
    have hslot : (F.added i user).blinkArray j = F.blinkArray j := F.setSlot_of_ne hj.1 _
    rw [hslot]
    exact h.free j hj.2

/-- Under the condition, what `mp1_malloc` hands out is not on the list. -/
theorem Proper.malloc_fresh {F : Fish} {l : List (Fin 2000)} (h : Proper F l)
    {user : BlinkStruct} (hloc : user.location.toNat < 2000)
    (hguard : FreeSlotFirst F (.add user)) {i : Fin 2000} (hi : mp1Malloc F = some i) : i ∉ l := by
  intro hmem
  obtain ⟨hzero, hleast⟩ := mp1Malloc_iff.mp hi
  obtain ⟨j, hj, hoff⟩ := hguard hloc i ((h.lists.onList_iff i).mpr hmem) hzero
  rw [h.lists.onList_iff] at hoff
  exact absurd (hleast (h.free j hoff)) (not_le.mpr hj)

/-- The links after the link of `i` has been stored in front of it. -/
theorem storeLink_relink (F : Fish) (i : Fin 2000) (prev : Option (Fin 2000)) :
    (F.storeLink (F.next i) prev).next = (relink F.next F.mp1ListHead i prev).1 ∧
      (F.storeLink (F.next i) prev).mp1ListHead = (relink F.next F.mp1ListHead i prev).2 := by
  cases prev with
  | none => exact ⟨rfl, rfl⟩
  | some b => exact ⟨F.next_setSlot b _, rfl⟩

/-- The store changes no slot in anything but its link. -/
theorem storeLink_slot (F : Fish) (link : Link (Fin 2000)) (prev : Option (Fin 2000))
    (j : Fin 2000) :
    ∃ p, (F.storeLink link prev).blinkArray j = { F.blinkArray j with next := p } := by
  cases prev with
  | none => exact ⟨(F.blinkArray j).next, rfl⟩
  | some b =>
      rw [Fish.storeLink]
      by_cases hj : j = b
      · rw [hj, F.setSlot_self]
        exact ⟨link, rfl⟩
      · rw [F.setSlot_of_ne hj]
        exact ⟨(F.blinkArray j).next, rfl⟩

theorem Proper.remove {F : Fish} {l₁ l₂ : List (Fin 2000)} {i : Fin 2000}
    (h : Proper F (l₁ ++ i :: l₂)) :
    Proper (mp1Free (F.storeLink (F.next i) l₁.getLast?) i) (l₁ ++ l₂) := by
  obtain ⟨hnext, hhead⟩ := storeLink_relink F i l₁.getLast?
  have hnot : i ∉ l₁ ++ l₂ := Chain.not_mem_others h.lists
  refine ⟨?_, ?_⟩
  · have hunlinked := Chain.remove h.lists
    rw [← hnext, ← hhead] at hunlinked
    unfold Fish.Lists mp1Free
    rw [Fish.next_setSlot]
    apply hunlinked.congr
    intro j hj
    have hne : j ≠ i := by
      rintro rfl
      exact hnot hj
    exact Function.update_of_ne hne _ _
  · intro j hj
    unfold mp1Free
    by_cases hji : j = i
    · rw [hji, Fish.setSlot_self]
      rfl
    · obtain ⟨p, hp⟩ := storeLink_slot F (F.next i) l₁.getLast? j
      rw [Fish.setSlot_of_ne _ hji, hp]
      apply h.free
      intro hmem
      rcases List.mem_append.mp hmem with hleft | hright
      · exact hj (List.mem_append_left _ hleft)
      · rcases List.mem_cons.mp hright with heq | hright
        · exact hji heq
        · exact hj (List.mem_append_right _ hright)

/-! ## Runs -/

/-- `mp1_ioctl_sync` fails without a trace, or synchronises two nodes of the list. -/
theorem mp1IoctlSync_cases {F : Fish} {l : List (Fin 2000)} (h : F.Lists l) (arg : UInt32) :
    ((mp1FindHelper F (arg >>> 16).toUInt16 = some none ∨
        mp1FindHelper F (arg &&& 0xFFFF).toUInt16 = some none) ∧
      mp1IoctlSync F arg = some (F, -1)) ∨
      ∃ esi edi, edi ∈ l ∧
        mp1FindHelper F (arg >>> 16).toUInt16 = some (some esi) ∧
        mp1FindHelper F (arg &&& 0xFFFF).toUInt16 = some (some edi) ∧
        mp1IoctlSync F arg =
          some ((F.setSlot edi (syncedNode (F.blinkArray esi) (F.blinkArray edi))).mp1Poke
            (2 * (F.blinkArray edi).location.toNat)
            (syncChar (syncedNode (F.blinkArray esi) (F.blinkArray edi))), 0) := by
  have hesi := mp1FindHelper_eq h (arg >>> 16).toUInt16
  have hedi := mp1FindHelper_eq h (arg &&& 0xFFFF).toUInt16
  unfold mp1IoctlSync
  rw [hesi, hedi, Option.bind_some]
  cases l.find? (fun i => decide ((F.blinkArray i).location = (arg >>> 16).toUInt16)) with
  | none => exact .inl ⟨.inl rfl, rfl⟩
  | some esi =>
      simp only
      rw [Option.map_some]
      cases hfound :
          l.find? (fun i => decide ((F.blinkArray i).location = (arg &&& 0xFFFF).toUInt16)) with
      | none => exact .inl ⟨.inr rfl, rfl⟩
      | some edi => exact .inr ⟨esi, edi, List.mem_of_find?_eq_some hfound, rfl, rfl, rfl⟩

theorem mp1IoctlSync_sameNodes {F : Fish} {l : List (Fin 2000)} (h : F.Lists l) (arg : UInt32) :
    ∃ F' r, mp1IoctlSync F arg = some (F', r) ∧ SameNodes F F' := by
  rcases mp1IoctlSync_cases h arg with ⟨-, hfail⟩ | ⟨esi, edi, -, -, -, hsync⟩
  · exact ⟨F, -1, hfail, SameNodes.refl F⟩
  · refine ⟨_, 0, hsync, ?_⟩
    have hslot : SameNodes F (F.setSlot edi (syncedNode (F.blinkArray esi) (F.blinkArray edi))) :=
      SameNodes.setSlot F edi rfl rfl rfl rfl
    exact hslot.trans (SameNodes.poke _ _ _)

/-- `mp1_ioctl_remove` fails without a trace, or unlinks and frees the first node found. -/
theorem mp1IoctlRemove_cases {F : Fish} {l : List (Fin 2000)} (h : F.Lists l) (arg : UInt32) :
    ((∀ i ∈ l, (F.blinkArray i).location ≠ arg.toUInt16) ∧ mp1IoctlRemove F arg = some (F, -1)) ∨
      ∃ l₁ i l₂, l = l₁ ++ i :: l₂ ∧ l.erase i = l₁ ++ l₂ ∧
        l.find? (fun i => decide ((F.blinkArray i).location = arg.toUInt16)) = some i ∧
        mp1IoctlRemove F arg =
          some (mp1Free (F.storeLink (F.next i) l₁.getLast?) i, 0) := by
  unfold mp1IoctlRemove
  rw [mp1FindHelper_eq h, Option.bind_some]
  cases hfind : l.find? (fun i => decide ((F.blinkArray i).location = arg.toUInt16)) with
  | none =>
      refine .inl ⟨?_, rfl⟩
      intro i hi
      simpa using List.find?_eq_none.mp hfind i hi
  | some i =>
      obtain ⟨l₁, l₂, rfl⟩ := List.append_of_mem (List.mem_of_find?_eq_some hfind)
      have hlen := h.length_lt
      rw [List.length_append, List.length_cons] at hlen
      have hplace : findField F.next F.mp1ListHead (.node i) walkFuel none =
          some (l₁.getLast?.or none) := by
        have hchain : Chain F.next (field F.next F.mp1ListHead none) (l₁ ++ i :: l₂) := h
        exact findField_chain hchain (by omega)
      have hnot : i ∉ l₁ := fun hi => Chain.not_mem_others h (List.mem_append_left _ hi)
      refine .inr ⟨l₁, i, l₂, rfl, ?_, rfl, ?_⟩
      · rw [List.erase_append_right _ hnot, List.erase_cons_head]
      · simp only
        rw [hplace, Option.or_none]
        rfl

theorem Proper.remove_step {F : Fish} {l : List (Fin 2000)} (h : Proper F l) (arg : UInt32) :
    ∃ l' F' r, mp1IoctlRemove F arg = some (F', r) ∧ Proper F' l' ∧
      EventOk F l F' r (.remove arg) := by
  rcases mp1IoctlRemove_cases h.lists arg with
    ⟨hnone, hfail⟩ | ⟨l₁, i, l₂, rfl, herase, hfind, hremove⟩
  · exact ⟨l, F, -1, hfail, h, .inl ⟨rfl, h.lists, hnone⟩⟩
  · refine ⟨l₁ ++ l₂, _, 0, hremove, h.remove, .inr ⟨rfl, i, hfind, ?_⟩⟩
    rw [herase]
    exact h.remove.lists

/-- Under the condition every operation on a proper list returns and does what it is to do. -/
theorem Proper.step {F : Fish} {l : List (Fin 2000)} (h : Proper F l) {e : BlinkEvent}
    (hguard : FreeSlotFirst F e) :
    ∃ l' F' r, blinkCall F e = some (F', r) ∧ Proper F' l' ∧ EventOk F l F' r e := by
  cases e with
  | add user =>
      by_cases hfail : 2000 ≤ user.location.toNat ∨ mp1Malloc F = none
      · refine ⟨l, F, -1, congrArg some (mp1IoctlAdd_fails hfail), h, .inl ⟨rfl, h.lists⟩⟩
      · rw [not_or, not_le] at hfail
        obtain ⟨hloc, hsome⟩ := hfail
        obtain ⟨i, hi⟩ := Option.ne_none_iff_exists'.mp hsome
        have hfresh := h.malloc_fresh hloc hguard hi
        have hadded := h.add hfresh user
        refine ⟨i :: l, F.added i user, 0, congrArg some (mp1IoctlAdd_eq hloc hi), hadded, ?_⟩
        exact .inr ⟨rfl, i, hi, hfresh, hadded.lists, F.setSlot_self i _⟩
  | remove arg => exact h.remove_step arg
  | find location =>
      obtain ⟨r, hr⟩ : ∃ r, mp1IoctlFind F location = some r := by
        rw [mp1IoctlFind, mp1FindHelper_eq h.lists]
        exact ⟨_, rfl⟩
      exact ⟨l, F, r.1, by rw [blinkCall, hr, Option.map_some], h, h.lists⟩
  | sync arg =>
      obtain ⟨F', r, hcall, hsame⟩ := mp1IoctlSync_sameNodes h.lists arg
      exact ⟨l, F', r, hcall, h.of_sameNodes hsame, hsame.lists h.lists⟩
  | tasklet =>
      have hsame := foldl_taskletNode_sameNodes l F
      refine ⟨l, l.foldl taskletNode F, 0, ?_, h.of_sameNodes hsame, hsame.lists h.lists⟩
      rw [blinkCall, mp1RtcTasklet_eq h.lists]
      rfl

/-- An addition that does what it is to do had a free slot in front. -/
theorem Proper.freeSlotFirst {F : Fish} {l : List (Fin 2000)} (h : Proper F l) {e : BlinkEvent}
    (hkeeps : KeepsList F e) : FreeSlotFirst F e := by
  cases e with
  | add user =>
      intro hloc i hi hzero
      obtain ⟨l', F', r, hl', -, hcall, hok⟩ := hkeeps
      obtain rfl := h.lists.unique hl'
      have hsome : mp1Malloc F ≠ none := by
        intro hnone
        exact FirstFit.find?_eq_none_iff.mp hnone i hzero
      obtain ⟨k, hk⟩ := Option.ne_none_iff_exists'.mp hsome
      have hr : r = 0 := by
        rw [blinkCall, mp1IoctlAdd_eq hloc hk] at hcall
        exact (Prod.mk.inj (Option.some.inj hcall)).2.symm
      rcases hok with ⟨hfail, -⟩ | ⟨-, k', hk', hfresh, -⟩
      · rw [hr] at hfail
        cases hfail
      · rw [hk] at hk'
        obtain rfl := Option.some.inj hk'
        have hmem := (h.lists.onList_iff i).mp hi
        have hle : k ≤ i := (mp1Malloc_iff.mp hk).2 hzero
        have hne : k ≠ i := by
          rintro rfl
          exact hfresh hmem
        refine ⟨k, lt_of_le_of_ne hle hne, ?_⟩
        rwa [h.lists.onList_iff]
  | remove arg => trivial
  | find location => trivial
  | sync arg => trivial
  | tasklet => trivial

theorem blinkStep_proper {F F' : Fish} {e : BlinkEvent} (h : ∃ l, Proper F l)
    (hguard : FreeSlotFirst F e) (hstep : blinkStep F e = some F') : ∃ l, Proper F' l := by
  obtain ⟨l, hl⟩ := h
  obtain ⟨l', F'', r, hcall, hl', -⟩ := hl.step hguard
  rw [blinkStep, hcall] at hstep
  obtain rfl := Option.some.inj hstep
  exact ⟨l', hl'⟩

theorem run_proper {screen : Nat → UInt8} {es : List BlinkEvent} {F : Fish}
    (hrun : Run blinkStep FreeSlotFirst (Fish.start screen) es F) : ∃ l, Proper F l :=
  hrun.invariant (fun _ _ _ hI hC hs => blinkStep_proper hI hC hs) ⟨[], start_proper screen⟩

/--
After any operations that met the condition the list is a proper one, and the
next operation returns and does what it is to do exactly if it meets it too.
-/
theorem run_keeps_list_iff {screen : Nat → UInt8} {es : List BlinkEvent} {F : Fish}
    (hrun : Run blinkStep FreeSlotFirst (Fish.start screen) es F) :
    (∃ l, F.Lists l ∧ l.Nodup) ∧ ∀ e, KeepsList F e ↔ FreeSlotFirst F e := by
  obtain ⟨l, hl⟩ := run_proper hrun
  refine ⟨⟨l, hl.lists, hl.lists.nodup⟩, ?_⟩
  intro e
  constructor
  · exact hl.freeSlotFirst
  · intro hguard
    obtain ⟨l', F', r, hcall, -, hok⟩ := hl.step hguard
    exact ⟨l, F', r, hl.lists, hl.lists.nodup, hcall, hok⟩

/-- A character that blinks at a location of the screen. -/
def sampleNode (location : UInt16) : BlinkStruct := ⟨location, 0x49, 0x4D, 7, 6, 0, 0, .null⟩

theorem start_malloc (screen : Nat → UInt8) : mp1Malloc (Fish.start screen) = some 0 :=
  mp1Malloc_iff.mpr ⟨rfl, fun j _ => Fin.zero_le j⟩

theorem run_keeps_list_iff_one_node :
    ∃ F, Run blinkStep FreeSlotFirst (Fish.start (fun _ => 0x20)) [.add (sampleNode 40)] F ∧
      KeepsList F (.remove 40) := by
  have hguard : FreeSlotFirst (Fish.start (fun _ => 0x20)) (.add (sampleNode 40)) := by
    intro _ i hi
    rw [(start_proper _).lists.onList_iff] at hi
    cases hi
  have hrun : Run blinkStep FreeSlotFirst (Fish.start (fun _ => 0x20)) [.add (sampleNode 40)] _ :=
    Run.cons hguard rfl (Run.nil _)
  exact ⟨_, hrun, ((run_keeps_list_iff hrun).2 (.remove 40)).mpr trivial⟩

/--
Two additions with location 0: the second one is handed the slot of the first,
the list is a cycle, and a search along it does not end.
-/
theorem location_zero_cycle :
    ∃ F F', blinkStep (Fish.start (fun _ => 0x20)) (.add (sampleNode 0)) = some F ∧
      blinkStep F (.add (sampleNode 0)) = some F' ∧
      F.OnList 0 ∧ mp1Malloc F = some 0 ∧
      (∀ l, ¬ F'.Lists l) ∧
      ∀ n, Links.find F'.next (fun i => (F'.blinkArray i).location = 1) n F'.mp1ListHead = none := by
  have hloc : (sampleNode 0).location.toNat < 2000 := by decide
  have hadded := (start_proper (fun _ => 0x20)).add (List.not_mem_nil (a := 0)) (sampleNode 0)
  have hmalloc : mp1Malloc ((Fish.start (fun _ => 0x20)).added 0 (sampleNode 0)) = some 0 :=
    mp1Malloc_iff.mpr ⟨rfl, fun j _ => Fin.zero_le j⟩
  refine ⟨(Fish.start (fun _ => 0x20)).added 0 (sampleNode 0),
    ((Fish.start (fun _ => 0x20)).added 0 (sampleNode 0)).added 0 (sampleNode 0), ?_, ?_,
    ⟨[0], hadded.lists, List.mem_singleton_self 0⟩, hmalloc, not_chain_loop rfl,
    find_loop rfl (by decide)⟩
  · rw [blinkStep, blinkCall, mp1IoctlAdd_eq hloc (start_malloc _)]
    rfl
  · rw [blinkStep, blinkCall, mp1IoctlAdd_eq hloc hmalloc]
    rfl

end OopsOs
