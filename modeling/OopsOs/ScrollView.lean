import OopsOs.Console

/-!
# Scrolling as a view of an unbounded page

`Page` is a terminal with as many rows as are needed, which never scrolls.  It
moves its cursor by the rules of `putc` and shows characters where the cursor
is.  Its view is the last 25 rows, or the first 25 while the cursor is in one of
them.

The console shows the view of the page, byte after byte, with one exception:
`scroll_up` goes to column 0, and a tab that leaves the last row of the screen
should be in column 8.
-/

namespace OopsOs

open ByteMem

/-! ## The reference terminal -/

structure Page where
  cells : Nat → Nat → UInt8
  row : Nat
  col : Nat

namespace Page

def empty : Page := ⟨fun _ _ => blank, 0, 0⟩

/-- The character `c` in cell `(x, y)`. -/
def setCell (cells : Nat → Nat → UInt8) (y x : Nat) (c : UInt8) : Nat → Nat → UInt8 :=
  fun y' x' => if y' = y ∧ x' = x then c else cells y' x'

/-- A byte other than backspace. -/
def putc (p : Page) (c : UInt8) : Page :=
  if c = 0x0A ∨ c = 0x0D then { p with row := p.row + 1, col := 0 }
  else if c = 0x09 then
    if p.col < 72 then { p with col := p.col + 8 } else { p with row := p.row + 1, col := 8 }
  else
    let p := { p with cells := setCell p.cells p.row p.col c }
    if p.col = 79 then { p with row := p.row + 1, col := 0 } else { p with col := p.col + 1 }

def write (bytes : List UInt8) : Page := bytes.foldl putc empty

/-- The first row of the view. -/
def top (p : Page) : Nat := p.row - 24

/-- The cursor is in a row of 80 columns, and the rows below it are blank. -/
structure Fresh (p : Page) : Prop where
  col : p.col < 80
  below : ∀ y, p.row < y → ∀ x, p.cells y x = blank

end Page

/-- The text area at `base` shows 25 rows of the page, from row `top` on. -/
def ShowsRows (m : Mem) (base : Int) (cells : Nat → Nat → UInt8) (top : Nat) : Prop :=
  ∀ y x : Nat, y < 25 → x < 80 →
    m (base + cellOffset x y) = cells (top + y) x ∧ m (base + cellOffset x y + 1) = attrib

/-- The console shows the view of the page, with the cursor where the page has it. -/
structure ShowsView (p : Page) (s : Console) : Prop where
  rows : ShowsRows s.mem s.videoMem p.cells p.top
  x : s.screenX = p.col
  y : s.screenY = (p.row - p.top : Nat)

/-! ## Storing and scrolling -/

section Rows

variable {m : Mem} {base : Int} {cells : Nat → Nat → UInt8} {top : Nat}

theorem ShowsRows.store (h : ShowsRows m base cells top) {y x : Nat} (hx : x < 80) (c : UInt8) :
    ShowsRows (storeCell m base (cellOffset x y) c) base (Page.setCell cells (top + y) x c) top := by
  intro y' x' hy' hx'
  obtain ⟨hchar, hattr⟩ := h y' x' hy' hx'
  rw [storeCell_apply, storeCell_apply]
  simp only [cellOffset_eq] at hchar hattr ⊢
  unfold Page.setCell
  by_cases hsame : y' = y ∧ x' = x
  · obtain ⟨rfl, rfl⟩ := hsame
    refine ⟨?_, ?_⟩
    · rw [if_neg (by omega), if_pos rfl, if_pos ⟨rfl, rfl⟩]
    · rw [if_pos rfl]
  · refine ⟨?_, ?_⟩
    · rw [if_neg (by omega), if_neg (by omega), if_neg (by omega), hchar]
    · rw [if_neg (by omega), if_neg (by omega), hattr]

/-- The view moves down by a row that is blank so far. -/
theorem ShowsRows.scroll (h : ShowsRows m base cells top)
    (hblank : ∀ x, cells (top + 25) x = blank) :
    ShowsRows (scrollRows m base base) base cells (top + 1) := by
  intro y x hy hx
  rw [scrollRows_apply _ (pagesApart_self base), scrollRows_apply _ (pagesApart_self base)]
  simp only [cellOffset_eq]
  rw [if_pos (by omega), if_pos (by omega)]
  unfold scrolledByte
  refine ⟨?_, ?_⟩
  · rw [if_neg (by omega)]
    by_cases hlast : y = 24
    · rw [if_neg (by omega), hlast, hblank x]
    · have hnext := (h (y + 1) x (by omega) hx).1
      rw [if_pos (by omega), show top + 1 + y = top + (y + 1) by omega, ← hnext, cellOffset_eq]
      congr 1
      push_cast
      omega
  · rw [if_pos (by omega)]

end Rows

/-! ## One byte -/

section Byte

variable {p : Page} {s : Console}

theorem Page.Fresh.putc (h : p.Fresh) (c : UInt8) : (p.putc c).Fresh := by
  obtain ⟨hcol, hbelow⟩ := h
  have hrow : ∀ y, p.row + 1 < y → ∀ x, p.cells y x = blank := by
    intro y hy x
    exact hbelow y (by omega) x
  have hstored : ∀ y, p.row < y → ∀ x, Page.setCell p.cells p.row p.col c y x = blank := by
    intro y hy x
    unfold Page.setCell
    rw [if_neg (by omega), hbelow y hy x]
  unfold Page.putc
  split_ifs with hnewline htab hstop
  · exact ⟨by simp, hrow⟩
  · exact ⟨by simp only; omega, hbelow⟩
  · exact ⟨by simp, hrow⟩
  · simp only
    split_ifs with hlast
    · refine ⟨by simp, ?_⟩
      intro y hy x
      exact hstored y (Nat.lt_of_succ_lt hy) x
    · exact ⟨by simp only; omega, hstored⟩

/-- The next row: right unless the screen scrolls and the column is not 0. -/
theorem showsView_nextRow (h : ShowsView p s) {m : Mem} {cells : Nat → Nat → UInt8}
    (hrows : ShowsRows m s.videoMem cells p.top) (hbelow : ∀ x, cells (p.row + 1) x = blank)
    {cell : Option (Int × Int × UInt8)}
    (hwrite : (Plan.mk cell false 0 0).write s.mem s.videoMem = m) (x : Nat) :
    ShowsView ⟨cells, p.row + 1, x⟩ ((Plan.nextRow cell x s.screenY).run s) ↔
      (24 ≤ p.row → x = 0) := by
  have hy := h.y
  unfold Page.top at hy hrows
  by_cases hlast : 24 ≤ p.row
  · have hplan : Plan.nextRow cell x s.screenY = ⟨cell, true, 0, 24⟩ := by
      unfold Plan.nextRow
      rw [if_pos (by omega)]
    have htop : p.row - 24 + 25 = p.row + 1 := by omega
    have hscrolled := hrows.scroll (by rw [htop]; exact hbelow)
    have hwritten : (Plan.mk cell true 0 24).write s.mem s.videoMem = m := hwrite
    rw [hplan]
    constructor
    · intro hview _
      have hx := hview.x
      simp only [Plan.run] at hx
      omega
    · intro hcol
      refine ⟨?_, ?_, ?_⟩
      · have htop' : (Page.mk cells (p.row + 1) x).top = p.row - 24 + 1 := by
          unfold Page.top
          simp only
          omega
        rw [htop']
        simp only [Plan.run, Plan.apply, hwritten, if_true]
        exact hscrolled
      · simp [Plan.run, hcol hlast]
      · simp only [Plan.run, Page.top]
        omega
  · have hplan : Plan.nextRow cell x s.screenY = ⟨cell, false, x, s.screenY + 1⟩ := by
      unfold Plan.nextRow
      rw [if_neg (by omega)]
    have hwritten : (Plan.mk cell false x (s.screenY + 1)).write s.mem s.videoMem = m := hwrite
    rw [hplan]
    refine iff_of_true ⟨?_, ?_, ?_⟩ (fun h24 => absurd h24 hlast)
    · have htop' : (Page.mk cells (p.row + 1) x).top = p.row - 24 := by
        unfold Page.top
        simp only
        omega
      rw [htop']
      simp only [Plan.run, Plan.apply, hwritten]
      exact hrows
    · rfl
    · simp only [Plan.run, Page.top]
      omega

/-- A tab that leaves the last row of the screen. -/
def LosesColumn (p : Page) (c : UInt8) : Prop := c = 0x09 ∧ 72 ≤ p.col ∧ 24 ≤ p.row

/-- A newline goes to column 0 on the page and on the screen. -/
theorem showsView_newline (h : ShowsView p s) (hfresh : p.Fresh) {c : UInt8}
    (hnewline : c = 0x0A ∨ c = 0x0D) : ShowsView (p.putc c) (s.putc c) := by
  have hbelow : ∀ x, p.cells (p.row + 1) x = blank := hfresh.below _ (Nat.lt_succ_self _)
  rw [Console.putc_eq_run]
  unfold plan Page.putc
  rw [if_pos hnewline, if_pos hnewline]
  exact (showsView_nextRow h h.rows hbelow rfl 0).mpr (fun _ => rfl)

theorem showsView_tab_iff (h : ShowsView p s) (hfresh : p.Fresh) :
    ShowsView (p.putc 0x09) (s.putc 0x09) ↔ ¬ LosesColumn p 0x09 := by
  have hbelow : ∀ x, p.cells (p.row + 1) x = blank := hfresh.below _ (Nat.lt_succ_self _)
  have hnewline : ¬ ((0x09 : UInt8) = 0x0A ∨ (0x09 : UInt8) = 0x0D) := by decide
  rw [Console.putc_eq_run]
  unfold plan Page.putc
  rw [if_neg hnewline, if_neg hnewline, if_pos rfl, if_pos rfl]
  by_cases hstop : p.col < 72
  · rw [if_pos hstop, if_pos (by rw [h.x]; omega)]
    refine iff_of_true ⟨h.rows, ?_, h.y⟩ (fun hlost => ?_)
    · simp [Plan.run, h.x]
    · have := hlost.2.1
      omega
  · rw [if_neg hstop, if_neg (by rw [h.x]; omega)]
    have hkept : (Plan.mk none false 0 0).write s.mem s.videoMem = s.mem := rfl
    have hview := showsView_nextRow h h.rows hbelow hkept 8
    push_cast at hview
    rw [hview]
    constructor
    · intro hrow hlost
      exact absurd (hrow hlost.2.2) (by decide)
    · intro hlost hrow
      exact absurd ⟨rfl, by omega, hrow⟩ hlost

/-- Any other byte is stored at the cursor, in the row of the page that the cursor is in. -/
theorem showsView_character (h : ShowsView p s) (hfresh : p.Fresh) {c : UInt8}
    (hnewline : ¬ (c = 0x0A ∨ c = 0x0D)) (htab : c ≠ 0x09) (hback : c ≠ 0x08) :
    ShowsView (p.putc c) (s.putc c) := by
  have hrow : p.top + (p.row - p.top) = p.row := by
    unfold Page.top
    omega
  have hstored := h.rows.store (y := p.row - p.top) hfresh.col c
  rw [hrow] at hstored
  have hwrite : ∀ scroll x y, (Plan.mk (some ((p.col : Int), s.screenY, c)) scroll x y).write
      s.mem s.videoMem =
        storeCell s.mem s.videoMem (cellOffset p.col (p.row - p.top : Nat)) c := by
    intro scroll x y
    rw [← h.y]
    rfl
  rw [Console.putc_eq_run]
  unfold plan Page.putc
  rw [if_neg hnewline, if_neg hnewline, if_neg htab, if_neg htab, if_neg hback, h.x]
  by_cases hend : p.col = 79
  · have hbelow : ∀ x, Page.setCell p.cells p.row p.col c (p.row + 1) x = blank := by
      intro x
      unfold Page.setCell
      rw [if_neg (by omega), hfresh.below _ (Nat.lt_succ_self _) x]
    have hend' : (p.col : Int) = 79 := by omega
    rw [if_pos hend']
    simp only [if_pos hend]
    exact (showsView_nextRow h hstored hbelow (hwrite _ _ _) 0).mpr (fun _ => rfl)
  · have hend' : ¬ (p.col : Int) = 79 := by omega
    rw [if_neg hend']
    simp only [if_neg hend]
    refine ⟨?_, ?_, h.y⟩
    · simp only [Plan.run, Plan.apply, hwrite]
      exact hstored
    · simp [Plan.run]

/-- The console follows the page by one byte exactly if that is not such a tab. -/
theorem showsView_putc_iff (h : ShowsView p s) (hfresh : p.Fresh) {c : UInt8} (hc : c ≠ 0x08) :
    ShowsView (p.putc c) (s.putc c) ↔ ¬ LosesColumn p c := by
  by_cases htab : c = 0x09
  · subst htab
    exact showsView_tab_iff h hfresh
  · have hkeeps : ¬ LosesColumn p c := fun hlost => htab hlost.1
    refine iff_of_true ?_ hkeeps
    by_cases hnewline : c = 0x0A ∨ c = 0x0D
    · exact showsView_newline h hfresh hnewline
    · exact showsView_character h hfresh hnewline htab hc

end Byte

/-! ## Strings -/

theorem page_empty_fresh : Page.empty.Fresh := ⟨by simp [Page.empty], fun _ _ _ => rfl⟩

theorem write_fresh (bytes : List UInt8) : (Page.write bytes).Fresh := by
  unfold Page.write
  induction bytes using List.reverseRecOn with
  | nil =>
      exact page_empty_fresh
  | append_singleton bytes c ih =>
      rw [List.foldl_append]
      exact ih.putc c

/-- A cleared screen is the view of the empty page. -/
theorem showsView_clear (s : Console) : ShowsView Page.empty s.clear := by
  refine ⟨?_, rfl, rfl⟩
  intro y x hy hx
  simp only [Console.clear, clearCells_apply, cellOffset_eq]
  refine ⟨?_, ?_⟩
  · rw [if_pos (by omega), if_neg (by omega)]
    rfl
  · rw [if_pos (by omega), if_pos (by omega)]

/-- No tab of the string leaves the last row of the screen. -/
def KeepsColumns (bytes : List UInt8) : Prop :=
  ∀ before c, before ++ [c] <+: bytes → ¬ LosesColumn (Page.write before) c

theorem showsView_of_keepsColumns (s : Console) {bytes : List UInt8}
    (hback : ∀ c ∈ bytes, c ≠ 0x08) (hkeeps : KeepsColumns bytes) (before : List UInt8)
    (hbefore : before <+: bytes) :
    ShowsView (Page.write before) (before.foldl Console.putc s.clear) := by
  induction before using List.reverseRecOn with
  | nil =>
      exact showsView_clear s
  | append_singleton before c ih =>
      have hview := ih ((List.prefix_append before [c]).trans hbefore)
      have hc : c ≠ 0x08 := hback c (hbefore.subset (by simp))
      have hstep := (showsView_putc_iff hview (write_fresh before) hc).mpr
        (hkeeps before c hbefore)
      simpa only [Page.write, List.foldl_append, List.foldl_cons, List.foldl_nil] using hstep

/--
Over a string without backspaces, written to a cleared screen, the console shows
the view of the page after every byte exactly if no tab leaves the last row.
-/
theorem shows_view_iff_keepsColumns (s : Console) (bytes : List UInt8)
    (hback : ∀ c ∈ bytes, c ≠ 0x08) :
    (∀ before, before <+: bytes →
      ShowsView (Page.write before) (before.foldl Console.putc s.clear)) ↔
    KeepsColumns bytes := by
  constructor
  · intro h before c hstart
    have hview := h before ((List.prefix_append before [c]).trans hstart)
    have hnext := h (before ++ [c]) hstart
    have hc : c ≠ 0x08 := hback c (hstart.subset (by simp))
    simp only [Page.write, List.foldl_append, List.foldl_cons, List.foldl_nil] at hnext
    exact (showsView_putc_iff hview (write_fresh before) hc).mp hnext
  · intro hkeeps before hbefore
    exact showsView_of_keepsColumns s hback hkeeps before hbefore

/-- A tab in the first row and a character after it. -/
theorem shows_view_iff_keepsColumns_tab :
    ShowsView (Page.write [0x09, 0x41])
      ([0x09, 0x41].foldl Console.putc (Console.mk 0xB8000 (fun _ => 0) 0 0).clear) := by
  have hkeeps : KeepsColumns [0x09, 0x41] := by
    rintro before c hstart ⟨-, hcol, hrow⟩
    have hlen := hstart.length_le
    rw [List.length_append] at hlen
    simp only [List.length_cons, List.length_nil] at hlen
    have hbefore : before = [] ∨ before = [0x09] := by
      have htake := List.prefix_iff_eq_take.mp ((List.prefix_append before [c]).trans hstart)
      rcases Nat.le_one_iff_eq_zero_or_eq_one.mp (show before.length ≤ 1 by omega) with h0 | h1
      · exact Or.inl (List.length_eq_zero_iff.mp h0)
      · rw [h1] at htake
        exact Or.inr htake
    rcases hbefore with rfl | rfl
    · exact absurd hrow (by decide +kernel)
    · exact absurd hrow (by decide +kernel)
  exact (shows_view_iff_keepsColumns _ [0x09, 0x41] (by simp)).mpr hkeeps _ (List.prefix_refl _)

/-- Ten tabs in the last row of the screen. -/
def tabsInLastRow : List UInt8 := List.replicate 24 0x0A ++ List.replicate 10 0x09

/-- The page goes to column 8 and the console to column 0. -/
theorem tab_loses_column :
    (∀ c ∈ tabsInLastRow, c ≠ 0x08) ∧ (Page.write tabsInLastRow).col = 8 ∧
      (tabsInLastRow.foldl Console.putc (Console.mk 0xB8000 (fun _ => 0) 0 0).clear).screenX = 0 ∧
      ¬ ShowsView (Page.write tabsInLastRow)
        (tabsInLastRow.foldl Console.putc (Console.mk 0xB8000 (fun _ => 0) 0 0).clear) := by
  have hcol : (Page.write tabsInLastRow).col = 8 := by decide +kernel
  have hx : (tabsInLastRow.foldl Console.putc
      (Console.mk 0xB8000 (fun _ => 0) 0 0).clear).screenX = 0 := by decide +kernel
  refine ⟨by decide +kernel, hcol, hx, ?_⟩
  intro h
  have := h.x
  rw [hx, hcol] at this
  exact absurd this (by decide)

end OopsOs
