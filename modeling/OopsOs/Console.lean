import OopsOs.Lib.ByteMem

/-!
# The text console of `lib.c`

The console writes an 80 by 25 text screen of two bytes a cell, a character
and an attribute, into a page of memory that starts at `video_mem`.  The state
of `lib.c` is that pointer, the memory it points into and the cursor
`screen_x`, `screen_y`.

What the console is for is said over `Screen`, the 4096 bytes of the page and
the cursor: `putc_screen_congr` and `clear_screen_congr` say that a byte acts
on the screen alone, `putc_outside` and `clear_outside` that nothing but the
text area of the page is written, and `putc_inBounds` that the cursor stays on
the screen.  They all follow from `putc_eq_run`: what a byte does is a `Plan`
that depends on the cursor only.

`update_cursor` only drives the cursor of the CRT controller and has no
counterpart here.
-/

namespace OopsOs

open ByteMem

@[simp] def numCols : Int := 80
@[simp] def numRows : Int := 25
@[simp] def attrib : UInt8 := 0x7
@[simp] def blank : UInt8 := 0x20

/-- The globals of `lib.c` that the console functions use. -/
structure Console where
  videoMem : Int
  mem : Mem
  screenX : Int
  screenY : Int

/-- Character and attribute stores of one cell, at byte offset `off` of a page. -/
def storeCell (m : Mem) (base off : Int) (c : UInt8) : Mem :=
  (m.store (base + off) c).store (base + off + 1) attrib

/-- The offset `(NUM_COLS * y + x) << 1` of a cell. -/
def cellOffset (x y : Int) : Int := (numCols * y + x) * 2

/--
The loops of `scroll_up` and of its copy in `terminal.c`, which read the rows
from the page `src` and write them to the page `dst`.
-/
def scrollRows (m : Mem) (dst src : Int) : Mem :=
  let m := loop 24 (fun i m =>
    loop 80 (fun j m =>
      storeCell m dst (cellOffset j i) (m (src + cellOffset j (i + 1)))) m) m
  loop 80 (fun j m => storeCell m dst (cellOffset j (numRows - 1)) blank) m

/-- The clearing loop of `clear` and `terminal_open`. -/
def clearCells (m : Mem) (base : Int) : Mem :=
  loop (25 * 80) (fun i m => storeCell m base ((i : Int) * 2) blank) m

namespace Console

def scrollUp (s : Console) : Console :=
  { s with
    mem := scrollRows s.mem s.videoMem s.videoMem
    screenX := 0
    screenY := numRows - 1 }

def handleEnter (s : Console) : Console :=
  let s := { s with screenY := s.screenY + 1, screenX := 0 }
  if s.screenY = numRows then scrollUp s else s

def handleTab (s : Console) : Console :=
  if s.screenX < numCols - 8 then
    { s with screenX := s.screenX + 8 }
  else
    let s := { s with screenY := s.screenY + 1, screenX := 8 }
    if s.screenY = numRows then scrollUp s else s

def handleBackspace (s : Console) : Console :=
  let s :=
    if s.screenX > 0 then { s with screenX := s.screenX - 1 }
    else if s.screenY > 0 then
      { s with screenX := numCols - 1, screenY := s.screenY - 1 }
    else s
  { s with mem := storeCell s.mem s.videoMem (cellOffset s.screenX s.screenY) blank }

def handleNormalChar (s : Console) (c : UInt8) : Console :=
  let s := { s with mem := storeCell s.mem s.videoMem (cellOffset s.screenX s.screenY) c }
  if s.screenX = numCols - 1 then
    let s := { s with screenX := 0, screenY := s.screenY + 1 }
    if s.screenY = numRows then scrollUp s else s
  else
    { s with screenX := s.screenX + 1 }

def putc (s : Console) (c : UInt8) : Console :=
  if c = 0x0A ∨ c = 0x0D then handleEnter s
  else if c = 0x09 then handleTab s
  else if c = 0x08 then handleBackspace s
  else handleNormalChar s c

def clear (s : Console) : Console :=
  { s with mem := clearCells s.mem s.videoMem, screenY := 0, screenX := 0 }

/-- `puts`, and `printf` on a format without conversions. -/
def puts (s : Console) (text : String) : Console :=
  (text.toList.map (fun c => UInt8.ofNat c.toNat)).foldl putc s

end Console

/-! ## Closed forms of the loops -/

/-- What `scrollRows` leaves at offset `o` of the destination page. -/
def scrolledByte (m : Mem) (src o : Int) : UInt8 :=
  if o % 2 = 1 then attrib
  else if o < 3840 then m (src + o + 160)
  else blank

/-- The two pages of a scroll are the same or do not meet. -/
def PagesApart (dst src : Int) : Prop :=
  src = dst ∨ src + 4096 ≤ dst ∨ dst + 4096 ≤ src

theorem cellOffset_eq (x y : Int) : cellOffset x y = 160 * y + 2 * x := by
  unfold cellOffset numCols
  ring

theorem storeCell_apply (m : Mem) (base off : Int) (c : UInt8) (a : Int) :
    storeCell m base off c a =
      if a = base + off + 1 then attrib
      else if a = base + off then c
      else m a := rfl

/-- After `n` cells the first `2 n` bytes are scrolled and the rest is untouched. -/
def ScrolledTo (m : Mem) (dst src : Int) (n : Nat) (z : Mem) : Prop :=
  ∀ a, z a =
    if dst ≤ a ∧ a < dst + 2 * n then scrolledByte m src (a - dst) else m a

/-- Storing the right character into cell `n` scrolls one cell more. -/
theorem scrolledTo_storeCell {m z : Mem} {dst src off : Int} {n : Nat} {c : UInt8}
    (h : ScrolledTo m dst src n z) (hoff : off = 2 * n)
    (hc : scrolledByte m src off = c) :
    ScrolledTo m dst src (n + 1) (storeCell z dst off c) := by
  intro a
  rw [storeCell_apply]
  by_cases h1 : a = dst + off + 1
  · rw [if_pos h1, if_pos (by push_cast; omega), scrolledByte, if_pos (by omega)]
  · rw [if_neg h1]
    by_cases h0 : a = dst + off
    · have ho : a - dst = off := by omega
      rw [if_pos h0, if_pos (by push_cast; omega), ho, hc]
    · rw [if_neg h0, h a]
      by_cases hin : dst ≤ a ∧ a < dst + 2 * n
      · rw [if_pos hin, if_pos (by push_cast; omega)]
      · rw [if_neg hin, if_neg (by push_cast; omega)]

/-- A row is read before the scroll reaches it, also when it is read in place. -/
theorem scrolledTo_copyStep {m z : Mem} {dst src : Int} {i j : Nat}
    (hp : PagesApart dst src) (hi : i < 24) (hj : j < 80)
    (h : ScrolledTo m dst src (80 * i + j) z) :
    ScrolledTo m dst src (80 * i + (j + 1))
      (storeCell z dst (cellOffset j i) (z (src + cellOffset j (i + 1)))) := by
  have hread : z (src + cellOffset j (i + 1)) = m (src + cellOffset j (i + 1)) := by
    rw [h, cellOffset_eq, if_neg]
    unfold PagesApart at hp
    push_cast
    omega
  rw [hread]
  apply scrolledTo_storeCell h
  · rw [cellOffset_eq]
    push_cast
    ring
  · rw [cellOffset_eq, cellOffset_eq, scrolledByte, if_neg (by omega), if_pos (by omega)]
    congr 1
    ring

theorem scrolledTo_blankStep {m z : Mem} {dst src : Int} {j : Nat}
    (h : ScrolledTo m dst src (1920 + j) z) :
    ScrolledTo m dst src (1920 + (j + 1))
      (storeCell z dst (cellOffset j (numRows - 1)) blank) := by
  apply scrolledTo_storeCell h
  · rw [cellOffset_eq]
    simp only [numRows]
    push_cast
    ring
  · rw [cellOffset_eq, numRows, scrolledByte, if_neg (by omega), if_neg (by omega)]

/-- The scroll loops, read as one update of the 4000 bytes of the text area. -/
theorem scrollRows_apply (m : Mem) {dst src : Int} (hp : PagesApart dst src) (a : Int) :
    scrollRows m dst src a =
      if dst ≤ a ∧ a < dst + 4000 then scrolledByte m src (a - dst) else m a := by
  have hcopy : ScrolledTo m dst src (80 * 24)
      (loop 24 (fun i m =>
        loop 80 (fun j m =>
          storeCell m dst (cellOffset j i) (m (src + cellOffset j (i + 1)))) m) m) := by
    apply loop_invariant (fun i z => ScrolledTo m dst src (80 * i) z)
    · intro a
      rw [if_neg (by omega)]
    · intro i y hi hy
      exact loop_invariant (fun j z => ScrolledTo m dst src (80 * i + j) z) hy
        (fun j z hj hz => scrolledTo_copyStep hp hi hj hz)
  have hall : ScrolledTo m dst src (1920 + 80) (scrollRows m dst src) :=
    loop_invariant (fun j z => ScrolledTo m dst src (1920 + j) z) hcopy
      (fun j z _ hz => scrolledTo_blankStep hz)
  simpa using hall a

/-- The clearing loop, read as one update of the 4000 bytes of the text area. -/
theorem clearCells_apply (m : Mem) (base a : Int) :
    clearCells m base a =
      if base ≤ a ∧ a < base + 4000 then
        (if (a - base) % 2 = 1 then attrib else blank)
      else m a := by
  have h := loop_invariant
    (f := fun (i : Nat) (m : Mem) => storeCell m base ((i : Int) * 2) blank)
    (fun n z => ∀ a, z a =
      if base ≤ a ∧ a < base + 2 * (n : Int) then
        (if (a - base) % 2 = 1 then attrib else blank)
      else m a)
    (n := 25 * 80) (x := m)
    (by intro a; rw [if_neg (by omega)])
    (by
      intro i y _ hy a
      rw [storeCell_apply, hy a]
      split_ifs <;> first | rfl | (exfalso; push_cast at *; omega))
  simpa [clearCells] using h a

/-! ## Screens -/

/-- What a terminal shows: the bytes of its page and its cursor. -/
@[ext] structure Screen where
  cells : Fin 4096 → UInt8
  x : Int
  y : Int

/-- The cursor is on the 80 by 25 text area. -/
def Screen.InBounds (scr : Screen) : Prop :=
  0 ≤ scr.x ∧ scr.x < 80 ∧ 0 ≤ scr.y ∧ scr.y < 25

/-- The page that starts at `base`. -/
def page (m : Mem) (base : Int) : Fin 4096 → UInt8 :=
  fun i => m (base + i.val)

/-- The screen a console shows. -/
def Console.screen (s : Console) : Screen :=
  ⟨page s.mem s.videoMem, s.screenX, s.screenY⟩

@[simp] theorem Console.screen_x (s : Console) : s.screen.x = s.screenX := rfl
@[simp] theorem Console.screen_y (s : Console) : s.screen.y = s.screenY := rfl

/-! ## The plan of a byte -/

/-- At most one cell store, then possibly a scroll, then the new cursor. -/
structure Plan where
  cell : Option (Int × Int × UInt8)
  scroll : Bool
  x : Int
  y : Int

/-- Moving to column `x` of the next row, with a scroll at the bottom row. -/
def Plan.nextRow (cell : Option (Int × Int × UInt8)) (x y : Int) : Plan :=
  if y + 1 = 25 then ⟨cell, true, 0, 24⟩ else ⟨cell, false, x, y + 1⟩

/-- What `putc` does at cursor `(x, y)`. -/
def plan (x y : Int) (c : UInt8) : Plan :=
  if c = 0x0A ∨ c = 0x0D then Plan.nextRow none 0 y
  else if c = 0x09 then
    if x < 72 then ⟨none, false, x + 8, y⟩ else Plan.nextRow none 8 y
  else if c = 0x08 then
    if x > 0 then ⟨some (x - 1, y, blank), false, x - 1, y⟩
    else if y > 0 then ⟨some (79, y - 1, blank), false, 79, y - 1⟩
    else ⟨some (x, y, blank), false, x, y⟩
  else if x = 79 then Plan.nextRow (some (x, y, c)) 0 y
  else ⟨some (x, y, c), false, x + 1, y⟩

/-- The cell store of a plan on the page at `base`. -/
def Plan.write (p : Plan) (m : Mem) (base : Int) : Mem :=
  match p.cell with
  | none => m
  | some (x, y, c) => storeCell m base (cellOffset x y) c

/-- A plan carried out on the page `dst`, scrolling in rows of the page `src`. -/
def Plan.apply (p : Plan) (m : Mem) (dst src : Int) : Mem :=
  if p.scroll then scrollRows (p.write m dst) dst src else p.write m dst

/-- A plan carried out on a console. -/
def Plan.run (p : Plan) (s : Console) : Console :=
  { s with
    mem := p.apply s.mem s.videoMem s.videoMem
    screenX := p.x
    screenY := p.y }

theorem Console.nextRow_eq_run (s : Console) (x : Int) :
    (if s.screenY + 1 = numRows then
        scrollUp { s with screenY := s.screenY + 1, screenX := x }
      else { s with screenY := s.screenY + 1, screenX := x }) =
      (Plan.nextRow none x s.screenY).run s := by
  unfold Plan.nextRow
  by_cases h : s.screenY + 1 = 25
  · simp [h, Plan.run, Plan.apply, Plan.write, scrollUp]
  · simp [h, Plan.run, Plan.apply, Plan.write]

/-- `putc` is the plan of its byte at the cursor. -/
theorem Console.putc_eq_run (s : Console) (c : UInt8) :
    s.putc c = (plan s.screenX s.screenY c).run s := by
  unfold putc plan
  by_cases hn : c = 0x0A ∨ c = 0x0D
  · rw [if_pos hn, if_pos hn, ← nextRow_eq_run]
    rfl
  · rw [if_neg hn, if_neg hn]
    by_cases ht : c = 0x09
    · rw [if_pos ht, if_pos ht]
      unfold handleTab
      by_cases hx : s.screenX < 72
      · simp [hx, Plan.run, Plan.apply, Plan.write]
      · simp only [numCols, show (80 : Int) - 8 = 72 from rfl, hx, if_false]
        rw [← nextRow_eq_run]
    · rw [if_neg ht, if_neg ht]
      by_cases hb : c = 0x08
      · rw [if_pos hb, if_pos hb]
        unfold handleBackspace
        by_cases hx : s.screenX > 0
        · simp [hx, Plan.run, Plan.apply, Plan.write]
        · by_cases hy : s.screenY > 0
          · simp [hx, hy, Plan.run, Plan.apply, Plan.write]
          · simp [hx, hy, Plan.run, Plan.apply, Plan.write]
      · rw [if_neg hb, if_neg hb]
        unfold handleNormalChar
        by_cases hx : s.screenX = 79
        · unfold Plan.nextRow
          by_cases hy : s.screenY + 1 = 25
          · simp [hx, hy, Plan.run, Plan.apply, Plan.write, scrollUp]
          · simp [hx, hy, Plan.run, Plan.apply, Plan.write]
        · simp [hx, Plan.run, Plan.apply, Plan.write]

/-- The cell and the new cursor of a plan are on the text area. -/
structure Plan.InBounds (p : Plan) : Prop where
  cell : ∀ x y c, p.cell = some (x, y, c) → 0 ≤ x ∧ x < 80 ∧ 0 ≤ y ∧ y < 25
  cursor : 0 ≤ p.x ∧ p.x < 80 ∧ 0 ≤ p.y ∧ p.y < 25

theorem Plan.nextRow_inBounds {cell : Option (Int × Int × UInt8)} {x y : Int}
    (hcell : ∀ x y c, cell = some (x, y, c) → 0 ≤ x ∧ x < 80 ∧ 0 ≤ y ∧ y < 25)
    (hx : 0 ≤ x ∧ x < 80) (hy : 0 ≤ y ∧ y < 25) :
    (Plan.nextRow cell x y).InBounds := by
  unfold Plan.nextRow
  split_ifs with h
  · exact ⟨hcell, by simp⟩
  · exact ⟨hcell, by simp only; omega⟩

theorem plan_inBounds {x y : Int} (c : UInt8)
    (hx : 0 ≤ x ∧ x < 80) (hy : 0 ≤ y ∧ y < 25) :
    (plan x y c).InBounds := by
  have hone : ∀ {x' y' : Int} {c' : UInt8}, 0 ≤ x' ∧ x' < 80 ∧ 0 ≤ y' ∧ y' < 25 →
      ∀ x y c, some (x', y', c') = some (x, y, c) → 0 ≤ x ∧ x < 80 ∧ 0 ≤ y ∧ y < 25 := by
    intro x' y' c' h x y c heq
    simp only [Option.some.injEq, Prod.mk.injEq] at heq
    obtain ⟨rfl, rfl, rfl⟩ := heq
    exact h
  unfold plan
  split_ifs
  · exact Plan.nextRow_inBounds (by simp) (by omega) hy
  · exact ⟨by simp, by simp only; omega⟩
  · exact Plan.nextRow_inBounds (by simp) (by omega) hy
  · exact ⟨hone (by omega), by simp only; omega⟩
  · exact ⟨hone (by omega), by simp only; omega⟩
  · exact ⟨hone (by omega), by simp only; omega⟩
  · exact Plan.nextRow_inBounds (hone (by omega)) (by omega) hy
  · exact ⟨hone (by omega), by simp only; omega⟩

/-! ## A byte acts on the screen alone -/

theorem storeCell_outside {m : Mem} {base x y : Int} {c : UInt8} {a : Int}
    (h : 0 ≤ x ∧ x < 80 ∧ 0 ≤ y ∧ y < 25)
    (ha : a < base ∨ base + 4000 ≤ a) :
    storeCell m base (cellOffset x y) c a = m a := by
  rw [storeCell_apply, cellOffset_eq, if_neg (by omega), if_neg (by omega)]

theorem Plan.write_outside {p : Plan} (hp : p.InBounds) {m : Mem} {base a : Int}
    (ha : a < base ∨ base + 4000 ≤ a) :
    p.write m base a = m a := by
  unfold Plan.write
  cases h : p.cell with
  | none => rfl
  | some w =>
      obtain ⟨x, y, c⟩ := w
      exact storeCell_outside (hp.cell x y c h) ha

/-- A plan leaves every byte outside the text area of its page alone. -/
theorem Plan.apply_outside {p : Plan} (hp : p.InBounds) {m : Mem} {dst src a : Int}
    (hps : PagesApart dst src) (ha : a < dst ∨ dst + 4000 ≤ a) :
    p.apply m dst src a = m a := by
  unfold Plan.apply
  split_ifs
  · rw [scrollRows_apply _ hps, if_neg (by omega)]
    exact Plan.write_outside hp ha
  · exact Plan.write_outside hp ha

theorem pagesApart_self (base : Int) : PagesApart base base := Or.inl rfl

theorem page_storeCell_congr {m m' : Mem} {base base' off : Int} (c : UInt8)
    (h : page m base = page m' base') :
    page (storeCell m base off c) base = page (storeCell m' base' off c) base' := by
  funext i
  have hi := congrFun h i
  unfold page at hi ⊢
  rw [storeCell_apply, storeCell_apply, hi]
  split_ifs <;> first | rfl | omega

theorem page_scrollRows_congr {m m' : Mem} {base base' : Int}
    (h : page m base = page m' base') :
    page (scrollRows m base base) base = page (scrollRows m' base' base') base' := by
  funext i
  have hb := i.isLt
  unfold page
  rw [scrollRows_apply _ (pagesApart_self base), scrollRows_apply _ (pagesApart_self base')]
  by_cases hi : i.val < 4000
  · rw [if_pos (by omega), if_pos (by omega)]
    have ho : base + (i.val : Int) - base = i.val := by ring
    have ho' : base' + (i.val : Int) - base' = i.val := by ring
    rw [ho, ho']
    unfold scrolledByte
    split_ifs with h1 h2
    · rfl
    · -- the byte of the row below is on the page as well
      have hrow := congrFun h ⟨i.val + 160, by omega⟩
      simp only [page] at hrow
      push_cast at hrow
      rw [add_assoc, add_assoc]
      exact hrow
    · rfl
  · rw [if_neg (by omega), if_neg (by omega)]
    exact congrFun h i

theorem Plan.page_apply_congr (p : Plan) {m m' : Mem} {base base' : Int}
    (h : page m base = page m' base') :
    page (p.apply m base base) base = page (p.apply m' base' base') base' := by
  have hw : page (p.write m base) base = page (p.write m' base') base' := by
    unfold Plan.write
    cases p.cell with
    | none => exact h
    | some w =>
        obtain ⟨x, y, c⟩ := w
        exact page_storeCell_congr c h
  unfold Plan.apply
  split_ifs
  · exact page_scrollRows_congr hw
  · exact hw

namespace Console

@[simp] theorem putc_videoMem (s : Console) (c : UInt8) :
    (s.putc c).videoMem = s.videoMem := by
  rw [putc_eq_run]
  rfl

@[simp] theorem clear_videoMem (s : Console) : s.clear.videoMem = s.videoMem := rfl

/-- The cursor stays on the screen. -/
theorem putc_inBounds {s : Console} (h : s.screen.InBounds) (c : UInt8) :
    (s.putc c).screen.InBounds := by
  obtain ⟨hx0, hx1, hy0, hy1⟩ := h
  rw [putc_eq_run]
  exact (plan_inBounds c ⟨hx0, hx1⟩ ⟨hy0, hy1⟩).cursor

/-- `putc` writes nothing but the text area. -/
theorem putc_outside {s : Console} (h : s.screen.InBounds) (c : UInt8) {a : Int}
    (ha : a < s.videoMem ∨ s.videoMem + 4000 ≤ a) :
    (s.putc c).mem a = s.mem a := by
  obtain ⟨hx0, hx1, hy0, hy1⟩ := h
  rw [putc_eq_run]
  exact Plan.apply_outside (plan_inBounds c ⟨hx0, hx1⟩ ⟨hy0, hy1⟩)
    (pagesApart_self _) ha

/-- What `putc` makes of a screen depends on that screen only. -/
theorem putc_screen_congr {s s' : Console} (h : s.screen = s'.screen) (c : UInt8) :
    (s.putc c).screen = (s'.putc c).screen := by
  have hx : s.screenX = s'.screenX := congrArg Screen.x h
  have hy : s.screenY = s'.screenY := congrArg Screen.y h
  have hp : page s.mem s.videoMem = page s'.mem s'.videoMem := congrArg Screen.cells h
  rw [putc_eq_run, putc_eq_run, hx, hy]
  simp only [screen, Plan.run, Plan.page_apply_congr _ hp]

theorem clear_inBounds (s : Console) : s.clear.screen.InBounds := by
  simp [clear, screen, Screen.InBounds]

/-- `clear` writes nothing but the text area. -/
theorem clear_outside (s : Console) {a : Int}
    (ha : a < s.videoMem ∨ s.videoMem + 4000 ≤ a) :
    s.clear.mem a = s.mem a := by
  show clearCells s.mem s.videoMem a = s.mem a
  rw [clearCells_apply, if_neg (by omega)]

/-- What `clear` makes of a screen depends on that screen only. -/
theorem clear_screen_congr {s s' : Console} (h : s.screen = s'.screen) :
    s.clear.screen = s'.clear.screen := by
  have hp : page s.mem s.videoMem = page s'.mem s'.videoMem := congrArg Screen.cells h
  simp only [screen, clear, Screen.mk.injEq, and_true]
  funext i
  have hi := congrFun hp i
  unfold page at hi ⊢
  rw [clearCells_apply, clearCells_apply, hi]
  split_ifs <;> first | rfl | omega

end Console

end OopsOs
