import OopsOs.Switching

/-!
# Background output against foreground output

`terminal.c` has its own copy of the console functions for terminals that are
not displayed.  The copy still reads three things of the displayed terminal:
`screen_x` at the end of a row, `screen_y` in a backspace at column 0, and the
storage page of the active terminal when it scrolls.

`activeTerminalPutc_agrees_iff` says exactly when one byte written in the
background has the effect it would have had in the foreground, and
`backgroundWrite_shown` carries this to whole strings.
-/

namespace OopsOs

open ByteMem

/-- The state with another page and cursor stored for terminal `t`. -/
def setStored (k : Kernel) (t : Fin 3) (m : Mem) (x y : Int) : Kernel :=
  (k.setMem m).modifyTerminal t (fun T => { T with xPosition := x, yPosition := y })

/-- The state in which terminal `t` has the stored screen `scr` and nothing else differs. -/
def withStored (k : Kernel) (t : Fin 3) (scr : Screen) : Kernel :=
  let base := (k.terminal t).videoMemoryStorageLocation
  setStored k t
    (fun a =>
      if h : base ≤ a ∧ a < base + 4096 then scr.cells ⟨(a - base).toNat, by omega⟩
      else k.console.mem a)
    scr.x scr.y

/--
The byte `c` in the background does to the stored screen of `t` what `putc`
does to the screen of a console that shows the same, and changes nothing else.
-/
def AgreesWithForeground (k : Kernel) (t : Fin 3) (c : UInt8) : Prop :=
  ∀ s : Console, s.screen = storedScreen k t →
    activeTerminalPutc k t c = withStored k t (s.putc c).screen

/-- The bytes that `putc` draws. -/
def Printable (c : UInt8) : Prop :=
  ¬ (c = 0x0A ∨ c = 0x0D) ∧ c ≠ 0x09 ∧ c ≠ 0x08

instance (c : UInt8) : Decidable (Printable c) :=
  inferInstanceAs (Decidable (_ ∧ _))

/-- The bytes that leave the row they are written in, at column `x`. -/
def LeavesRow (x : Int) (c : UInt8) : Prop :=
  (c = 0x0A ∨ c = 0x0D) ∨ (c = 0x09 ∧ 72 ≤ x) ∨ (Printable c ∧ x = 79)

/--
Where the copy looks at the displayed terminal, it finds what it would have
found at its own.
-/
structure ReadsOwnState (k : Kernel) (t : Fin 3) (c : UInt8) : Prop where
  /-- a backspace at column 0 tests `screen_y` -/
  backspace : c = 0x08 → (k.terminal t).xPosition = 0 →
    (0 < k.console.screenY ↔ 0 < (k.terminal t).yPosition)
  /-- a character tests `screen_x` -/
  character : Printable c →
    (k.console.screenX = 79 ↔ (k.terminal t).xPosition = 79)
  /-- a scroll moves up the rows of the active terminal's storage page -/
  scroll : (k.terminal t).yPosition = 24 → LeavesRow (k.terminal t).xPosition c →
    ∀ row col : Int, 1 ≤ row → row ≤ 24 → 0 ≤ col → col < 80 →
      k.console.mem
          ((k.terminal k.activeTerminal).videoMemoryStorageLocation + cellOffset col row) =
        if Printable c ∧ row = 24 ∧ col = 79 then c
        else k.console.mem
          ((k.terminal t).videoMemoryStorageLocation + cellOffset col row)

/-! ## Both sides as plans -/

/-- The plan of the copy: `sx`, `sy` are the displayed terminal's cursor. -/
def backgroundPlan (x y sx sy : Int) (c : UInt8) : Plan :=
  if c = 0x0A ∨ c = 0x0D then Plan.nextRow none 0 y
  else if c = 0x09 then
    if x < 72 then ⟨none, false, x + 8, y⟩ else Plan.nextRow none 8 y
  else if c = 0x08 then
    if x > 0 then ⟨some (x - 1, y, blank), false, x - 1, y⟩
    else if sy > 0 then ⟨some (79, y - 1, blank), false, 79, y - 1⟩
    else ⟨some (x, y, blank), false, x, y⟩
  else if sx = 79 then Plan.nextRow (some (x, y, c)) 0 y
  else ⟨some (x, y, c), false, x + 1, y⟩

/-- A plan carried out on the stored screen of `t`, scrolling in the page `src`. -/
def Plan.runStored (p : Plan) (k : Kernel) (t : Fin 3) (src : Int) : Kernel :=
  setStored k t
    (p.apply k.console.mem (k.terminal t).videoMemoryStorageLocation src) p.x p.y

theorem setStored_inj {k : Kernel} {t : Fin 3} {m m' : Mem} {x x' y y' : Int} :
    setStored k t m x y = setStored k t m' x' y' ↔ m = m' ∧ x = x' ∧ y = y' := by
  constructor
  · intro h
    have hm : (setStored k t m x y).console.mem = (setStored k t m' x' y').console.mem := by
      rw [h]
    have ht : (setStored k t m x y).terminal t = (setStored k t m' x' y').terminal t := by
      rw [h]
    simp only [setStored, Kernel.modifyTerminal_terminal, Function.update_self,
      Kernel.setMem_terminal, Terminal.mk.injEq] at ht
    refine ⟨?_, ht.1, ht.2.1⟩
    simpa [setStored] using hm
  · rintro ⟨rfl, rfl, rfl⟩
    rfl

section SetStored

variable (k : Kernel) (t : Fin 3) (m : Mem) (x y : Int)

@[simp] theorem setStored_mem : (setStored k t m x y).console.mem = m := by
  simp [setStored]

@[simp] theorem setStored_screenX :
    (setStored k t m x y).console.screenX = k.console.screenX := rfl

@[simp] theorem setStored_screenY :
    (setStored k t m x y).console.screenY = k.console.screenY := rfl

@[simp] theorem setStored_activeTerminal :
    (setStored k t m x y).activeTerminal = k.activeTerminal := rfl

@[simp] theorem setStored_terminal_self :
    (setStored k t m x y).terminal t =
      { k.terminal t with xPosition := x, yPosition := y } := by
  simp [setStored]

@[simp] theorem setStored_storage (u : Fin 3) :
    ((setStored k t m x y).terminal u).videoMemoryStorageLocation =
      (k.terminal u).videoMemoryStorageLocation := by
  by_cases h : u = t
  · subst h
    simp
  · simp [setStored, h]

@[simp] theorem setStored_setStored (m' : Mem) (x' y' : Int) :
    setStored (setStored k t m x y) t m' x' y' = setStored k t m' x' y' := by
  simp [setStored, Kernel.setMem, Kernel.modifyTerminal]

/-- Every move of the stored cursor is a `setStored`. -/
theorem modifyTerminal_cursor (fx fy : Terminal → Int) :
    k.modifyTerminal t (fun T => { T with xPosition := fx T, yPosition := fy T }) =
      setStored k t k.console.mem (fx (k.terminal t)) (fy (k.terminal t)) := by
  simp [setStored, Kernel.setMem, Kernel.modifyTerminal]

theorem storeAtPosition_eq (c : UInt8) :
    storeAtPosition k t c =
      setStored k t
        (storeCell k.console.mem (k.terminal t).videoMemoryStorageLocation
          (cellOffset (k.terminal t).xPosition (k.terminal t).yPosition) c)
        (k.terminal t).xPosition (k.terminal t).yPosition := by
  simp [storeAtPosition, setStored, Kernel.setMem, Kernel.modifyTerminal]

theorem activeTerminalScrollUp_eq :
    activeTerminalScrollUp k t =
      setStored k t
        (scrollRows k.console.mem (k.terminal t).videoMemoryStorageLocation
          (k.terminal k.activeTerminal).videoMemoryStorageLocation) 0 24 := by
  simp [activeTerminalScrollUp, setStored]

end SetStored

theorem activeTerminalPutc_eq_runStored (k : Kernel) (t : Fin 3) (c : UInt8) :
    activeTerminalPutc k t c =
      (backgroundPlan (k.terminal t).xPosition (k.terminal t).yPosition
        k.console.screenX k.console.screenY c).runStored k t
        (k.terminal k.activeTerminal).videoMemoryStorageLocation := by
  unfold activeTerminalPutc backgroundPlan
  by_cases hn : c = 0x0A ∨ c = 0x0D
  · rw [if_pos hn, if_pos hn]
    unfold activeTerminalHandleEnter Plan.nextRow
    rw [modifyTerminal_cursor k t (fun _ => 0) (fun T => T.yPosition + 1)]
    by_cases hy : (k.terminal t).yPosition + 1 = 25
    · simp [hy, activeTerminalScrollUp_eq, Plan.runStored, Plan.apply, Plan.write]
    · simp [hy, Plan.runStored, Plan.apply, Plan.write]
  · rw [if_neg hn, if_neg hn]
    by_cases ht : c = 0x09
    · rw [if_pos ht, if_pos ht]
      unfold activeTerminalHandleTab
      by_cases hx : (k.terminal t).xPosition < 72
      · rw [modifyTerminal_cursor k t (fun T => T.xPosition + 8) (fun T => T.yPosition)]
        simp [hx, Plan.runStored, Plan.apply, Plan.write]
      · rw [modifyTerminal_cursor k t (fun _ => 8) (fun T => T.yPosition + 1)]
        unfold Plan.nextRow
        by_cases hy : (k.terminal t).yPosition + 1 = 25
        · simp [hx, hy, activeTerminalScrollUp_eq, Plan.runStored, Plan.apply, Plan.write]
        · simp [hx, hy, Plan.runStored, Plan.apply, Plan.write]
    · rw [if_neg ht, if_neg ht]
      by_cases hb : c = 0x08
      · rw [if_pos hb, if_pos hb]
        unfold activeTerminalHandleBackspace
        rw [modifyTerminal_cursor k t (fun T => T.xPosition - 1) (fun T => T.yPosition),
          modifyTerminal_cursor k t (fun _ => numCols - 1) (fun T => T.yPosition - 1)]
        by_cases hx : (k.terminal t).xPosition > 0
        · simp [hx, storeAtPosition_eq, Plan.runStored, Plan.apply, Plan.write]
        · by_cases hy : k.console.screenY > 0
          · simp [hx, hy, storeAtPosition_eq, Plan.runStored, Plan.apply, Plan.write]
          · simp [hx, hy, storeAtPosition_eq, Plan.runStored, Plan.apply, Plan.write]
      · rw [if_neg hb, if_neg hb]
        unfold activeTerminalHandleNormalChar
        rw [storeAtPosition_eq]
        dsimp only
        rw [modifyTerminal_cursor _ t (fun _ => 0) (fun T => T.yPosition + 1),
          modifyTerminal_cursor _ t (fun T => T.xPosition + 1) (fun T => T.yPosition)]
        by_cases hx : k.console.screenX = 79
        · unfold Plan.nextRow
          by_cases hy : (k.terminal t).yPosition + 1 = 25
          · simp [hx, hy, activeTerminalScrollUp_eq, Plan.runStored, Plan.apply, Plan.write]
          · simp [hx, hy, Plan.runStored, Plan.apply, Plan.write]
        · simp [hx, Plan.runStored, Plan.apply, Plan.write]

/-- Terminal `t`'s stored screen, read as a console of its own. -/
def storedConsole (k : Kernel) (t : Fin 3) : Console :=
  ⟨(k.terminal t).videoMemoryStorageLocation, k.console.mem,
    (k.terminal t).xPosition, (k.terminal t).yPosition⟩

theorem storedConsole_screen (k : Kernel) (t : Fin 3) :
    (storedConsole k t).screen = storedScreen k t := rfl

/-- A memory that differs from the state's on one page only is its `withStored`. -/
theorem withStored_screen (k : Kernel) (t : Fin 3) {m : Mem} (x y : Int)
    (hout : ∀ a, a < (k.terminal t).videoMemoryStorageLocation ∨
      (k.terminal t).videoMemoryStorageLocation + 4096 ≤ a → m a = k.console.mem a) :
    withStored k t ⟨page m (k.terminal t).videoMemoryStorageLocation, x, y⟩ =
      setStored k t m x y := by
  unfold withStored
  rw [setStored_inj]
  refine ⟨?_, rfl, rfl⟩
  funext a
  split_ifs with h
  · simp only [page]
    congr 1
    omega
  · exact (hout a (by omega)).symm

/-- The plan of the copy and the plan of `putc` have the same effect on the storage page. -/
def PlansAgree (k : Kernel) (t : Fin 3) (c : UInt8) : Prop :=
  (backgroundPlan (k.terminal t).xPosition (k.terminal t).yPosition
      k.console.screenX k.console.screenY c).runStored k t
      (k.terminal k.activeTerminal).videoMemoryStorageLocation =
    (plan (k.terminal t).xPosition (k.terminal t).yPosition c).runStored k t
      (k.terminal t).videoMemoryStorageLocation

section Agreement

variable {k : Kernel} {t : Fin 3}
variable (hin : (storedScreen k t).InBounds)
include hin

/-- The foreground effect, carried out in place on the storage page. -/
theorem withStored_putc {s : Console} (hs : s.screen = storedScreen k t) (c : UInt8) :
    withStored k t (s.putc c).screen =
      (plan (k.terminal t).xPosition (k.terminal t).yPosition c).runStored k t
        (k.terminal t).videoMemoryStorageLocation := by
  obtain ⟨hx0, hx1, hy0, hy1⟩ := hin
  have hp := plan_inBounds c ⟨hx0, hx1⟩ ⟨hy0, hy1⟩
  rw [← storedConsole_screen] at hs
  rw [Console.putc_screen_congr hs c, Console.putc_eq_run]
  apply withStored_screen k t
  intro a ha
  have hbase : (storedConsole k t).videoMem = (k.terminal t).videoMemoryStorageLocation := rfl
  exact Plan.apply_outside hp (pagesApart_self _) (by omega)

theorem agreesWithForeground_iff_plans (c : UInt8) :
    AgreesWithForeground k t c ↔ PlansAgree k t c := by
  rw [PlansAgree, ← activeTerminalPutc_eq_runStored]
  constructor
  · intro h
    rw [h (storedConsole k t) (storedConsole_screen k t),
      withStored_putc hin (storedConsole_screen k t) c]
  · intro h s hs
    rw [h, withStored_putc hin hs c]

end Agreement

/-! ## When the two plans have the same effect -/

/-- Rows 1 to 24 of two pages carry the same characters. -/
def SameRows (m : Mem) (src dst : Int) : Prop :=
  ∀ row col : Int, 1 ≤ row → row ≤ 24 → 0 ≤ col → col < 80 →
    m (src + cellOffset col row) = m (dst + cellOffset col row)

theorem scrolledByte_of_even {m : Mem} {src o : Int} (h : o % 2 = 0) (ho : o < 3840) :
    scrolledByte m src o = m (src + (o + 160)) := by
  rw [scrolledByte, if_neg (by omega), if_pos ho, add_assoc]

theorem scrollRows_eq_iff (m : Mem) {dst src : Int} (hp : PagesApart dst src) :
    scrollRows m dst src = scrollRows m dst dst ↔ SameRows m src dst := by
  constructor
  · intro h row col hr1 hr2 hc1 hc2
    have ha := congrFun h (dst + cellOffset col (row - 1))
    have ho : dst + cellOffset col (row - 1) - dst = 160 * (row - 1) + 2 * col := by
      rw [cellOffset_eq]
      ring
    have hrow : 160 * (row - 1) + 2 * col + 160 = 160 * row + 2 * col := by ring
    rw [scrollRows_apply m hp, scrollRows_apply m (pagesApart_self dst), if_pos (by omega),
      if_pos (by omega), ho, scrolledByte_of_even (by omega) (by omega),
      scrolledByte_of_even (by omega) (by omega), hrow] at ha
    rwa [cellOffset_eq]
  · intro h
    funext a
    rw [scrollRows_apply m hp, scrollRows_apply m (pagesApart_self dst)]
    split_ifs with hin
    · by_cases hev : (a - dst) % 2 = 0 ∧ a - dst < 3840
      · -- the byte is the character of a cell in rows 1 to 24
        have hcell := h ((a - dst) / 160 + 1) ((a - dst) % 160 / 2)
          (by omega) (by omega) (by omega) (by omega)
        rw [cellOffset_eq] at hcell
        have ho : 160 * ((a - dst) / 160 + 1) + 2 * ((a - dst) % 160 / 2) =
            a - dst + 160 := by omega
        rw [ho] at hcell
        rw [scrolledByte_of_even hev.1 hev.2, scrolledByte_of_even hev.1 hev.2, hcell]
      · unfold scrolledByte
        split_ifs <;> first | rfl | omega
    · rfl

/-- Moving to the next row agrees exactly when a scroll finds the same rows. -/
theorem nextRow_runStored_iff {k : Kernel} {t : Fin 3} {src : Int}
    (hp : PagesApart (k.terminal t).videoMemoryStorageLocation src)
    (cell : Option (Int × Int × UInt8)) (x y : Int) :
    (Plan.nextRow cell x y).runStored k t src =
        (Plan.nextRow cell x y).runStored k t (k.terminal t).videoMemoryStorageLocation ↔
      (y = 24 → SameRows
        ((Plan.nextRow cell x y).write k.console.mem
          (k.terminal t).videoMemoryStorageLocation)
        src (k.terminal t).videoMemoryStorageLocation) := by
  unfold Plan.runStored
  rw [setStored_inj]
  simp only [and_true]
  unfold Plan.nextRow
  by_cases hy : y + 1 = 25
  · have h24 : y = 24 := by omega
    rw [if_pos hy]
    simp only [Plan.apply, if_true, h24, forall_const]
    exact scrollRows_eq_iff _ hp
  · have h24 : y ≠ 24 := by omega
    rw [if_neg hy]
    simp [Plan.apply, h24]

/-- The rows that a scroll finds after the character `c` went into the last cell. -/
theorem sameRows_storeCell_iff {m : Mem} {dst src : Int} (hp : PagesApart dst src)
    (hne : src ≠ dst) (c : UInt8) :
    SameRows (storeCell m dst (cellOffset 79 24) c) src dst ↔
      ∀ row col : Int, 1 ≤ row → row ≤ 24 → 0 ≤ col → col < 80 →
        m (src + cellOffset col row) =
          if row = 24 ∧ col = 79 then c else m (dst + cellOffset col row) := by
  have key : ∀ row col : Int, 1 ≤ row → row ≤ 24 → 0 ≤ col → col < 80 →
      storeCell m dst (cellOffset 79 24) c (src + cellOffset col row) =
          m (src + cellOffset col row) ∧
        storeCell m dst (cellOffset 79 24) c (dst + cellOffset col row) =
          if row = 24 ∧ col = 79 then c else m (dst + cellOffset col row) := by
    intro row col hr1 hr2 hc1 hc2
    unfold PagesApart at hp
    constructor
    · rw [storeCell_apply, cellOffset_eq, cellOffset_eq, if_neg (by omega), if_neg (by omega)]
    · rw [storeCell_apply, cellOffset_eq, cellOffset_eq, if_neg (by omega)]
      by_cases hlast : row = 24 ∧ col = 79
      · rw [if_pos hlast, if_pos (by omega)]
      · rw [if_neg hlast, if_neg (by omega)]
  constructor
  · intro h row col hr1 hr2 hc1 hc2
    have h' := h row col hr1 hr2 hc1 hc2
    rwa [(key row col hr1 hr2 hc1 hc2).1, (key row col hr1 hr2 hc1 hc2).2] at h'
  · intro h row col hr1 hr2 hc1 hc2
    rw [(key row col hr1 hr2 hc1 hc2).1, (key row col hr1 hr2 hc1 hc2).2]
    exact h row col hr1 hr2 hc1 hc2

/-- Two storage pages never meet. -/
theorem Laid.pagesApart {k : Kernel} (hk : Laid k) {t u : Fin 3} (h : t ≠ u) :
    PagesApart (k.terminal t).videoMemoryStorageLocation
      (k.terminal u).videoMemoryStorageLocation ∧
      (k.terminal u).videoMemoryStorageLocation ≠
        (k.terminal t).videoMemoryStorageLocation := by
  have hval : t.val ≠ u.val := fun he => h (Fin.ext he)
  unfold PagesApart
  rw [hk.storage, hk.storage]
  omega

/-- The plans differ in the cursor they leave, or not at all. -/
theorem runStored_cursor {p q : Plan} {k : Kernel} {t : Fin 3} {src dst : Int}
    (h : p.runStored k t src = q.runStored k t dst) :
    p.x = q.x ∧ p.y = q.y := (setStored_inj.mp h).2

/-- A plan that does not scroll does not look at the rows of another page. -/
theorem runStored_of_not_scroll {p : Plan} (h : p.scroll = false) (k : Kernel) (t : Fin 3)
    (src dst : Int) :
    p.runStored k t src = p.runStored k t dst := by
  simp [Plan.runStored, Plan.apply, h]

section Condition

variable {k : Kernel} {t : Fin 3}
variable (hpages : PagesApart (k.terminal t).videoMemoryStorageLocation
  (k.terminal k.activeTerminal).videoMemoryStorageLocation)
include hpages

/-- A newline, or a tab that leaves its row. -/
theorem nextRow_none_iff {c : UInt8} {x : Int}
    (hpr : ¬ Printable c) (h8 : c ≠ 0x08)
    (hrow : LeavesRow (k.terminal t).xPosition c) :
    (Plan.nextRow none x (k.terminal t).yPosition).runStored k t
          (k.terminal k.activeTerminal).videoMemoryStorageLocation =
        (Plan.nextRow none x (k.terminal t).yPosition).runStored k t
          (k.terminal t).videoMemoryStorageLocation ↔
      ReadsOwnState k t c := by
  rw [nextRow_runStored_iff hpages]
  have hw : ∀ y : Int, (Plan.nextRow none x y).write k.console.mem
      (k.terminal t).videoMemoryStorageLocation = k.console.mem := by
    intro y
    unfold Plan.nextRow
    split_ifs <;> rfl
  rw [hw]
  constructor
  · intro h
    refine ⟨fun h' => absurd h' h8, fun h' => absurd h' hpr, ?_⟩
    intro h24 _ row col hr1 hr2 hc1 hc2
    rw [if_neg (fun hh => hpr hh.1)]
    exact h h24 row col hr1 hr2 hc1 hc2
  · intro h h24 row col hr1 hr2 hc1 hc2
    have hrows := h.scroll h24 hrow row col hr1 hr2 hc1 hc2
    rwa [if_neg (fun hh => hpr hh.1)] at hrows

/-- A character in the last column, with both tests passed. -/
theorem nextRow_some_iff {c : UInt8} (hpr : Printable c)
    (hne : (k.terminal k.activeTerminal).videoMemoryStorageLocation ≠
      (k.terminal t).videoMemoryStorageLocation)
    (hx : (k.terminal t).xPosition = 79) (hsx : k.console.screenX = 79) :
    (Plan.nextRow (some (79, (k.terminal t).yPosition, c)) 0
          (k.terminal t).yPosition).runStored k t
          (k.terminal k.activeTerminal).videoMemoryStorageLocation =
        (Plan.nextRow (some (79, (k.terminal t).yPosition, c)) 0
          (k.terminal t).yPosition).runStored k t
          (k.terminal t).videoMemoryStorageLocation ↔
      ReadsOwnState k t c := by
  rw [nextRow_runStored_iff hpages]
  have hw : (k.terminal t).yPosition = 24 →
      (Plan.nextRow (some (79, (k.terminal t).yPosition, c)) 0
        (k.terminal t).yPosition).write k.console.mem
        (k.terminal t).videoMemoryStorageLocation =
      storeCell k.console.mem (k.terminal t).videoMemoryStorageLocation
        (cellOffset 79 24) c := by
    intro h24
    simp [Plan.nextRow, Plan.write, h24]
  constructor
  · intro h
    refine ⟨fun h' => absurd h' hpr.2.2, fun _ => by simp [hx, hsx], ?_⟩
    intro h24 _ row col hr1 hr2 hc1 hc2
    have hrows := h h24
    rw [hw h24, sameRows_storeCell_iff hpages hne] at hrows
    simpa [hpr] using hrows row col hr1 hr2 hc1 hc2
  · intro h h24
    rw [hw h24, sameRows_storeCell_iff hpages hne]
    intro row col hr1 hr2 hc1 hc2
    simpa [hpr] using h.scroll h24 (Or.inr (Or.inr ⟨hpr, hx⟩)) row col hr1 hr2 hc1 hc2

end Condition

/-- A byte that stays in its row is free of the scroll condition. -/
theorem readsOwnState_of_stays {k : Kernel} {t : Fin 3} {c : UInt8}
    (hrow : ¬ LeavesRow (k.terminal t).xPosition c)
    (hback : c = 0x08 → (k.terminal t).xPosition = 0 →
      (0 < k.console.screenY ↔ 0 < (k.terminal t).yPosition))
    (hchar : Printable c → (k.console.screenX = 79 ↔ (k.terminal t).xPosition = 79)) :
    ReadsOwnState k t c :=
  ⟨hback, hchar, fun _ h => absurd h hrow⟩

/-! ## One kind of byte at a time -/

section Bytes

variable {k : Kernel} {t : Fin 3} {c : UInt8}

theorem plansAgree_newline
    (hpages : PagesApart (k.terminal t).videoMemoryStorageLocation
      (k.terminal k.activeTerminal).videoMemoryStorageLocation)
    (hn : c = 0x0A ∨ c = 0x0D) : PlansAgree k t c ↔ ReadsOwnState k t c := by
  have h8 : c ≠ 0x08 := by
    rcases hn with h | h <;> simp [h]
  unfold PlansAgree backgroundPlan plan
  rw [if_pos hn, if_pos hn]
  exact nextRow_none_iff hpages (fun h => h.1 hn) h8 (Or.inl hn)

theorem plansAgree_tab
    (hpages : PagesApart (k.terminal t).videoMemoryStorageLocation
      (k.terminal k.activeTerminal).videoMemoryStorageLocation)
    (htab : c = 0x09) : PlansAgree k t c ↔ ReadsOwnState k t c := by
  have hn : ¬ (c = 0x0A ∨ c = 0x0D) := by simp [htab]
  have h8 : c ≠ 0x08 := by simp [htab]
  have hpr : ¬ Printable c := fun h => h.2.1 htab
  unfold PlansAgree backgroundPlan plan
  rw [if_neg hn, if_neg hn, if_pos htab, if_pos htab]
  by_cases hx : (k.terminal t).xPosition < 72
  · rw [if_pos hx]
    refine iff_of_true (runStored_of_not_scroll rfl k t _ _) ?_
    apply readsOwnState_of_stays
    · rintro (h | ⟨_, h⟩ | h)
      · exact hn h
      · omega
      · exact hpr h.1
    · exact fun h => absurd h h8
    · exact fun h => absurd h hpr
  · rw [if_neg hx]
    exact nextRow_none_iff hpages hpr h8 (Or.inr (Or.inl ⟨htab, by omega⟩))

/-- At column 0 the cursors agree only if both rows are 0 or both are not. -/
theorem plansAgree_backspace (hx0 : 0 ≤ (k.terminal t).xPosition) (hb : c = 0x08) :
    PlansAgree k t c ↔ ReadsOwnState k t c := by
  have hn : ¬ (c = 0x0A ∨ c = 0x0D) := by simp [hb]
  have htab : c ≠ 0x09 := by simp [hb]
  have hpr : ¬ Printable c := fun h => h.2.2 hb
  have hstay : ¬ LeavesRow (k.terminal t).xPosition c := by
    rintro (h | h | h)
    · exact hn h
    · exact htab h.1
    · exact hpr h.1
  unfold PlansAgree backgroundPlan plan
  rw [if_neg hn, if_neg hn, if_neg htab, if_neg htab, if_pos hb, if_pos hb]
  by_cases hx : (k.terminal t).xPosition > 0
  · rw [if_pos hx, if_pos hx]
    refine iff_of_true (runStored_of_not_scroll rfl k t _ _) ?_
    exact readsOwnState_of_stays hstay (fun _ h => by omega) (fun h => absurd h hpr)
  · rw [if_neg hx, if_neg hx]
    have hx0' : (k.terminal t).xPosition = 0 := by omega
    by_cases hsy : k.console.screenY > 0
    · rw [if_pos hsy]
      by_cases hy : (k.terminal t).yPosition > 0
      · rw [if_pos hy]
        refine iff_of_true (runStored_of_not_scroll rfl k t _ _) ?_
        exact readsOwnState_of_stays hstay (fun _ _ => by simp [hsy, hy]) (fun h => absurd h hpr)
      · rw [if_neg hy]
        refine iff_of_false (fun h => ?_) (fun h => hy ((h.backspace hb hx0').mp hsy))
        have := (runStored_cursor h).2
        simp only at this
        omega
    · rw [if_neg hsy]
      by_cases hy : (k.terminal t).yPosition > 0
      · rw [if_pos hy]
        refine iff_of_false (fun h => ?_) (fun h => hsy ((h.backspace hb hx0').mpr hy))
        have := (runStored_cursor h).1
        simp only at this
        omega
      · rw [if_neg hy]
        refine iff_of_true (runStored_of_not_scroll rfl k t _ _) ?_
        exact readsOwnState_of_stays hstay
          (fun _ _ => ⟨fun h => absurd h hsy, fun h => absurd h hy⟩) (fun h => absurd h hpr)

/-- A plan that goes to the start of the next row differs from one that stays in its row. -/
theorem nextRow_ne_sameRow {p : Plan} {cell : Option (Int × Int × UInt8)} {y src dst : Int}
    (hp : p.x ≠ 0) : (Plan.nextRow cell 0 y).runStored k t src ≠ p.runStored k t dst := by
  intro h
  have hcur := (runStored_cursor h).1
  unfold Plan.nextRow at hcur
  split_ifs at hcur <;> simp only at hcur <;> omega

theorem plansAgree_printable
    (hpages : PagesApart (k.terminal t).videoMemoryStorageLocation
      (k.terminal k.activeTerminal).videoMemoryStorageLocation)
    (hne : (k.terminal k.activeTerminal).videoMemoryStorageLocation ≠
      (k.terminal t).videoMemoryStorageLocation)
    (hx0 : 0 ≤ (k.terminal t).xPosition) (hpr : Printable c) :
    PlansAgree k t c ↔ ReadsOwnState k t c := by
  obtain ⟨hn, htab, hb⟩ := id hpr
  unfold PlansAgree backgroundPlan plan
  rw [if_neg hn, if_neg hn, if_neg htab, if_neg htab, if_neg hb, if_neg hb]
  by_cases hsx : k.console.screenX = 79
  · rw [if_pos hsx]
    by_cases hx : (k.terminal t).xPosition = 79
    · rw [if_pos hx, hx]
      exact nextRow_some_iff hpages hpr hne hx hsx
    · rw [if_neg hx]
      refine iff_of_false ?_ (fun h => hx ((h.character hpr).mp hsx))
      exact nextRow_ne_sameRow (by simp only; omega)
  · rw [if_neg hsx]
    by_cases hx : (k.terminal t).xPosition = 79
    · rw [if_pos hx]
      refine iff_of_false ?_ (fun h => hsx ((h.character hpr).mpr hx))
      exact (nextRow_ne_sameRow (by simp only; omega)).symm
    · rw [if_neg hx]
      refine iff_of_true (runStored_of_not_scroll rfl k t _ _) ?_
      apply readsOwnState_of_stays
      · rintro (h | h | h)
        · exact hn h
        · exact htab h.1
        · exact hx h.2
      · exact fun h => absurd h hb
      · exact fun _ => ⟨fun h => absurd h hsx, fun h => absurd h hx⟩

end Bytes

/-- One byte in the background agrees with the foreground exactly under `ReadsOwnState`. -/
theorem agreesWithForeground_iff {k : Kernel} (hk : Laid k) {t : Fin 3}
    (ht : t ≠ k.activeTerminal) (hin : (storedScreen k t).InBounds) (c : UInt8) :
    AgreesWithForeground k t c ↔ ReadsOwnState k t c := by
  obtain ⟨hpages, hne⟩ := hk.pagesApart ht
  obtain ⟨hx0, -⟩ := id hin
  rw [agreesWithForeground_iff_plans hin c]
  by_cases hn : c = 0x0A ∨ c = 0x0D
  · exact plansAgree_newline hpages hn
  · by_cases htab : c = 0x09
    · exact plansAgree_tab hpages htab
    · by_cases hb : c = 0x08
      · exact plansAgree_backspace hx0 hb
      · exact plansAgree_printable hpages hne hx0 ⟨hn, htab, hb⟩

/-! ## Strings -/

def backgroundWrite (k : Kernel) (t : Fin 3) (cs : List UInt8) : Kernel :=
  cs.foldl (fun k c => activeTerminalPutc k t c) k

theorem storedScreen_withStored (k : Kernel) (t : Fin 3) (scr : Screen) :
    storedScreen (withStored k t scr) t = scr := by
  unfold storedScreen withStored
  simp only [setStored_mem, setStored_terminal_self]
  refine Screen.ext ?_ rfl rfl
  funext i
  have hi := i.isLt
  simp only [page]
  rw [dif_pos (by omega)]
  refine congrArg scr.cells (Fin.ext ?_)
  simp

theorem withStored_laid {k : Kernel} (hk : Laid k) (t : Fin 3) (scr : Screen) :
    Laid (withStored k t scr) := by
  unfold withStored
  refine ⟨hk.videoMem, ?_⟩
  intro u
  rw [setStored_storage]
  exact hk.storage u

/-- Every byte of the string finds its own state when its turn comes. -/
def AllReadOwnState (k : Kernel) (t : Fin 3) (cs : List UInt8) : Prop :=
  ∀ before c after, cs = before ++ c :: after →
    ReadsOwnState (backgroundWrite k t before) t c

/-- Over a whole string the stored screen follows a console in the foreground. -/
theorem backgroundWrite_storedScreen {t : Fin 3} (cs : List UInt8) {k : Kernel} (hk : Laid k)
    (ht : t ≠ k.activeTerminal) (hin : (storedScreen k t).InBounds)
    (hcs : AllReadOwnState k t cs) {s : Console} (hs : s.screen = storedScreen k t) :
    Laid (backgroundWrite k t cs) ∧
      (backgroundWrite k t cs).activeTerminal = k.activeTerminal ∧
      storedScreen (backgroundWrite k t cs) t = (cs.foldl Console.putc s).screen := by
  induction cs generalizing k s with
  | nil => exact ⟨hk, rfl, hs.symm⟩
  | cons c cs ih =>
      have hagree := (agreesWithForeground_iff hk ht hin c).mpr (hcs [] c cs rfl) s hs
      have hscreen : storedScreen (activeTerminalPutc k t c) t = (s.putc c).screen := by
        rw [hagree, storedScreen_withStored]
      have hact : (activeTerminalPutc k t c).activeTerminal = k.activeTerminal := by
        rw [hagree]
        rfl
      have hin' : (storedScreen (activeTerminalPutc k t c) t).InBounds := by
        rw [hscreen]
        exact Console.putc_inBounds (by rwa [hs]) c
      have hlaid : Laid (activeTerminalPutc k t c) := by
        rw [hagree]
        exact withStored_laid hk t _
      have hrest : AllReadOwnState (activeTerminalPutc k t c) t cs := by
        intro before d after hd
        exact hcs (c :: before) d after (by rw [hd]; rfl)
      obtain ⟨h1, h2, h3⟩ := ih hlaid (by rwa [hact]) hin' hrest hscreen.symm
      exact ⟨h1, h2.trans hact, h3⟩

/--
Background output against foreground output.  One byte has the effect of
`putc`, and no other, exactly when the copy finds its own state wherever it
looks at the displayed terminal's; a string all of whose bytes do shows, after
a switch, what it would have shown in the foreground.
-/
theorem activeTerminalPutc_agrees_iff (k : Kernel) (hk : Laid k) (t : Fin 3)
    (ht : t ≠ k.activeTerminal) (hin : (storedScreen k t).InBounds) :
    (∀ c, AgreesWithForeground k t c ↔ ReadsOwnState k t c) ∧
    (∀ cs, AllReadOwnState k t cs → ∀ s : Console, s.screen = storedScreen k t →
      (saveAndSwitchTerm (backgroundWrite k t cs) t).console.screen =
        (cs.foldl Console.putc s).screen) := by
  refine ⟨fun c => agreesWithForeground_iff hk ht hin c, ?_⟩
  intro cs hcs s hs
  obtain ⟨hlaid, hact, hscreen⟩ := backgroundWrite_storedScreen cs hk ht hin hcs hs
  have hsw := saveAndSwitchTerm_logicalScreen hlaid t t
  have hfront := logicalScreen_active (saveAndSwitchTerm (backgroundWrite k t cs) t)
  rw [saveAndSwitchTerm_activeTerminal] at hfront
  rw [← hfront, hsw, logicalScreen, if_neg (by rwa [hact]), hscreen]

/-- The displayed terminal 0 has its cursor in column `sx`; the others are as opened. -/
def displayedAt (sx : Int) : Kernel :=
  (terminalOpen (Kernel.zero (fun _ => 0) (fun _ => 0))).onConsole
    (fun s => { s with screenX := sx })

/-- These states meet the hypotheses of the agreement theorem for terminal 1. -/
theorem displayedAt_background (sx : Int) :
    Laid (displayedAt sx) ∧ (1 : Fin 3) ≠ (displayedAt sx).activeTerminal ∧
      ((displayedAt sx).terminal 1).xPosition = 0 ∧
      (storedScreen (displayedAt sx) 1).InBounds := by
  have hsound := terminalOpen_sound (Kernel.zero (fun _ => 0) (fun _ => 0)) rfl
    (by simp [Screen.InBounds, Kernel.zero])
  obtain ⟨-, hx, hy⟩ := terminalOpen_terminal (Kernel.zero (fun _ => 0) (fun _ => 0)) 1
  refine ⟨⟨?_, ?_⟩, ?_, ?_, ?_⟩
  · simpa only [displayedAt, Kernel.onConsole_console] using hsound.laid.videoMem
  · simpa only [displayedAt, Kernel.onConsole_terminal] using hsound.laid.storage
  · simp [displayedAt, terminalOpen, openTerminal, Kernel.zero]
  · simpa only [displayedAt, Kernel.onConsole_terminal] using hx
  · simp only [displayedAt, storedScreen, Screen.InBounds, Kernel.onConsole_terminal, hx, hy]
    decide

/-- An `A` in the background goes right as long as the displayed cursor is not in column 79. -/
theorem activeTerminalPutc_agrees_iff_column_zero :
    Laid (displayedAt 0) ∧ (1 : Fin 3) ≠ (displayedAt 0).activeTerminal ∧
      (storedScreen (displayedAt 0) 1).InBounds ∧
      AgreesWithForeground (displayedAt 0) 1 0x41 := by
  obtain ⟨hlaid, hne, hx, hin⟩ := displayedAt_background 0
  refine ⟨hlaid, hne, hin, ?_⟩
  refine ((activeTerminalPutc_agrees_iff (displayedAt 0) hlaid 1 hne hin).1 0x41).mpr ?_
  apply readsOwnState_of_stays
  · rintro (h | h | h)
    · exact absurd h (by decide)
    · exact absurd h.1 (by decide)
    · rw [hx] at h
      exact absurd h.2 (by decide)
  · intro h
    exact absurd h (by decide)
  · intro _
    rw [hx]
    decide

/-- With the displayed cursor in column 79 the same `A` ends the background row. -/
theorem activeTerminalPutc_disagrees_column_79 :
    Laid (displayedAt 79) ∧ (1 : Fin 3) ≠ (displayedAt 79).activeTerminal ∧
      (storedScreen (displayedAt 79) 1).InBounds ∧
      ¬ AgreesWithForeground (displayedAt 79) 1 0x41 := by
  obtain ⟨hlaid, hne, hx, hin⟩ := displayedAt_background 79
  refine ⟨hlaid, hne, hin, ?_⟩
  rw [agreesWithForeground_iff hlaid hne hin]
  intro h
  have h79 := (h.character (by decide)).mp rfl
  rw [hx] at h79
  exact absurd h79 (by decide)

end OopsOs
