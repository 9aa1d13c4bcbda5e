import OopsOs.Switching

/-!
# What the console writes

The functions of the console once more, over a memory that records the address
of every byte they write.  Without the record they are the functions of
`Console`, store by store.  From a cursor on the screen no output writes outside
the 4000 bytes of the text area; the page of the first terminal begins 96 bytes
behind it.
-/

namespace OopsOs

open ByteMem

/-! ## Recorded stores -/

def storeCellRec (z : Recorded) (base off : Int) (c : UInt8) : Recorded :=
  (z.store (base + off) c).store (base + off + 1) attrib

def scrollRowsRec (z : Recorded) (base : Int) : Recorded :=
  let z := loop 24 (fun i z =>
    loop 80 (fun j z =>
      storeCellRec z base (cellOffset j i) (z.mem (base + cellOffset j (i + 1)))) z) z
  loop 80 (fun j z => storeCellRec z base (cellOffset j (numRows - 1)) blank) z

def clearCellsRec (z : Recorded) (base : Int) : Recorded :=
  loop (25 * 80) (fun i z => storeCellRec z base ((i : Int) * 2) blank) z

/-- The console with the record of its writes. -/
structure RecordedConsole where
  videoMem : Int
  mem : Recorded
  screenX : Int
  screenY : Int

namespace RecordedConsole

def scrollUp (s : RecordedConsole) : RecordedConsole :=
  { s with mem := scrollRowsRec s.mem s.videoMem, screenX := 0, screenY := numRows - 1 }

def handleEnter (s : RecordedConsole) : RecordedConsole :=
  let s := { s with screenY := s.screenY + 1, screenX := 0 }
  if s.screenY = numRows then scrollUp s else s

def handleTab (s : RecordedConsole) : RecordedConsole :=
  if s.screenX < numCols - 8 then
    { s with screenX := s.screenX + 8 }
  else
    let s := { s with screenY := s.screenY + 1, screenX := 8 }
    if s.screenY = numRows then scrollUp s else s

def handleBackspace (s : RecordedConsole) : RecordedConsole :=
  let s :=
    if s.screenX > 0 then { s with screenX := s.screenX - 1 }
    else if s.screenY > 0 then
      { s with screenX := numCols - 1, screenY := s.screenY - 1 }
    else s
  { s with mem := storeCellRec s.mem s.videoMem (cellOffset s.screenX s.screenY) blank }

def handleNormalChar (s : RecordedConsole) (c : UInt8) : RecordedConsole :=
  let s := { s with mem := storeCellRec s.mem s.videoMem (cellOffset s.screenX s.screenY) c }
  if s.screenX = numCols - 1 then
    let s := { s with screenX := 0, screenY := s.screenY + 1 }
    if s.screenY = numRows then scrollUp s else s
  else
    { s with screenX := s.screenX + 1 }

def putc (s : RecordedConsole) (c : UInt8) : RecordedConsole :=
  if c = 0x0A ∨ c = 0x0D then handleEnter s
  else if c = 0x09 then handleTab s
  else if c = 0x08 then handleBackspace s
  else handleNormalChar s c

def clear (s : RecordedConsole) : RecordedConsole :=
  { s with mem := clearCellsRec s.mem s.videoMem, screenY := 0, screenX := 0 }

def run (s : RecordedConsole) : Write → RecordedConsole
  | .putc c => s.putc c
  | .clear => s.clear

/-- Nothing has been written yet. -/
def start (s : Console) : RecordedConsole := ⟨s.videoMem, ⟨s.mem, []⟩, s.screenX, s.screenY⟩

/-- The console without the record. -/
def console (s : RecordedConsole) : Console := ⟨s.videoMem, s.mem.mem, s.screenX, s.screenY⟩

end RecordedConsole

/-! ## Without the record -/

theorem storeCellRec_mem (z : Recorded) (base off : Int) (c : UInt8) :
    (storeCellRec z base off c).mem = storeCell z.mem base off c := rfl

theorem scrollRowsRec_mem (z : Recorded) (base : Int) :
    (scrollRowsRec z base).mem = scrollRows z.mem base base := by
  have hcopy : ∀ (i : Nat) (z : Recorded),
      (loop 80 (fun j z =>
        storeCellRec z base (cellOffset j i) (z.mem (base + cellOffset j (i + 1)))) z).mem =
      loop 80 (fun j m =>
        storeCell m base (cellOffset j i) (m (base + cellOffset j (i + 1)))) z.mem :=
    fun _ z => loop_hom Recorded.mem (fun _ _ => rfl) 80 z
  have hblank : ∀ z : Recorded,
      (loop 80 (fun j z => storeCellRec z base (cellOffset j (numRows - 1)) blank) z).mem =
      loop 80 (fun j m => storeCell m base (cellOffset j (numRows - 1)) blank) z.mem :=
    fun z => loop_hom Recorded.mem (fun _ _ => rfl) 80 z
  have hrows := loop_hom Recorded.mem hcopy 24 z
  unfold scrollRowsRec scrollRows
  exact (hblank _).trans (congrArg _ hrows)

theorem clearCellsRec_mem (z : Recorded) (base : Int) :
    (clearCellsRec z base).mem = clearCells z.mem base :=
  loop_hom Recorded.mem (fun _ _ => rfl) (25 * 80) z

namespace RecordedConsole

theorem scrollUp_console (s : RecordedConsole) : s.scrollUp.console = s.console.scrollUp := by
  simp only [scrollUp, console, Console.scrollUp, scrollRowsRec_mem]

/-- The move to the next row, which may scroll. -/
theorem nextRow_console (s : RecordedConsole) (x : Int) :
    (if s.screenY + 1 = numRows then
        scrollUp { s with screenY := s.screenY + 1, screenX := x }
      else { s with screenY := s.screenY + 1, screenX := x }).console =
      if s.console.screenY + 1 = numRows then
        Console.scrollUp { s.console with screenY := s.console.screenY + 1, screenX := x }
      else { s.console with screenY := s.console.screenY + 1, screenX := x } := by
  by_cases hlast : s.screenY + 1 = numRows
  · have hlast' : s.console.screenY + 1 = numRows := hlast
    rw [if_pos hlast, if_pos hlast']
    exact scrollUp_console _
  · have hlast' : ¬ s.console.screenY + 1 = numRows := hlast
    rw [if_neg hlast, if_neg hlast']
    rfl

theorem putc_console (s : RecordedConsole) (c : UInt8) :
    (s.putc c).console = s.console.putc c := by
  unfold putc Console.putc
  split_ifs
  · exact nextRow_console s 0
  · unfold handleTab Console.handleTab
    by_cases hx : s.screenX < numCols - 8
    · have hx' : s.console.screenX < numCols - 8 := hx
      rw [if_pos hx, if_pos hx']
      rfl
    · have hx' : ¬ s.console.screenX < numCols - 8 := hx
      rw [if_neg hx, if_neg hx']
      exact nextRow_console s 8
  · unfold handleBackspace Console.handleBackspace
    by_cases hx : s.screenX > 0
    · simp [console, hx, storeCellRec_mem]
    · by_cases hy : s.screenY > 0
      · simp [console, hx, hy, storeCellRec_mem]
      · simp [console, hx, hy, storeCellRec_mem]
  · unfold handleNormalChar Console.handleNormalChar
    by_cases hx : s.screenX = numCols - 1
    · have hx' : s.console.screenX = numCols - 1 := hx
      simp only [if_pos hx, if_pos hx']
      exact nextRow_console
        { s with mem := storeCellRec s.mem s.videoMem (cellOffset s.screenX s.screenY) c } 0
    · have hx' : ¬ s.console.screenX = numCols - 1 := hx
      simp only [if_neg hx, if_neg hx']
      rfl

theorem clear_console (s : RecordedConsole) : s.clear.console = s.console.clear := by
  simp only [clear, console, Console.clear, clearCellsRec_mem]

theorem run_console (s : RecordedConsole) (w : Write) : (s.run w).console = w.run s.console := by
  cases w with
  | putc c => exact putc_console s c
  | clear => exact clear_console s

theorem runs_console (s : RecordedConsole) (ws : List Write) :
    (ws.foldl run s).console = ws.foldl Write.run s.console :=
  (List.foldl_hom console (fun s w => (run_console s w).symm)).symm

end RecordedConsole

/-! ## Where the writes go -/

theorem storeCellRec_within {z : Recorded} {base off : Int} (h : z.Within base 4000)
    (hlo : 0 ≤ off) (hhi : off + 1 < 4000) (c : UInt8) :
    (storeCellRec z base off c).Within base 4000 :=
  (h.store (by omega) (by omega) c).store (by omega) (by omega) attrib

/-- A cell of the text area. -/
theorem storeCellRec_cell_within {z : Recorded} {base x y : Int} (h : z.Within base 4000)
    (hx : 0 ≤ x ∧ x < 80) (hy : 0 ≤ y ∧ y < 25) (c : UInt8) :
    (storeCellRec z base (cellOffset x y) c).Within base 4000 := by
  rw [cellOffset_eq]
  exact storeCellRec_within h (by omega) (by omega) c

theorem scrollRowsRec_within {z : Recorded} {base : Int} (h : z.Within base 4000) :
    (scrollRowsRec z base).Within base 4000 := by
  unfold scrollRowsRec
  refine loop_invariant (fun _ (z : Recorded) => z.Within base 4000) ?_ ?_
  · refine loop_invariant (fun _ (z : Recorded) => z.Within base 4000) h ?_
    intro i z hi hz
    refine loop_invariant (fun _ (z : Recorded) => z.Within base 4000) hz ?_
    intro j z hj hz
    exact storeCellRec_cell_within hz (by omega) (by omega) _
  · intro j z hj hz
    exact storeCellRec_cell_within hz (by omega) (by simp) _

theorem clearCellsRec_within {z : Recorded} {base : Int} (h : z.Within base 4000) :
    (clearCellsRec z base).Within base 4000 := by
  unfold clearCellsRec
  refine loop_invariant (fun _ (z : Recorded) => z.Within base 4000) h ?_
  intro i z hi hz
  exact storeCellRec_within hz (by omega) (by omega) _

namespace RecordedConsole

/-- All writes so far went to the text area. -/
def OnScreen (s : RecordedConsole) : Prop := s.mem.Within s.videoMem 4000

theorem nextRow_onScreen {s : RecordedConsole} (h : s.OnScreen) (x : Int) :
    (if s.screenY + 1 = numRows then
        scrollUp { s with screenY := s.screenY + 1, screenX := x }
      else { s with screenY := s.screenY + 1, screenX := x }).OnScreen := by
  split_ifs
  · exact scrollRowsRec_within h
  · exact h

/-- A character is written at the cursor, a blank one cell before it. -/
theorem putc_onScreen {s : RecordedConsole} (h : s.OnScreen) (hin : s.console.screen.InBounds)
    (c : UInt8) : (s.putc c).OnScreen := by
  obtain ⟨hx0, hx1, hy0, hy1⟩ : 0 ≤ s.screenX ∧ s.screenX < 80 ∧ 0 ≤ s.screenY ∧ s.screenY < 25 :=
    hin
  unfold putc
  split_ifs
  · exact nextRow_onScreen h 0
  · unfold handleTab
    by_cases hx : s.screenX < numCols - 8
    · rw [if_pos hx]
      exact h
    · rw [if_neg hx]
      exact nextRow_onScreen h 8
  · unfold handleBackspace
    split_ifs
    · exact storeCellRec_cell_within h (by simp only; omega) (by simp only; omega) blank
    · exact storeCellRec_cell_within h (by simp) (by simp only; omega) blank
    · exact storeCellRec_cell_within h (by omega) (by omega) blank
  · have hstored := storeCellRec_cell_within h ⟨hx0, hx1⟩ ⟨hy0, hy1⟩ c
    unfold handleNormalChar
    simp only
    split_ifs
    · exact scrollRowsRec_within hstored
    · exact hstored
    · exact hstored

theorem run_onScreen {s : RecordedConsole} (h : s.OnScreen) (hin : s.console.screen.InBounds)
    (w : Write) : (s.run w).OnScreen := by
  cases w with
  | putc c => exact putc_onScreen h hin c
  | clear => exact clearCellsRec_within h

theorem runs_onScreen (ws : List Write) {s : RecordedConsole} (h : s.OnScreen)
    (hin : s.console.screen.InBounds) : (ws.foldl run s).OnScreen := by
  induction ws generalizing s with
  | nil =>
      exact h
  | cons w ws ih =>
      apply ih (run_onScreen h hin w)
      rw [run_console]
      exact Write.run_inBounds hin w

theorem runs_videoMem (ws : List Write) (s : RecordedConsole) :
    (ws.foldl run s).videoMem = s.videoMem := by
  have h := Write.runs_videoMem ws s.console
  rw [← runs_console] at h
  exact h

end RecordedConsole

/--
From a cursor on the screen, output and `clear` in any order leave the cursor on
the screen, and every byte they write lies in the text area.
-/
theorem console_stays_on_screen (s : Console) (hin : s.screen.InBounds) (ws : List Write) :
    ((ws.foldl RecordedConsole.run (.start s)).console = ws.foldl Write.run s) ∧
      (ws.foldl Write.run s).screen.InBounds ∧
      ∀ a ∈ (ws.foldl RecordedConsole.run (.start s)).mem.written,
        s.videoMem ≤ a ∧ a < s.videoMem + 4000 := by
  refine ⟨RecordedConsole.runs_console (.start s) ws, Write.runs_inBounds ws hin, ?_⟩
  have hstart : (RecordedConsole.start s).OnScreen := by
    intro a ha
    cases ha
  have hend := RecordedConsole.runs_onScreen ws hstart hin
  unfold RecordedConsole.OnScreen at hend
  rw [RecordedConsole.runs_videoMem] at hend
  exact hend

/-- A character in the last cell of the screen scrolls it. -/
theorem console_stays_on_screen_last_cell :
    (Console.mk video (fun _ => 0) 79 24).screen.InBounds ∧
      ((Console.mk video (fun _ => 0) 79 24).putc 0x41).screen.InBounds := by
  have hin : (Console.mk video (fun _ => 0) 79 24).screen.InBounds := by
    simp [Screen.InBounds]
  exact ⟨hin, (console_stays_on_screen _ hin [.putc 0x41]).2.1⟩

end OopsOs
