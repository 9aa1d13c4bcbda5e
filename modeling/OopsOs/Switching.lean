import OopsOs.Terminal

/-!
# Terminal switching keeps three independent screens

`saveAndSwitchTerm_logicalScreen` is the step fact: a switch moves pages and
cursors around and changes no logical screen.  Console output changes the
logical screen of the active terminal only, because it never leaves the text
area of its page.

The abstract model of a session is three consoles that know nothing of each
other, each fed the output that was made while its terminal was active;
`session_logicalScreen` is the simulation over whole sessions.
-/

namespace OopsOs

open ByteMem

/-! ## Pages under block copies -/

theorem page_blit_dst (m : Mem) (dst src : Int) :
    page (m.blit dst src 4096) dst = page m src := by
  funext i
  have hi := i.isLt
  unfold page
  rw [Mem.blit_apply, if_pos (by push_cast; omega)]
  congr 1
  ring

theorem page_blit_apart (m : Mem) {dst base : Int} (src : Int)
    (h : base + 4096 ≤ dst ∨ dst + 4096 ≤ base) :
    page (m.blit dst src 4096) base = page m base := by
  funext i
  have hi := i.isLt
  unfold page
  rw [Mem.blit_apply, if_neg (by push_cast; omega)]

/-- The memory that a switch from terminal `a` to terminal `n` leaves. -/
def switchedMem (m : Mem) (a n : Fin 3) : Mem :=
  (m.blit (video + 4096 * ((a.val : Int) + 1)) video 4096).blit video
    (video + 4096 * ((n.val : Int) + 1)) 4096

theorem switchCopies_eq {k : Kernel} (hk : Laid k) (n : Fin 3) :
    switchCopies k n = switchedMem k.console.mem k.activeTerminal n := by
  have hup : CopyUp (video + 4096 * ((k.activeTerminal.val : Int) + 1)) video fourKb := by
    unfold CopyUp fourKb
    push_cast
    omega
  have hdown : CopyUp video (video + 4096 * ((n.val : Int) + 1)) fourKb := by
    unfold CopyUp
    omega
  unfold switchCopies
  rw [hk.storage, hk.storage, memcpy_eq_blit _ _ _ _ hup, memcpy_eq_blit _ _ _ _ hdown]
  rfl

theorem page_switchedMem_video (m : Mem) {a n : Fin 3} (h : n ≠ a) :
    page (switchedMem m a n) video = page m (video + 4096 * ((n.val : Int) + 1)) := by
  unfold switchedMem
  rw [page_blit_dst, page_blit_apart _ _ (by omega)]

theorem page_switchedMem_saved (m : Mem) (a n : Fin 3) :
    page (switchedMem m a n) (video + 4096 * ((a.val : Int) + 1)) = page m video := by
  unfold switchedMem
  rw [page_blit_apart _ _ (by omega), page_blit_dst]

theorem page_switchedMem_other (m : Mem) {a n t : Fin 3} (h : t ≠ a) :
    page (switchedMem m a n) (video + 4096 * ((t.val : Int) + 1)) =
      page m (video + 4096 * ((t.val : Int) + 1)) := by
  unfold switchedMem
  rw [page_blit_apart _ _ (by omega), page_blit_apart _ _ (by omega)]

/-! ## One switch -/

@[simp] theorem saveAndSwitchTerm_activeTerminal (k : Kernel) (n : Fin 3) :
    (saveAndSwitchTerm k n).activeTerminal = n := by
  unfold saveAndSwitchTerm
  split_ifs with h
  · exact h.symm
  · rfl

section Switch

variable {k : Kernel} (hk : Laid k) (n : Fin 3)
include hk

/-- A switch to another terminal, with the copies carried out. -/
theorem saveAndSwitchTerm_of_ne (hn : n ≠ k.activeTerminal) :
    saveAndSwitchTerm k n =
      { k with
        console :=
          { k.console with
            mem := switchedMem k.console.mem k.activeTerminal n
            screenX := (k.terminal n).xPosition
            screenY := (k.terminal n).yPosition }
        terminal := Function.update k.terminal k.activeTerminal
          { k.terminal k.activeTerminal with
            xPosition := k.console.screenX
            yPosition := k.console.screenY }
        activeTerminal := n } := by
  unfold saveAndSwitchTerm
  rw [if_neg hn, switchCopies_eq hk n]
  simp only [Kernel.onConsole, Kernel.setMem, Kernel.modifyTerminal, Kernel.setActive,
    Function.update_of_ne hn]

theorem saveAndSwitchTerm_laid : Laid (saveAndSwitchTerm k n) := by
  by_cases hn : n = k.activeTerminal
  · rwa [saveAndSwitchTerm, if_pos hn]
  · rw [saveAndSwitchTerm_of_ne hk n hn]
    refine ⟨hk.videoMem, ?_⟩
    intro t
    by_cases ht : t = k.activeTerminal
    · subst ht
      simpa using hk.storage k.activeTerminal
    · simpa [ht] using hk.storage t

/-- A switch changes no logical screen and no logical cursor. -/
theorem saveAndSwitchTerm_logicalScreen (t : Fin 3) :
    logicalScreen (saveAndSwitchTerm k n) t = logicalScreen k t := by
  by_cases hn : n = k.activeTerminal
  · rw [saveAndSwitchTerm, if_pos hn]
  · rw [saveAndSwitchTerm_of_ne hk n hn]
    unfold logicalScreen
    by_cases htn : t = n
    · -- the new terminal comes to the front
      subst htn
      rw [if_pos rfl, if_neg hn]
      simp only [Console.screen, storedScreen]
      rw [hk.videoMem, hk.storage, page_switchedMem_video _ hn]
    · rw [if_neg htn]
      by_cases hta : t = k.activeTerminal
      · -- the old one is put away
        subst hta
        rw [if_pos rfl]
        simp only [Console.screen, storedScreen, Function.update_self]
        rw [hk.videoMem, hk.storage, page_switchedMem_saved]
      · rw [if_neg hta]
        simp only [storedScreen, Function.update_of_ne hta]
        rw [hk.storage, page_switchedMem_other _ hta]

end Switch

/-! ## Output on the active terminal -/

/-- Console output: a character or a `clear`. -/
inductive Write
  | putc (c : UInt8)
  | clear
deriving DecidableEq, Repr

namespace Write

def run (s : Console) : Write → Console
  | putc c => s.putc c
  | clear => s.clear

@[simp] theorem run_videoMem (s : Console) (w : Write) :
    (run s w).videoMem = s.videoMem := by
  cases w <;> simp [run]

theorem run_inBounds {s : Console} (h : s.screen.InBounds) (w : Write) :
    (run s w).screen.InBounds := by
  cases w with
  | putc c => exact Console.putc_inBounds h c
  | clear => exact Console.clear_inBounds s

theorem run_outside {s : Console} (h : s.screen.InBounds) (w : Write) {a : Int}
    (ha : a < s.videoMem ∨ s.videoMem + 4000 ≤ a) :
    (run s w).mem a = s.mem a := by
  cases w with
  | putc c => exact Console.putc_outside h c ha
  | clear => exact Console.clear_outside s ha

theorem run_screen_congr {s s' : Console} (h : s.screen = s'.screen) (w : Write) :
    (run s w).screen = (run s' w).screen := by
  cases w with
  | putc c => exact Console.putc_screen_congr h c
  | clear => exact Console.clear_screen_congr h

theorem runs_videoMem (ws : List Write) (s : Console) :
    (ws.foldl run s).videoMem = s.videoMem := by
  induction ws generalizing s with
  | nil => rfl
  | cons w ws ih =>
      rw [List.foldl_cons, ih, run_videoMem]

theorem runs_inBounds (ws : List Write) {s : Console} (h : s.screen.InBounds) :
    (ws.foldl run s).screen.InBounds := by
  induction ws generalizing s with
  | nil => exact h
  | cons w ws ih => exact ih (run_inBounds h w)

end Write

theorem onConsole_laid {k : Kernel} (hk : Laid k) (w : Write) :
    Laid (k.onConsole (fun s => w.run s)) := by
  refine ⟨?_, hk.storage⟩
  simpa using hk.videoMem

/-- Output changes the logical screen of the active terminal only. -/
theorem onConsole_logicalScreen {k : Kernel} (hk : Laid k)
    (hin : k.console.screen.InBounds) (w : Write) (t : Fin 3) :
    logicalScreen (k.onConsole (fun s => w.run s)) t =
      if t = k.activeTerminal then (w.run k.console).screen else logicalScreen k t := by
  unfold logicalScreen
  by_cases ht : t = k.activeTerminal
  · simp [ht]
  · simp only [Kernel.onConsole_activeTerminal, ht, if_false]
    -- the storage page lies above the displayed one
    have hpage : page (w.run k.console).mem (k.terminal t).videoMemoryStorageLocation =
        page k.console.mem (k.terminal t).videoMemoryStorageLocation := by
      funext i
      apply Write.run_outside hin
      rw [hk.videoMem, hk.storage]
      omega
    simp only [storedScreen, Kernel.onConsole_terminal, Kernel.onConsole_console, hpage]

/-! ## Sessions -/

/-- What may happen to the screens: a switch, or output on the active terminal. -/
inductive SessionOp
  | switch (t : Fin 3)
  | write (w : Write)
deriving DecidableEq, Repr

def SessionOp.run (k : Kernel) : SessionOp → Kernel
  | switch t => saveAndSwitchTerm k t
  | write w => k.onConsole (fun s => w.run s)

def session (k : Kernel) (ops : List SessionOp) : Kernel :=
  ops.foldl SessionOp.run k

/-- The output made while `t` was active, in order; `a` is the active terminal. -/
def writesFor (t : Fin 3) : Fin 3 → List SessionOp → List Write
  | _, [] => []
  | _, .switch n :: ops => writesFor t n ops
  | a, .write w :: ops =>
      if t = a then w :: writesFor t a ops else writesFor t a ops

/-- The invariant of a session. -/
structure Sound (k : Kernel) : Prop where
  laid : Laid k
  inBounds : ∀ t, (logicalScreen k t).InBounds

theorem logicalScreen_active (k : Kernel) :
    logicalScreen k k.activeTerminal = k.console.screen := if_pos rfl

theorem Sound.console_inBounds {k : Kernel} (hk : Sound k) : k.console.screen.InBounds := by
  have h := hk.inBounds k.activeTerminal
  rwa [logicalScreen_active] at h

theorem Sound.step {k : Kernel} (hk : Sound k) (op : SessionOp) : Sound (op.run k) := by
  cases op with
  | switch n =>
      refine ⟨saveAndSwitchTerm_laid hk.laid n, ?_⟩
      intro t
      show (logicalScreen (saveAndSwitchTerm k n) t).InBounds
      rw [saveAndSwitchTerm_logicalScreen hk.laid n t]
      exact hk.inBounds t
  | write w =>
      refine ⟨onConsole_laid hk.laid w, ?_⟩
      intro t
      show (logicalScreen (k.onConsole (fun s => w.run s)) t).InBounds
      rw [onConsole_logicalScreen hk.laid hk.console_inBounds w t]
      split_ifs
      · exact Write.run_inBounds hk.console_inBounds w
      · exact hk.inBounds t

theorem Sound.session {k : Kernel} (hk : Sound k) (ops : List SessionOp) :
    Sound (session k ops) := by
  induction ops generalizing k with
  | nil => exact hk
  | cons op ops ih => exact ih (hk.step op)

/-- The simulation: each terminal is a console of its own, fed its own output. -/
theorem session_logicalScreen {k : Kernel} (hk : Sound k) (ops : List SessionOp)
    (t : Fin 3) (s : Console) (hs : s.screen = logicalScreen k t) :
    logicalScreen (session k ops) t =
      ((writesFor t k.activeTerminal ops).foldl Write.run s).screen := by
  induction ops generalizing k s with
  | nil => exact hs.symm
  | cons op ops ih =>
      cases op with
      | switch n =>
          have hs' : s.screen = logicalScreen (saveAndSwitchTerm k n) t := by
            rw [saveAndSwitchTerm_logicalScreen hk.laid n t, hs]
          have h := ih (hk.step (.switch n)) s hs'
          simp only [SessionOp.run, saveAndSwitchTerm_activeTerminal] at h
          exact h
      | write w =>
          have hstep := onConsole_logicalScreen hk.laid hk.console_inBounds w t
          by_cases ht : t = k.activeTerminal
          · subst ht
            rw [if_pos rfl] at hstep
            rw [logicalScreen_active] at hs
            have h := ih (hk.step (.write w)) (w.run s)
              (by rw [Write.run_screen_congr hs w]; exact hstep.symm)
            simp only [SessionOp.run, Kernel.onConsole_activeTerminal] at h
            simp only [writesFor, if_true, List.foldl_cons]
            exact h
          · rw [if_neg ht] at hstep
            have h := ih (hk.step (.write w)) s (by rw [hs]; exact hstep.symm)
            simp only [SessionOp.run, Kernel.onConsole_activeTerminal] at h
            simp only [writesFor, ht, if_false]
            exact h

/-! ## From boot -/

theorem openTerminal_console (k : Kernel) (j : Fin 3) :
    (openTerminal k j).console.videoMem = k.console.videoMem ∧
      (openTerminal k j).console.screenX = k.console.screenX ∧
      (openTerminal k j).console.screenY = k.console.screenY := by
  simp [openTerminal]

/-- `terminal_open` leaves the displayed cursor alone. -/
theorem terminalOpen_console (k : Kernel) :
    (terminalOpen k).console.videoMem = k.console.videoMem ∧
      (terminalOpen k).console.screenX = k.console.screenX ∧
      (terminalOpen k).console.screenY = k.console.screenY := by
  simp only [terminalOpen, openTerminal_console, and_self]

theorem openTerminal_terminal_of_ne (k : Kernel) {j t : Fin 3} (h : t ≠ j) :
    (openTerminal k j).terminal t = k.terminal t := by
  simp [openTerminal, h]

/-- What `terminal_open` leaves in each terminal. -/
theorem terminalOpen_terminal (k : Kernel) (t : Fin 3) :
    ((terminalOpen k).terminal t).videoMemoryStorageLocation =
        video + 4096 * ((t.val : Int) + 1) ∧
      ((terminalOpen k).terminal t).xPosition = 0 ∧
      ((terminalOpen k).terminal t).yPosition = 0 := by
  unfold terminalOpen
  fin_cases t
  · rw [openTerminal_terminal_of_ne _ (by decide), openTerminal_terminal_of_ne _ (by decide)]
    simp [openTerminal]
  · rw [openTerminal_terminal_of_ne _ (by decide)]
    simp [openTerminal]
  · simp [openTerminal]

/-- After boot output and `terminal_open` the invariant of sessions holds. -/
theorem terminalOpen_sound (k : Kernel) (hv : k.console.videoMem = video)
    (hin : k.console.screen.InBounds) :
    Sound (terminalOpen k) := by
  obtain ⟨hvm, hsx, hsy⟩ := terminalOpen_console k
  refine ⟨⟨hvm.trans hv, fun t => (terminalOpen_terminal k t).1⟩, ?_⟩
  intro t
  unfold logicalScreen
  split_ifs
  · rw [Screen.InBounds, Console.screen_x, Console.screen_y, hsx, hsy]
    exact hin
  · obtain ⟨-, hx, hy⟩ := terminalOpen_terminal k t
    simp [Screen.InBounds, storedScreen, hx, hy]

/--
From the state that `terminal_open` leaves after any boot output, every
session keeps three independent screens: the logical screen of a terminal is
what its own output makes of its first screen, and a further switch changes
none of them.
-/
theorem session_screens_independent (k : Kernel)
    (hv : k.console.videoMem = video)
    (hx : k.console.screenX = 0) (hy : k.console.screenY = 0)
    (boot : List Write) (ops : List SessionOp) :
    let start := terminalOpen (k.onConsole (fun s => boot.foldl Write.run s))
    (∀ (t : Fin 3) (s : Console), s.screen = logicalScreen start t →
      logicalScreen (session start ops) t =
        ((writesFor t start.activeTerminal ops).foldl Write.run s).screen) ∧
    (∀ n t : Fin 3,
      logicalScreen (saveAndSwitchTerm (session start ops) n) t =
        logicalScreen (session start ops) t) := by
  intro start
  have hboot : k.console.screen.InBounds := by
    simp [Screen.InBounds, hx, hy]
  have hstart : Sound start := by
    apply terminalOpen_sound
    · rw [Kernel.onConsole_console, Write.runs_videoMem, hv]
    · exact Write.runs_inBounds boot hboot
  refine ⟨fun t s hs => session_logicalScreen hstart ops t s hs, ?_⟩
  intro n t
  exact saveAndSwitchTerm_logicalScreen (hstart.session ops).laid n t

/-- The zeroed globals meet the hypotheses: one character on each of two terminals. -/
theorem session_screens_independent_zero :
    let k := Kernel.zero (fun _ => 0) (fun _ => 0)
    let start := terminalOpen (k.onConsole (fun s => [Write.putc 65].foldl Write.run s))
    k.console.videoMem = video ∧ k.console.screenX = 0 ∧ k.console.screenY = 0 ∧
      logicalScreen (session start [.write (.putc 66), .switch 1, .write (.putc 67)]) 0 =
        (start.console.putc 66).screen := by
  intro k start
  refine ⟨rfl, rfl, rfl, ?_⟩
  exact (session_screens_independent k rfl rfl rfl [.putc 65]
    [.write (.putc 66), .switch 1, .write (.putc 67)]).1 0 start.console
    (logicalScreen_active start).symm

end OopsOs
