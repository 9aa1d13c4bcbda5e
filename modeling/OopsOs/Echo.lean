import OopsOs.KeyboardBounds
import OopsOs.LineEditor

/-!
# The echo of typed characters

A typed character goes into the line buffer of the active terminal, and its
echo through `terminal_write` to the screen of the scheduled one.  The scheduler
masks the keyboard while the two differ, but only at a tick: a switch with Alt
changes the active terminal between two ticks.

The runs are those of the round-robin phase, with ticks and keys in any order; a
key is handled only while line 1 is not masked.  LEFT and RIGHT, which move the
cursor without writing, are left out.
-/

namespace OopsOs

open ByteMem Machine

inductive EchoEvent
  | tick (c inner : Context)
  | key (scancode : Nat)

def echoStep (k : Kernel) : EchoEvent → Option Kernel
  | .tick c inner => some (pitHandler k c inner).1
  | .key scancode =>
      if KeyboardMasked k ∨ scancode ∈ [75, 77] then none else some (keyboardHandler k scancode)

/-- The handler stores `c` into the line buffer of the active terminal. -/
def StoresTyped (k : Kernel) (scancode : Nat) (c : UInt8) : Prop :=
  lineKey k scancode = .char c ∧ (k.line k.activeTerminal).index < 128

/-- The character has been drawn on the logical screen of `t`, and nothing on the other two. -/
structure DrawnOn (t : Fin 3) (c : UInt8) (k k' : Kernel) : Prop where
  own : ∀ s : Console, s.screen = logicalScreen k t → logicalScreen k' t = (s.putc c).screen
  others : ∀ u, u ≠ t → logicalScreen k' u = logicalScreen k u

/-- What is stored in the step is echoed on the terminal it is stored for. -/
def Echoes (k : Kernel) : EchoEvent → Prop
  | .tick _ _ => True
  | .key scancode =>
      ∀ c, StoresTyped k scancode c → DrawnOn k.activeTerminal c k (keyboardHandler k scancode)

/-- What is stored in the step is stored for the scheduled terminal. -/
def StoredForScheduled (k : Kernel) : EchoEvent → Prop
  | .tick _ _ => True
  | .key scancode =>
      ∀ c, StoresTyped k scancode c → k.nextTerminalInSchedule = k.activeTerminal

/-- The round-robin phase, with the cursors on the screens. -/
structure RoundRobin (k : Kernel) : Prop where
  activated : k.scheduleActivated = true
  count : 3 < k.currentRunningProcessCount
  sound : Sound k

/-! ## Ticks -/

theorem pitHandler_roundRobin {k : Kernel} (h : RoundRobin k) (c inner : Context) :
    pitHandler k c inner = roundRobin (disableIrq k 0x01) c := by
  have hcount := h.count
  unfold pitHandler scheduleHandling
  rw [disableIrq_keyboard]
  simp only [h.activated, if_true]
  rw [dif_neg (by omega), if_neg (by omega)]

theorem maskKeyboard_eq (k : Kernel) : ∃ mask, maskKeyboard k = { k with masterBitMask := mask } := by
  unfold maskKeyboard
  rw [disableIrq_keyboard, enableIrq_keyboard]
  split_ifs
  · exact ⟨_, rfl⟩
  · exact ⟨_, rfl⟩

/-- A tick of the phase moves no screen and no cursor. -/
theorem roundRobin_screens (k : Kernel) (c : Context) :
    (roundRobin k c).1.console = k.console ∧
      (roundRobin k c).1.activeTerminal = k.activeTerminal ∧
      (roundRobin k c).1.scheduleActivated = k.scheduleActivated ∧
      (roundRobin k c).1.currentRunningProcessCount = k.currentRunningProcessCount ∧
      (roundRobin k c).1.terminal = (saveContext k k.nextTerminalInSchedule c).terminal := by
  unfold roundRobin
  obtain ⟨mask, hmask⟩ := maskKeyboard_eq { saveContext k k.nextTerminalInSchedule c with
    nextTerminalInSchedule := (saveContext k k.nextTerminalInSchedule c).nextTerminalInSchedule + 1 }
  simp only [hmask]
  exact ⟨rfl, rfl, rfl, rfl, rfl⟩

theorem pitHandler_keeps_roundRobin {k : Kernel} (h : RoundRobin k) (c inner : Context) :
    RoundRobin (pitHandler k c inner).1 := by
  rw [pitHandler_roundRobin h, disableIrq_keyboard]
  obtain ⟨hconsole, hactive, hactivated, hcount, hterminal⟩ := roundRobin_screens { k with
    masterBitMask := (irqMask 1 ||| k.masterBitMask.setWidth 32).setWidth 8 } c
  have hsaved : Sound (saveContext k k.nextTerminalInSchedule c) :=
    h.sound.modifyTerminal _ (fun _ => rfl) (fun _ => rfl) (fun _ => rfl)
  refine ⟨hactivated.trans h.activated, ?_, hsaved.of_same hconsole hactive ?_⟩
  · rw [hcount]
    exact h.count
  · intro t
    rw [hterminal]
    exact ⟨rfl, rfl, rfl⟩

/-! ## The echo -/

theorem logicalScreen_modifyTerminal (k : Kernel) (t u : Fin 3) {f : Terminal → Terminal}
    (hx : ∀ T, (f T).xPosition = T.xPosition) (hy : ∀ T, (f T).yPosition = T.yPosition)
    (hstorage : ∀ T, (f T).videoMemoryStorageLocation = T.videoMemoryStorageLocation) :
    logicalScreen (k.modifyTerminal t f) u = logicalScreen k u := by
  unfold logicalScreen storedScreen
  by_cases hu : u = t
  · subst hu
    simp [hx, hy, hstorage]
  · simp [hu]

theorem logicalScreen_storeTyped (k : Kernel) (c : UInt8) (u : Fin 3) :
    logicalScreen (storeTyped k c) u = logicalScreen k u :=
  logicalScreen_modifyTerminal k _ u (fun _ => rfl) (fun _ => rfl) (fun _ => rfl)

theorem logicalScreen_countTyped (k : Kernel) (u : Fin 3) :
    logicalScreen (countTyped k) u = logicalScreen k u :=
  logicalScreen_modifyTerminal k _ u (fun _ => rfl) (fun _ => rfl) (fun _ => rfl)

theorem defaultKey_char {k : Kernel} {code : Nat} {c : UInt8} (h : defaultKey k code = .char c) :
    keypressHandler k code = c := by
  unfold defaultKey at h
  split_ifs at h
  exact LineKey.char.inj h

theorem lineKey_char {k : Kernel} {code : Nat} {c : UInt8} (h : lineKey k code = .char c) :
    code ∉ [14, 15, 28] ∧ keypressHandler k code = c := by
  have hcode : code ∉ [14, 15, 28] := by
    intro hmem
    simp only [List.mem_cons, List.not_mem_nil, or_false] at hmem
    rcases hmem with rfl | rfl | rfl
    · cases h
    · cases h
    · cases h
  refine ⟨hcode, ?_⟩
  unfold lineKey at h
  split at h <;> first | cases h | skip
  · split_ifs at h
  · exact defaultKey_char h

theorem lineKey_arrow {k : Kernel} {code : Nat} (h : lineKey k code = .left ∨ lineKey k code = .right) :
    code ∈ [75, 77] := by
  have hdefault : defaultKey k code ≠ .left ∧ defaultKey k code ≠ .right := by
    unfold defaultKey
    split_ifs <;> exact ⟨by simp, by simp⟩
  unfold lineKey at h
  split at h <;> first | (rcases h with h | h <;> cases h) | skip
  · decide
  · decide
  · exact absurd h (not_or.mpr hdefault)

/-- A stored character is typed, and one that `putc` draws. -/
theorem StoresTyped.handler {k : Kernel} {code : Nat} {c : UInt8} (h : StoresTyped k code c) :
    keyboardHandler k code = typeChar k c ∧ c ≠ 0 ∧ Printable c := by
  obtain ⟨hkey, -⟩ := h
  obtain ⟨hcode, hchar⟩ := lineKey_char hkey
  have heffect := keyboardHandler_effect k code
  rw [hkey] at heffect
  generalize keyboardHandler k code = k' at heffect
  cases heffect with
  | char _ hc =>
      have hcharacter : CharacterKey code := ⟨hcode, k, by rw [hchar]; exact hc⟩
      have hdrawn := hcharacter.drawn k.shiftStatus k.capsStatus
      rw [← keypressHandler_eq, hchar] at hdrawn
      simp only [List.mem_cons, List.not_mem_nil, or_false, not_or] at hdrawn
      obtain ⟨h08, h09, h0A, h0D⟩ := hdrawn
      exact ⟨rfl, hc, not_or.mpr ⟨h0A, h0D⟩, h09, h08⟩

/-- A drawn character moves the cursor along its row. -/
theorem putc_screenX_ne {c : UInt8} (hc : Printable c) (s : Console) :
    (s.putc c).screenX ≠ s.screenX := by
  obtain ⟨hnewline, htab, hback⟩ := hc
  rw [Console.putc_eq_run]
  unfold plan
  rw [if_neg hnewline, if_neg htab, if_neg hback]
  split_ifs with hlast
  · unfold Plan.nextRow
    split_ifs
    · simp only [Plan.run]
      omega
    · simp only [Plan.run]
      omega
  · simp only [Plan.run]
    omega

theorem drawnOn_of_scheduled {k : Kernel} (h : Sound k) {c : UInt8} (hc : c ≠ 0)
    (hroom : (k.terminal k.activeTerminal).bufferIndex < 128)
    (hscheduled : k.nextTerminalInSchedule = k.activeTerminal) :
    DrawnOn k.activeTerminal c k (typeChar k c) := by
  have hstored : Sound (storeTyped k c) :=
    h.modifyTerminal _ (fun _ => rfl) (fun _ => rfl) (fun _ => rfl)
  have hscreens : ∀ u, logicalScreen (typeChar k c) u =
      if u = k.activeTerminal then (k.console.putc c).screen else logicalScreen k u := by
    intro u
    rw [typeChar_of_room c hroom, terminalPutc_eq, if_neg hc,
      scheduledPutc_shown (k := storeTyped k c) (Or.inr hscheduled), logicalScreen_countTyped,
      ← logicalScreen_storeTyped k c u]
    exact onConsole_logicalScreen hstored.laid hstored.console_inBounds (.putc c) u
  refine ⟨?_, ?_⟩
  · intro s hs
    rw [logicalScreen_active] at hs
    rw [hscreens, if_pos rfl, Console.putc_screen_congr hs]
  · intro u hu
    rw [hscreens, if_neg hu]

/-- Otherwise the displayed cursor stays where it was. -/
theorem typeChar_hidden {k : Kernel} {c : UInt8} (hc : c ≠ 0)
    (hroom : (k.terminal k.activeTerminal).bufferIndex < 128)
    (hhidden : ¬ (k.currentRunningProcessCount < 3 ∨ k.nextTerminalInSchedule = k.activeTerminal)) :
    (typeChar k c).console.screenX = k.console.screenX := by
  rw [typeChar_of_room c hroom, terminalPutc_eq, if_neg hc,
    scheduledPutc_stored (k := storeTyped k c) hhidden]
  rfl

theorem not_drawnOn_of_ne {k : Kernel} (h : RoundRobin k) {c : UInt8} (hc : c ≠ 0)
    (hprint : Printable c) (hroom : (k.terminal k.activeTerminal).bufferIndex < 128)
    (hne : k.nextTerminalInSchedule ≠ k.activeTerminal) :
    ¬ DrawnOn k.activeTerminal c k (typeChar k c) := by
  have hcount := h.count
  have hactive : (typeChar k c).activeTerminal = k.activeTerminal := (typeChar_pressed k c).active
  intro hdrawn
  have hscreen := hdrawn.own k.console (logicalScreen_active k).symm
  rw [← hactive, logicalScreen_active] at hscreen
  have hmoved : (typeChar k c).console.screenX = (k.console.putc c).screenX := congrArg Screen.x hscreen
  rw [typeChar_hidden hc hroom (not_or.mpr ⟨by omega, hne⟩)] at hmoved
  exact putc_screenX_ne hprint k.console hmoved.symm

/-- A stored character is echoed for its terminal exactly if that is the scheduled one. -/
theorem drawnOn_iff {k : Kernel} (h : RoundRobin k) {code : Nat} {c : UInt8}
    (hstores : StoresTyped k code c) :
    DrawnOn k.activeTerminal c k (keyboardHandler k code) ↔
      k.nextTerminalInSchedule = k.activeTerminal := by
  obtain ⟨htyped, hc, hprint⟩ := hstores.handler
  rw [htyped]
  constructor
  · intro hdrawn
    by_contra hne
    exact not_drawnOn_of_ne h hc hprint hstores.2 hne hdrawn
  · intro hscheduled
    exact drawnOn_of_scheduled h.sound hc hstores.2 hscheduled

/-! ## Runs -/

theorem echoes_iff (k : Kernel) (e : EchoEvent) (k' : Kernel) (h : RoundRobin k)
    (_ : echoStep k e = some k') : Echoes k e ↔ StoredForScheduled k e := by
  cases e with
  | tick c inner => exact Iff.rfl
  | key code =>
      refine forall_congr' (fun c => forall_congr' (fun hstores => ?_))
      exact drawnOn_iff h hstores

theorem echoStep_roundRobin (k : Kernel) (e : EchoEvent) (k' : Kernel) (h : RoundRobin k)
    (hscheduled : StoredForScheduled k e) (hstep : echoStep k e = some k') : RoundRobin k' := by
  cases e with
  | tick c inner =>
      obtain rfl := Option.some.inj hstep
      exact pitHandler_keeps_roundRobin h c inner
  | key code =>
      simp only [echoStep] at hstep
      split_ifs at hstep with hblocked
      obtain ⟨-, harrow⟩ := not_or.mp hblocked
      have hsame := keyboardHandler_same k code
      rw [← Option.some.inj hstep]
      refine ⟨hsame.activated.trans h.activated, ?_, keyboardHandler_sound h.sound ?_⟩
      · rw [hsame.count]
        exact h.count
      · cases hkey : lineKey k code with
        | left => exact absurd (lineKey_arrow (Or.inl hkey)) harrow
        | right => exact absurd (lineKey_arrow (Or.inr hkey)) harrow
        | char c => exact fun hroom => Or.inl (Or.inr (hscheduled c ⟨hkey, hroom⟩))
        | enter => trivial
        | backspace => trivial
        | display t => trivial
        | other => trivial

/--
In the round-robin phase, every stored character of a run is drawn on the screen
of the terminal it is stored for, and on no other, exactly if each is stored for
the terminal that is scheduled.
-/
theorem run_echoes_iff {k k' : Kernel} (hactivated : k.scheduleActivated = true)
    (hcount : 3 < k.currentRunningProcessCount) (hsound : Sound k) {es : List EchoEvent} :
    Run echoStep Echoes k es k' ↔ Run echoStep StoredForScheduled k es k' :=
  Run.guard_iff echoStep_roundRobin echoes_iff ⟨hactivated, hcount, hsound⟩

theorem echoStep_key {k : Kernel} {code : Nat} (hmask : ¬ KeyboardMasked k)
    (harrow : code ∉ [75, 77]) : echoStep k (.key code) = some (keyboardHandler k code) :=
  if_neg (not_or.mpr ⟨hmask, harrow⟩)

/-- The start of the phase: terminal 0 is displayed, and the next tick schedules it. -/
def roundRobinStart : Kernel :=
  { keyboardInitialize bareKernel with
    scheduleActivated := true
    currentRunningProcessCount := 4
    nextTerminalInSchedule := 2 }

theorem roundRobinStart_sound : Sound roundRobinStart := by
  have hinitial := (keyboardInitialize_bounded rfl bareKernel_inBounds).sound
  exact hinitial.of_same rfl rfl (fun _ => ⟨rfl, rfl, rfl⟩)

/-- The first tick of the phase. -/
def firstTick : Kernel := (pitHandler roundRobinStart .zero .zero).1

/-- A character after the tick, on the terminal that is displayed and scheduled. -/
theorem run_echoes_iff_scheduled :
    Run echoStep Echoes roundRobinStart [.tick .zero .zero, .key 30]
      (keyboardHandler firstTick 30) := by
  have hmask : ¬ KeyboardMasked firstTick := by decide +kernel
  have hscheduled : firstTick.nextTerminalInSchedule = firstTick.activeTerminal := by decide +kernel
  refine (run_echoes_iff rfl (by decide) roundRobinStart_sound).mpr ?_
  exact Run.cons trivial rfl (Run.cons (fun _ _ => hscheduled) (echoStep_key hmask (by decide))
    (Run.nil _))

/-- Alt and F2 between two ticks. -/
def switchedAway : Kernel := pressKeys firstTick [56, 60, 184]

theorem run_switchedAway :
    Run echoStep anyStep roundRobinStart [.tick .zero .zero, .key 56, .key 60, .key 184]
      switchedAway := by
  have hmask₁ : ¬ KeyboardMasked firstTick := by decide +kernel
  have hmask₂ : ¬ KeyboardMasked (pressKeys firstTick [56]) := by decide +kernel
  have hmask₃ : ¬ KeyboardMasked (pressKeys firstTick [56, 60]) := by decide +kernel
  exact Run.cons trivial rfl (Run.cons trivial (echoStep_key hmask₁ (by decide))
    (Run.cons trivial (echoStep_key hmask₂ (by decide))
      (Run.cons trivial (echoStep_key hmask₃ (by decide)) (Run.nil _))))

/-- The character is stored for terminal 1 and drawn on terminal 0. -/
theorem character_after_switch_drawn_elsewhere :
    Sound roundRobinStart ∧ ¬ KeyboardMasked switchedAway ∧ switchedAway.activeTerminal = 1 ∧
      StoresTyped switchedAway 30 0x61 ∧
      (logicalScreen (keyboardHandler switchedAway 30) 1).x = 0 ∧
      (logicalScreen (keyboardHandler switchedAway 30) 0).x = 1 ∧
      ¬ Run echoStep Echoes roundRobinStart
        ([.tick .zero .zero, .key 56, .key 60, .key 184] ++ [.key 30])
        (keyboardHandler switchedAway 30) := by
  have hactive : switchedAway.activeTerminal = 1 := by decide +kernel
  have hstores : StoresTyped switchedAway 30 0x61 := ⟨by decide +kernel, by decide +kernel⟩
  have hown : (logicalScreen (keyboardHandler switchedAway 30) 1).x = 0 := by decide +kernel
  have hdrawn : (switchedAway.console.putc 0x61).screenX = 1 := by decide +kernel
  refine ⟨roundRobinStart_sound, by decide +kernel, hactive, hstores, hown, by decide +kernel, ?_⟩
  intro hrun
  obtain ⟨k, hbefore, hlast⟩ := hrun.split
  rw [hbefore.unique run_switchedAway] at hlast
  cases hlast with
  | cons hechoes _ _ =>
      have hscreen := (hechoes 0x61 hstores).own switchedAway.console (logicalScreen_active _).symm
      rw [hactive] at hscreen
      have hx : (logicalScreen (keyboardHandler switchedAway 30) 1).x =
          (switchedAway.console.putc 0x61).screenX := congrArg Screen.x hscreen
      rw [hown, hdrawn] at hx
      exact absurd hx (by decide)

end OopsOs
