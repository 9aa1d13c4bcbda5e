import OopsOs.Cat

/-!
# What a program puts on the screen

What a program passes to `write` goes through `terminal_write` and the console,
which puts it on the screen of the displayed terminal if the scheduler agrees
and no full line is in the way.  `Foreground` is the condition, and the others
are to keep it and the screen.

The kernel writes messages of its own when a call fails.  In a run without such
a call the screen is what the console makes of the program's bytes, apart from
the NULs.
-/

namespace OopsOs

open ByteMem Programs

/-- Output goes to the terminal on the display, and its line buffer is not full. -/
structure Foreground (k : Kernel) : Prop where
  scheduled : k.currentRunningProcessCount < 3 ∨ k.nextTerminalInSchedule = k.activeTerminal
  room : (k.terminal k.activeTerminal).bufferIndex ≠ 128

/-- What is on the screen stays, and output still goes there. -/
def KeepsScreen (k k' : Kernel) : Prop :=
  Foreground k → Foreground k' ∧ k'.console.screen = k.console.screen

/-- What `putc` shows of the bytes. -/
def shownOn (s : Console) (bytes : List UInt8) : Screen :=
  ((bytes.filter (fun c => c ≠ 0)).foldl Console.putc s).screen

theorem shownOn_congr {s s' : Console} (h : s.screen = s'.screen) (bytes : List UInt8) :
    shownOn s bytes = shownOn s' bytes := by
  unfold shownOn
  generalize bytes.filter (fun c => c ≠ 0) = cs
  induction cs generalizing s s' with
  | nil => exact h
  | cons c cs ih => exact ih (Console.putc_screen_congr h c)

theorem shownOn_append (s : Console) (b b' : List UInt8) :
    shownOn s (b ++ b') =
      shownOn ((b.filter (fun c => c ≠ 0)).foldl Console.putc s) b' := by
  rw [shownOn, List.filter_append, List.foldl_append]
  rfl

namespace KeepsScreen

variable {k k' k'' : Kernel}

theorem refl (k : Kernel) : KeepsScreen k k := fun h => ⟨h, rfl⟩

theorem trans (h : KeepsScreen k k') (h' : KeepsScreen k' k'') : KeepsScreen k k'' := by
  intro hk
  obtain ⟨hk', hscreen⟩ := h hk
  obtain ⟨hk'', hscreen'⟩ := h' hk'
  exact ⟨hk'', hscreen'.trans hscreen⟩

/-- Nothing that output looks at has changed. -/
theorem of_fields (hconsole : k'.console = k.console) (hactive : k'.activeTerminal = k.activeTerminal)
    (hcount : k'.currentRunningProcessCount = k.currentRunningProcessCount)
    (hnext : k'.nextTerminalInSchedule = k.nextTerminalInSchedule)
    (hindex : ∀ t, (k'.terminal t).bufferIndex = (k.terminal t).bufferIndex) :
    KeepsScreen k k' := by
  rintro ⟨hscheduled, hroom⟩
  refine ⟨⟨?_, ?_⟩, by rw [hconsole]⟩
  · rwa [hcount, hnext, hactive]
  · rwa [hactive, hindex]

theorem setDescriptor (k : Kernel) (pid : Fin 6) (fd : Fin 8) (d : FileDescriptor) :
    KeepsScreen k (setDescriptor k pid fd d) :=
  of_fields rfl rfl rfl rfl (fun _ => rfl)

end KeepsScreen

/-! ## The calls -/

theorem terminalRead_keepsScreen {interrupts : Kernel → Kernel}
    (hint : ∀ k, KeepsScreen k (interrupts k)) {k : Kernel} {buf : Nat} {nbytes v : Int}
    (hv : (terminalRead interrupts k buf nbytes).outcome = .returned v) (h : v ≠ -1)
    (hn : nbytes ≠ 0) : KeepsScreen k (terminalRead interrupts k buf nbytes).kernel := by
  have hpolled : KeepsScreen k (polledLine interrupts k) := by
    unfold polledLine
    split_ifs
    · exact KeepsScreen.refl k
    · exact hint k
  have hdone : ∀ (z : Kernel) (f : Terminal → Terminal), (∀ T, (f T).bufferIndex = T.bufferIndex) →
      KeepsScreen z (z.modifyTerminal z.activeTerminal f) := by
    intro z f hf
    refine KeepsScreen.of_fields rfl rfl rfl rfl ?_
    intro t
    by_cases ht : t = z.activeTerminal
    · subst ht
      simp [hf]
    · simp [ht]
  unfold terminalRead at hv ⊢
  by_cases hbad : buf = 0 ∨ nbytes < 0
  · rw [if_pos hbad] at hv
    exact absurd (Outcome.returned.inj hv).symm h
  · simp only [if_neg hbad, if_neg hn]
    split_ifs
    · exact hpolled.trans (hdone _ (fun T => { T with readIndex := T.readIndex + 1, readFlag := 0 })
        (fun _ => rfl))
    · exact hpolled

theorem read_keepsScreen {interrupts : Kernel → Kernel}
    (hint : ∀ k, KeepsScreen k (interrupts k)) {k : Kernel} {pid : Fin 6} {fd nbytes v : Int}
    {buf : Nat} (hv : (read interrupts k pid fd buf nbytes).outcome = .returned v) (h : v ≠ -1)
    (hn : nbytes ≠ 0) : KeepsScreen k (read interrupts k pid fd buf nbytes).kernel := by
  cases hf : fdIndex fd with
  | none =>
      rw [read_bad_fd interrupts k pid hf] at hv
      exact absurd (Outcome.returned.inj hv).symm h
  | some f =>
      have hby := read_by interrupts k pid hf buf nbytes
      generalize read interrupts k pid fd buf nbytes = z at hby hv ⊢
      cases hby with
      | failed => exact absurd (Outcome.returned.inj hv).symm h
      | stdin hzero =>
          exact (KeepsScreen.setDescriptor k pid 0 _).trans (terminalRead_keepsScreen hint hv h hn)
      | terminal => exact terminalRead_keepsScreen hint hv h hn
      | rtc =>
          have hset : KeepsScreen k { k with isRtcInterruptFlag := 1 } :=
            KeepsScreen.of_fields rfl rfl rfl rfl (fun _ => rfl)
          unfold rtcRead
          simp only
          split_ifs
          · exact hset.trans (hint _)
          · exact hset.trans (hint _)
      | directory =>
          unfold directoryRead
          simp only
          split
          · exact KeepsScreen.refl k
          · exact KeepsScreen.setDescriptor k pid f _
      | file =>
          unfold fileRead at hv ⊢
          simp only at hv ⊢
          split_ifs at hv ⊢
          · exact absurd (Outcome.returned.inj hv).symm h
          · exact absurd (Outcome.returned.inj hv).symm h
          · exact absurd (Outcome.returned.inj hv).symm h
          all_goals
            split
            · exact KeepsScreen.refl k
            · exact KeepsScreen.setDescriptor k pid f _
      | wild => cases hv

/-- Descriptor 1 is the terminal's, and none that the program opens is. -/
structure Printing (pid : Fin 6) (k : Kernel) : Prop extends Standard pid k where
  others : ∀ fd : Fin 8, 2 ≤ fd.val → (descriptor k pid fd).descriptorOpPtr ≠ .termTable

theorem Printing.of_own {pid : Fin 6} {k k' : Kernel} (h : Printing pid k) (fd : Fin 8)
    (hown : OnlyOwn pid fd k k') (hstd : Standard pid k')
    (htable : 2 ≤ fd.val → (descriptor k' pid fd).descriptorOpPtr ≠ .termTable) :
    Printing pid k' := by
  refine ⟨hstd, ?_⟩
  intro fd' h2
  by_cases heq : fd' = fd
  · subst heq
    exact htable h2
  · rw [hown.other fd' heq]
    exact h.others fd' h2

/-- The descriptors of a started process. -/
theorem execute_printing {k : Kernel} {cmd : List UInt8} {saved : Context} {pid : Fin 6}
    (h : (execute k cmd saved).2 = some pid) : Printing pid (execute k cmd saved).1 := by
  refine ⟨(execute_begun h).1.toStandard, ?_⟩
  intro fd h2
  have h0 : fd ≠ 0 := by
    rintro rfl
    exact absurd h2 (by decide)
  have h1 : fd ≠ 1 := by
    rintro rfl
    exact absurd h2 (by decide)
  rcases execute_blocks k cmd saved with ⟨hnone, -⟩ | ⟨p, hp, hd, -⟩
  · rw [h] at hnone
    cases hnone
  · obtain rfl := Option.some.inj (h.symm.trans hp)
    rw [hd, enteredDescriptor, if_neg h0, if_neg h1]
    simp

theorem SameOwn.printing {pid : Fin 6} {k k' : Kernel} (hsame : SameOwn pid k k')
    (h : Printing pid k) : Printing pid k' := by
  refine ⟨h.toStandard.of_same (fun fd _ => hsame.descriptor fd), ?_⟩
  intro fd h2
  rw [hsame.descriptor]
  exact h.others fd h2

/-! ## Writing -/

theorem foldl_scheduledPutc {k : Kernel} (h : Foreground k) (cs : List UInt8) :
    cs.foldl scheduledPutc k = k.onConsole (fun s => cs.foldl Console.putc s) := by
  induction cs generalizing k with
  | nil => rfl
  | cons c cs ih =>
      rw [List.foldl_cons, scheduledPutc, if_pos h.scheduled]
      exact ih ⟨h.scheduled, h.room⟩

/-- A write shows the bytes on descriptor 1, and nothing on another one. -/
theorem write_shows {k : Kernel} {pid : Fin 6} (h : Printing pid k) (hf : Foreground k) {fd : Int}
    {buf : Buffer} {nbytes v : Int} (hv : (write k pid fd (some buf) nbytes).2 = .returned v)
    (hne : v ≠ -1) (r : Answer) :
    Foreground (write k pid fd (some buf) nbytes).1 ∧
      (write k pid fd (some buf) nbytes).1.console.screen =
        shownOn k.console (written (.write fd buf nbytes, r)) := by
  by_cases hone : fd = 1
  · subst hone
    have h0 : 0 ≤ nbytes := by
      by_contra hneg
      rw [write_stdout h.stdout h.table, terminalWrite, if_pos (by omega)] at hv
      exact hne (Outcome.returned.inj hv).symm
    rw [write_of_room h.stdout h.table buf h0 hf.room, foldl_scheduledPutc hf]
    exact ⟨⟨hf.scheduled, hf.room⟩, rfl⟩
  · have hnothing : written (.write fd buf nbytes, r) = [] := by
      rw [written]
      simp only [if_neg hone]
    have hsame : (write k pid fd (some buf) nbytes).1 = k := by
      unfold write at hv ⊢
      cases hindex : fdIndex fd with
      | none =>
          rw [hindex] at hv
          exact absurd (Outcome.returned.inj hv).symm hne
      | some f =>
          rw [hindex] at hv
          simp only at hv ⊢
          by_cases hbad : (descriptor k pid f).flags = 0 ∨ f = 0 ∨ (some buf).isNone = true
          · rw [if_pos hbad] at hv
            exact absurd (Outcome.returned.inj hv).symm hne
          · rw [if_neg hbad]
            have h2 : 2 ≤ f.val := by
              have hf0 : f ≠ 0 := fun heq => hbad (.inr (.inl heq))
              have hf1 : f ≠ 1 := by
                rintro rfl
                exact hone (fdIndex_eq hindex)
              omega
            have htable := h.others f h2
            cases hop : (descriptor k pid f).descriptorOpPtr with
            | termTable => exact absurd hop htable
            | null => rfl
            | rtcTable => rfl
            | directoryTable => rfl
            | fileTable => rfl
            | word w => rfl
    rw [hsame, hnothing]
    exact ⟨hf, rfl⟩

section Calls

variable {others : Kernel → Kernel → Prop} {pid : Fin 6} (hothers : LeavesAlone others pid)
variable (hscreen : ∀ k k', others k k' → KeepsScreen k k')
variable {k k' : Kernel} {q : UserCall} {r : Answer}
include hothers hscreen

/-- A call of the program changes the screen by what it writes. -/
theorem serves_shows (h : Printing pid k) (hf : Foreground k) (hquiet : Quiet (q, r))
    (hserve : Serves others pid k q r k') :
    Printing pid k' ∧ Foreground k' ∧ k'.console.screen = shownOn k.console (written (q, r)) := by
  -- all calls but `write` keep the screen
  have hkept : ∀ {k₁ k₂ : Kernel}, others k k₁ → KeepsScreen k₁ k₂ → written (q, r) = [] →
      Foreground k₂ ∧ k₂.console.screen = shownOn k.console (written (q, r)) := by
    intro k₁ k₂ hk hkeep hnothing
    rw [hnothing]
    exact (hscreen _ _ hk).trans hkeep hf
  cases hserve with
  | @getargs k₁ nbytes v hk hv =>
      have hsame : (getargs k₁ pid nbytes).kernel = k₁ := by
        unfold getargs at hv ⊢
        split_ifs at hv ⊢
        · exact absurd (Outcome.returned.inj hv).symm hquiet
        · rfl
      rw [hsame]
      exact ⟨(hothers _ _ hk).printing h, hkept hk (KeepsScreen.refl k₁) rfl⟩
  | @openFile k₁ filename name hk hname =>
      have hkeeps : KeepsScreen k₁ (openFile k₁ pid name).1 := by
        obtain ⟨loc, d, hd⟩ := openFile_accepted hquiet
        rw [hd]
        exact KeepsScreen.setDescriptor k₁ pid loc d
      refine ⟨?_, hkept hk hkeeps rfl⟩
      have h₁ := (hothers _ _ hk).printing h
      have haccepted : ¬ OpenRefused k₁ pid name := fun hr => hquiet (openFile_refused hr).1
      obtain ⟨i, loc, -, -, hopens⟩ := openFile_opens haccepted
      obtain ⟨op, inode, pos, hkind, hd⟩ := hopens.entry
      refine h₁.of_own loc hopens.only.own
        (h₁.toStandard.of_own (hopens.user h₁.toStandard) hopens.only.own) ?_
      intro _
      rw [hd]
      unfold openKind at hkind
      split_ifs at hkind <;> (cases hkind; simp)
  | @close k₁ fd v hk hv =>
      have h₁ := (hothers _ _ hk).printing h
      obtain ⟨f, h2, hclosed⟩ := close_accepted hv hquiet
      rw [hclosed]
      have hown := (OnlyDescriptor.set k₁ pid f { descriptor k₁ pid f with flags := 0 }).own
      refine ⟨h₁.of_own f hown (h₁.toStandard.of_own h2 hown) ?_,
        hkept hk (KeepsScreen.setDescriptor k₁ pid f _) rfl⟩
      intro _
      rw [descriptor_setDescriptor_self]
      exact h₁.others f h2
  | @read k₁ interrupts fd nbytes v buf hk hint hbuf hv =>
      refine ⟨?_, hkept hk
        (read_keepsScreen (fun k => hscreen _ _ (hint k)) hv hquiet.1 hquiet.2) rfl⟩
      have h₁ := (hothers _ _ hk).printing h
      cases hf : fdIndex fd with
      | none =>
          rw [read_bad_fd interrupts k₁ pid hf] at hv
          exact absurd (Outcome.returned.inj hv).symm hquiet.1
      | some f =>
          have hown := read_own (hothers.keepsProcess hint) k₁ hf buf nbytes
          refine h₁.of_own f hown.only (h₁.toStandard.of_read hown) ?_
          intro h2
          have h0 : f ≠ 0 := by
            rintro rfl
            exact absurd h2 (by decide)
          rw [(hown.handle h0).descriptorOpPtr]
          exact h₁.others f h2
  | @write k₁ fd nbytes v buf hk hv =>
      have h₁ := (hothers _ _ hk).printing h
      obtain ⟨hf₁, hsame⟩ := hscreen _ _ hk hf
      obtain ⟨hf', hshows⟩ := write_shows h₁ hf₁ hv hquiet ⟨v, []⟩
      refine ⟨?_, hf', hshows.trans (shownOn_congr hsame _)⟩
      have hpcb := congrFun (write_files k₁ pid fd (some buf) nbytes).2 pid
      exact SameOwn.printing ⟨(write_files k₁ pid fd (some buf) nbytes).1, hpcb⟩ h₁
  | executeRefused => exact absurd hquiet (fun hfalse => hfalse)
  | executeReturned => exact absurd hquiet (fun hfalse => hfalse)
  | @vidmap s L screenStart hk hterm =>
      obtain ⟨pDirectory, hkernel⟩ := vidmap_kernel L s pid screenStart
      rw [hkernel]
      have h₁ := (hothers _ _ hk).printing h
      have hsame : SameOwn pid s.kernel { s.kernel with pDirectory := pDirectory } := ⟨rfl, rfl⟩
      exact ⟨hsame.printing h₁,
        hkept hk (KeepsScreen.of_fields rfl rfl rfl rfl (fun _ => rfl)) rfl⟩
  | poke => exact absurd hquiet (fun hfalse => hfalse)

/--
A program runs in the foreground, and others leave the image, its control block
and the screen alone and keep it there.  In a run in which no call fails, no read
asks for nothing, no program is started and nothing is drawn on the page, what
the program has written on descriptor 1 is on the screen, character by character,
and nothing else is.
-/
theorem run_shows_output {A : Type} {p : UserProgram A} {t : Trace} {o : Option A}
    (h : Printing pid k) (hf : Foreground k) (hrun : p.Runs (Serves others pid) k t o k')
    (hquiet : ∀ c ∈ t, Quiet c) :
    Printing pid k' ∧ Foreground k' ∧ k'.console.screen = shownOn k.console (stdout t) := by
  induction hrun with
  | done a k => exact ⟨h, hf, rfl⟩
  | spin k => exact ⟨h, hf, rfl⟩
  | @call k k₁ k' q r next t o hserve hrest ih =>
      obtain ⟨h₁, hf₁, hshows⟩ := serves_shows hothers hscreen h hf
        (hquiet _ (List.mem_cons_self ..)) hserve
      obtain ⟨h', hf', hrest'⟩ := ih h₁ hf₁ (fun c hc => hquiet c (List.mem_cons_of_mem _ hc))
      refine ⟨h', hf', ?_⟩
      rw [hrest', stdout_cons, shownOn_append]
      exact shownOn_congr hshows (stdout t)

end Calls

/-- The prompt of the shell. -/
theorem run_shows_output_prompt :
    ∃ t k, (putsText "391OS> ").Runs (Serves Eq 0)
        (execute (Kernel.zero (fun _ => 0) shellImage) shellCommand .zero).1 t (some ()) k ∧
      k.console.screen = shownOn
        (execute (Kernel.zero (fun _ => 0) shellImage) shellCommand .zero).1.console
        (literal "391OS> ") := by
  have hscreen : ∀ k k' : Kernel, k = k' → KeepsScreen k k' := by
    rintro k _ rfl
    exact KeepsScreen.refl k
  have hrun : (putsText "391OS> ").Runs (Serves Eq 0)
      (execute (Kernel.zero (fun _ => 0) shellImage) shellCommand .zero).1
      [(.write 1 (cstr (literal "391OS> ")) 7, ⟨7, []⟩)] (some ())
      (write (execute (Kernel.zero (fun _ => 0) shellImage) shellCommand .zero).1 0 1
        (some (cstr (literal "391OS> "))) 7).1 :=
    .call (.write rfl (by decide +kernel)) (.done () _)
  obtain ⟨-, -, hshows⟩ := run_shows_output (leavesAlone_eq 0) hscreen
    (execute_printing (by decide +kernel)) ⟨by decide +kernel, by decide +kernel⟩ hrun
    (List.forall_mem_singleton.mpr (by decide : (7 : Int) ≠ -1))
  exact ⟨_, _, hrun, hshows⟩

/--
`cat` with the name of a recorded file of a well-formed image puts the file on
the screen, as long as others leave the image, its control block and the screen
alone and keep it in the foreground, where no full line is pending.
-/
theorem cat_shows_contents {k₀ : Kernel} {name a l : List UInt8} {saved : Context} {pid : Fin 6}
    (hname : ∀ c ∈ name, c ≠ 0 ∧ c ≠ 0x20) (ha : ∀ c ∈ a, c ≠ 0) (hlen : a.length ≤ 31)
    (hwf : WellFormed k₀.fs) (hrecorded : NameRecorded k₀.fs a)
    (hexec : (execute k₀ (name ++ 0x20 :: a) saved).2 = some pid)
    (hl : contents k₀.fs a = some l)
    (hf : Foreground (execute k₀ (name ++ 0x20 :: a) saved).1)
    {others : Kernel → Kernel → Prop} (hothers : LeavesAlone others pid)
    (hscreen : ∀ k k', others k k' → KeepsScreen k k') {turns : Nat} (hturns : l.length < turns)
    {buf : Buffer} {t : Trace} {o : Option Int} {k : Kernel}
    (hrun : (catMain turns buf).Runs (Serves others pid)
      (execute k₀ (name ++ 0x20 :: a) saved).1 t o k) :
    o = some 0 ∧
      k.console.screen = shownOn (execute k₀ (name ++ 0x20 :: a) saved).1.console l := by
  have ha' : a ≠ [] := by
    rintro rfl
    rw [contents, if_pos rfl] at hl
    cases hl
  have hresult : catResult k₀.fs a = (l, 0) := by
    rw [catResult, if_neg ha', hl]
  obtain ⟨hbegun, hfs⟩ := execute_begun hexec
  rw [parse_command hname ha] at hbegun
  rw [← hfs] at hwf hrecorded hl hresult
  have hturns' : (catResult (execute k₀ (name ++ 0x20 :: a) saved).1.fs a).1.length < turns := by
    rwa [hresult]
  obtain ⟨ho, hout, hquiet⟩ := Program.ensures_iff.mp
    (ensures_catMain hothers hbegun ha hlen hwf (fun _ => hrecorded) hturns' buf) t o k hrun
  rw [hresult] at ho hout
  obtain ⟨-, -, hshows⟩ := run_shows_output hothers hscreen (execute_printing hexec) hf hrun
    (hquiet (by simp [hl]))
  exact ⟨ho, by rw [hshows, hout]⟩

/-- The bytes of the file `shell` as characters. -/
theorem cat_shows_contents_shell :
    ∃ t k, (catMain 5 (fun _ => 0)).Runs (Serves Eq 0)
        (execute (Kernel.zero (fun _ => 0) shellImage) (shellCommand ++ 0x20 :: shellCommand)
          .zero).1 t (some 0) k ∧
      k.console.screen = shownOn
        (execute (Kernel.zero (fun _ => 0) shellImage) (shellCommand ++ 0x20 :: shellCommand)
          .zero).1.console [0x7F, 0x45, 0x4C, 0x46] := by
  obtain ⟨t, k, hrun⟩ := cat_runs_shell
  have hcontents : contents shellImage shellCommand = some [0x7F, 0x45, 0x4C, 0x46] := by
    decide +kernel
  have hscreen : ∀ k k' : Kernel, k = k' → KeepsScreen k k' := by
    rintro k _ rfl
    exact KeepsScreen.refl k
  obtain ⟨-, hshows⟩ := cat_shows_contents (by simp [shellCommand]) (by simp [shellCommand])
    (by decide) shellImage_wellFormed nameRecorded_shell (by decide +kernel) hcontents
    ⟨by decide +kernel, by decide +kernel⟩ (leavesAlone_eq 0) hscreen (by decide) hrun
  exact ⟨t, k, hrun, hshows⟩

end OopsOs
