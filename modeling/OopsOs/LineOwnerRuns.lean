import OopsOs.LineOwners
import OopsOs.SavedContexts

/-!
# Lines over whole runs

The statements of `terminal_read` keep each terminal's own things together
while its process goes through them with its terminal displayed.  If it is
another terminal's process that polls first, it gets the line: an undisturbed
call returns whatever line waits on the displayed terminal.
-/

namespace OopsOs

open ByteMem Machine

/-! ## The statements of `terminal_read` -/

section Advance

variable {s : ReadSystem} {t : Fin 3}

/-- On the other terminals a statement changes nothing, but an ENTER may have been used. -/
theorem ReadSystem.Own.advance_of_ne {u : Fin 3} (h : s.Own u) (hu : u ≠ t)
    (ht : t = s.active ∨ (readStep s.kernel (s.reader t)).1.line = s.kernel.line)
    (hlog : ∀ e, s.Unused u e → (s.recordRead t).Unused u e) : (s.advance t).Own u := by
  have hline : (s.advance t).line u = s.line u := by
    rcases ht with ht | hsame
    · have hstep := congrFun (readStep_line s.kernel (s.reader t)) u
      exact hstep.trans (Function.update_of_ne (fun he => hu (he.trans ht.symm)) _ _)
    · exact congrFun hsame u
  have hrecords : (s.recordRead t).typedOn = s.typedOn ∧ (s.recordRead t).entered = s.entered ∧
      (s.recordRead t).source u = s.source u ∧ (s.recordRead t).taken u = s.taken u ∧
      (s.recordRead t).reader = s.reader := by
    unfold ReadSystem.recordRead
    cases (s.reader t).phase with
    | polling =>
        simp only
        split_ifs
        · exact ⟨rfl, rfl, rfl, Function.update_of_ne hu _ _, rfl⟩
        · exact ⟨rfl, rfl, rfl, rfl, rfl⟩
    | copying i => exact ⟨rfl, rfl, Function.update_of_ne hu _ _, rfl, rfl⟩
    | newline => exact ⟨rfl, rfl, Function.update_of_ne hu _ _, rfl, rfl⟩
    | terminator => exact ⟨rfl, rfl, Function.update_of_ne hu _ _, rfl, rfl⟩
    | _ => exact ⟨rfl, rfl, rfl, rfl, rfl⟩
  obtain ⟨htyped, hentered, hsource, htaken, hreader⟩ := hrecords
  refine h.congr hline ?_ (congrFun htyped u) (congrFun hentered u) hsource htaken hlog
  have hupdate : (s.advance t).reader u = (s.recordRead t).reader u := Function.update_of_ne hu _ _
  rw [hupdate, hreader]

theorem ReadSystem.advance_reader (s : ReadSystem) (t : Fin 3) :
    (s.advance t).reader t = (readStep s.kernel (s.reader t)).2 :=
  Function.update_self _ _ _

theorem ReadSystem.advance_line (s : ReadSystem) (t : Fin 3) :
    (s.advance t).line s.active = (s.line s.active).read (s.reader t).phase := by
  have hstep := congrFun (readStep_line s.kernel (s.reader t)) s.active
  exact hstep.trans (Function.update_self _ _ _)

theorem ReadSystem.advance_records (s : ReadSystem) (t : Fin 3) :
    (s.advance t).typedOn = s.typedOn ∧ (s.advance t).entered = s.entered ∧
      (s.advance t).pressed = s.pressed := by
  unfold ReadSystem.advance ReadSystem.recordRead
  cases (s.reader t).phase with
  | polling =>
      simp only
      split_ifs <;> exact ⟨rfl, rfl, rfl⟩
  | _ => exact ⟨rfl, rfl, rfl⟩

/-- The typed characters are not touched by a statement of `terminal_read`. -/
theorem ReadSystem.Own.advance_self (h : s.Own s.active)
    (hpublished : ((s.advance s.active).line s.active).readFlag = 1 →
      ¬ ((s.advance s.active).reader s.active).phase.Finishing →
      ∀ j, 0 ≤ j → j < ((s.advance s.active).line s.active).readIndex →
        s.typedOn s.active j = some s.active)
    (hpending : ((s.advance s.active).line s.active).readFlag = 1 →
      ((s.advance s.active).reader s.active).phase.Waiting →
      (s.advance s.active).Unused s.active (s.entered s.active))
    (hreading : (s.advance s.active).Reading s.active) : (s.advance s.active).Own s.active := by
  obtain ⟨htyped, hentered, -⟩ := s.advance_records s.active
  have hline : ((s.advance s.active).line s.active).buffer = (s.line s.active).buffer ∧
      ((s.advance s.active).line s.active).index = (s.line s.active).index := by
    rw [s.advance_line s.active]
    cases (s.reader s.active).phase <;> exact ⟨rfl, rfl⟩
  refine ⟨?_, ?_, ?_, ?_, ?_, hreading⟩
  · rw [hline.1, htyped]
    exact h.cells
  · rw [hline.2]
    exact h.index
  · rw [hline.2, htyped]
    exact h.typed
  · rw [htyped]
    exact hpublished
  · rw [hentered]
    exact hpending

/-- The statements before the return keep the log. -/
theorem ReadSystem.advance_log (ht : (s.reader t).phase ≠ .returning) :
    (s.advance t).log = s.log := by
  unfold ReadSystem.advance ReadSystem.recordRead
  cases hphase : (s.reader t).phase with
  | polling =>
      simp only
      split_ifs <;> rfl
  | returning => exact absurd hphase ht
  | _ => rfl

/-- The ENTER that a call serves is recorded when the poll finds the line. -/
theorem ReadSystem.advance_taken (ht : (s.reader t).phase ≠ .polling) :
    (s.advance t).taken = s.taken := by
  unfold ReadSystem.advance ReadSystem.recordRead
  cases hphase : (s.reader t).phase with
  | polling => exact absurd hphase ht
  | _ => rfl

/-- The sources change in the three statements that store into the buffer. -/
theorem ReadSystem.advance_source (hcopying : ∀ i, (s.reader t).phase ≠ .copying i)
    (hnewline : (s.reader t).phase ≠ .newline) (hterminator : (s.reader t).phase ≠ .terminator) :
    (s.advance t).source = s.source := by
  unfold ReadSystem.advance ReadSystem.recordRead
  cases hphase : (s.reader t).phase with
  | polling =>
      simp only
      split_ifs <;> rfl
  | copying i => exact absurd hphase (hcopying i)
  | newline => exact absurd hphase hnewline
  | terminator => exact absurd hphase hterminator
  | _ => rfl

theorem ReadSystem.advance_source_copying {i : Nat} (h : (s.reader t).phase = .copying i) :
    (s.advance t).source t =
      Function.update (s.source t) (i : Int) (s.typedOn s.active i) := by
  simp only [ReadSystem.advance, ReadSystem.recordRead, h, ReadSystem.setReader,
    ReadSystem.setKernel, Function.update_self]

theorem ReadSystem.advance_source_newline (h : (s.reader t).phase = .newline) :
    (s.advance t).source t =
      Function.update (s.source t) (s.line s.active).readIndex ((s.taken t).map Enter.term) := by
  simp only [ReadSystem.advance, ReadSystem.recordRead, h, ReadSystem.setReader,
    ReadSystem.setKernel, Function.update_self]

theorem ReadSystem.advance_source_terminator (h : (s.reader t).phase = .terminator) :
    (s.advance t).source t =
      Function.update (s.source t) (s.line s.active).readIndex none := by
  simp only [ReadSystem.advance, ReadSystem.recordRead, h, ReadSystem.setReader,
    ReadSystem.setKernel, Function.update_self]

theorem ReadSystem.Unused.advance (ht : (s.reader t).phase ≠ .returning) {u : Fin 3}
    {e : Option Enter} (h : s.Unused u e) : (s.advance t).Unused u e := by
  obtain ⟨n, he, hn, hlog⟩ := h
  refine ⟨n, he, ?_, ?_⟩
  · rw [(s.advance_records t).2.2]
    exact hn
  · rw [s.advance_log ht]
    exact hlog

/-- While the line is copied, the published characters count and no ENTER is pending. -/
theorem ReadSystem.Own.advance_serving (h : s.Own s.active)
    (hphase : ¬ ((s.advance s.active).reader s.active).phase.Waiting)
    (hpublished : ∀ j, 0 ≤ j → j < ((s.advance s.active).line s.active).readIndex →
      s.typedOn s.active j = some s.active)
    (hreading : (s.advance s.active).Reading s.active) : (s.advance s.active).Own s.active :=
  h.advance_self (fun _ _ => hpublished) (fun _ hwaiting => absurd hwaiting hphase) hreading

/-- Once the copy loop is over, only the characters that were copied count. -/
theorem ReadSystem.Own.advance_finishing (h : s.Own s.active)
    (hphase : ((s.advance s.active).reader s.active).phase.Finishing)
    (hreading : (s.advance s.active).Reading s.active) : (s.advance s.active).Own s.active := by
  refine h.advance_self (fun _ hnot => absurd hphase hnot) (fun _ hwaiting => ?_) hreading
  cases hnext : ((s.advance s.active).reader s.active).phase <;> rw [hnext] at hphase hwaiting
  all_goals first | exact absurd hphase (fun hf => hf) | exact absurd hwaiting (fun hf => hf)

theorem ReadSystem.Own.advance_polling (h : s.Own s.active)
    (hphase : (s.reader s.active).phase = .polling) (hflag : (s.line s.active).readFlag = 1) :
    (s.advance s.active).Own s.active := by
  have hnot : (s.reader s.active).phase ≠ .returning := by simp [hphase]
  have hflag' : (s.kernel.terminal s.kernel.activeTerminal).readFlag = 1 := hflag
  have hline := s.advance_line s.active
  have hreader := s.advance_reader s.active
  have hpublished := h.published hflag
  have hpending := h.pending hflag
  rw [hphase] at hline hpublished hpending
  simp only [readStep, hphase, hflag', if_true] at hreader
  have htaken : (s.advance s.active).taken s.active = s.entered s.active := by
    simp only [ReadSystem.advance, ReadSystem.recordRead, hphase, hflag, if_true,
      ReadSystem.setReader, ReadSystem.setKernel, Function.update_self]
  refine h.advance_serving ?_ ?_ ?_
  · rw [hreader]
    exact fun hf => hf
  · rw [hline]
    exact hpublished (fun hf => hf)
  · unfold ReadSystem.Reading
    rw [hreader, hline, htaken]
    refine ⟨hflag, (hpending trivial).advance hnot, ?_⟩
    intro j hj hj'
    exact absurd hj' (not_lt.mpr hj)

theorem ReadSystem.Own.advance_testing (h : s.Own s.active) {i : Nat}
    (hphase : (s.reader s.active).phase = .testing i) : (s.advance s.active).Own s.active := by
  have hnot : (s.reader s.active).phase ≠ .returning := by simp [hphase]
  have hline := s.advance_line s.active
  have hreader := s.advance_reader s.active
  have hreading := h.reading
  unfold ReadSystem.Reading at hreading
  rw [hphase] at hline
  simp only [hphase] at hreading
  obtain ⟨hflag, hunused, hsourced⟩ := hreading
  have hpublished := h.published hflag
  rw [hphase] at hpublished
  have htaken := s.advance_taken (t := s.active) (by simp [hphase])
  have hsource := s.advance_source (t := s.active) (by simp [hphase]) (by simp [hphase])
    (by simp [hphase])
  have hsourced' : ∀ n, n ≤ (i : Int) → (s.advance s.active).SourcedTo s.active n := by
    intro n hn j hj hj'
    rw [hsource]
    exact hsourced j hj (by omega)
  by_cases hi : (i : Int) < (s.line s.active).readIndex
  · have hi' : (i : Int) < (s.kernel.terminal s.kernel.activeTerminal).readIndex := hi
    simp only [readStep, hphase, if_pos hi'] at hreader
    refine h.advance_serving ?_ ?_ ?_
    · rw [hreader]
      exact fun hf => hf
    · rw [hline]
      exact hpublished (fun hf => hf)
    · unfold ReadSystem.Reading
      rw [hreader, hline, htaken, (s.advance_records s.active).1]
      exact ⟨⟨hflag, hpublished (fun hf => hf) i (by omega) hi⟩, hunused.advance hnot,
        hsourced' i (le_refl _)⟩
  · have hi' : ¬ (i : Int) < (s.kernel.terminal s.kernel.activeTerminal).readIndex := hi
    simp only [readStep, hphase, if_neg hi'] at hreader
    refine h.advance_finishing (by rw [hreader]; trivial) ?_
    unfold ReadSystem.Reading
    rw [hreader, hline, htaken]
    exact ⟨hunused.advance hnot, hsourced' _ (not_lt.mp hi)⟩

/-- One more character from terminal `t`. -/
theorem ReadSystem.SourcedTo.update {s s' : ReadSystem} {t : Fin 3} {n : Int}
    (h : s.SourcedTo t n) {x : Option (Fin 3)}
    (hsource : s'.source t = Function.update (s.source t) n x) (hx : x = some t) :
    s'.SourcedTo t (n + 1) := by
  intro j hj hj'
  rw [hsource]
  by_cases hjn : j = n
  · rw [hjn, Function.update_self, hx]
  · rw [Function.update_of_ne hjn]
    exact h j hj (by omega)

theorem ReadSystem.Own.advance_copying (h : s.Own s.active) {i : Nat}
    (hphase : (s.reader s.active).phase = .copying i) : (s.advance s.active).Own s.active := by
  have hnot : (s.reader s.active).phase ≠ .returning := by simp [hphase]
  have hline := s.advance_line s.active
  have hreader := s.advance_reader s.active
  have hreading := h.reading
  unfold ReadSystem.Reading at hreading
  rw [hphase] at hline
  simp only [hphase] at hreading
  simp only [readStep, hphase] at hreader
  obtain ⟨⟨hflag, htyped⟩, hunused, hsourced⟩ := hreading
  have hpublished := h.published hflag
  rw [hphase] at hpublished
  have htaken := s.advance_taken (t := s.active) (by simp [hphase])
  refine h.advance_serving ?_ ?_ ?_
  · rw [hreader]
    exact fun hf => hf
  · rw [hline]
    exact hpublished (fun hf => hf)
  · unfold ReadSystem.Reading
    rw [hreader, hline, htaken]
    exact ⟨hflag, hunused.advance hnot,
      hsourced.update (ReadSystem.advance_source_copying hphase) htyped⟩

theorem ReadSystem.Own.advance_newline (h : s.Own s.active)
    (hphase : (s.reader s.active).phase = .newline) : (s.advance s.active).Own s.active := by
  have hnot : (s.reader s.active).phase ≠ .returning := by simp [hphase]
  have hline := s.advance_line s.active
  have hreader := s.advance_reader s.active
  have hreading := h.reading
  unfold ReadSystem.Reading at hreading
  rw [hphase] at hline
  simp only [hphase] at hreading
  simp only [readStep, hphase] at hreader
  obtain ⟨hunused, hsourced⟩ := hreading
  have htaken := s.advance_taken (t := s.active) (by simp [hphase])
  have hterm : (s.taken s.active).map Enter.term = some s.active := by
    obtain ⟨n, he, -⟩ := hunused
    rw [he]
    rfl
  refine h.advance_finishing (by rw [hreader]; trivial) ?_
  unfold ReadSystem.Reading
  rw [hreader, hline, htaken]
  exact ⟨hunused.advance hnot,
    hsourced.update (ReadSystem.advance_source_newline hphase) hterm⟩

/-- The three statements between the newline and the return. -/
theorem ReadSystem.Own.advance_closing (h : s.Own s.active)
    (hphase : (s.reader s.active).phase = .increment ∨ (s.reader s.active).phase = .terminator ∨
      (s.reader s.active).phase = .clearing) : (s.advance s.active).Own s.active := by
  have hnot : (s.reader s.active).phase ≠ .returning := by
    rcases hphase with hp | hp | hp <;> simp [hp]
  have hline := s.advance_line s.active
  have hreader := s.advance_reader s.active
  have hreading := h.reading
  have htaken : (s.advance s.active).taken = s.taken := by
    rcases hphase with hp | hp | hp <;> exact s.advance_taken (by simp [hp])
  unfold ReadSystem.Reading at hreading
  rcases hphase with hphase | hphase | hphase <;> rw [hphase] at hline <;>
    simp only [hphase] at hreading <;> simp only [readStep, hphase] at hreader <;>
    refine h.advance_finishing (by rw [hreader]; trivial) ?_ <;> unfold ReadSystem.Reading <;>
    rw [hreader, hline, htaken]
  · refine ⟨hreading.1.advance hnot, ?_⟩
    intro j hj hj'
    rw [s.advance_source (by simp [hphase]) (by simp [hphase]) (by simp [hphase])]
    exact hreading.2 j hj hj'
  · refine ⟨hreading.1.advance hnot, ?_⟩
    intro j hj hj'
    have hlt : j < (s.line s.active).readIndex := hj'
    rw [ReadSystem.advance_source_terminator hphase, Function.update_of_ne (ne_of_lt hlt)]
    exact hreading.2 j hj hlt
  · refine ⟨by simp [Line.read], hreading.1.advance hnot, ?_⟩
    intro j hj hj'
    rw [s.advance_source (by simp [hphase]) (by simp [hphase]) (by simp [hphase])]
    exact hreading.2 j hj hj'

theorem ReadSystem.Own.advance_returning (h : s.Own s.active)
    (hphase : (s.reader s.active).phase = .returning) : (s.advance s.active).Own s.active := by
  have hline := s.advance_line s.active
  have hreader := s.advance_reader s.active
  have hreading := h.reading
  unfold ReadSystem.Reading at hreading
  rw [hphase] at hline
  simp only [hphase] at hreading
  simp only [readStep, hphase] at hreader
  refine h.advance_self ?_ ?_ ?_
  · rw [hline]
    exact fun hflag => absurd hflag hreading.1
  · rw [hline]
    exact fun hflag => absurd hflag hreading.1
  · unfold ReadSystem.Reading
    rw [hreader]
    trivial

end Advance

/-! ## Whole runs -/

section Runs

variable {s : ReadSystem}

/-- A call that finds no line goes on waiting. -/
theorem ReadSystem.advance_missed {t : Fin 3} (hphase : (s.reader t).phase = .polling)
    (hflag : (s.line s.active).readFlag ≠ 1) : s.advance t = s := by
  have hflag' : (s.kernel.terminal s.kernel.activeTerminal).readFlag ≠ 1 := hflag
  have hrecord : s.recordRead t = s := by
    simp only [ReadSystem.recordRead, hphase, if_neg hflag]
  have hstep : readStep s.kernel (s.reader t) = (s.kernel, s.reader t) := by
    simp only [readStep, hphase, if_neg hflag']
  unfold ReadSystem.advance
  rw [hrecord, hstep]
  unfold ReadSystem.setReader ReadSystem.setKernel
  rw [Function.update_eq_self]
  rfl

/-- The log after a statement on the displayed terminal. -/
theorem ReadSystem.Owned.advance_log (h : s.Owned) :
    (s.advance s.active).log = s.log ∨
      ∃ r, (s.advance s.active).log = s.log ++ [r] ∧ r.term = s.active ∧
        s.Unused s.active r.enter ∧ ∀ c ∈ r.source, c = some s.active := by
  by_cases hphase : (s.reader s.active).phase = .returning
  · have hreading := (h.own s.active).reading
    unfold ReadSystem.Reading at hreading
    simp only [hphase] at hreading
    obtain ⟨-, hunused, hsourced⟩ := hreading
    refine Or.inr ⟨⟨s.active, s.taken s.active, returnedBytes s.kernel (s.reader s.active),
      (List.range (s.line s.active).readIndex.toNat).map (fun j : Nat => s.source s.active j)⟩,
      ?_, rfl, hunused, ?_⟩
    · simp only [ReadSystem.advance, ReadSystem.recordRead, hphase, ReadSystem.setReader,
        ReadSystem.setKernel]
    · intro c hc
      obtain ⟨j, hj, rfl⟩ := List.mem_map.mp hc
      have hj' := List.mem_range.mp hj
      exact hsourced j (by omega) (by omega)
  · exact Or.inl (s.advance_log hphase)

theorem ReadSystem.Owned.advance (h : s.Owned) (hidle : (s.reader s.active).phase ≠ .idle)
    (hflag : (s.reader s.active).phase = .polling → (s.line s.active).readFlag = 1) :
    (s.advance s.active).Owned := by
  have hpressed := (s.advance_records s.active).2.2
  have hself : (s.advance s.active).Own s.active := by
    have hown := h.own s.active
    cases hphase : (s.reader s.active).phase with
    | idle => exact absurd hphase hidle
    | polling => exact hown.advance_polling hphase (hflag hphase)
    | testing i => exact hown.advance_testing hphase
    | copying i => exact hown.advance_copying hphase
    | newline => exact hown.advance_newline hphase
    | increment => exact hown.advance_closing (Or.inl hphase)
    | terminator => exact hown.advance_closing (Or.inr (Or.inl hphase))
    | clearing => exact hown.advance_closing (Or.inr (Or.inr hphase))
    | returning => exact hown.advance_returning hphase
  rcases h.advance_log with hlog | ⟨r, hlog, hterm, hunused, hsource⟩
  · refine ⟨fun u => ?_, ?_, ?_⟩
    · by_cases hu : u = s.active
      · rw [hu]
        exact hself
      · refine (h.own u).advance_of_ne hu (Or.inl rfl) ?_
        rintro e ⟨n, he, hn, hnot⟩
        exact ⟨n, he, lt_of_lt_of_eq hn hpressed.symm, by
          have hnot' : e ∉ (s.advance s.active).log.map ReadRecord.enter := by rw [hlog]; exact hnot
          exact hnot'⟩
    · rw [hlog, hpressed]
      exact h.logged
    · rw [hlog]
      exact h.once
  · obtain ⟨n, henter, hn, hnew⟩ := hunused
    refine ⟨fun u => ?_, ?_, ?_⟩
    · by_cases hu : u = s.active
      · rw [hu]
        exact hself
      · refine (h.own u).advance_of_ne hu (Or.inl rfl) ?_
        rintro e ⟨m, he, hm, hnot⟩
        refine ⟨m, he, lt_of_lt_of_eq hm hpressed.symm, ?_⟩
        have hnot' : e ∉ (s.advance s.active).log.map ReadRecord.enter := by
          rw [hlog, List.map_append, List.mem_append]
          rintro (hold | hlast)
          · exact hnot hold
          · have heq : e = r.enter := List.mem_singleton.mp hlast
            rw [he, henter] at heq
            exact hu (congrArg Enter.term (Option.some.inj heq))
        exact hnot'
    · rw [hlog, hpressed]
      intro r' hr'
      rcases List.mem_append.mp hr' with hold | hlast
      · exact h.logged r' hold
      · obtain rfl := List.mem_singleton.mp hlast
        rw [hterm]
        exact ⟨⟨n, henter, hn⟩, hsource⟩
    · rw [hlog, List.map_append]
      refine List.Nodup.append h.once (List.nodup_singleton _) ?_
      intro e hold hlast
      obtain rfl := List.mem_singleton.mp hlast
      exact hnew hold

end Runs

theorem step_owned (s : ReadSystem) (e : ReadEvent) (s' : ReadSystem) (h : s.Owned)
    (hC : KeepsOwner s e) (hstep : s.step e = some s') : s'.Owned := by
  cases e with
  | tick esp ebp innerEsp innerEbp =>
      obtain rfl := Option.some.inj hstep
      exact h.tick esp ebp innerEsp innerEbp
  | key scancode =>
      simp only [ReadSystem.step] at hstep
      split_ifs at hstep
      obtain rfl := Option.some.inj hstep
      exact h.press hC
  | call buffer nbytes =>
      obtain ⟨o, -, hcall⟩ := Option.bind_eq_some_iff.mp hstep
      split_ifs at hcall with hidle
      obtain rfl := Option.some.inj hcall
      exact h.call hidle buffer nbytes
  | step =>
      obtain ⟨o, ho, hadvance⟩ := Option.bind_eq_some_iff.mp hstep
      split_ifs at hadvance with hidle
      obtain rfl := Option.some.inj hadvance
      by_cases hmissed : (s.reader o.term).phase = .polling ∧ (s.line s.active).readFlag ≠ 1
      · rw [ReadSystem.advance_missed hmissed.1 hmissed.2]
        exact h
      · have hterm : o.term = s.active := by
          apply hC o ho
          by_contra hnot
          obtain ⟨hphase, hflag⟩ := not_or.mp hnot
          exact hmissed ⟨not_not.mp hphase, hflag⟩
        rw [hterm] at hidle hmissed ⊢
        exact h.advance hidle (fun hphase => not_not.mp (fun hflag => hmissed ⟨hphase, hflag⟩))

theorem openTerminal_line {k : Kernel} (h : ∀ t, k.line t = ⟨fun _ => 0, 0, 0, 0⟩) (j t : Fin 3) :
    (openTerminal k j).line t = ⟨fun _ => 0, 0, 0, 0⟩ := by
  by_cases ht : t = j
  · subst ht
    have hbuffer : (k.terminal t).keyboardBuffer = fun _ => 0 := congrArg Line.buffer (h t)
    simp [openTerminal, Kernel.line, Terminal.line, hbuffer]
  · have hsame : (openTerminal k j).line t = k.line t := by
      simp [openTerminal, Kernel.line, ht]
    rw [hsame, h]

theorem enableIrq_line (k : Kernel) (irqNum : Nat) : (enableIrq k irqNum).line = k.line := by
  unfold enableIrq
  split_ifs
  · exact (SameInput.printf k _).line
  · rfl
  · rfl

theorem boot_line (console : Console) (fs : Mem) (t : Fin 3) :
    (boot console fs).line t = ⟨fun _ => 0, 0, 0, 0⟩ := by
  obtain ⟨k₀, hk₀⟩ : ∃ k₀, enableIrq (scheduleInitialization (enableIrq (enableIrq
      { Kernel.zero console.mem fs with
        console := console, masterBitMask := 0xFC, slaveBitMask := 0xFC } 2) 0x08)) 0 = k₀ :=
    ⟨_, rfl⟩
  have hzero : k₀.line = fun _ => ⟨fun _ => 0, 0, 0, 0⟩ := by
    have hinit : ∀ k : Kernel, (scheduleInitialization k).line = k.line := fun _ => rfl
    rw [← hk₀, enableIrq_line, hinit, enableIrq_line, enableIrq_line]
    rfl
  have hopened : ∀ t, (enableIrq k₀ 0x01).line t = ⟨fun _ => 0, 0, 0, 0⟩ := by
    intro t
    rw [enableIrq_line, hzero]
  unfold boot keyboardInitialize terminalOpen
  simp only [hk₀]
  rw [line_saveAndSwitchTerm]
  exact openTerminal_line (openTerminal_line (openTerminal_line hopened 0) 1) 2 t

theorem boot_owned (console : Console) (fs : Mem) : (ReadSystem.boot console fs).Owned := by
  have hline : ∀ t, (ReadSystem.boot console fs).line t = ⟨fun _ => 0, 0, 0, 0⟩ :=
    boot_line console fs
  refine ⟨fun t => ⟨?_, ?_, ?_, ?_, ?_, trivial⟩, ?_, List.nodup_nil⟩
  · intro j hj
    rw [hline] at hj
    exact absurd rfl hj
  · rw [hline]
  · intro j hj hj'
    rw [hline] at hj'
    exact absurd hj' (not_lt.mpr hj)
  · intro hflag
    rw [hline] at hflag
    exact absurd hflag (by decide)
  · intro hflag
    rw [hline] at hflag
    exact absurd hflag (by decide)
  · intro r hr
    cases hr

/--
In a run whose steps keep the owner, what `terminal_read` gives to a process
of a terminal was typed on that terminal, with its ENTER, and no ENTER serves
two calls.
-/
theorem run_reads_own_lines (console : Console) (fs : Mem) (es : List ReadEvent) (s : ReadSystem)
    (hrun : Run ReadSystem.step KeepsOwner (ReadSystem.boot console fs) es s) :
    (∀ r ∈ s.log, (∃ n, r.enter = some ⟨n, r.term⟩) ∧ ∀ c ∈ r.source, c = some r.term) ∧
      (s.log.map ReadRecord.enter).Nodup := by
  have h : s.Owned := by
    apply hrun.invariant (I := ReadSystem.Owned) step_owned
    exact boot_owned console fs
  refine ⟨fun r hr => ?_, h.once⟩
  obtain ⟨⟨n, hn, -⟩, hsource⟩ := h.logged r hr
  exact ⟨⟨n, hn⟩, hsource⟩

/-! ## An undisturbed call -/

/-- The statements that are left of a call that returns a line of length `n`. -/
def ReadPhase.remaining (n : Nat) : ReadPhase → Nat
  | .idle => 0
  | .polling => 2 * n + 7
  | .testing i => 2 * (n - i) + 6
  | .copying i => 2 * (n - i) + 5
  | .newline => 5
  | .increment => 4
  | .terminator => 3
  | .clearing => 2
  | .returning => 1

/-- The characters of a line of length `n` and its newline that have been copied. -/
def ReadPhase.copied (n : Nat) : ReadPhase → Nat
  | .idle => 0
  | .polling => 0
  | .testing i => i
  | .copying i => i
  | .newline => n
  | _ => n + 1

/-- Where the characters of the line on the displayed terminal, and its ENTER, were typed. -/
def ReadSystem.lineSource (s : ReadSystem) (n : Nat) : List (Option (Fin 3)) :=
  (List.range n).map (fun j : Nat => s.typedOn s.active j) ++
    [(s.entered s.active).map Enter.term]

/-- The process `o` is being served the line that was there in `s₀`. -/
structure Serving (s₀ : ReadSystem) (o : Owner) (line : List UInt8) (s : ReadSystem) : Prop where
  cpu : s.system.cpu = some o
  active : s.active = s₀.active
  log : s.log = s₀.log
  typedOn : s.typedOn = s₀.typedOn
  entered : s.entered = s₀.entered
  way : OnTheWay (s.line s.active) (s.reader o.term) line
  taken : (s.reader o.term).phase = .polling ∨ s.taken o.term = s₀.entered s₀.active
  sourced : ∀ j : Nat, j < (s.reader o.term).phase.copied line.length →
    s.source o.term j = (s₀.lineSource line.length).getD j none

section Serving

variable {s₀ s : ReadSystem} {o : Owner} {line : List UInt8}

theorem ReadSystem.advance_cpu (s : ReadSystem) (t : Fin 3) :
    (s.advance t).system.cpu = s.system.cpu := by
  unfold ReadSystem.advance ReadSystem.recordRead
  cases (s.reader t).phase with
  | polling =>
      simp only
      split_ifs <;> rfl
  | _ => rfl

theorem ReadSystem.advance_active (s : ReadSystem) (t : Fin 3) : (s.advance t).active = s.active :=
  readStep_activeTerminal s.kernel (s.reader t)

/-- The next statement, by the line that is on the way. -/
theorem readStep_phase {k : Kernel} {r : Reader} (h : OnTheWay (k.line k.activeTerminal) r line) :
    (readStep k r).2.phase =
      match r.phase with
      | .idle => .idle
      | .polling => .testing 0
      | .testing i => if i < line.length then .copying i else .newline
      | .copying i => .testing (i + 1)
      | .newline => .increment
      | .increment => .terminator
      | .terminator => .clearing
      | .clearing => .returning
      | .returning => .idle := by
  obtain ⟨phase, buffer⟩ := r
  cases phase with
  | polling =>
      have hflag : (k.terminal k.activeTerminal).readFlag = 1 := h.flag
      simp only [readStep, if_pos hflag]
  | testing i =>
      have hlength : (k.terminal k.activeTerminal).readIndex = line.length := h.1.length
      simp only [readStep, hlength, Nat.cast_lt]
  | _ => rfl

theorem remaining_advance (h : Serving s₀ o line s) (hidle : (s.reader o.term).phase ≠ .idle) :
    ((s.advance o.term).reader o.term).phase.remaining line.length + 1 =
      (s.reader o.term).phase.remaining line.length := by
  have hway := h.way
  have hnext := readStep_phase (k := s.kernel) (r := s.reader o.term) hway
  rw [s.advance_reader, hnext]
  cases hphase : (s.reader o.term).phase with
  | idle => exact absurd hphase hidle
  | testing i =>
      unfold OnTheWay at hway
      simp only [hphase] at hway
      simp only
      split_ifs with hi
      · simp only [ReadPhase.remaining]
      · simp only [ReadPhase.remaining]
        omega
  | copying i =>
      unfold OnTheWay at hway
      simp only [hphase] at hway
      simp only [ReadPhase.remaining]
      omega
  | _ => rfl

theorem taken_advance (h : Serving s₀ o line s) (hidle : (s.reader o.term).phase ≠ .idle) :
    (s.advance o.term).taken o.term = s₀.entered s₀.active := by
  cases hphase : (s.reader o.term).phase with
  | idle => exact absurd hphase hidle
  | polling =>
      have hway := h.way
      unfold OnTheWay at hway
      simp only [hphase] at hway
      simp only [ReadSystem.advance, ReadSystem.recordRead, hphase, hway.flag, if_true,
        ReadSystem.setReader, ReadSystem.setKernel, Function.update_self]
      rw [h.entered, h.active]
  | _ =>
      have htaken := h.taken
      simp only [hphase, reduceCtorEq, false_or] at htaken
      rw [ReadSystem.advance_taken (by simp [hphase]), htaken]

theorem lineSource_getD (s : ReadSystem) {n j : Nat} (h : j < n) :
    (s.lineSource n).getD j none = s.typedOn s.active j := by
  unfold ReadSystem.lineSource
  rw [List.getD_append _ _ _ _ (by simpa using h)]
  simp [h]

theorem lineSource_getD_length (s : ReadSystem) (n : Nat) :
    (s.lineSource n).getD n none = (s.entered s.active).map Enter.term := by
  simp [ReadSystem.lineSource]

theorem sourced_advance (h : Serving s₀ o line s) (hreturn : (s.reader o.term).phase ≠ .returning)
    (j : Nat) (hj : j < ((s.advance o.term).reader o.term).phase.copied line.length) :
    (s.advance o.term).source o.term j = (s₀.lineSource line.length).getD j none := by
  have hway := h.way
  have hsourced := h.sourced
  have htaken := h.taken
  have hnext := readStep_phase (k := s.kernel) (r := s.reader o.term) hway
  rw [s.advance_reader, hnext] at hj
  unfold OnTheWay at hway
  cases hphase : (s.reader o.term).phase with
  | returning => exact absurd hphase hreturn
  | copying i =>
      simp only [hphase, ReadPhase.copied] at hway hsourced hj
      rw [ReadSystem.advance_source_copying hphase]
      by_cases hji : j = i
      · rw [hji, Function.update_self, lineSource_getD s₀ hway.2.2, h.typedOn, h.active]
      · rw [Function.update_of_ne (by omega)]
        exact hsourced j (by omega)
  | newline =>
      simp only [hphase, ReadPhase.copied] at hway hsourced hj
      simp only [hphase, reduceCtorEq, false_or] at htaken
      rw [ReadSystem.advance_source_newline hphase, hway.1.length]
      by_cases hjn : j = line.length
      · rw [hjn, Function.update_self, lineSource_getD_length, htaken]
      · rw [Function.update_of_ne (by omega)]
        exact hsourced j (by omega)
  | terminator =>
      simp only [hphase, ReadPhase.copied] at hway hsourced hj
      rw [ReadSystem.advance_source_terminator hphase, hway.1.2, Function.update_of_ne (by omega)]
      exact hsourced j (by omega)
  | testing i =>
      simp only [hphase, ReadPhase.copied] at hway hsourced hj
      rw [ReadSystem.advance_source (by simp [hphase]) (by simp [hphase]) (by simp [hphase])]
      refine hsourced j ?_
      split_ifs at hj with hi
      · exact hj
      · exact lt_of_lt_of_le hj (not_lt.mp hi)
  | idle =>
      simp only [hphase, ReadPhase.copied] at hj
      omega
  | polling =>
      simp only [hphase, ReadPhase.copied] at hj
      omega
  | increment =>
      simp only [hphase, ReadPhase.copied] at hsourced hj
      rw [ReadSystem.advance_source (by simp [hphase]) (by simp [hphase]) (by simp [hphase])]
      exact hsourced j hj
  | clearing =>
      simp only [hphase, ReadPhase.copied] at hsourced hj
      rw [ReadSystem.advance_source (by simp [hphase]) (by simp [hphase]) (by simp [hphase])]
      exact hsourced j hj

theorem Serving.advance (h : Serving s₀ o line s) (hidle : (s.reader o.term).phase ≠ .idle)
    (hreturn : (s.reader o.term).phase ≠ .returning) :
    Serving s₀ o line (s.advance o.term) := by
  obtain ⟨htyped, hentered, -⟩ := s.advance_records o.term
  refine ⟨(s.advance_cpu o.term).trans h.cpu, (s.advance_active o.term).trans h.active,
    (ReadSystem.advance_log hreturn).trans h.log, htyped.trans h.typedOn,
    hentered.trans h.entered, ?_, Or.inr (taken_advance h hidle), sourced_advance h hreturn⟩
  rw [s.advance_active, s.advance_line, s.advance_reader]
  exact readStep_onTheWay h.way hreturn

/-- The return puts the line into the log. -/
theorem Serving.return_log (h : Serving s₀ o line s)
    (hphase : (s.reader o.term).phase = .returning) :
    (s.advance o.term).log =
      s₀.log ++ [⟨o.term, s₀.entered s₀.active, withNewline line, s₀.lineSource line.length⟩] := by
  have hway := h.way
  have hsourced := h.sourced
  have htaken := h.taken
  obtain ⟨hbytes, -⟩ := returnedBytes_eq (k := s.kernel) hway hphase
  unfold OnTheWay at hway
  simp only [hphase, ReadPhase.copied] at hway hsourced
  simp only [hphase, reduceCtorEq, false_or] at htaken
  have hsource : (List.range (s.line s.active).readIndex.toNat).map
      (fun j : Nat => s.source o.term j) = s₀.lineSource line.length := by
    have hlength : (s₀.lineSource line.length).length = line.length + 1 := by
      simp [ReadSystem.lineSource]
    have hcount : (s.line s.active).readIndex.toNat = line.length + 1 := by
      have := hway.1.2
      omega
    apply List.ext_getElem
    · simp [hcount, hlength]
    · intro j hj hj'
      simp only [List.getElem_map, List.getElem_range]
      rw [hsourced j (by omega), List.getD_eq_getElem _ _ hj']
  simp only [ReadSystem.advance, ReadSystem.recordRead, hphase, ReadSystem.setReader,
    ReadSystem.setKernel, hbytes, hsource, htaken, h.log]

/-- By induction on the statements that are left. -/
theorem Serving.run {C : ReadSystem → ReadEvent → Prop}
    (hC : ∀ s' : ReadSystem, s'.system.cpu = some o → s'.active = s₀.active → C s' .step) (m : Nat)
    {s : ReadSystem} (h : Serving s₀ o line s) (hidle : (s.reader o.term).phase ≠ .idle)
    (hm : (s.reader o.term).phase.remaining line.length = m) :
    ∃ s', Run ReadSystem.step C s (List.replicate m .step) s' ∧
      s'.log =
        s₀.log ++ [⟨o.term, s₀.entered s₀.active, withNewline line, s₀.lineSource line.length⟩] := by
  induction m generalizing s with
  | zero =>
      cases hphase : (s.reader o.term).phase <;> rw [hphase] at hm hidle <;>
        first | exact absurd rfl hidle | simp [ReadPhase.remaining] at hm
  | succ m ih =>
      have hstep : s.step .step = some (s.advance o.term) := by
        simp only [ReadSystem.step, h.cpu, Option.bind_some, if_neg hidle]
      have hguard := hC s h.cpu h.active
      have hremaining := remaining_advance h hidle
      by_cases hreturn : (s.reader o.term).phase = .returning
      · have hzero : m = 0 := by
          rw [hreturn] at hm
          simp only [ReadPhase.remaining] at hm
          omega
        subst hzero
        exact ⟨_, Run.cons hguard hstep (Run.nil _), h.return_log hreturn⟩
      · have hnext : ((s.advance o.term).reader o.term).phase ≠ .idle := by
          rw [s.advance_reader, readStep_phase (k := s.kernel) h.way]
          cases hphase : (s.reader o.term).phase with
          | idle => exact absurd hphase hidle
          | returning => exact absurd hphase hreturn
          | testing i =>
              simp only
              split_ifs <;> simp
          | _ => simp
        obtain ⟨s', hrun, hlog⟩ := ih (h.advance hidle hreturn) hnext (by omega)
        exact ⟨s', Run.cons hguard hstep hrun, hlog⟩

end Serving

/--
An undisturbed call returns the line that waits on the displayed terminal,
whoever makes the call.
-/
theorem undisturbed_read_returns {C : ReadSystem → ReadEvent → Prop} {s : ReadSystem} {o : Owner}
    (hcpu : s.system.cpu = some o) (hidle : (s.reader o.term).phase = .idle) {line : List UInt8}
    (hline : (s.line s.active).Holds line 0) (hcallC : C s (.call (some (fun _ => 0)) 128))
    (hC : ∀ s' : ReadSystem, s'.system.cpu = some o → s'.active = s.active → C s' .step) :
    ∃ s', Run ReadSystem.step C s
        (.call (some (fun _ => 0)) 128 :: List.replicate (2 * line.length + 7) .step) s' ∧
      s'.log =
        s.log ++ [⟨o.term, s.entered s.active, withNewline line, s.lineSource line.length⟩] := by
  have hcall : s.step (.call (some (fun _ => 0)) 128) =
      some (s.call o.term (some (fun _ => 0)) 128) := by
    simp only [ReadSystem.step, hcpu, Option.bind_some, if_pos hidle]
  have hreader : (s.call o.term (some (fun _ => 0)) 128).reader o.term =
      ⟨.polling, fun _ => 0⟩ := Function.update_self _ _ _
  have hserving : Serving s o line (s.call o.term (some (fun _ => 0)) 128) := by
    refine ⟨hcpu, rfl, rfl, rfl, rfl, ?_, ?_, ?_⟩
    · rw [hreader]
      exact hline
    · rw [hreader]
      exact Or.inl rfl
    · rw [hreader]
      intro j hj
      exact absurd hj (Nat.not_lt_zero j)
  obtain ⟨s', hrun, hlog⟩ := hserving.run hC (2 * line.length + 7) (by rw [hreader]; simp)
    (by rw [hreader]; rfl)
  exact ⟨s', Run.cons hcallC hcall hrun, hlog⟩

/-- The three shells are started, and `a` and ENTER are typed on terminal 0 while it runs. -/
def typedOnZero : List ReadEvent :=
  [.tick 1 1 1 1, .tick 2 2 2 2, .tick 3 3 3 3, .tick 4 4 4 4, .tick 5 5 5 5, .key 30, .key 28]

/-- The line `a` waits on terminal 0, which is displayed, and the process `o` runs. -/
def LetterPending (o : Owner) (s : ReadSystem) : Prop :=
  (s.system.cpu = some o ∧ s.active = 0 ∧ (s.reader o.term).phase = .idle ∧ s.log = []) ∧
  ((s.line 0).readFlag = 1 ∧ (s.line 0).readIndex = 1 ∧ (s.line 0).buffer 0 = 0x61) ∧
  s.entered 0 = some ⟨0, 0⟩ ∧ s.typedOn 0 0 = some 0

instance (o : Owner) (s : ReadSystem) : Decidable (LetterPending o s) :=
  inferInstanceAs (Decidable (_ ∧ _ ∧ _))

/-- The process that runs gets the letter. -/
theorem LetterPending.read {o : Owner} {s : ReadSystem} (h : LetterPending o s)
    {C : ReadSystem → ReadEvent → Prop} (hcallC : C s (.call (some (fun _ => 0)) 128))
    (hC : ∀ s' : ReadSystem, s'.system.cpu = some o → s'.active = 0 → C s' .step) :
    ∃ s', Run ReadSystem.step C s
        (.call (some (fun _ => 0)) 128 :: List.replicate 9 .step) s' ∧
      s'.log = [⟨o.term, some ⟨0, 0⟩, [0x61, 0x0A], [some 0, some 0]⟩] := by
  obtain ⟨⟨hcpu, hactive, hidle, hlog⟩, ⟨hflag, hread, hbuffer⟩, hentered, htyped⟩ := h
  have hline : (s.line s.active).Holds [0x61] 0 := by
    rw [hactive]
    refine ⟨hflag, hread, fun j _ hj => ?_⟩
    obtain rfl : j = 0 := by simpa using hj
    exact hbuffer
  obtain ⟨s', hrun, hlog'⟩ := undisturbed_read_returns hcpu hidle hline hcallC
    (fun s' hcpu' hactive' => hC s' hcpu' (hactive'.trans hactive))
  refine ⟨s', hrun, ?_⟩
  rw [hlog', hlog, hactive, hentered]
  simp [withNewline, ReadSystem.lineSource, hactive, hentered, htyped]

theorem run_reads_own_lines_letter_a :
    ∃ s, Run ReadSystem.step KeepsOwner (ReadSystem.boot blankConsole shellImage)
        (typedOnZero ++ .call (some (fun _ => 0)) 128 :: List.replicate 9 .step) s ∧
      s.log = [⟨0, some ⟨0, 0⟩, [0x61, 0x0A], [some 0, some 0]⟩] ∧
      (∀ r ∈ s.log, (∃ n, r.enter = some ⟨n, r.term⟩) ∧ ∀ c ∈ r.source, c = some r.term) ∧
      (s.log.map ReadRecord.enter).Nodup := by
  have hvals : (exec ReadSystem.step KeepsOwner (ReadSystem.boot blankConsole shellImage)
      typedOnZero).map (fun s => decide (LetterPending ⟨0, 0⟩ s)) = some true := by
    decide +kernel
  obtain ⟨s, hs, hpending⟩ := Option.map_eq_some_iff.mp hvals
  have hC : ∀ s' : ReadSystem, s'.system.cpu = some ⟨0, 0⟩ → s'.active = 0 →
      KeepsOwner s' .step := by
    intro s' hcpu hactive o ho _
    obtain rfl := Option.some.inj (hcpu.symm.trans ho)
    exact hactive.symm
  obtain ⟨s', hrun, hlog⟩ := (of_decide_eq_true hpending).read (C := KeepsOwner) trivial hC
  have hwhole := (run_of_exec hs).append hrun
  exact ⟨s', hwhole, hlog, run_reads_own_lines blankConsole shellImage _ s' hwhole⟩

/--
A tick comes before the shell of terminal 0 polls.  The shell of terminal 1
calls `terminal_read` and gets the line that was typed on terminal 0.
-/
theorem other_terminal_takes_line :
    ∃ s, Run ReadSystem.step anyStep (ReadSystem.boot blankConsole shellImage)
        (typedOnZero ++ [.tick 6 6 6 6] ++
          .call (some (fun _ => 0)) 128 :: List.replicate 9 .step) s ∧
      s.log = [⟨1, some ⟨0, 0⟩, [0x61, 0x0A], [some 0, some 0]⟩] ∧
      ¬ ((∀ r ∈ s.log, (∃ n, r.enter = some ⟨n, r.term⟩) ∧ ∀ c ∈ r.source, c = some r.term) ∧
        (s.log.map ReadRecord.enter).Nodup) := by
  have hvals : (exec ReadSystem.step anyStep (ReadSystem.boot blankConsole shellImage)
      (typedOnZero ++ [.tick 6 6 6 6])).map (fun s => decide (LetterPending ⟨1, 1⟩ s)) =
      some true := by
    decide +kernel
  obtain ⟨s, hs, hpending⟩ := Option.map_eq_some_iff.mp hvals
  obtain ⟨s', hrun, hlog⟩ := (of_decide_eq_true hpending).read (C := anyStep) trivial
    (fun _ _ _ => trivial)
  refine ⟨s', (run_of_exec hs).append hrun, hlog, ?_⟩
  rintro ⟨hown, -⟩
  rw [hlog] at hown
  have hsource := (hown _ (List.mem_singleton.mpr rfl)).2 (some 0) (by simp)
  exact absurd hsource (by decide)

end OopsOs
