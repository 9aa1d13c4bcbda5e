import OopsOs.SystemCalls
import OopsOs.Lib.Machine

/-!
# Processes that wait for the real-time clock

`rtc_read` sets `is_rtc_interrupt_flag` and polls it until the interrupt
handler has cleared it.  There is one flag for all processes, so that the
steps of the reads and the interrupts interleave on it.

While the flag is set no read returns, and only an interrupt clears it
(`rtcStep_flag`); hence no read returns early.  A read that starts sets the
flag again for everyone: it takes the interrupt away from a read that has not
polled since (`start_takes_wakeup`).  In runs without such a start every
interrupt reaches every read that waits for it.
-/

namespace OopsOs

open Machine

/-! ## The statements of the driver -/

/-- What `rtc_handle_interrupt` does to the kernel's variables. -/
def rtcHandleInterrupt (k : Kernel) : Kernel := { k with isRtcInterruptFlag := 0 }

/-- The first statement of `rtc_read`. -/
def rtcReadStart (k : Kernel) : Kernel := { k with isRtcInterruptFlag := 1 }

/-- The test of the loop of `rtc_read`: it returns. -/
def rtcReadPolls (k : Kernel) : Bool := k.isRtcInterruptFlag = 0

/-- A whole `rtc_read` is its first statement, the interrupts that follow and a poll. -/
theorem rtcRead_returns_iff (interrupts : Kernel → Kernel) (k : Kernel) :
    (rtcRead interrupts k).outcome = .returned 0 ↔
      rtcReadPolls (interrupts (rtcReadStart k)) = true := by
  unfold rtcRead rtcReadPolls rtcReadStart
  simp only
  split_ifs with h
  · simp [h]
  · simp [h]

/-! ## Interleaved reads -/

universe u

variable {ι : Type u} [DecidableEq ι]

/-- The kernel, and the processes that are between the first step and the end of a read. -/
structure RtcReaders (ι : Type u) where
  kernel : Kernel
  reading : ι → Bool

def RtcReaders.idle (ι : Type u) (k : Kernel) : RtcReaders ι := ⟨k, fun _ => false⟩

inductive RtcEvent (ι : Type u)
  | start (i : ι)
  | poll (i : ι)
  | interrupt
deriving DecidableEq

def rtcStep (s : RtcReaders ι) : RtcEvent ι → Option (RtcReaders ι)
  | .start i =>
      if s.reading i then none
      else some ⟨rtcReadStart s.kernel, Function.update s.reading i true⟩
  | .poll i =>
      if s.reading i then
        some { s with reading := Function.update s.reading i (!rtcReadPolls s.kernel) }
      else none
  | .interrupt => some { s with kernel := rtcHandleInterrupt s.kernel }

/-- Everything a step can do. -/
theorem rtcStep_cases {s s' : RtcReaders ι} {e : RtcEvent ι} (h : rtcStep s e = some s') :
    (∃ i, e = .start i ∧ s.reading i = false ∧
      s' = ⟨rtcReadStart s.kernel, Function.update s.reading i true⟩) ∨
    (∃ i, e = .poll i ∧ s.reading i = true ∧
      s' = { s with reading := Function.update s.reading i (!rtcReadPolls s.kernel) }) ∨
    (e = .interrupt ∧ s' = { s with kernel := rtcHandleInterrupt s.kernel }) := by
  cases e with
  | start i =>
      left
      simp only [rtcStep] at h
      split_ifs at h with hi
      exact ⟨i, rfl, by simpa using hi, (Option.some.inj h).symm⟩
  | poll i =>
      right
      left
      simp only [rtcStep] at h
      split_ifs at h with hi
      exact ⟨i, rfl, hi, (Option.some.inj h).symm⟩
  | interrupt =>
      right
      right
      exact ⟨rfl, (Option.some.inj h).symm⟩

/-! ## No read returns early -/

/-- Only an interrupt clears the flag. -/
theorem rtcStep_flag {s s' : RtcReaders ι} {e : RtcEvent ι} (h : rtcStep s e = some s')
    (he : e ≠ .interrupt) (hset : rtcReadPolls s.kernel = false) :
    rtcReadPolls s'.kernel = false := by
  rcases rtcStep_cases h with ⟨i, -, -, rfl⟩ | ⟨i, -, -, rfl⟩ | ⟨hint, -⟩
  · simp [rtcReadPolls, rtcReadStart]
  · exact hset
  · exact absurd hint he

theorem run_flag {C : RtcReaders ι → RtcEvent ι → Prop} {s s' : RtcReaders ι}
    {es : List (RtcEvent ι)} (hrun : Run rtcStep C s es s') (hint : .interrupt ∉ es)
    (hset : rtcReadPolls s.kernel = false) : rtcReadPolls s'.kernel = false := by
  induction hrun with
  | nil => exact hset
  | cons _ hstep _ ih =>
      rw [List.mem_cons, not_or] at hint
      exact ih hint.2 (rtcStep_flag hstep (Ne.symm hint.1) hset)

/--
In any interleaving of reads and interrupts: between the first step of a read
and a poll in which it returns there is an interrupt.
-/
theorem read_returns_after_interrupt {k : Kernel} {pre mid : List (RtcEvent ι)} {i : ι}
    {s : RtcReaders ι}
    (hrun : Run rtcStep anyStep (RtcReaders.idle ι k) (pre ++ .start i :: mid ++ [.poll i]) s)
    (hreturned : s.reading i = false) : .interrupt ∈ mid := by
  by_contra hint
  obtain ⟨s₂, hbefore, hpoll⟩ := hrun.split
  obtain ⟨s₁, -, hread⟩ := hbefore.split
  cases hread with
  | cons _ hstart hmid =>
      have hset : rtcReadPolls s₂.kernel = false := by
        refine run_flag hmid hint ?_
        rcases rtcStep_cases hstart with ⟨j, -, -, rfl⟩ | ⟨j, he, -⟩ | ⟨he, -⟩
        · simp [rtcReadPolls, rtcReadStart]
        · cases he
        · cases he
      cases hpoll with
      | cons _ hstep hnil =>
          cases hnil
          rcases rtcStep_cases hstep with ⟨j, he, -⟩ | ⟨j, he, -, rfl⟩ | ⟨he, -⟩
          · cases he
          · cases he
            simp [hset] at hreturned
          · cases he

/-- Two reads of processes 0 and 1 that one interrupt ends. -/
theorem read_returns_after_interrupt_two_readers :
    ∃ s, Run rtcStep anyStep (RtcReaders.idle Nat bareKernel)
        ([.start 1] ++ .start 0 :: [.interrupt, .poll 1] ++ [.poll 0]) s ∧
      s.reading 0 = false ∧ (.interrupt : RtcEvent Nat) ∈ [RtcEvent.interrupt, .poll 1] := by
  have hrun : Run rtcStep anyStep (RtcReaders.idle Nat bareKernel)
      ([.start 1] ++ .start 0 :: [.interrupt, .poll 1] ++ [.poll 0]) _ :=
    Run.cons trivial rfl (Run.cons trivial rfl (Run.cons trivial rfl (Run.cons trivial rfl
      (Run.cons trivial rfl (Run.nil _)))))
  exact ⟨_, hrun, rfl, read_returns_after_interrupt hrun rfl⟩

/-! ## Which interrupts are noticed -/

/-- A read that starts does so while no other read waits, or before the flag is cleared. -/
def WakeupGuard (s : RtcReaders ι) : RtcEvent ι → Prop
  | .start _ => rtcReadPolls s.kernel = true → ∀ j, s.reading j = false
  | _ => True

/-- Once an interrupt has come, a read that is waiting sees the flag cleared until it returns. -/
theorem rtcStep_wakeup {s s' : RtcReaders ι} {e : RtcEvent ι} {i : ι}
    (hguard : WakeupGuard s e) (h : rtcStep s e = some s') (he : e ≠ .start i)
    (hwake : s.reading i = true → rtcReadPolls s.kernel = true) :
    s'.reading i = true → rtcReadPolls s'.kernel = true := by
  rcases rtcStep_cases h with ⟨j, rfl, -, rfl⟩ | ⟨j, rfl, hj, rfl⟩ | ⟨-, rfl⟩
  · intro hi
    have hji : i ≠ j := by
      rintro rfl
      exact he rfl
    simp only [Function.update_of_ne hji] at hi
    rw [hguard (hwake hi) i] at hi
    cases hi
  · intro hi
    by_cases hji : i = j
    · subst hji
      simp only [Function.update_self, Bool.not_eq_true'] at hi
      rw [hwake hj] at hi
      cases hi
    · simp only [Function.update_of_ne hji] at hi
      exact hwake hi
  · intro _
    simp [rtcReadPolls, rtcHandleInterrupt]

theorem run_wakeup {s s' : RtcReaders ι} {es : List (RtcEvent ι)} {i : ι}
    (hrun : Run rtcStep WakeupGuard s es s') (hes : .start i ∉ es)
    (hwake : s.reading i = true → rtcReadPolls s.kernel = true) :
    s'.reading i = true → rtcReadPolls s'.kernel = true := by
  induction hrun with
  | nil => exact hwake
  | cons hguard hstep _ ih =>
      rw [List.mem_cons, not_or] at hes
      exact ih hes.2 (rtcStep_wakeup hguard hstep (Ne.symm hes.1) hwake)

/--
In every interleaving whose starts all meet the guard: a read that is still
waiting, and since whose first step an interrupt has occurred, returns in its
next poll.
-/
theorem run_interrupt_reaches_reader {k : Kernel} {pre mid : List (RtcEvent ι)} {i : ι}
    {s : RtcReaders ι}
    (hrun : Run rtcStep WakeupGuard (RtcReaders.idle ι k) (pre ++ .start i :: mid) s)
    (hown : .start i ∉ mid) (hint : .interrupt ∈ mid) (hreading : s.reading i = true) :
    ∃ s', rtcStep s (.poll i) = some s' ∧ s'.reading i = false := by
  obtain ⟨before, after, rfl⟩ := List.append_of_mem hint
  obtain ⟨s₁, -, hread⟩ := hrun.split
  cases hread with
  | cons _ _ hmid =>
      obtain ⟨s₂, -, hrest⟩ := hmid.split
      cases hrest with
      | cons _ hstep hafter =>
          obtain rfl := Option.some.inj hstep
          have hpolls : rtcReadPolls s.kernel = true := by
            refine run_wakeup hafter ?_ ?_ hreading
            · intro h
              exact hown (by simp [h])
            · intro _
              simp [rtcReadPolls, rtcHandleInterrupt]
          refine ⟨{ s with reading := Function.update s.reading i false }, ?_, ?_⟩
          · simp [rtcStep, hreading, hpolls]
          · simp

/-- A start that breaks the guard: the read that was to return goes on waiting. -/
theorem start_takes_wakeup {s s' : RtcReaders ι} {i j : ι} (hwaiting : s.reading i = true)
    (h : rtcStep s (.start j) = some s') :
    s'.reading i = true ∧
      ∀ s'', rtcStep s' (.poll i) = some s'' → s''.reading i = true := by
  rcases rtcStep_cases h with ⟨j', he, hj, rfl⟩ | ⟨j', he, -⟩ | ⟨he, -⟩
  · cases he
    have hij : i ≠ j := by
      rintro rfl
      rw [hwaiting] at hj
      cases hj
    refine ⟨by simpa [hij] using hwaiting, ?_⟩
    intro s'' hpoll
    rcases rtcStep_cases hpoll with ⟨i', he, -⟩ | ⟨i', he, -, rfl⟩ | ⟨he, -⟩
    · cases he
    · cases he
      simp [rtcReadPolls, rtcReadStart]
    · cases he
  · cases he
  · cases he

theorem run_interrupt_reaches_reader_alone :
    ∃ s, Run rtcStep WakeupGuard (RtcReaders.idle Nat bareKernel)
        ([.start 1] ++ .start 0 :: [.interrupt]) s ∧
      ∃ s', rtcStep s (.poll 0) = some s' ∧ s'.reading 0 = false := by
  have hrun : Run rtcStep WakeupGuard (RtcReaders.idle Nat bareKernel)
      ([.start 1] ++ .start 0 :: [.interrupt]) _ :=
    Run.cons (fun _ _ => rfl) rfl (Run.cons (fun h => by cases h) rfl (Run.cons trivial rfl
      (Run.nil _)))
  exact ⟨_, hrun, run_interrupt_reaches_reader hrun (by simp) (by simp) rfl⟩

/-- Process 0 waits, an interrupt occurs, process 1 starts a read: process 0 does not notice. -/
theorem second_reader_takes_wakeup :
    ∃ s, Run rtcStep anyStep (RtcReaders.idle Nat bareKernel)
        ([] ++ .start 0 :: [.interrupt, .start 1]) s ∧
      RtcEvent.start 0 ∉ [RtcEvent.interrupt, .start 1] ∧
      RtcEvent.interrupt ∈ [(RtcEvent.interrupt : RtcEvent Nat), .start 1] ∧
      s.reading 0 = true ∧
      ¬ ∃ s', rtcStep s (.poll 0) = some s' ∧ s'.reading 0 = false := by
  obtain ⟨s, hs⟩ : ∃ s, s = (⟨rtcHandleInterrupt (rtcReadStart bareKernel),
      Function.update (fun _ => false) 0 true⟩ : RtcReaders Nat) := ⟨_, rfl⟩
  have hwaiting : s.reading 0 = true := by
    rw [hs]
    rfl
  have hstart : rtcStep s (.start 1) =
      some ⟨rtcReadStart s.kernel, Function.update s.reading 1 true⟩ := by
    rw [hs]
    rfl
  obtain ⟨hstill, hpoll⟩ := start_takes_wakeup hwaiting hstart
  refine ⟨_, ?_, by simp, by simp, hstill, ?_⟩
  · rw [hs] at hstart ⊢
    exact Run.cons trivial rfl (Run.cons trivial rfl (Run.cons trivial hstart (Run.nil _)))
  · rintro ⟨s', hs', hreading⟩
    rw [hpoll s' hs'] at hreading
    cases hreading

end OopsOs
