import Mathlib.Tactic.Common

/-!
# Guarded runs of a deterministic machine

A machine is given by a step function from a state and an event to the next
state, which is undefined where the event cannot happen.  A run is a list of
events that the machine can take one after the other.

Runs carry a guard: a condition on the state before a step and on the event
of that step.  The unguarded runs of a machine are the runs under the trivial
guard, so one induction rule serves both.
-/

namespace Machine

universe u v

variable {σ : Type u} {ε : Type v}
variable {step : σ → ε → Option σ} {C : σ → ε → Prop}

/-- A run of the machine in which every step meets the guard. -/
inductive Run (step : σ → ε → Option σ) (C : σ → ε → Prop) :
    σ → List ε → σ → Prop
  | nil (s : σ) : Run step C s [] s
  | cons {s s' s'' : σ} {e : ε} {es : List ε} :
      C s e →
      step s e = some s' →
      Run step C s' es s'' →
      Run step C s (e :: es) s''

/-- The guard that every step meets. -/
def anyStep : σ → ε → Prop := fun _ _ => True

instance (s : σ) (e : ε) : Decidable (anyStep s e) := isTrue trivial

/-- Execution of a list of events, as far as the guard allows. -/
def exec (step : σ → ε → Option σ) (C : σ → ε → Prop) [∀ s e, Decidable (C s e)] :
    σ → List ε → Option σ
  | s, [] => some s
  | s, e :: es => if C s e then (step s e).bind (fun s' => exec step C s' es) else none

/-- An execution is a run. -/
theorem run_of_exec [∀ s e, Decidable (C s e)] {s s' : σ} {es : List ε}
    (h : exec step C s es = some s') :
    Run step C s es s' := by
  induction es generalizing s with
  | nil =>
      simp only [exec, Option.some.injEq] at h
      subst h
      exact Run.nil s
  | cons e es ih =>
      simp only [exec] at h
      split_ifs at h with hC
      cases hs : step s e with
      | none =>
          simp [hs] at h
      | some t =>
          rw [hs] at h
          exact Run.cons hC hs (ih h)

/-- What holds initially and is kept by every guarded step holds after a run. -/
theorem Run.invariant {I : σ → Prop}
    (hstep : ∀ s e s', I s → C s e → step s e = some s' → I s')
    {s s' : σ} {es : List ε}
    (hrun : Run step C s es s') (hs : I s) :
    I s' := by
  induction hrun with
  | nil => exact hs
  | cons hC he _ ih => exact ih (hstep _ _ _ hs hC he)

/-- Guards that agree where an invariant holds, which one of them keeps, have the same runs. -/
theorem Run.guard_iff {I : σ → Prop} {D : σ → ε → Prop}
    (hkeep : ∀ s e s', I s → C s e → step s e = some s' → I s')
    (hiff : ∀ s e s', I s → step s e = some s' → (D s e ↔ C s e))
    {s s' : σ} {es : List ε} (hs : I s) :
    Run step D s es s' ↔ Run step C s es s' := by
  constructor
  · intro hrun
    induction hrun with
    | nil s => exact Run.nil s
    | cons hD he _ ih =>
        have hC := (hiff _ _ _ hs he).mp hD
        exact Run.cons hC he (ih (hkeep _ _ _ hs hC he))
  · intro hrun
    induction hrun with
    | nil s => exact Run.nil s
    | cons hC he _ ih =>
        exact Run.cons ((hiff _ _ _ hs he).mpr hC) he (ih (hkeep _ _ _ hs hC he))

/-- A run under a guard is one under every weaker guard. -/
theorem Run.mono {D : σ → ε → Prop} (hguard : ∀ s e, C s e → D s e) {s s' : σ} {es : List ε}
    (hrun : Run step C s es s') : Run step D s es s' := by
  induction hrun with
  | nil s => exact Run.nil s
  | cons hC he _ ih => exact Run.cons (hguard _ _ hC) he ih

/-- An invariant that counts the events of one kind. -/
theorem Run.counted {p : ε → Bool} {I : Nat → σ → Prop}
    (hstep : ∀ n s e s', I n s → C s e → step s e = some s' → I (if p e then n + 1 else n) s')
    {s s' : σ} {es : List ε} (hrun : Run step C s es s') {n : Nat} (hs : I n s) :
    I (n + es.countP p) s' := by
  induction hrun generalizing n with
  | nil => exact hs
  | cons hC he _ ih =>
      have hnext := ih (hstep _ _ _ _ hs hC he)
      rw [List.countP_cons]
      split_ifs at hnext ⊢ with hp
      · rwa [Nat.add_assoc, Nat.add_comm 1] at hnext
      · exact hnext

/-- A run with more than `m` events of one kind comes to the step of the `m`-th, from zero. -/
theorem Run.nth {p : ε → Bool} {s s' : σ} {es : List ε} (hrun : Run step C s es s') {m : Nat}
    (hm : m < es.countP p) :
    ∃ es₁ e es₂ s₁ s₂, es = es₁ ++ e :: es₂ ∧ p e = true ∧ es₁.countP p = m ∧
      Run step C s es₁ s₁ ∧ C s₁ e ∧ step s₁ e = some s₂ ∧ Run step C s₂ es₂ s' := by
  induction hrun generalizing m with
  | nil => simp at hm
  | @cons s t s' e es hC he hrest ih =>
      by_cases hp : p e = true
      · rw [List.countP_cons_of_pos hp] at hm
        cases m with
        | zero => exact ⟨[], e, es, s, t, rfl, hp, rfl, Run.nil s, hC, he, hrest⟩
        | succ m =>
            obtain ⟨es₁, e', es₂, s₁, s₂, rfl, hp', hcount, hrun₁, hstep⟩ :=
              ih (Nat.lt_of_succ_lt_succ hm)
            refine ⟨e :: es₁, e', es₂, s₁, s₂, rfl, hp', ?_, Run.cons hC he hrun₁, hstep⟩
            rw [List.countP_cons_of_pos hp, hcount]
      · rw [List.countP_cons_of_neg hp] at hm
        obtain ⟨es₁, e', es₂, s₁, s₂, rfl, hp', hcount, hrun₁, hstep⟩ := ih hm
        refine ⟨e :: es₁, e', es₂, s₁, s₂, rfl, hp', ?_, Run.cons hC he hrun₁, hstep⟩
        rw [List.countP_cons_of_neg hp, hcount]

/-- The events decide where a run ends, whatever the guards. -/
theorem Run.unique {D : σ → ε → Prop} {s s' s'' : σ} {es : List ε} (hrun : Run step C s es s')
    (hrun' : Run step D s es s'') : s' = s'' := by
  induction hrun with
  | nil s =>
      cases hrun' with
      | nil => rfl
  | cons _ he _ ih =>
      cases hrun' with
      | cons _ he' hrest =>
          rw [he, Option.some.injEq] at he'
          subst he'
          exact ih hrest

/-- Runs compose. -/
theorem Run.append {s s' s'' : σ} {es es' : List ε} (hrun : Run step C s es s')
    (hrun' : Run step C s' es' s'') : Run step C s (es ++ es') s'' := by
  induction hrun with
  | nil => exact hrun'
  | cons hC he _ ih => exact Run.cons hC he (ih hrun')

/-- A run of a concatenation passes through the state between its two parts. -/
theorem Run.split {s s'' : σ} {es es' : List ε} (hrun : Run step C s (es ++ es') s'') :
    ∃ s', Run step C s es s' ∧ Run step C s' es' s'' := by
  induction es generalizing s with
  | nil => exact ⟨s, Run.nil s, hrun⟩
  | cons e es ih =>
      cases hrun with
      | cons hC he hrest =>
          obtain ⟨s', hleft, hright⟩ := ih hrest
          exact ⟨s', Run.cons hC he hleft, hright⟩

end Machine
