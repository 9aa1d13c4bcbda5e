import Mathlib.Tactic.Common

/-!
# Programs that make calls

A program makes calls to a system and goes on with the answers, until it ends
with a value.  What the system may answer, and what becomes of it, is a
relation, so that the system may do other things between the calls.

A loop is given a number of turns; `spin` is a loop that has used them up.  A
run that comes there is one that has not ended yet, and lists the calls so far.

`Ensures` is what all runs have in common (`ensures_iff`), by recursion on the
program.  `ensures_loop` is the rule for a loop with a measure that every turn
makes smaller; such a loop does not use its turns up.  `ensures_loop_open` is
the rule for a loop without one.
-/

namespace Programs

universe u v w x

inductive Program (Q : Type u) (R : Type v) (A : Type w)
  | done (a : A)
  | call (q : Q) (next : R → Program Q R A)
  | spin

namespace Program

variable {Q : Type u} {R : Type v} {A B : Type w} {S : Type x}

/-- One program after another. -/
def bind : Program Q R A → (A → Program Q R B) → Program Q R B
  | done a, f => f a
  | call q next, f => call q (fun r => (next r).bind f)
  | spin, _ => spin

/-- The loop whose body gives the next state, or the value to end with, with `n` turns left. -/
def loop (body : A → Program Q R (A ⊕ B)) : Nat → A → Program Q R B
  | 0, _ => spin
  | n + 1, a => (body a).bind (Sum.elim (loop body n) done)

/--
A run from a state of the system to another: the calls with their answers, and
the value if the program has ended.
-/
inductive Runs (serves : S → Q → R → S → Prop) :
    Program Q R A → S → List (Q × R) → Option A → S → Prop
  | done (a : A) (s : S) : Runs serves (.done a) s [] (some a) s
  | spin (s : S) : Runs serves .spin s [] none s
  | call {s s' s'' : S} {q : Q} {r : R} {next : R → Program Q R A} {t : List (Q × R)}
      {o : Option A} :
      serves s q r s' →
      Runs serves (next r) s' t o s'' →
      Runs serves (.call q next) s ((q, r) :: t) o s''

/-- All runs from the state end in what the postcondition says of them. -/
def Ensures (serves : S → Q → R → S → Prop) :
    Program Q R A → (List (Q × R) → Option A → S → Prop) → S → Prop
  | done a, post, s => post [] (some a) s
  | spin, post, s => post [] none s
  | call q next, post, s =>
      ∀ r s', serves s q r s' → Ensures serves (next r) (fun t => post ((q, r) :: t)) s'

variable {serves : S → Q → R → S → Prop}

theorem ensures_iff {p : Program Q R A} {post : List (Q × R) → Option A → S → Prop} {s : S} :
    p.Ensures serves post s ↔ ∀ t o s', p.Runs serves s t o s' → post t o s' := by
  constructor
  · intro h t o s' hrun
    induction hrun generalizing post with
    | done a s => exact h
    | spin s => exact h
    | call hserve _ ih => exact ih (h _ _ hserve)
  · intro h
    induction p generalizing post s with
    | done a => exact h _ _ _ (Runs.done a s)
    | spin => exact h _ _ _ (Runs.spin s)
    | call q next ih =>
        intro r s' hserve
        exact ih r (fun t o s'' hrun => h _ _ _ (Runs.call hserve hrun))

theorem Ensures.mono {p : Program Q R A} {post post' : List (Q × R) → Option A → S → Prop} {s : S}
    (h : p.Ensures serves post s) (hpost : ∀ t o s', post t o s' → post' t o s') :
    p.Ensures serves post' s :=
  ensures_iff.mpr (fun t o s' hrun => hpost t o s' (ensures_iff.mp h t o s' hrun))

theorem Ensures.and {p : Program Q R A} {post post' : List (Q × R) → Option A → S → Prop} {s : S}
    (h : p.Ensures serves post s) (h' : p.Ensures serves post' s) :
    p.Ensures serves (fun t o s' => post t o s' ∧ post' t o s') s :=
  ensures_iff.mpr (fun t o s' hrun =>
    ⟨ensures_iff.mp h t o s' hrun, ensures_iff.mp h' t o s' hrun⟩)

/-- The first program, and from every state it ends in the second. -/
theorem ensures_bind {p : Program Q R A} {f : A → Program Q R B}
    {post : List (Q × R) → Option B → S → Prop} {s : S} :
    (p.bind f).Ensures serves post s ↔
      p.Ensures serves (fun t o s' =>
        o.elim (post t none s')
          (fun a => (f a).Ensures serves (fun t' => post (t ++ t')) s')) s := by
  induction p generalizing post s with
  | done a => exact Iff.rfl
  | spin => exact Iff.rfl
  | call q next ih => exact forall_congr' (fun r => forall_congr' (fun s' => imp_congr_right (fun _ => ih r)))

/--
The loop rule.  `I g a s` is the invariant at the start of a turn, `K g` is what
the loop does from there on, and every turn makes the measure of `g` smaller.
-/
theorem ensures_loop {G : Type x} {body : A → Program Q R (A ⊕ B)} {I : G → A → S → Prop}
    {K : G → List (Q × R) → Option B → S → Prop} {m : G → Nat}
    (hbody : ∀ g a s, I g a s → (body a).Ensures serves (fun t o s' =>
      (∃ b, o = some (.inr b) ∧ K g t (some b) s') ∨
      (∃ a' g', o = some (.inl a') ∧ m g' < m g ∧ I g' a' s' ∧
        ∀ t' o' s'', K g' t' o' s'' → K g (t ++ t') o' s'')) s)
    {fuel : Nat} {g : G} (hfuel : m g < fuel) {a : A} {s : S} (h : I g a s) :
    (loop body fuel a).Ensures serves (K g) s := by
  induction fuel generalizing g a s with
  | zero => exact absurd hfuel (Nat.not_lt_zero _)
  | succ fuel ih =>
      rw [loop, ensures_bind]
      refine (hbody g a s h).mono ?_
      rintro t o s' (⟨b, rfl, hK⟩ | ⟨a', g', rfl, hless, hI, hK⟩)
      · simpa [Ensures] using hK
      · exact (ih (by omega) hI).mono (fun t' o' s'' => hK t' o' s'')

/--
The rule for a loop that may go on for ever: what holds of no calls at all, and
of a turn with what comes after it, holds whenever the turns are used up.
-/
theorem ensures_loop_open {body : A → Program Q R (A ⊕ B)} {I : A → S → Prop}
    {K : List (Q × R) → Option B → S → Prop} (hstop : ∀ a s, I a s → K [] none s)
    (hbody : ∀ a s, I a s → (body a).Ensures serves (fun t o s' =>
      (∃ b, o = some (.inr b) ∧ K t (some b) s') ∨
      (∃ a', o = some (.inl a') ∧ I a' s' ∧ ∀ t' o' s'', K t' o' s'' → K (t ++ t') o' s'')) s)
    (fuel : Nat) {a : A} {s : S} (h : I a s) : (loop body fuel a).Ensures serves K s := by
  induction fuel generalizing a s with
  | zero => exact hstop a s h
  | succ fuel ih =>
      rw [loop, ensures_bind]
      refine (hbody a s h).mono ?_
      rintro t o s' (⟨b, rfl, hK⟩ | ⟨a', rfl, hI, hK⟩)
      · simpa [Ensures] using hK
      · exact (ih hI).mono (fun t' o' s'' => hK t' o' s'')

/-- Execution over a system that gives at most one answer. -/
def exec (serve : S → Q → Option (R × S)) :
    Program Q R A → S → Option (List (Q × R) × Option A × S)
  | done a, s => some ([], some a, s)
  | spin, s => some ([], none, s)
  | call q next, s =>
      (serve s q).bind (fun a => (exec serve (next a.1) a.2).map (fun z => ((q, a.1) :: z.1, z.2)))

/-- An execution is a run. -/
theorem runs_of_exec {serve : S → Q → Option (R × S)}
    (hserve : ∀ s q r s', serve s q = some (r, s') → serves s q r s') {p : Program Q R A} {s s' : S}
    {t : List (Q × R)} {o : Option A} (h : p.exec serve s = some (t, o, s')) :
    p.Runs serves s t o s' := by
  induction p generalizing s t with
  | done a =>
      cases h
      exact Runs.done a _
  | spin =>
      cases h
      exact Runs.spin _
  | call q next ih =>
      obtain ⟨a, ha, hrest⟩ := Option.bind_eq_some_iff.mp h
      obtain ⟨⟨t', o', s''⟩, hexec, heq⟩ := Option.map_eq_some_iff.mp hrest
      cases heq
      exact Runs.call (hserve _ _ _ _ ha) (ih a.1 hexec)

end Program

end Programs
