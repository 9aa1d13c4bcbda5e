import Mathlib.Tactic
import Mathlib.Logic.Function.Basic

/-!
# Linked lists

A link is a word of memory that is null, the address of a node, or anything
else.  The links of all nodes together are a function `next`, and `Chain` says
that a link leads through the nodes of a list to null.  A link has at most one
such list, and its nodes are pairwise distinct (`Chain.nodup`): a list that
ends has no cycle.

Walks along a list count their nodes.  `find_chain` and `walk_chain` say what
they do on a list that is short enough for the count.
-/

namespace Links

universe u v

variable {α : Type u} {σ : Type v}

/-- A word that is used as a pointer to a node. -/
inductive Link (α : Type u)
  | null
  | node (a : α)
  | wild (word : UInt32)
deriving DecidableEq

/-- The link leads through the nodes of the list to null. -/
def Chain (next : α → Link α) : Link α → List α → Prop
  | p, [] => p = .null
  | p, a :: l => p = .node a ∧ Chain next (next a) l

variable {next next' : α → Link α} {p : Link α} {l : List α}

theorem Chain.unique {l' : List α} (h : Chain next p l) (h' : Chain next p l') : l = l' := by
  induction l generalizing p l' with
  | nil =>
      cases l' with
      | nil => rfl
      | cons b rest' => cases h.symm.trans h'.1
  | cons a rest ih =>
      cases l' with
      | nil => cases h.1.symm.trans h'
      | cons b rest' =>
          obtain rfl := Link.node.inj (h.1.symm.trans h'.1)
          rw [ih h.2 h'.2]

/-- From a node of the list on, the list is the rest of it. -/
theorem Chain.from_node {l₁ l₂ : List α} {a : α} (h : Chain next p (l₁ ++ a :: l₂)) :
    Chain next (.node a) (a :: l₂) := by
  induction l₁ generalizing p with
  | nil => exact ⟨rfl, h.2⟩
  | cons b rest ih => exact ih h.2

/-- A list that ends does not come back to a node. -/
theorem Chain.nodup (h : Chain next p l) : l.Nodup := by
  induction l generalizing p with
  | nil => exact List.nodup_nil
  | cons a rest ih =>
      refine List.nodup_cons.mpr ⟨?_, ih h.2⟩
      intro hmem
      obtain ⟨l₁, l₂, rfl⟩ := List.append_of_mem hmem
      have hagain : Chain next (.node a) (a :: l₂) := h.2.from_node
      have hwhole : Chain next (.node a) (a :: (l₁ ++ a :: l₂)) := ⟨rfl, h.2⟩
      have hsame := congrArg List.length (hagain.unique hwhole)
      simp only [List.length_cons, List.length_append] at hsame
      omega

theorem Chain.not_mem_others {l₁ l₂ : List α} {a : α} (h : Chain next p (l₁ ++ a :: l₂)) :
    a ∉ l₁ ++ l₂ := by
  have hperm : (l₁ ++ a :: l₂).Perm (a :: (l₁ ++ l₂)) := List.perm_middle
  exact (List.nodup_cons.mp (hperm.nodup_iff.mp h.nodup)).1

/-- Only the links of the list's own nodes matter. -/
theorem Chain.congr (h : Chain next p l) (hsame : ∀ a ∈ l, next' a = next a) :
    Chain next' p l := by
  induction l generalizing p with
  | nil => exact h
  | cons a rest ih =>
      refine ⟨h.1, ?_⟩
      rw [hsame a (List.mem_cons_self ..)]
      exact ih h.2 (fun b hb => hsame b (List.mem_cons_of_mem a hb))

/-- A node that is not on the list, linked in at the front. -/
theorem Chain.push [DecidableEq α] (h : Chain next p l) {a : α} (ha : a ∉ l) :
    Chain (Function.update next a p) (.node a) (a :: l) := by
  refine ⟨rfl, ?_⟩
  rw [Function.update_self]
  apply h.congr
  intro b hb
  have hne : b ≠ a := by
    rintro rfl
    exact ha hb
  exact Function.update_of_ne hne _ _

/-- A node unlinked from behind its predecessor. -/
theorem Chain.unlink [DecidableEq α] {l₁ l₂ : List α} {a b : α}
    (h : Chain next p (l₁ ++ b :: a :: l₂)) :
    Chain (Function.update next b (next a)) p (l₁ ++ b :: l₂) := by
  induction l₁ generalizing p with
  | nil =>
      refine ⟨h.1, ?_⟩
      rw [Function.update_self]
      apply h.2.2.congr
      intro c hc
      have hne : c ≠ b := by
        rintro rfl
        exact (List.nodup_cons.mp h.nodup).1 (List.mem_cons_of_mem a hc)
      exact Function.update_of_ne hne _ _
  | cons c rest ih =>
      have hne : c ≠ b := by
        rintro rfl
        exact (List.nodup_cons.mp h.nodup).1 (by simp)
      refine ⟨h.1, ?_⟩
      rw [Function.update_of_ne hne]
      exact ih h.2

/-! ## Walks -/

/-- The first node from the link on that meets the condition; `none` if the walk goes on. -/
def find (next : α → Link α) (q : α → Prop) [DecidablePred q] : Nat → Link α → Option (Option α)
  | 0, _ => none
  | _ + 1, .null => some none
  | n + 1, .node a => if q a then some (some a) else find next q n (next a)
  | _ + 1, .wild _ => none

theorem find_chain {q : α → Prop} [DecidablePred q] (h : Chain next p l) {n : Nat}
    (hn : l.length < n) : find next q n p = some (l.find? (fun a => decide (q a))) := by
  induction l generalizing p n with
  | nil =>
      obtain ⟨n, rfl⟩ : ∃ m, n = m + 1 := ⟨n - 1, by omega⟩
      rw [show p = .null from h, find, List.find?_nil]
  | cons a rest ih =>
      obtain ⟨n, rfl⟩ : ∃ m, n = m + 1 := ⟨n - 1, by omega⟩
      rw [h.1, find, List.find?_cons]
      by_cases hq : q a
      · rw [if_pos hq, decide_eq_true hq]
      · rw [if_neg hq, decide_eq_false hq]
        exact ih h.2 (by simpa using hn)

/-- In a cycle of one node that does not meet the condition the search goes on for ever. -/
theorem find_loop {q : α → Prop} [DecidablePred q] {a : α} (hnext : next a = .node a)
    (hq : ¬ q a) (n : Nat) : find next q n (.node a) = none := by
  induction n with
  | zero => rfl
  | succ n ih => rw [find, if_neg hq, hnext, ih]

/-- A cycle of one node is not a list. -/
theorem not_chain_loop {a : α} (hnext : next a = .node a) (l : List α) :
    ¬ Chain next (.node a) l := by
  intro h
  cases l with
  | nil => cases h
  | cons b rest =>
      obtain rfl := Link.node.inj h.1
      have hrest := h.2
      rw [hnext] at hrest
      exact List.cons_ne_self _ _ (h.unique hrest)

/-- A visit to every node from the link on, each of which may change the state. -/
def walk (next : σ → α → Link α) (visit : σ → α → σ) : Nat → Link α → σ → Option σ
  | 0, _, _ => none
  | _ + 1, .null, s => some s
  | n + 1, .node a, s => walk next visit n (next (visit s a) a) (visit s a)
  | _ + 1, .wild _, _ => none

/-- Visits that leave the links alone go through the list in order. -/
theorem walk_chain {next : σ → α → Link α} {visit : σ → α → σ}
    (hkeep : ∀ s a, next (visit s a) = next s) {s : σ} (h : Chain (next s) p l) {n : Nat}
    (hn : l.length < n) : walk next visit n p s = some (l.foldl visit s) := by
  induction l generalizing p n s with
  | nil =>
      obtain ⟨n, rfl⟩ : ∃ m, n = m + 1 := ⟨n - 1, by omega⟩
      rw [show p = .null from h, walk, List.foldl_nil]
  | cons a rest ih =>
      obtain ⟨n, rfl⟩ : ∃ m, n = m + 1 := ⟨n - 1, by omega⟩
      rw [h.1, walk, List.foldl_cons]
      apply ih
      · rw [hkeep]
        exact h.2
      · simpa using hn

/-- A list of distinct nodes is no longer than there are nodes. -/
theorem Chain.length_le [Fintype α] (h : Chain next p l) : l.length ≤ Fintype.card α :=
  h.nodup.length_le_card

/-! ## Removing a node -/

/-- A place that holds a link: the head of the list (`none`) or a node's own link. -/
def field (next : α → Link α) (head : Link α) : Option α → Link α
  | none => head
  | some b => next b

/-- The first place from `f` on that holds the link `target`. -/
def findField [DecidableEq α] (next : α → Link α) (head target : Link α) :
    Nat → Option α → Option (Option α)
  | 0, _ => none
  | n + 1, f =>
      if field next head f = target then some f
      else
        match field next head f with
        | .node a => findField next head target n (some a)
        | _ => none

/-- The place in front of a node of the list is reached behind the nodes before it. -/
theorem findField_chain [DecidableEq α] {head : Link α} {l₁ l₂ : List α} {a : α} {f : Option α}
    (h : Chain next (field next head f) (l₁ ++ a :: l₂)) {n : Nat} (hn : l₁.length < n) :
    findField next head (.node a) n f = some ((l₁.getLast?).or f) := by
  induction l₁ generalizing f n with
  | nil =>
      obtain ⟨n, rfl⟩ : ∃ m, n = m + 1 := ⟨n - 1, by omega⟩
      rw [findField, if_pos h.1]
      rfl
  | cons b rest ih =>
      obtain ⟨n, rfl⟩ : ∃ m, n = m + 1 := ⟨n - 1, by omega⟩
      have hne : b ≠ a := by
        rintro rfl
        exact (List.nodup_cons.mp h.nodup).1 (by simp)
      have hlast : (b :: rest).getLast?.or f = rest.getLast?.or (some b) := by
        cases rest with
        | nil => rfl
        | cons c rest => simp [List.getLast?_cons]
      have hfield : field next head f = .node b := h.1
      rw [findField, hfield, if_neg (fun hb => hne (Link.node.inj hb)), hlast]
      have hrest : Chain next (field next head (some b)) (rest ++ a :: l₂) := h.2
      exact ih hrest (by simpa using hn)

/-- The links after the link of `a` has been stored into the place `f`. -/
def relink [DecidableEq α] (next : α → Link α) (head : Link α) (a : α) :
    Option α → (α → Link α) × Link α
  | none => (next, next a)
  | some b => (Function.update next b (next a), head)

/-- A node unlinked through the place in front of it. -/
theorem Chain.remove [DecidableEq α] {head : Link α} {l₁ l₂ : List α} {a : α}
    (h : Chain next head (l₁ ++ a :: l₂)) :
    Chain (relink next head a l₁.getLast?).1 (relink next head a l₁.getLast?).2 (l₁ ++ l₂) := by
  rcases List.eq_nil_or_concat l₁ with rfl | ⟨l₀, b, rfl⟩
  · exact h.2
  · rw [List.concat_eq_append] at h ⊢
    rw [List.getLast?_concat, List.append_assoc]
    rw [List.append_assoc] at h
    exact h.unlink

end Links
