import Mathlib.Tactic.Common

/-!
# Radix tries

Items lie on the branches that their digits name. A trie is canonical if each
inner trie below its root holds two items at least: then it is determined by its items.
-/
namespace RadixTree

inductive Trie (β ι : Type) where
  | empty
  | leaf (i : ι)
  | inner (children : β → Trie β ι)

variable {β ι : Type}

/-- The items of a trie. -/
inductive Has : Trie β ι → ι → Prop
  | leaf (i : ι) : Has (.leaf i) i
  | inner {f : β → Trie β ι} {b : β} {i : ι} : Has (f b) i → Has (.inner f) i

@[simp] theorem not_has_empty (i : ι) : ¬ Has (.empty : Trie β ι) i := by
  intro h
  cases h

variable {i : ι} {f : β → Trie β ι} {d : Nat} {t : Trie β ι}

@[simp] theorem has_leaf {j : ι} : Has (.leaf i : Trie β ι) j ↔ j = i := by
  constructor
  · rintro ⟨⟩
    rfl
  · rintro rfl
    exact .leaf j

@[simp] theorem has_inner : Has (.inner f) i ↔ ∃ b, Has (f b) i := by
  constructor
  · rintro ⟨⟩
    exact ⟨_, ‹_›⟩
  · rintro ⟨b, h⟩
    exact .inner h

section
variable (digit : Nat → ι → β)

/-- The items of each branch have its digit. -/
def Placed : Nat → Trie β ι → Prop
  | _, .empty => True
  | _, .leaf _ => True
  | d, .inner f => (∀ b i, Has (f b) i → digit d i = b) ∧ ∀ b, Placed (d + 1) (f b)

/-- Each inner trie holds two items at least. -/
def Branching : Trie β ι → Prop
  | .empty => True
  | .leaf _ => True
  | .inner f => (∃ i j, i ≠ j ∧ Has (.inner f) i ∧ Has (.inner f) j) ∧ ∀ b, Branching (f b)

end

variable {digit : Nat → ι → β}

theorem Placed.has_branch (h : Placed digit d (.inner f)) {b : β} :
    Has (f b) i ↔ Has (.inner f) i ∧ digit d i = b := by
  constructor
  · intro has
    exact ⟨.inner has, h.1 b i has⟩
  · rintro ⟨has, rfl⟩
    obtain ⟨b, has⟩ := has_inner.1 has
    rwa [h.1 b i has]

theorem Placed.unique (h : Placed digit d t) {j : ι} (hi : Has t i)
    (hj : Has t j) (same : ∀ n, d ≤ n → digit n i = digit n j) : i = j := by
  induction t generalizing d with
  | empty => exact absurd hi (not_has_empty i)
  | leaf k => rw [has_leaf.1 hi, has_leaf.1 hj]
  | inner f ih =>
    have hi' := h.has_branch.2 ⟨hi, rfl⟩
    have hj' := h.has_branch.2 ⟨hj, (same d (Nat.le_refl d)).symm⟩
    exact ih _ (h.2 _) hi' hj' fun n hn => same n (by omega)

theorem Branching.nonempty (h : Branching t) (some_ : t ≠ .empty) : ∃ i, Has t i := by
  cases t with
  | empty => exact absurd rfl some_
  | leaf i => exact ⟨i, .leaf i⟩
  | inner f =>
    obtain ⟨⟨i, -, -, has, -⟩, -⟩ := h
    exact ⟨i, has⟩

theorem Branching.ext {t' : Trie β ι} (h : Branching t) (h' : Branching t')
    (placed : Placed digit d t) (placed' : Placed digit d t') (same : ∀ i, Has t i ↔ Has t' i) :
    t = t' := by
  induction t generalizing t' d with
  | empty =>
    by_contra ne
    obtain ⟨i, has⟩ := h'.nonempty (Ne.symm ne)
    exact not_has_empty i ((same i).2 has)
  | leaf i =>
    cases t' with
    | empty => exact absurd ((same i).1 (.leaf i)) (not_has_empty i)
    | leaf j => rw [has_leaf.1 ((same i).1 (.leaf i))]
    | inner f =>
      obtain ⟨⟨j, k, ne, hj, hk⟩, -⟩ := h'
      exact absurd ((has_leaf.1 ((same j).2 hj)).trans (has_leaf.1 ((same k).2 hk)).symm) ne
  | inner f ih =>
    obtain ⟨⟨j, k, ne, hj, hk⟩, branches⟩ := h
    cases t' with
    | empty => exact absurd ((same j).1 hj) (not_has_empty j)
    | leaf i =>
      exact absurd ((has_leaf.1 ((same j).1 hj)).trans (has_leaf.1 ((same k).1 hk)).symm) ne
    | inner g =>
      have equal : f = g := by
        funext b
        refine ih b (branches b) (h'.2 b) (placed.2 b) (placed'.2 b) fun i => ?_
        rw [placed.has_branch, placed'.has_branch, same]
      rw [equal]

/-- Inner tries with the same items are the same; the root may hold fewer than two. -/
theorem root_ext {g : β → Trie β ι} (h : ∀ b, Branching (f b)) (h' : ∀ b, Branching (g b))
    (placed : Placed digit d (.inner f)) (placed' : Placed digit d (.inner g))
    (same : ∀ i, Has (.inner f) i ↔ Has (.inner g) i) : f = g := by
  funext b
  refine (h b).ext (h' b) (placed.2 b) (placed'.2 b) fun i => ?_
  rw [placed.has_branch, placed'.has_branch, same]

end RadixTree
