import JingtumCore.RadixTree

/-!
# Order in a radix trie

Items that are ordered by the first digit in which they differ lie in a trie in that order.
The first item of a trie is the first one of its first branch, and the item next to a query is
looked for on the branch of the query and then on the branches behind it.
-/
namespace RadixTree

variable {β ι : Type}

/-- The first digits of two items are the same. -/
def Agree (digit : Nat → ι → β) (d : Nat) (i j : ι) : Prop := ∀ n, n < d → digit n i = digit n j

/-- An order of items by the first digit in which they differ. -/
structure Lexical (digit : Nat → ι → β) where
  lt : ι → ι → Prop
  before : β → β → Prop
  asymm : ∀ {i j}, lt i j → ¬lt j i
  before_asymm : ∀ {a b}, before a b → ¬before b a
  total : ∀ a b, a = b ∨ before a b ∨ before b a
  lex : ∀ {d i j}, Agree digit d i j → before (digit d i) (digit d j) → lt i j

namespace Lexical

variable {digit : Nat → ι → β} (o : Lexical digit) {d : Nat} {f : β → Trie β ι} {b : β} {q r : ι}

/-- The item comes before all others of the trie. -/
def FirstOf (t : Trie β ι) (r : ι) : Prop := Has t r ∧ ∀ j, Has t j → ¬o.lt j r

/-- The first item of the trie behind a query. -/
def NextIn (q : ι) (t : Trie β ι) : Option ι → Prop
  | some r => Has t r ∧ o.lt q r ∧ ∀ j, Has t j → o.lt q j → ¬o.lt j r
  | none => ∀ j, Has t j → ¬o.lt q j

/-- What holds of the branches of a trie that hangs at a depth, on the way of a query. -/
structure OnWay (digit : Nat → ι → β) (q : ι) (d : Nat) (t : Trie β ι) : Prop where
  placed : Placed digit d t
  agree : ∀ i, Has t i → Agree digit d q i

theorem OnWay.child (h : OnWay digit q d (.inner f)) : OnWay digit q (d + 1) (f (digit d q)) := by
  refine ⟨h.placed.2 _, fun i has n low => ?_⟩
  rcases Nat.lt_succ_iff_lt_or_eq.1 low with low | rfl
  · exact h.agree i (.inner has) n low
  · exact (h.placed.1 _ i has).symm

variable {o}

theorem agree_symm {i j : ι} (h : Agree digit d i j) : Agree digit d j i :=
  fun n low => (h n low).symm

/-- Any item can take the place of the query above a branch. -/
theorem OnWay.of_has (h : OnWay digit q d (.inner f)) (has : Has (.inner f) r) :
    OnWay digit r d (.inner f) := by
  refine ⟨h.placed, fun i has' n low => ?_⟩
  rw [← h.agree r has n low, ← h.agree i has' n low]

theorem firstOf_leaf {i : ι} : o.FirstOf (.leaf i) i := by
  refine ⟨.leaf i, fun j has less => ?_⟩
  rw [has_leaf.1 has] at less
  exact o.asymm less less

/-- Items of a branch come before those of the branches behind it. -/
theorem lt_of_before (h : OnWay digit q d (.inner f)) {c : β} {i j : ι} (hi : Has (f b) i)
    (hj : Has (f c) j) (before : o.before b c) : o.lt i j := by
  apply o.lex ((h.of_has (.inner hi)).agree j (.inner hj))
  rwa [h.placed.1 b i hi, h.placed.1 c j hj]

theorem firstOf_inner (h : OnWay digit q d (.inner f)) (first : o.FirstOf (f b) r)
    (empty : ∀ c, o.before c b → f c = .empty) : o.FirstOf (.inner f) r := by
  refine ⟨.inner first.1, fun j has => ?_⟩
  obtain ⟨c, has⟩ := has_inner.1 has
  rcases o.total b c with rfl | later | earlier
  · exact first.2 j has
  · exact o.asymm (lt_of_before h first.1 has later)
  · rw [empty c earlier] at has
    exact absurd has (not_has_empty j)

/-- An item of another branch lies behind the query if its branch does. -/
theorem lt_query_iff (h : OnWay digit q d (.inner f)) {i : ι} (has : Has (f b) i)
    (other : digit d q ≠ b) : o.lt q i ↔ o.before (digit d q) b := by
  have agree := h.agree i (.inner has)
  have digit_i := h.placed.1 b i has
  constructor
  · intro less
    rcases o.total (digit d q) b with same | later | earlier
    · exact absurd same other
    · exact later
    · exact absurd less (o.asymm (o.lex (agree_symm agree) (by rwa [digit_i])))
  · intro later
    exact o.lex agree (by rwa [digit_i])

theorem nextIn_leaf_of_lt {i : ι} (less : o.lt q i) : o.NextIn q (.leaf i : Trie β ι) (some i) := by
  refine ⟨.leaf i, less, fun j has _ => ?_⟩
  rw [has_leaf.1 has]
  exact fun less => o.asymm less less

theorem nextIn_leaf_of_not_lt {i : ι} (less : ¬o.lt q i) : o.NextIn q (.leaf i : Trie β ι) none := by
  intro j has
  rwa [has_leaf.1 has]

/-- The branch of the query has the item. -/
theorem nextIn_here (h : OnWay digit q d (.inner f)) (next : o.NextIn q (f (digit d q)) (some r)) :
    o.NextIn q (.inner f) (some r) := by
  obtain ⟨has_r, behind, least⟩ := next
  refine ⟨.inner has_r, behind, fun j has less => ?_⟩
  obtain ⟨c, has⟩ := has_inner.1 has
  by_cases same : digit d q = c
  · subst same
    exact least j has less
  · exact o.asymm (lt_of_before h has_r has ((lt_query_iff h has same).1 less))

/-- The branch of the query has none, and the branch is the first one behind it. -/
theorem nextIn_later (h : OnWay digit q d (.inner f)) (none_ : o.NextIn q (f (digit d q)) none)
    (later : o.before (digit d q) b) (first : o.FirstOf (f b) r)
    (empty : ∀ c, o.before (digit d q) c → o.before c b → f c = .empty) :
    o.NextIn q (.inner f) (some r) := by
  have other : digit d q ≠ b := by
    rintro rfl
    exact o.before_asymm later later
  refine ⟨.inner first.1, (lt_query_iff h first.1 other).2 later, fun j has less => ?_⟩
  obtain ⟨c, has⟩ := has_inner.1 has
  by_cases same : digit d q = c
  · subst same
    exact absurd less (none_ j has)
  rcases o.total b c with rfl | after | earlier
  · exact first.2 j has
  · exact o.asymm (lt_of_before h first.1 has after)
  · rw [empty c ((lt_query_iff h has same).1 less) earlier] at has
    exact absurd has (not_has_empty j)

theorem nextIn_none (h : OnWay digit q d (.inner f)) (none_ : o.NextIn q (f (digit d q)) none)
    (empty : ∀ c, o.before (digit d q) c → f c = .empty) : o.NextIn q (.inner f) none := by
  intro j has less
  obtain ⟨c, has⟩ := has_inner.1 has
  by_cases same : digit d q = c
  · subst same
    exact none_ j has less
  · rw [empty c ((lt_query_iff h has same).1 less)] at has
    exact not_has_empty j has

end Lexical

end RadixTree
