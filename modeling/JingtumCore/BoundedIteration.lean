import JingtumCore.SHAMapSearch
import JingtumCore.LedgerIteration

/-!
# Iterating over an interval of a state map

The functions of a ledger that look for the next and the previous index in its state map, over the
search in the tree of the map. The one for the previous index with a bound looks for the next one.
-/
namespace Skywell.SHAMapSync
open SHAMapTree ExceptFold RadixTree

namespace LoadedMap

/-- The tag of an item, or zero. -/
def tagOf (node : Option SHAMapItem) : Tag := (node.map SHAMapItem.tag).getD 0

variable (m : LoadedMap)

/-- `Ledger::getNextLedgerIndex` of a ledger with this state map. -/
def getNextLedgerIndex (uHash : Tag) : Except Fault Tag := do
  let node ← m.source.peekNextItem m.root_ uHash
  return tagOf node

/-- The next index, or zero if it fails the test. -/
def nextUnless (outside : Tag → Bool) (uHash : Tag) : Except Fault Tag := do
  let node ← m.source.peekNextItem m.root_ uHash
  return if node.isNone || outside (tagOf node) then 0 else tagOf node

/-- `getNextLedgerIndex (uHash, uEnd)`. -/
def getNextLedgerIndexUntil (uHash uEnd : Tag) : Except Fault Tag :=
  m.nextUnless (fun tag => tag > uEnd) uHash

def getPrevLedgerIndex (uHash : Tag) : Except Fault Tag := do
  let node ← m.source.peekPrevItem m.root_ uHash
  return tagOf node

/-- `getPrevLedgerIndex (uHash, uBegin)`, which calls `peekNextItem` too. -/
def getPrevLedgerIndexFrom (uHash uBegin : Tag) : Except Fault Tag :=
  m.nextUnless (fun tag => tag < uBegin) uHash

/-- The answer is the nearest tag if that is inside, and else zero. -/
def Bounded (dir : Direction) (inside : Tag → Prop) (uHash r : Tag) : Prop :=
  (∃ n, m.Nearest dir uHash n ∧ inside n ∧ r = n) ∨
    (∀ n, m.Nearest dir uHash n → ¬inside n) ∧ r = 0

/-- The answers of repeated calls up to the first zero; each call has its own state of the map. -/
def visited (call : Nat → Tag → Except Fault Tag) : Nat → Tag → Except Fault (List Tag)
  | 0, _ => .error .endlessLoop
  | fuel + 1, uHash => do
    let next ← call fuel uHash
    if next = 0 then return []
    return next :: (← visited call fuel next)

/-- The states of a map that holds what `m` holds, with other nodes linked or stored. -/
abbrev Version : Type := { m' : LoadedMap // ∀ tag, m'.Holds tag ↔ m.Holds tag }

variable {m} {uHash uBegin uEnd n : Tag} {dir : Direction}

theorem Nearest.congr {m' : LoadedMap} (same : ∀ tag, m'.Holds tag ↔ m.Holds tag)
    (h : m'.Nearest dir uHash n) : m.Nearest dir uHash n := by
  obtain ⟨held, past, least⟩ := h
  exact ⟨(same n).1 held, past, fun j held => least j ((same j).2 held)⟩

theorem next_past {a b : Tag} : Direction.next.past a b = true ↔ a < b := decide_eq_true_iff

theorem prev_past {a b : Tag} : Direction.prev.past a b = true ↔ b < a := decide_eq_true_iff

theorem Nearest.unique_next {n' : Tag} (h : m.Nearest .next uHash n) (h' : m.Nearest .next uHash n') :
    n = n' := by
  have first := h.2.2 n' h'.1 h'.2.1
  have second := h'.2.2 n h.1 h.2.1
  rw [next_past] at first second
  exact BitVec.le_antisymm (BitVec.not_lt.1 first) (BitVec.not_lt.1 second)

/-- The two outcomes of the search, as the callers see them. -/
theorem peekNextItem_spec (m : LoadedMap) (uHash : Tag) :
    ∃ node, m.source.peekNextItem m.root_ uHash = .ok node ∧
      ((∃ item, node = some item ∧ m.Nearest .next uHash item.tag) ∨
        node = none ∧ ∀ n, m.Holds n → ¬uHash < n) := by
  rcases m.peekItemPast_spec sound_next uHash with ⟨item, found, nearest⟩ | ⟨found, none_⟩
  · exact ⟨_, found, .inl ⟨item, rfl, nearest⟩⟩
  · exact ⟨_, found, .inr ⟨rfl, fun n held above => none_ n held (next_past.2 above)⟩⟩

theorem nextUnless_bounded (m : LoadedMap) (outside : Tag → Bool) (uHash : Tag) :
    ∃ r, m.nextUnless outside uHash = .ok r ∧
      m.Bounded .next (fun tag => outside tag = false) uHash r := by
  obtain ⟨node, found, answer⟩ := m.peekNextItem_spec uHash
  unfold nextUnless
  rw [found, ok_bind]
  refine ⟨_, rfl, ?_⟩
  obtain ⟨item, rfl, nearest⟩ | ⟨rfl, none_⟩ := answer
  · have tag : tagOf (some item) = item.tag := rfl
    rw [tag, Option.isNone_some, Bool.false_or]
    cases inside : outside item.tag with
    | false => exact .inl ⟨item.tag, nearest, inside, rfl⟩
    | true =>
      refine .inr ⟨fun n nearest' => ?_, rfl⟩
      rw [← nearest.unique_next nearest']
      simp [inside]
  · exact .inr ⟨fun n nearest => absurd (next_past.1 nearest.2.1) (none_ n nearest.1), rfl⟩

/-- Without a bound the previous index is found too. -/
theorem getPrevLedgerIndex_bounded (m : LoadedMap) (uHash : Tag) :
    ∃ r, m.getPrevLedgerIndex uHash = .ok r ∧ m.Bounded .prev (fun _ => True) uHash r := by
  unfold getPrevLedgerIndex Source.peekPrevItem
  rcases m.peekItemPast_spec sound_prev uHash with ⟨item, found, nearest⟩ | ⟨found, none_⟩
  · rw [found, ok_bind]
    exact ⟨_, rfl, .inl ⟨item.tag, nearest, trivial, rfl⟩⟩
  · rw [found, ok_bind]
    exact ⟨_, rfl, .inr ⟨fun n nearest => absurd nearest.2.1 (none_ n nearest.1), rfl⟩⟩

variable {outside : Tag → Bool}

theorem Version.answers (m' : m.Version) (nearest : m.Nearest .next uHash n)
    (inside : outside n = false) : m'.1.nextUnless outside uHash = .ok n := by
  obtain ⟨r, ran, ⟨n', nearest', -, rfl⟩ | ⟨none_, -⟩⟩ := m'.1.nextUnless_bounded outside uHash
  · rw [ran, (nearest'.congr m'.2).unique_next nearest]
  · exact absurd inside (none_ n (nearest.congr fun tag => (m'.2 tag).symm))

theorem Version.ends (m' : m.Version)
    (none_ : ∀ n, m.Nearest .next uHash n → outside n = true) :
    m'.1.nextUnless outside uHash = .ok 0 := by
  obtain ⟨r, ran, ⟨n', nearest', inside, rfl⟩ | ⟨-, rfl⟩⟩ := m'.1.nextUnless_bounded outside uHash
  · rw [none_ _ (nearest'.congr m'.2)] at inside
    cases inside
  · exact ran

/-- A tag above is the nearest one, or there is a nearer one. -/
theorem exists_nearest (held : m.Holds n) (above : uHash < n) :
    ∃ n', m.Nearest .next uHash n' ∧ n' ≤ n := by
  obtain ⟨node, -, ⟨item, -, nearest⟩ | ⟨-, none_⟩⟩ := m.peekNextItem_spec uHash
  · have least := nearest.2.2 n held (next_past.2 above)
    rw [next_past, BitVec.not_lt] at least
    exact ⟨item.tag, nearest, least⟩
  · exact absurd above (none_ n held)

/-- Going up visits the tags of the interval in their order, and then stops. -/
theorem visited_next (maps : Nat → m.Version) (uHash uEnd : Tag) :
    ∃ l : List Tag, (∀ fuel, l.length < fuel →
        visited (fun i k => (maps i).1.getNextLedgerIndexUntil k uEnd) fuel uHash = .ok l) ∧
      l.Pairwise (· < ·) ∧ ∀ tag, tag ∈ l ↔ m.Holds tag ∧ uHash < tag ∧ tag ≤ uEnd := by
  induction left : 2 ^ 256 - uHash.toNat using Nat.strong_induction_on generalizing uHash with
  | h left ih =>
  by_cases next : ∃ n, m.Nearest .next uHash n ∧ n ≤ uEnd
  · obtain ⟨n, nearest, inside⟩ := next
    have above := next_past.1 nearest.2.1
    have nonzero : n ≠ 0 := by
      rintro rfl
      exact absurd above (by simp)
    obtain ⟨l, visits, sorted, members⟩ := ih (2 ^ 256 - n.toNat) (by
      have := n.isLt
      rw [BitVec.lt_def] at above
      omega) n rfl
    refine ⟨n :: l, fun fuel enough => ?_, ?_, fun tag => ?_⟩
    · obtain ⟨fuel, rfl⟩ : ∃ k, fuel = k + 1 := ⟨fuel - 1, by omega⟩
      have rest := visits fuel (Nat.lt_of_succ_lt_succ enough)
      have first : (maps fuel).1.getNextLedgerIndexUntil uHash uEnd = .ok n :=
        (maps fuel).answers nearest (decide_eq_false (BitVec.not_lt.2 inside))
      rw [visited, first, ok_bind, if_neg nonzero, rest]
      rfl
    · refine List.pairwise_cons.2 ⟨fun tag member => ?_, sorted⟩
      exact ((members tag).1 member).2.1
    · rw [List.mem_cons, members]
      constructor
      · rintro (rfl | ⟨held, later, inside'⟩)
        · exact ⟨nearest.1, above, inside⟩
        · exact ⟨held, BitVec.lt_trans above later, inside'⟩
      · rintro ⟨held, later, inside'⟩
        have least := nearest.2.2 tag held (next_past.2 later)
        rw [next_past, BitVec.not_lt] at least
        by_cases same : tag = n
        · exact .inl same
        · exact .inr ⟨held, BitVec.lt_of_le_ne least (Ne.symm same), inside'⟩
  · refine ⟨[], fun fuel enough => ?_, .nil, fun tag => ?_⟩
    · obtain ⟨fuel, rfl⟩ : ∃ k, fuel = k + 1 := ⟨fuel - 1, by omega⟩
      have none_ : (maps fuel).1.getNextLedgerIndexUntil uHash uEnd = .ok 0 := by
        refine (maps fuel).ends fun n nearest => decide_eq_true (BitVec.not_le.1 fun inside => ?_)
        exact next ⟨n, nearest, inside⟩
      rw [visited, none_, ok_bind, if_pos rfl]
      rfl
    · simp only [List.not_mem_nil, false_iff]
      rintro ⟨held, above, inside⟩
      obtain ⟨n, nearest, less⟩ := exists_nearest held above
      exact next ⟨n, nearest, BitVec.le_trans less inside⟩

variable (m) in
/-- Going up through an interval is as it should be. Going down looks for the next index too, so it
is right exactly if there is nothing to find in either direction. -/
theorem bounded_iteration_iff (maps : Nat → m.Version) (uHash uBegin uEnd : Tag) :
    (∃ r, m.getNextLedgerIndexUntil uHash uEnd = .ok r ∧ m.Bounded .next (· ≤ uEnd) uHash r) ∧
    (∃ l : List Tag, (∀ fuel, l.length < fuel →
        visited (fun i k => (maps i).1.getNextLedgerIndexUntil k uEnd) fuel uHash = .ok l) ∧
      l.Pairwise (· < ·) ∧ ∀ tag, tag ∈ l ↔ m.Holds tag ∧ uHash < tag ∧ tag ≤ uEnd) ∧
    ((∃ r, m.getPrevLedgerIndexFrom uHash uBegin = .ok r ∧ m.Bounded .prev (uBegin ≤ ·) uHash r) ∧
      (∃ l : List Tag, (∀ fuel, l.length < fuel →
          visited (fun i k => (maps i).1.getPrevLedgerIndexFrom k uBegin) fuel uHash = .ok l) ∧
        ∀ tag, tag ∈ l ↔ m.Holds tag ∧ tag < uHash ∧ uBegin ≤ tag) ↔
      (∀ tag, m.Holds tag → tag < uHash → tag < uBegin) ∧
        ∀ n, m.Nearest .next uHash n → n < uBegin) := by
  refine ⟨?_, visited_next maps uHash uEnd, ?_, ?_⟩
  · obtain ⟨r, ran, answer⟩ := m.nextUnless_bounded (fun tag => tag > uEnd) uHash
    have inside : (fun tag : Tag => decide (tag > uEnd) = false) = (· ≤ uEnd) := by
      funext tag
      simp [BitVec.not_lt]
    exact ⟨r, ran, inside ▸ answer⟩
  · rintro ⟨⟨r, ran, right⟩, l, visits, members⟩
    have above : ∀ n, m.Nearest .next uHash n → n < uBegin := by
      intro n nearest
      by_contra inside
      have past := next_past.1 nearest.2.1
      have answer : m.getPrevLedgerIndexFrom uHash uBegin = .ok n :=
        Version.answers ⟨m, fun _ => Iff.rfl⟩ nearest (decide_eq_false inside)
      -- the answer lies above
      obtain rfl : n = r := Except.ok.inj (answer.symm.trans ran)
      rcases right with ⟨n', nearest', -, rfl⟩ | ⟨-, rfl⟩
      · exact absurd past (BitVec.lt_asymm (prev_past.1 nearest'.2.1))
      · exact absurd past (by simp)
    refine ⟨fun tag held less => ?_, above⟩
    have none_ (m' : m.Version) : m'.1.getPrevLedgerIndexFrom uHash uBegin = .ok 0 :=
      m'.ends fun n nearest => decide_eq_true (above n nearest)
    have last := visits (l.length + 1) (Nat.lt_succ_self _)
    rw [visited, none_, ok_bind, if_pos rfl] at last
    obtain rfl : [] = l := Except.ok.inj last
    by_contra inside
    exact absurd ((members tag).2 ⟨held, less, BitVec.not_lt.1 inside⟩) (List.not_mem_nil)
  · rintro ⟨below, above⟩
    have none_ (m' : m.Version) : m'.1.getPrevLedgerIndexFrom uHash uBegin = .ok 0 :=
      m'.ends fun n nearest => decide_eq_true (above n nearest)
    refine ⟨⟨0, none_ ⟨m, fun _ => Iff.rfl⟩, .inr ⟨fun n nearest => ?_, rfl⟩⟩, [], ?_, fun tag => ?_⟩
    · exact BitVec.not_le.2 (below n nearest.1 (prev_past.1 nearest.2.1))
    · intro fuel enough
      obtain ⟨fuel, rfl⟩ : ∃ k, fuel = k + 1 := ⟨fuel - 1, by omega⟩
      rw [visited, none_, ok_bind, if_pos rfl]
      rfl
    · simp only [List.not_mem_nil, false_iff]
      rintro ⟨held, less, inside⟩
      exact absurd inside (BitVec.not_le.2 (below tag held less))

/-- A database with one leaf, under its hash. -/
def oneLeaf : Family :=
  { emptyFamily with
    fetchNodeFromDB := fun hash => if hash = 7 then .leaf ⟨5, []⟩ .tnACCOUNT_STATE 7 else .null
    fetchNodeFromDB_given := fun hash => by
      by_cases stored : hash = 7
      · subst stored
        exact .inr ⟨rfl, trivial⟩
      · rw [if_neg stored]
        exact .inl rfl }

def middle : Tag := .ofNat 256 (4 * 16 ^ 63)

def upper : Tag := .ofNat 256 (9 * 16 ^ 63)

/-- The branches of a map with the tags 5, whose leaf is not linked yet, and `upper`. -/
def twoBranches (b : Fin 16) : Trie (Fin 16) SHAMapItem :=
  if b.val = 0 then .leaf ⟨5, []⟩ else if b.val = 9 then .leaf ⟨upper, []⟩ else .empty

theorem twoBranches_cases (b : Fin 16) :
    b = 0 ∧ twoBranches b = .leaf ⟨5, []⟩ ∨ b = 9 ∧ twoBranches b = .leaf ⟨upper, []⟩ ∨
      (b.val = 0 || b.val = 9) = false ∧ twoBranches b = .empty := by
  by_cases first : b.val = 0
  · exact .inl ⟨Fin.ext first, if_pos first⟩
  by_cases second : b.val = 9
  · exact .inr (.inl ⟨Fin.ext second, by rw [twoBranches, if_neg first, if_pos second]⟩)
  · exact .inr (.inr ⟨by simp [first, second], by rw [twoBranches, if_neg first, if_neg second]⟩)

def twoRoot : TreeNode :=
  .innerNode (fun b => b.val = 0 || b.val = 9) (fun _ => 7)
    (fun b => if b.val = 9 then .leaf ⟨upper, []⟩ .tnACCOUNT_STATE 8 else .null) 10 0

theorem loads_twoBranches : (⟨oneLeaf, true⟩ : Source).Loads (.inner twoBranches) twoRoot := by
  refine ⟨⟨_, _, _, _, _, rfl⟩, fun b => ?_⟩
  rcases twoBranches_cases b with ⟨rfl, item⟩ | ⟨rfl, item⟩ | ⟨none_, item⟩
  · rw [item]
    exact .inr ⟨rfl, .tnACCOUNT_STATE, 7, rfl⟩
  · rw [item]
    exact .inr ⟨rfl, .tnACCOUNT_STATE, 8, rfl⟩
  · exact .inl ⟨by rw [twoRoot, TreeNode.isEmptyBranch, none_]; rfl, item⟩

theorem placed_twoBranches : Placed digit 0 (.inner twoBranches) := by
  refine ⟨fun b i has => ?_, fun b => ?_⟩
  · rcases twoBranches_cases b with ⟨rfl, item⟩ | ⟨rfl, item⟩ | ⟨none_, item⟩
    · rw [item] at has
      rw [has_leaf.1 has]
      decide +kernel
    · rw [item] at has
      rw [has_leaf.1 has]
      decide +kernel
    · rw [item] at has
      exact absurd has (not_has_empty i)
  · rcases twoBranches_cases b with ⟨-, item⟩ | ⟨-, item⟩ | ⟨-, item⟩
    all_goals
      rw [item]
      trivial

theorem branching_twoBranches (b : Fin 16) : Branching (twoBranches b) := by
  rcases twoBranches_cases b with ⟨-, item⟩ | ⟨-, item⟩ | ⟨-, item⟩
  all_goals
    rw [item]
    trivial

def twoItems : LoadedMap :=
  ⟨⟨oneLeaf, true⟩, twoRoot, twoBranches, loads_twoBranches, placed_twoBranches, branching_twoBranches⟩

/-- The index before `middle` is 5, and the next one is the answer. -/
theorem getPrevLedgerIndexFrom_above :
    twoItems.getPrevLedgerIndex middle = .ok 5 ∧
      twoItems.getPrevLedgerIndexFrom middle 0 = .ok upper ∧
      ¬twoItems.Bounded .prev (0 ≤ ·) middle upper := by
  refine ⟨by decide +kernel, by decide +kernel, ?_⟩
  rintro (⟨n, nearest, -, rfl⟩ | ⟨-, zero⟩)
  · exact absurd (prev_past.1 nearest.2.1) (by decide +kernel)
  · exact absurd zero (by decide +kernel)

end LoadedMap

section
variable [Sha512Half]

/-- The tree of the state map of a ledger: its tags are the indexes of the entries. -/
structure LoadedMap.Shows (m : LoadedMap) (l : Ledger) : Prop where
  short : ∀ k, (l.getSLE k).isSome = true → Sha512Half.hash k < 2 ^ 256
  holds : ∀ tag, m.Holds tag ↔ ∃ k, (l.getSLE k).isSome = true ∧ Sha512Half.hash k = tag.toNat

/-- The search in the tree finds what the ledger's finite map gives. -/
theorem LoadedMap.Shows.getNextLedgerIndex_eq {m : LoadedMap} {l : Ledger} (h : m.Shows l)
    (uHash : Tag) : m.getNextLedgerIndex uHash =
      .ok (((l.getNextLedgerIndex uHash.toNat).map fun k =>
        BitVec.ofNat 256 (Sha512Half.hash k)).getD 0) := by
  have least := l.getNextLedgerIndex_least uHash.toNat
  obtain ⟨node, found, answer⟩ := m.peekNextItem_spec uHash
  unfold LoadedMap.getNextLedgerIndex
  rw [found, ok_bind]
  obtain ⟨item, rfl, ⟨held, past, nearest⟩⟩ | ⟨rfl, none_⟩ := answer
  · obtain ⟨k, there, tag⟩ := (h.holds item.tag).1 held
    have above : uHash.toNat < Sha512Half.hash k := by
      rw [tag]
      exact LoadedMap.next_past.1 past
    have first : LeastAbove (fun k => (l.getSLE k).isSome = true) uHash.toNat (some k) := by
      refine ⟨there, above, fun k' there' above' => ?_⟩
      have small := h.short k' there'
      have back : (BitVec.ofNat 256 (Sha512Half.hash k')).toNat = Sha512Half.hash k' := by
        rw [BitVec.toNat_ofNat, Nat.mod_eq_of_lt small]
      have le := nearest (.ofNat 256 (Sha512Half.hash k'))
        ((h.holds _).2 ⟨k', there', back.symm⟩) (LoadedMap.next_past.2 (by rwa [BitVec.lt_def, back]))
      rw [LoadedMap.next_past, BitVec.not_lt, BitVec.le_def, back] at le
      rwa [tag]
    rw [least.unique first, Option.map_some, Option.getD_some, tag, BitVec.ofNat_toNat,
      BitVec.setWidth_eq]
    rfl
  · have nothing : LeastAbove (fun k => (l.getSLE k).isSome = true) uHash.toNat none := by
      intro k there above
      have small := h.short k there
      have back : (BitVec.ofNat 256 (Sha512Half.hash k)).toNat = Sha512Half.hash k := by
        rw [BitVec.toNat_ofNat, Nat.mod_eq_of_lt small]
      exact none_ _ ((h.holds _).2 ⟨k, there, back.symm⟩) (by rwa [BitVec.lt_def, back])
    rw [least.unique nothing]
    rfl

end

end Skywell.SHAMapSync
