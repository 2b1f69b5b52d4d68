import JingtumCore.EntryHistories

/-!
# Iterating over a ledger and over a set

`getNextLedgerIndex` of a ledger and of a ledger entry set. The second merges the
indexes of the ledger, without those deleted in the set, with those of the set.
Index zero, which no entry has, is `none`.
-/
namespace Skywell
open Std LedgerEntrySet TransactionEngine
variable [Sha512Half]

/-- The answer is the least index above `uHash` of those that are there. -/
def LeastAbove (there : Key → Prop) (uHash : Nat) : Option Key → Prop
  | some k => there k ∧ uHash < Sha512Half.hash k ∧
      ∀ k', there k' → uHash < Sha512Half.hash k' → Sha512Half.hash k ≤ Sha512Half.hash k'
  | none => ∀ k, there k → ¬uHash < Sha512Half.hash k

section
variable {there there' : Key → Prop} {uHash : Nat} {a b : Option Key}

theorem LeastAbove.congr (h : LeastAbove there uHash a) (same : ∀ k, there k ↔ there' k) :
    LeastAbove there' uHash a := by
  have : there = there' := funext fun k => propext (same k)
  rwa [← this]

theorem LeastAbove.unique (ha : LeastAbove there uHash a) (hb : LeastAbove there uHash b) :
    a = b := by
  cases a with
  | none =>
    cases b with
    | none => rfl
    | some k => exact absurd hb.2.1 (ha k hb.1)
  | some k =>
    cases b with
    | none => exact absurd ha.2.1 (hb k ha.1)
    | some k' =>
      have le := ha.2.2 k' hb.1 hb.2.1
      have ge := hb.2.2 k ha.1 ha.2.1
      rw [Sha512Half.injective (Nat.le_antisymm le ge)]

/-- The earlier of two answers is the answer for both. -/
theorem LeastAbove.or {k : Key} (ha : LeastAbove there uHash (some k)) (hb : LeastAbove there' uHash b)
    (earlier : ∀ k' ∈ b, Sha512Half.hash k ≤ Sha512Half.hash k') :
    LeastAbove (fun k => there k ∨ there' k) uHash (some k) := by
  refine ⟨.inl ha.1, ha.2.1, fun k' either above => ?_⟩
  rcases either with first | second
  · exact ha.2.2 k' first above
  · cases b with
    | none => exact absurd above (hb k' second)
    | some m => exact (earlier m rfl).trans (hb.2.2 k' second above)

/-- The first index above `uHash` in an ascending list. -/
theorem leastAbove_find {l : List Key} (sorted : l.Pairwise fun x y => Key.cmp x y = .lt)
    (good : Key → Bool) :
    LeastAbove (fun k => k ∈ l ∧ good k = true) uHash
      (l.find? fun k => decide (uHash < Sha512Half.hash k) && good k) := by
  cases found : l.find? fun k => decide (uHash < Sha512Half.hash k) && good k with
  | none =>
    intro k there above
    have := List.find?_eq_none.1 found k there.1
    simp [above, there.2] at this
  | some k =>
    obtain ⟨good_k, front, back, rfl, before⟩ := List.find?_eq_some_iff_append.1 found
    rw [Bool.and_eq_true, decide_eq_true_eq] at good_k
    refine ⟨⟨by simp, good_k.2⟩, good_k.1, fun k' there above => ?_⟩
    rw [List.pairwise_append, List.pairwise_cons] at sorted
    rcases List.mem_append.1 there.1 with early | late
    · have := before k' early
      simp [above, there.2] at this
    · rcases List.mem_cons.1 late with rfl | late
      · exact le_rfl
      · exact (Nat.compare_eq_lt.1 (sorted.2.1.1 k' late)).le

/-- In an ascending list the indexes above `uHash` are a tail. -/
theorem find_dropWhile {l : List Key} (sorted : l.Pairwise fun x y => Key.cmp x y = .lt)
    {good : Key → Bool} :
    (l.dropWhile fun k => Sha512Half.hash k ≤ uHash).find? good =
      l.find? fun k => decide (uHash < Sha512Half.hash k) && good k := by
  suffices tail : l.dropWhile (fun k => Sha512Half.hash k ≤ uHash) =
      l.filter fun k => uHash < Sha512Half.hash k by
    rw [tail, List.find?_filter]
    simp [Bool.decide_eq_true]
  induction l with
  | nil => rfl
  | cons k l ih =>
    rw [List.pairwise_cons] at sorted
    by_cases above : uHash < Sha512Half.hash k
    · rw [List.dropWhile_cons_of_neg (by simpa using above), eq_comm, List.filter_eq_self]
      intro k' member
      rcases List.mem_cons.1 member with rfl | member
      · simpa using above
      · simpa using above.trans (Nat.compare_eq_lt.1 (sorted.1 k' member))
    · rw [List.dropWhile_cons_of_pos (by simpa using above), List.filter_cons_of_neg (by simpa using above)]
      exact ih sorted.2

end

namespace Ledger

/-- The next index in the contents of the state map, which the search in its tree finds. -/
def getNextLedgerIndex (l : Ledger) (uHash : Nat) : Option Key :=
  l.mAccountStateMap.keys.find? fun k => uHash < Sha512Half.hash k

/-- `getNextLedgerIndex (uHash, uEnd)`. -/
def getNextLedgerIndexUntil (l : Ledger) (uHash uEnd : Nat) : Option Key :=
  (l.getNextLedgerIndex uHash).filter fun k => Sha512Half.hash k ≤ uEnd

theorem getNextLedgerIndex_least (l : Ledger) (uHash : Nat) :
    LeastAbove (fun k => (l.getSLE k).isSome = true) uHash (l.getNextLedgerIndex uHash) := by
  have least := @leastAbove_find _ uHash _ l.mAccountStateMap.ordered_keys fun _ => true
  simp only [Bool.and_true] at least
  refine least.congr fun k => ?_
  rw [getSLE, ExtTreeMap.mem_keys]
  simp

/-- How many indexes of the ledger lie above `uHash`. -/
def countAbove (l : Ledger) (uHash : Nat) : Nat :=
  (l.mAccountStateMap.keys.filter fun k => uHash < Sha512Half.hash k).length

theorem countAbove_lt {l : Ledger} {uHash : Nat} {n : Key} (there : (l.getSLE n).isSome = true)
    (above : uHash < Sha512Half.hash n) : l.countAbove (Sha512Half.hash n) < l.countAbove uHash := by
  have sub : (l.mAccountStateMap.keys.filter fun k => Sha512Half.hash n < Sha512Half.hash k).Sublist
      ((l.mAccountStateMap.keys.filter fun k => uHash < Sha512Half.hash k).erase n) := by
    rw [(List.Nodup.filter _ ExtTreeMap.nodup_keys).erase_eq_filter, List.filter_filter]
    refine List.monotone_filter_right _ fun k larger => ?_
    simp only [decide_eq_true_eq] at larger
    simp only [bne_iff_ne, Bool.and_eq_true, decide_eq_true_eq]
    exact ⟨fun same => absurd (same ▸ larger) (lt_irrefl _), above.trans larger⟩
  have member : n ∈ l.mAccountStateMap.keys.filter fun k => uHash < Sha512Half.hash k := by
    rw [List.mem_filter, ExtTreeMap.mem_keys, ExtTreeMap.mem_iff_isSome_getElem?]
    exact ⟨there, by simpa using above⟩
  have less := sub.length_le
  rw [List.length_erase_of_mem member] at less
  have := List.length_pos_of_mem member
  unfold countAbove
  omega

end Ledger

namespace LedgerEntrySet

def marksDeleted (v : LedgerEntrySet) (k : Key) : Bool :=
  match v.mEntries[k]? with
  | some e => e.mAction == .taaDELETE
  | none => false

/-- The first loop: the next index of the ledger that the set does not delete. -/
def nextInLedger (v : LedgerEntrySet) : Nat → Nat → Except Fault (Option Key)
  | 0, _ => .error .endlessLoop
  | fuel + 1, uHash =>
    match v.mLedger.getNextLedgerIndex uHash with
    | none => .ok none
    | some ledgerNext =>
      if v.marksDeleted ledgerNext then nextInLedger v fuel (Sha512Half.hash ledgerNext)
      else .ok (some ledgerNext)

/-- The second loop: the next index in the set that is not deleted. -/
def nextInSet (v : LedgerEntrySet) (uHash : Nat) : Option Key :=
  (v.mEntries.keys.dropWhile fun k => Sha512Half.hash k ≤ uHash).find? fun k => !v.marksDeleted k

def getNextLedgerIndex (v : LedgerEntrySet) (fuel uHash : Nat) : Except Fault (Option Key) := do
  let ledgerNext ← v.nextInLedger fuel uHash
  match v.nextInSet uHash, ledgerNext with
  | some k, some n => return if Sha512Half.hash n < Sha512Half.hash k then some n else some k
  | some k, none => return some k
  | none, ledgerNext => return ledgerNext

/-- `getNextLedgerIndex (uHash, uEnd)`. -/
def getNextLedgerIndexUntil (v : LedgerEntrySet) (fuel uHash uEnd : Nat) :
    Except Fault (Option Key) := do
  return (← v.getNextLedgerIndex fuel uHash).filter fun k => Sha512Half.hash k ≤ uEnd

/-- The index is in the ledger and not marked as deleted, or it was created in the set. -/
def InView (v : LedgerEntrySet) (k : Key) : Prop :=
  (v.mLedger.getSLE k).isSome = true ∧ v.marksDeleted k = false ∨
    ∃ e, v.mEntries[k]? = some e ∧ e.mAction = .taaCREATE

variable {v : LedgerEntrySet} {uHash : Nat}

/-- Each turn of the loop leaves fewer indexes of the ledger above it. -/
theorem nextInLedger_least {fuel : Nat}
    (enough : v.mLedger.countAbove uHash < fuel) :
    ∃ r, v.nextInLedger fuel uHash = .ok r ∧
      LeastAbove (fun k => (v.mLedger.getSLE k).isSome = true ∧ v.marksDeleted k = false)
        uHash r := by
  induction fuel generalizing uHash with
  | zero => omega
  | succ fuel ih =>
    have least := v.mLedger.getNextLedgerIndex_least uHash
    rw [nextInLedger]
    cases next : v.mLedger.getNextLedgerIndex uHash with
    | none =>
      rw [next] at least
      exact ⟨none, rfl, fun k there => least k there.1⟩
    | some n =>
      rw [next] at least
      obtain ⟨there, above, below⟩ := least
      cases deleted : v.marksDeleted n with
      | false =>
        refine ⟨some n, ?_, ⟨there, deleted⟩, above, fun k h => below k h.1⟩
        simp [deleted]
      | true =>
        have fewer := Ledger.countAbove_lt there above
        obtain ⟨r, ran, least⟩ := ih (fewer.trans_le (Nat.lt_succ_iff.1 enough))
        refine ⟨r, by simpa [deleted] using ran, ?_⟩
        cases r with
        | none =>
          intro k there' above'
          refine least k there' (Nat.lt_of_le_of_ne (below k there'.1 above') fun same => ?_)
          rw [Sha512Half.injective same, there'.2] at deleted
          cases deleted
        | some m =>
          refine ⟨least.1, above.trans least.2.1, fun k there' above' => ?_⟩
          refine least.2.2 k there' (Nat.lt_of_le_of_ne (below k there'.1 above') fun same => ?_)
          rw [Sha512Half.injective same, there'.2] at deleted
          cases deleted

theorem nextInSet_least (v : LedgerEntrySet) (uHash : Nat) :
    LeastAbove (fun k => k ∈ v.mEntries ∧ v.marksDeleted k = false) uHash (v.nextInSet uHash) := by
  have least := @leastAbove_find _ uHash _ v.mEntries.ordered_keys fun k => !v.marksDeleted k
  have same : v.nextInSet uHash = v.mEntries.keys.find? fun k =>
      decide (uHash < Sha512Half.hash k) && !v.marksDeleted k :=
    find_dropWhile v.mEntries.ordered_keys
  rw [same]
  exact least.congr fun k => by simp

theorem mem_marksDeleted_iff {k : Key} :
    ((v.mLedger.getSLE k).isSome = true ∧ v.marksDeleted k = false ∨
      k ∈ v.mEntries ∧ v.marksDeleted k = false) ↔ (v.read k).isSome = true := by
  rw [ExtTreeMap.mem_iff_isSome_getElem?, read, marksDeleted]
  cases v.mEntries[k]? with
  | none => simp
  | some e =>
    obtain ⟨sle, action⟩ := e
    cases action <;> simp [LedgerEntrySetEntry.shown]

/-- The earlier of the two loops' answers is the next index of the view. -/
theorem getNextLedgerIndex_least (v : LedgerEntrySet) (uHash : Nat) {fuel : Nat}
    (enough : v.mLedger.mAccountStateMap.keys.length < fuel) :
    ∃ next, v.getNextLedgerIndex fuel uHash = .ok next ∧
      LeastAbove (fun k => (v.read k).isSome = true) uHash next := by
  obtain ⟨r, ran, least⟩ := @nextInLedger_least _ v uHash fuel
    ((List.length_filter_le _ _).trans_lt enough)
  have least' := nextInSet_least v uHash
  have both {next : Option Key} (h : LeastAbove (fun k => ((v.mLedger.getSLE k).isSome = true ∧
      v.marksDeleted k = false) ∨ k ∈ v.mEntries ∧ v.marksDeleted k = false) uHash next) :=
    h.congr fun k => mem_marksDeleted_iff
  rw [getNextLedgerIndex, ran]
  cases set : v.nextInSet uHash with
  | none =>
    rw [set] at least'
    refine ⟨r, rfl, both ?_⟩
    cases r with
    | none => exact fun k there => there.elim (least k) (least' k)
    | some n => exact least.or least' nofun
  | some m =>
    rw [set] at least'
    have second (earlier : ∀ k ∈ r, Sha512Half.hash m ≤ Sha512Half.hash k) :=
      both ((least'.or least earlier).congr fun k => or_comm)
    cases r with
    | none => exact ⟨some m, rfl, second nofun⟩
    | some n =>
      by_cases earlier : Sha512Half.hash n < Sha512Half.hash m
      · exact ⟨some n, by simp [earlier, pure, Except.pure],
          both (least.or least' fun k same => Option.mem_some.1 same ▸ earlier.le)⟩
      · exact ⟨some m, by simp [earlier, pure, Except.pure],
          second fun k same => Option.mem_some.1 same ▸ Nat.le_of_not_lt earlier⟩

end LedgerEntrySet

variable {l : Ledger} {calls : List (EntryCall × Bool)} {v : LedgerEntrySet}

theorem Simulates.inView_iff {m : StateMap} (h : Simulates l calls v m) (k : Key) :
    v.InView k ↔ (v.read k).isSome = true := by
  rw [InView, LedgerEntrySet.read, marksDeleted]
  cases entry : v.mEntries[k]? with
  | none => simp
  | some e =>
    have backed := h.backed k e entry
    rw [← h.ledger] at backed
    obtain ⟨sle, action⟩ := e
    cases action with
    | taaCACHED =>
      have base : v.mLedger.getSLE k = some sle := backed
      simp [LedgerEntrySetEntry.shown, base]
    | taaMODIFY =>
      have base : v.mLedger.getSLE k ≠ none := backed
      simp [LedgerEntrySetEntry.shown, Option.isSome_iff_ne_none.2 base]
    | taaDELETE => simp [LedgerEntrySetEntry.shown]
    | taaCREATE => simp [LedgerEntrySetEntry.shown]

/-- After any calls the set's next index is the least index of the view above `uHash`, and it is
the next index of the ledger that the set is committed to. -/
theorem getNextLedgerIndex_merged (h : History (fun v call => call.Current v) l calls v)
    (uHash : Nat) :
    ∃ bound, ∀ fuel, bound < fuel → ∃ next,
      v.getNextLedgerIndex fuel uHash = .ok next ∧ LeastAbove v.InView uHash next ∧
      next = (txnWrite v l).getNextLedgerIndex uHash ∧
      ∀ uEnd, v.getNextLedgerIndexUntil fuel uHash uEnd =
        .ok ((txnWrite v l).getNextLedgerIndexUntil uHash uEnd) := by
  have simulates := h.simulates
  refine ⟨v.mLedger.mAccountStateMap.keys.length, fun fuel enough => ?_⟩
  obtain ⟨next, ran, least⟩ := v.getNextLedgerIndex_least uHash enough
  have committed := (txnWrite v l).getNextLedgerIndex_least uHash
  have same (k : Key) : (v.read k).isSome = true ↔ ((txnWrite v l).getSLE k).isSome = true := by
    rw [← simulates.shows, ← (txnWrite_refines_direct h).1]
    rfl
  have equal := (least.congr same).unique committed
  refine ⟨next, ran, least.congr fun k => (simulates.inView_iff k).symm, equal, fun uEnd => ?_⟩
  rw [getNextLedgerIndexUntil, ran, equal]
  rfl

omit [Sha512Half] in
/-- The created index comes in the place of the deleted one, and the ledger's own after it. -/
theorem getNextLedgerIndex_merged_replaced : ∃ (_ : Sha512Half) (fuel : Nat),
    replacedRoot.getNextLedgerIndex fuel 0 = .ok (some (.account 6)) ∧
      replacedRoot.getNextLedgerIndex fuel (Sha512Half.hash (.account 6)) =
        .ok (some (.account 7)) := by
  let hash := Key.coded
  have committed : (txnWrite replacedRoot twoRoots).getNextLedgerIndex 0 = some (.account 6) ∧
      (txnWrite replacedRoot twoRoots).getNextLedgerIndex (Sha512Half.hash (.account 6)) =
        some (.account 7) := by
    decide +kernel
  obtain ⟨b1, first⟩ := getNextLedgerIndex_merged replacedRoot_history 0
  obtain ⟨b2, second⟩ :=
    getNextLedgerIndex_merged replacedRoot_history (Sha512Half.hash (.account 6))
  obtain ⟨n1, ran1, -, same1, -⟩ := first (b1 + b2 + 1) (by omega)
  obtain ⟨n2, ran2, -, same2, -⟩ := second (b1 + b2 + 1) (by omega)
  rw [same1, committed.1] at ran1
  rw [same2, committed.2] at ran2
  exact ⟨hash, b1 + b2 + 1, ran1, ran2⟩

end Skywell
