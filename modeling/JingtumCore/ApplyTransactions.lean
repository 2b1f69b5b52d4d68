import JingtumCore.LedgerConsensus
import JingtumCore.MonadCongruence
import JingtumCore.TransactionEngine

/-!
# Applying a set of transactions

`CanonicalTXSet`, and `applyTransaction` and `applyTransactions` of the
consensus code. The two functions are written in any monad: a node runs them
among its other threads, a proof about the ledger alone runs them on the engine.
-/
namespace Skywell
open Std

namespace CanonicalTXSet

/-- What the transactions of a set are ordered by. -/
structure Key where
  mAccount : Nat
  mSeq : UInt32
  mTXid : TxID
  deriving DecidableEq

/-- `operator<`. -/
def Key.cmp : Key → Key → Ordering :=
  compareLex (compareOn Key.mAccount) (compareLex (compareOn Key.mSeq) (compareOn Key.mTXid))

instance : TransCmp Key.cmp := inferInstanceAs (TransCmp (compareLex _ _))

theorem Key.eq_of_cmp {a b : Key} (h : Key.cmp a b = .eq) : a = b := by
  simp only [Key.cmp, compareLex, compareOn, Ordering.then_eq_eq] at h
  obtain ⟨account, seq, id⟩ := h
  obtain ⟨_, _, _⟩ := a
  obtain ⟨_, _, _⟩ := b
  simp_all

instance : LawfulEqCmp Key.cmp where
  compare_self := ReflCmp.compare_self
  eq_of_compare := Key.eq_of_cmp

/-- `to256`: an account in the leading bytes of a 256-bit number. -/
def to256 (a : Account) : Nat := a <<< 96

end CanonicalTXSet

structure CanonicalTXSet where
  mSetHash : TxSetHash
  mMap : ExtTreeMap CanonicalTXSet.Key STTx CanonicalTXSet.Key.cmp := ∅

namespace CanonicalTXSet

def key (s : CanonicalTXSet) (txn : STTx) : Key :=
  ⟨s.mSetHash ^^^ to256 txn.getSourceAccount, txn.getSequence, txn.getTransactionID⟩

/-- `push_back`; a transaction that is there stays. -/
def push_back (s : CanonicalTXSet) (txn : STTx) : CanonicalTXSet :=
  { s with mMap := s.mMap.insertIfNew (s.key txn) txn }

def erase (s : CanonicalTXSet) (k : Key) : CanonicalTXSet := { s with mMap := s.mMap.erase k }

def reset (_ : CanonicalTXSet) (newLastClosedLedgerHash : LedgerHash) : CanonicalTXSet :=
  { mSetHash := newLastClosedLedgerHash }

/-- Every transaction of the set is one of `T`, and is there under its id. -/
def Holds (s : CanonicalTXSet) (T : STTx → Prop) : Prop :=
  ∀ (k : Key) (txn : STTx), s.mMap[k]? = some txn → k.mTXid = txn.getTransactionID ∧ T txn

variable {s : CanonicalTXSet} {T : STTx → Prop}

theorem holds_empty {setHash : TxSetHash} : Holds { mSetHash := setHash } T := by
  intro k txn h
  simp at h

theorem Holds.push_back {txn : STTx} (h : s.Holds T) (ht : T txn) : (s.push_back txn).Holds T := by
  intro k txn' hk
  rw [CanonicalTXSet.push_back, ExtTreeMap.getElem?_insertIfNew] at hk
  split at hk
  · rename_i new
    obtain rfl := LawfulEqCmp.eq_of_compare new.1
    cases hk
    exact ⟨rfl, ht⟩
  · exact h k txn' hk

theorem Holds.foldl_push_back (h : s.Holds fun _ => True) (txns : List STTx) :
    (txns.foldl CanonicalTXSet.push_back s).Holds fun _ => True :=
  List.foldlRecOn (motive := fun s : CanonicalTXSet => s.Holds fun _ => True) txns _ h
    fun _ hs _ _ => hs.push_back trivial

theorem Holds.erase {k : Key} (h : s.Holds T) : (s.erase k).Holds T := by
  intro k' txn hk
  rw [CanonicalTXSet.erase, ExtTreeMap.getElem?_erase] at hk
  split at hk
  · cases hk
  · exact h k' txn hk

theorem Holds.mem_toList {item : Key × STTx} (h : s.Holds T) (hi : item ∈ s.mMap.toList) :
    item.1.mTXid = item.2.getTransactionID ∧ T item.2 :=
  h item.1 item.2 (ExtTreeMap.mem_toList_iff_getElem?_eq_some.1 hi)

end CanonicalTXSet

/-- The `SF_` flags of a hash. -/
structure SuppressionFlags where
  SF_RELAYED : Bool := false
  SF_BAD : Bool := false
  SF_SIGGOOD : Bool := false
  SF_SAVED : Bool := false
  SF_RETRY : Bool := false
  SF_TRUSTED : Bool := false
  deriving DecidableEq

inductive ApplyResult where
  | resultSuccess | resultFail | resultRetry
  deriving DecidableEq

def LEDGER_TOTAL_PASSES : Nat := 3

def LEDGER_RETRY_PASSES : Nat := 1

/-- What an engine's result means for the rest of the set. -/
def ApplyResult.of : Except Fault (TER × Bool) → ApplyResult
  | .error _ => .resultFail
  | .ok (ter, didApply) =>
    if didApply then .resultSuccess
    else if isTefFailure ter || isTemMalformed ter || isTelLocal ter then .resultFail
    else .resultRetry

namespace Consensus
variable {m : Type → Type} [Monad m]

/-- `applyTransaction` of the consensus code, given the flags of a hash, the
engine and the close time of its ledger. -/
def applyTransaction (getFlags : TxID → m SuppressionFlags)
    (engine : STTx → TransactionEngineParams → m (Except Fault (TER × Bool)))
    (closeTimeNC : UInt32) (openLedger : Bool) (txn : STTx) (retryAssured : Bool) :
    m ApplyResult := do
  let flags ← getFlags txn.getTransactionID
  let parms : TransactionEngineParams := {
    tapOPEN_LEDGER := openLedger
    tapRETRY := retryAssured
    tapNO_CHECK_SIGN := flags.SF_SIGGOOD }
  if !openLedger && txn.getTimestamp ≥ closeTimeNC - 1 then return .resultRetry
  let result ← engine txn parms
  return .of result

/-- One item of the set: it is applied unless the reference ledger has it, and
kept for later if it is to be retried. An item that is not a transaction is
passed over. -/
def applyItem (hasTransaction : TxID → m Bool) (apply : STTx → Bool → m ApplyResult)
    (retriableTransactions : CanonicalTXSet) (item : TxID × Option STTx) :
    m CanonicalTXSet := do
  if ← hasTransaction item.1 then return retriableTransactions
  match item.2 with
  | none => return retriableTransactions
  | some txn =>
    match ← apply txn true with
    | .resultRetry => return retriableTransactions.push_back txn
    | _ => return retriableTransactions

/-- One transaction of a pass over those to be retried, with the number of changes. -/
def retryItem (apply : STTx → Bool → m ApplyResult) (certainRetry : Bool)
    (acc : CanonicalTXSet × Nat) (item : CanonicalTXSet.Key × STTx) :
    m (CanonicalTXSet × Nat) := do
  match ← apply item.2 certainRetry with
  | .resultSuccess => return (acc.1.erase item.1, acc.2 + 1)
  | .resultFail => return (acc.1.erase item.1, acc.2)
  | .resultRetry => return acc

/-- The passes from `pass` on, `passes` of them at most. -/
def retryPasses (apply : STTx → Bool → m ApplyResult) :
    Nat → Nat → Bool → CanonicalTXSet → m CanonicalTXSet
  | 0, _, _, retriableTransactions => return retriableTransactions
  | passes + 1, pass, certainRetry, retriableTransactions => do
    let (retriableTransactions, changes) ← retriableTransactions.mMap.toList.foldlM
      (retryItem apply certainRetry) (retriableTransactions, 0)
    if changes = 0 && !certainRetry then return retriableTransactions
    let certainRetry :=
      if changes = 0 || pass ≥ LEDGER_RETRY_PASSES then false else certainRetry
    retryPasses apply passes (pass + 1) certainRetry retriableTransactions

/-- `applyTransactions`: the items of a set in the order of their ids, then the
passes over the transactions to be retried, which are returned. -/
def applyTransactions (hasTransaction : TxID → m Bool) (apply : STTx → Bool → m ApplyResult)
    (set : List (TxID × Option STTx)) (retriableTransactions : CanonicalTXSet) :
    m CanonicalTXSet := do
  let retriableTransactions ← set.foldlM (applyItem hasTransaction apply) retriableTransactions
  retryPasses apply LEDGER_TOTAL_PASSES 0 true retriableTransactions

variable {n : Type → Type} [Monad n] (C : Congruence m n) {T : STTx → Prop}
  {hasTransaction : TxID → m Bool} {hasTransaction' : TxID → n Bool}
  {apply : STTx → Bool → m ApplyResult} {apply' : STTx → Bool → n ApplyResult}
  {certainRetry : Bool} {s : CanonicalTXSet}
  (has : ∀ id, C.rel (fun _ => True) (hasTransaction id) (hasTransaction' id))
  (app : ∀ txn retry, T txn → C.rel (fun _ => True) (apply txn retry) (apply' txn retry))
include app

include has in
theorem applyItem_rel {item : TxID × Option STTx} (hs : s.Holds T)
    (hi : ∀ txn, item.2 = some txn → T txn) :
    C.rel (·.Holds T) (applyItem hasTransaction apply s item)
      (applyItem hasTransaction' apply' s item) := by
  obtain ⟨id, parsed⟩ := item
  refine C.bind (has id) fun known _ => ?_
  refine C.ite (C.pure hs) ?_
  cases parsed with
  | none => exact C.pure hs
  | some txn =>
    refine C.bind (app txn true (hi txn rfl)) fun result _ => ?_
    cases result with
    | resultRetry => exact C.pure (hs.push_back (hi txn rfl))
    | _ => exact C.pure hs

theorem retryItem_rel {acc : CanonicalTXSet × Nat} {item : CanonicalTXSet.Key × STTx}
    (hs : acc.1.Holds T) (hi : T item.2) : C.rel (·.1.Holds T) (retryItem apply certainRetry acc item)
      (retryItem apply' certainRetry acc item) := by
  refine C.bind (app item.2 certainRetry hi) fun result _ => ?_
  cases result with
  | resultRetry => exact C.pure hs
  | _ => exact C.pure hs.erase

theorem retryPasses_rel (passes pass : Nat) (hs : s.Holds T) :
    C.rel (·.Holds T) (retryPasses apply passes pass certainRetry s)
      (retryPasses apply' passes pass certainRetry s) := by
  induction passes generalizing pass certainRetry s with
  | zero => exact C.pure hs
  | succ passes ih =>
    have once : C.rel (·.1.Holds T)
        (s.mMap.toList.foldlM (retryItem apply certainRetry) (s, 0))
        (s.mMap.toList.foldlM (retryItem apply' certainRetry) (s, 0)) :=
      C.foldlM (G := fun item => T item.2) (fun _ _ ha hi => retryItem_rel C app ha hi)
        (fun _ hi => (hs.mem_toList hi).2) hs
    refine C.bind once fun acc hacc => ?_
    exact C.ite (C.pure hacc) (ih (pass + 1) hacc)

include has in
/-- Two ways of applying single transactions that are related for those of a
set are related for the set. -/
theorem applyTransactions_rel {set : List (TxID × Option STTx)}
    (hset : ∀ e ∈ set, ∀ txn, e.2 = some txn → T txn)
    (hs : s.Holds T) : C.rel (·.Holds T) (applyTransactions hasTransaction apply set s)
      (applyTransactions hasTransaction' apply' set s) := by
  have items : C.rel (·.Holds T) (set.foldlM (applyItem hasTransaction apply) s)
      (set.foldlM (applyItem hasTransaction' apply') s) :=
    C.foldlM (G := fun item => ∀ txn, item.2 = some txn → T txn)
      (fun _ _ hs hi => applyItem_rel C has app hs hi) hset hs
  exact C.bind items fun s hs => retryPasses_rel C app LEDGER_TOTAL_PASSES 0 hs

end Consensus

end Skywell
