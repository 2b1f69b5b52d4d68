import JingtumCore.LedgerConsensus

/-!
# Current validations

`ValidationsImp` keeps one validation of each validator that counts. A validation is first
entered in the set of its ledger, and goes no further if its validator has one there.
-/
namespace Skywell
open Std

def LEDGER_EARLY_INTERVAL : UInt32 := 180

def LEDGER_VAL_INTERVAL : UInt32 := 300

structure STValidation where
  mNodeID : NodeID
  ledgerHash : LedgerHash
  signTime : UInt32
  mTrusted : Bool := false
  mPreviousHash : LedgerHash := 0

/-- The counts of ledgers, with the greatest node that counts for each. -/
abbrev LedgerToValidationCounter := List (LedgerHash × Nat × NodeID)

/-- A pointer of `mCurrentValidations` that is reset is erased at once, so none is null. -/
structure Validations where
  mValidations : LedgerHash → NodeID → Option STValidation := fun _ _ => none
  mCurrentValidations : ExtTreeMap NodeID STValidation compare := ∅

namespace STValidation

def isCurrent (val : STValidation) (now : UInt32) : Bool :=
  now > val.signTime - LEDGER_EARLY_INTERVAL && now < val.signTime + LEDGER_VAL_INTERVAL

/-- The ledger that a validation counts for: one ledger slip is allowed. -/
def countsFor (val : STValidation) (currentLedger priorLedger : LedgerHash) : LedgerHash :=
  if currentLedger ≠ 0 && (val.ledgerHash = currentLedger || val.mPreviousHash = currentLedger) ||
    priorLedger ≠ 0 && val.ledgerHash = priorLedger then currentLedger else val.ledgerHash

end STValidation

namespace LedgerToValidationCounter

def count (ledger : LedgerHash) (node : NodeID) :
    LedgerToValidationCounter → LedgerToValidationCounter
  | [] => [(ledger, 1, node)]
  | (l, n, most) :: ret =>
    if l = ledger then (l, n + 1, max most node) :: ret else (l, n, most) :: count ledger node ret

def countOf (ret : LedgerToValidationCounter) (ledger : LedgerHash) : Nat :=
  (ret.lookup ledger).elim 0 (·.1)

def total (ret : LedgerToValidationCounter) : Nat := (ret.map (·.2.1)).sum

theorem count_spec (l : LedgerHash) (node : NodeID) (ret : LedgerToValidationCounter) :
    (ret.count l node).total = ret.total + 1 ∧ ∀ ledger,
      (ret.count l node).countOf ledger = ret.countOf ledger + if l = ledger then 1 else 0 := by
  induction ret with
  | nil =>
    simp [count, total, countOf, eq_comm]
    grind
  | cons e ret ih =>
    obtain ⟨l', n, most⟩ := e
    rw [count]
    split_ifs with same
    · refine ⟨by simp [total]; omega, fun ledger => ?_⟩
      simp only [countOf]
      grind
    · refine ⟨by simp only [total, List.map_cons, List.sum_cons] at ih ⊢; omega, fun ledger => ?_⟩
      have := ih.2 ledger
      simp only [countOf] at this ⊢
      grind

theorem foldl_count_spec {α : Type} (ledgerOf : α → LedgerHash) (nodeOf : α → NodeID) (l : List α)
    (ret : LedgerToValidationCounter) :
    (l.foldl (fun ret a => ret.count (ledgerOf a) (nodeOf a)) ret).total = ret.total + l.length ∧
    ∀ ledger, (l.foldl (fun ret a => ret.count (ledgerOf a) (nodeOf a)) ret).countOf ledger =
      ret.countOf ledger + l.countP (ledgerOf · = ledger) := by
  induction l generalizing ret with
  | nil => exact ⟨rfl, fun _ => rfl⟩
  | cons a l ih =>
    obtain ⟨total, counts⟩ := count_spec (ledgerOf a) (nodeOf a) ret
    refine ⟨(ih _).1.trans ?_, fun ledger => ((ih _).2 ledger).trans ?_⟩
    · rw [total, List.length_cons]
      omega
    · simp only [counts, List.countP_cons, decide_eq_true_eq]
      omega

end LedgerToValidationCounter

namespace Validations

/-- A trusted and current validation that is the first of its validator for its ledger. -/
def enters (s : Validations) (nodeInUNL : Bool) (now : UInt32) (val : STValidation) : Bool :=
  (val.mTrusted || nodeInUNL) && val.isCurrent now &&
    (s.mValidations val.ledgerHash val.mNodeID).isNone

def addValidation (s : Validations) (nodeInUNL : Bool) (now : UInt32) (val : STValidation) :
    Bool × Validations :=
  if !s.enters nodeInUNL now val then (false, s)
  else
    let val := { val with mTrusted := true }
    let s := { s with mValidations := fun ledger node =>
      if ledger = val.ledgerHash ∧ node = val.mNodeID then some val else s.mValidations ledger node }
    let setCurrent (val : STValidation) : Validations :=
      { s with mCurrentValidations := s.mCurrentValidations.insert val.mNodeID val }
    match s.mCurrentValidations[val.mNodeID]? with
    | none => (true, setCurrent val)
    | some old =>
      if val.signTime > old.signTime then
        (true, setCurrent { val with mPreviousHash := old.ledgerHash })
      else (false, s)

def getCurrentValidations (s : Validations) (now : UInt32)
    (currentLedger priorLedger : LedgerHash) : LedgerToValidationCounter × Validations :=
  let cutoff := now - LEDGER_VAL_INTERVAL
  let live := s.mCurrentValidations.filter fun _ val => !(val.signTime < cutoff)
  (live.toList.foldl (fun ret it =>
    ret.count (it.2.countsFor currentLedger priorLedger) it.2.mNodeID) [],
    { s with mCurrentValidations := live })

inductive Call where
  | addValidation (nodeInUNL : Bool) (now : UInt32) (val : STValidation)
  | getCurrentValidations (now : UInt32) (currentLedger priorLedger : LedgerHash)

/-- The validations after calls, the last of which is the first of the list. -/
def run : List Call → Validations
  | [] => {}
  | .addValidation nodeInUNL now val :: earlier =>
    ((run earlier).addValidation nodeInUNL now val).2
  | .getCurrentValidations now currentLedger priorLedger :: earlier =>
    ((run earlier).getCurrentValidations now currentLedger priorLedger).2

/-- The sign time of the validation that is held for a validator. -/
def held (s : Validations) (node : NodeID) : Option Nat :=
  s.mCurrentValidations[node]?.map (·.signTime.toNat)

/-- The validations of a validator entered since it last had none that was held. -/
def entered (node : NodeID) : List Call → List STValidation
  | [] => []
  | .addValidation nodeInUNL now val :: earlier =>
    if val.mNodeID = node ∧ (run earlier).enters nodeInUNL now val then
      val :: entered node earlier
    else entered node earlier
  | .getCurrentValidations now currentLedger priorLedger :: earlier =>
    if (((run earlier).getCurrentValidations now currentLedger priorLedger).2.held node).isSome then
      entered node earlier
    else []

variable {s : Validations} {nodeInUNL : Bool} {now : UInt32} {val : STValidation}

theorem held_addValidation (node : NodeID) :
    (s.addValidation nodeInUNL now val).2.held node =
      if val.mNodeID = node ∧ s.enters nodeInUNL now val then
        some ((s.held node).elim val.signTime.toNat (max val.signTime.toNat))
      else s.held node := by
  cases enters : s.enters nodeInUNL now val with
  | false => simp [addValidation, enters]
  | true =>
    cases current : s.mCurrentValidations[val.mNodeID]? with
    | none =>
      simp only [addValidation, held]
      grind
    | some old =>
      simp only [addValidation, current, UInt32.lt_iff_toNat_lt, held]
      by_cases newer : old.signTime.toNat < val.signTime.toNat
      · grind
      · grind

theorem held_getCurrentValidations (node : NodeID) (currentLedger priorLedger : LedgerHash) :
    (s.getCurrentValidations now currentLedger priorLedger).2.held node =
      (s.held node).filter ((now - LEDGER_VAL_INTERVAL).toNat ≤ ·) := by
  simp only [held, getCurrentValidations, ExtTreeMap.getElem?_filter', Option.filter_map]
  congr 2
  funext val
  simp [UInt32.lt_iff_toNat_lt, ← decide_not]

theorem held_run (node : NodeID) (calls : List Call) :
    (run calls).held node = ((entered node calls).map (·.signTime.toNat)).max? := by
  induction calls with
  | nil => simp [run, held, entered]
  | cons call earlier ih =>
    cases call with
    | addValidation nodeInUNL now val =>
      rw [run, held_addValidation, entered]
      split_ifs
      · rw [List.map_cons, List.max?_cons, ih]
      · exact ih
    | getCurrentValidations now currentLedger priorLedger =>
      rw [run, entered]
      cases kept : ((run earlier).getCurrentValidations now currentLedger priorLedger).2.held node with
      | none => rfl
      | some time =>
        rw [held_getCurrentValidations, Option.filter_eq_some_iff] at kept
        exact kept.1.symm.trans ih

/-- The validation held for a validator is the newest of those that were entered since it last
had none, and those that have not expired are counted, each for one ledger. -/
theorem held_newest_and_counted_once (calls : List Call) :
    (∀ node, (run calls).held node = ((entered node calls).map (·.signTime.toNat)).max?) ∧
    ∀ now currentLedger priorLedger,
      let ret := ((run calls).getCurrentValidations now currentLedger priorLedger).1
      let unexpired := (run calls).mCurrentValidations.filter fun _ val =>
        !(val.signTime < now - LEDGER_VAL_INTERVAL)
      ret.total = unexpired.size ∧ ∀ ledger, ret.countOf ledger =
        unexpired.toList.countP (·.2.countsFor currentLedger priorLedger = ledger) := by
  refine ⟨fun node => held_run node calls, fun now currentLedger priorLedger => ?_⟩
  intro ret unexpired
  have counts := LedgerToValidationCounter.foldl_count_spec
    (·.2.countsFor currentLedger priorLedger) (·.2.mNodeID) unexpired.toList []
  refine ⟨?_, fun ledger => (counts.2 ledger).trans (Nat.zero_add _)⟩
  rw [← ExtTreeMap.length_toList]
  exact counts.1.trans (Nat.zero_add _)

/-- The newest validation is for a ledger that its validator has validated before, and the one
before it stays. -/
theorem resigned_not_held :
    let add (ledger : LedgerHash) (time : UInt32) : Call :=
      .addValidation true 1000 ⟨1, ledger, time, true, 0⟩
    (run [add 7 1002, add 8 1001, add 7 1000]).held 1 = some 1001 ∧
      (STValidation.mk 1 7 1002 true 0).isCurrent 1000 = true := by
  decide +kernel

end Validations

end Skywell
