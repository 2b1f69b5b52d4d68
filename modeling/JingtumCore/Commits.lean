import JingtumCore.ExceptFold
import JingtumCore.TransactionEngine
import JingtumCore.Views

/-!
# What a call of the engine leaves in the ledger

The state map after `txnWrite`, entry by entry, and the calls behind a result
of `applyTransaction`.
-/
namespace Skywell
open LedgerEntrySet StateExcept
variable [Sha512Half]

/-- What is in the ledger once an entry of the set is written to it. A modified
entry that the ledger does not have is not written. -/
def LedgerEntrySetEntry.written (e : LedgerEntrySetEntry) (base : Option SLE) : Option SLE :=
  match e.mAction with
  | .taaCACHED => base
  | .taaCREATE => some e.mEntry
  | .taaMODIFY => base.map fun _ => e.mEntry
  | .taaDELETE => none

namespace TransactionEngine

variable {l : Ledger} {k k' : Key} {e : LedgerEntrySetEntry} {v : LedgerEntrySet}

theorem getSLE_writeEntry :
    (writeEntry l k e).getSLE k' = if k = k' then e.written (l.getSLE k) else l.getSLE k' := by
  obtain ⟨s, a⟩ := e
  cases a with
  | taaCACHED =>
    simp only [writeEntry, LedgerEntrySetEntry.written]
    split
    · next h => rw [h]
    · rfl
  | taaCREATE => simp [writeEntry, Ledger.writeBack, Ledger.getSLE, LedgerEntrySetEntry.written,
      Std.ExtTreeMap.getElem?_insert]
  | taaMODIFY =>
    simp only [writeEntry, Ledger.writeBack, LedgerEntrySetEntry.written, Ledger.getSLE]
    cases hk : l.mAccountStateMap[k]? with
    | none =>
      have hc : l.mAccountStateMap.contains k = false := by
        rw [Std.ExtTreeMap.contains_eq_isSome_getElem?, hk]
        rfl
      simp only [hc, Bool.not_false, Bool.and_self, if_true, Option.map_none]
      split
      · next h => rw [← h, hk]
      · rfl
    | some s0 =>
      have hc : l.mAccountStateMap.contains k = true := by
        rw [Std.ExtTreeMap.contains_eq_isSome_getElem?, hk]
        rfl
      simp [hc, Std.ExtTreeMap.getElem?_insert]
  | taaDELETE => simp [writeEntry, Ledger.delItem, Ledger.getSLE, LedgerEntrySetEntry.written,
      Std.ExtTreeMap.getElem?_erase]

theorem mTransactionMap_writeEntry : (writeEntry l k e).mTransactionMap = l.mTransactionMap := by
  unfold writeEntry Ledger.writeBack Ledger.delItem
  split <;> try split
  all_goals rfl

theorem getSLE_txnWrite : (txnWrite v l).getSLE k =
    v.mEntries[k]?.elim (l.getSLE k) (·.written (l.getSLE k)) := by
  refine MapFold.foldl_toList v.mEntries k (·.getSLE k) LedgerEntrySetEntry.written (fun l e _ => ?_) l
  rw [getSLE_writeEntry]
  split
  · next h => rw [h]
  · rfl

theorem mTransactionMap_txnWrite : (txnWrite v l).mTransactionMap = l.mTransactionMap := by
  exact MapFold.foldl_keeps Ledger.mTransactionMap (fun _ _ _ => mTransactionMap_writeEntry) l

variable {env : Env} {engine engine' : TransactionEngine} {txn : STTx}
  {params : TransactionEngineParams} {ter : TER} {applied : Bool}

/-- The set in which a transaction is run. -/
def start (engine : TransactionEngine) (txn : STTx) (params : TransactionEngineParams) :
    LedgerEntrySet :=
  engine.mNodes.init engine.mLedger txn.getTransactionID engine.mLedger.mLedgerSeq params

/-- The calls behind a transaction that is applied. -/
structure Committed (env : Env) (engine : TransactionEngine) (txn : STTx)
    (params : TransactionEngineParams) (ter : TER) (l : Ledger) (v1 v2 : LedgerEntrySet)
    (metaData : TransactionMetaSet) : Prop where
  run : run env txn params (engine.start txn params) = .ok ((ter, true), v1)
  described : calcRawMeta ter engine.mTxnSeq v1 = .ok (metaData, v2)
  fresh : engine.mLedger.hasTransaction txn.getTransactionID = false
  ledger : l = { txnWrite v2 engine.mLedger with
    mTransactionMap := engine.mLedger.mTransactionMap.insert txn.getTransactionID
      ⟨txn, if params.tapOPEN_LEDGER then none else some metaData⟩ }

theorem commit_eq_ok {v' : LedgerEntrySet} {seq : UInt32} {l' : Ledger}
    (h : commit txn params ter seq v l = .ok (l', v')) : ∃ metaData,
      calcRawMeta ter seq v = .ok (metaData, v') ∧ l.hasTransaction txn.getTransactionID = false ∧
      l' = { txnWrite v' l with
        mTransactionMap := l.mTransactionMap.insert txn.getTransactionID
          ⟨txn, if params.tapOPEN_LEDGER then none else some metaData⟩ } := by
  obtain ⟨⟨metaData, v2⟩, hm, h⟩ := ExceptFold.bind_eq_ok.1 h
  simp only [Ledger.addTransaction, Ledger.hasTransaction, mTransactionMap_txnWrite] at h
  split at h
  · next he =>
    obtain ⟨-, ⟨⟩⟩ | ⟨hf, ⟨⟩⟩ := ite_eq_iff.1 he
    cases h
    exact ⟨metaData, hm, by simpa only [Ledger.hasTransaction, Bool.not_eq_true] using hf, rfl⟩
  · cases h

/-- Where the result of a call comes from, and what becomes of the ledger. -/
theorem applyTransaction_cases
    (h : applyTransaction env engine txn params = .ok ((ter, applied), engine')) :
    (txn.getTransactionID = 0 ∧ ter = .temINVALID_FLAG ∨ txn.getTransactionID ≠ 0 ∧
      ∃ applied0 v, run env txn params (engine.start txn params) = .ok ((ter, applied0), v)) ∧
    (applied = false ∧ engine'.mLedger = engine.mLedger ∨
    applied = true ∧ ∃ v1 v2 metaData,
      Committed env engine txn params ter engine'.mLedger v1 v2 metaData) := by
  unfold applyTransaction at h
  dsimp only at h
  split at h
  · next hz =>
    cases h
    exact ⟨.inl ⟨hz, rfl⟩, .inl ⟨rfl, rfl⟩⟩
  next hz =>
  obtain ⟨⟨⟨ter1, applied1⟩, v1⟩, hr, h⟩ := ExceptFold.bind_eq_ok.1 h
  split at h
  · next hu =>
    cases h
    exact ⟨.inr ⟨hz, applied1, v1, hu ▸ hr⟩, .inl ⟨rfl, rfl⟩⟩
  split at h
  · next ha =>
    obtain ⟨⟨l, v2⟩, hc, h⟩ := ExceptFold.bind_eq_ok.1 h
    cases h
    obtain ⟨metaData, hm, hf, hl⟩ := commit_eq_ok hc
    exact ⟨.inr ⟨hz, _, v1, hr⟩, .inr ⟨rfl, v1, v2, metaData, ha ▸ hr, hm, hf, hl⟩⟩
  · cases h
    exact ⟨.inr ⟨hz, _, v1, hr⟩, .inl ⟨rfl, rfl⟩⟩

theorem commit_ok {v' : LedgerEntrySet} {seq : UInt32} {metaData : TransactionMetaSet}
    (hm : calcRawMeta ter seq v = .ok (metaData, v'))
    (hf : l.hasTransaction txn.getTransactionID = false) :
    ∃ l', commit txn params ter seq v l = .ok (l', v') := by
  unfold commit
  rw [hm]
  have hfresh : (txnWrite v' l).hasTransaction txn.getTransactionID = false := by
    rw [← hf]
    simp only [Ledger.hasTransaction, mTransactionMap_txnWrite]
  simp only [ExceptFold.ok_bind, Ledger.addTransaction, hfresh]
  exact ⟨_, rfl⟩

theorem applyTransaction_ok {v1 v2 : LedgerEntrySet} (hid : txn.getTransactionID ≠ 0)
    (hr : run env txn params (engine.start txn params) = .ok ((ter, true), v1))
    (hu : ter ≠ .temUNKNOWN)
    (hc : commit txn params ter engine.mTxnSeq v1 engine.mLedger = .ok (l, v2)) :
    applyTransaction env engine txn params =
      .ok ((ter, true), ⟨l, v2.clear, engine.mTxnSeq + 1⟩) := by
  unfold applyTransaction
  dsimp only
  rw [if_neg hid]
  refine (congrArg (· >>= _) hr).trans ?_
  rw [ExceptFold.ok_bind]
  dsimp only
  rw [if_neg hu, if_pos rfl, hc]
  rfl

/-- A transaction to be applied has succeeded, or claims its fee. -/
theorem run_eq_ok {v1 : LedgerEntrySet} (h : run env txn params v = .ok ((ter, applied), v1)) :
    ∃ ter0 v0, transact env txn params v = .ok (ter0, v0) ∧
      ((applied = true → ter = .tesSUCCESS) ∧ ter0 = ter ∧ v1 = v0 ∨
        isTecClaim ter0 = true ∧ params.tapRETRY = false ∧
          claimFee txn params ter0 v0 = .ok ((ter, applied), v1)) := by
  obtain ⟨ter0, v0, ht, h⟩ := bind_eq_ok.1 h
  refine ⟨ter0, v0, ht, ?_⟩
  split at h
  · next hu =>
    cases h
    exact .inl ⟨nofun, hu, rfl⟩
  split at h
  · next hc =>
    obtain ⟨hter0, hretry⟩ := Bool.and_eq_true_iff.1 hc
    exact .inr ⟨hter0, by simpa using hretry, h⟩
  · cases h
    exact .inl ⟨by simp [isTesSuccess], rfl, rfl⟩

end TransactionEngine

end Skywell
