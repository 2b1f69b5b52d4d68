import JingtumCore.Applied
import JingtumCore.SignatureAuthority

/-!
# Guards that run before the source is known

`SetSign` and `AccountMerge` compare the source of a transaction, its fee account and its
root in their own `preCheck`, which runs before the base class has set any of them. A signer
list that names its own account is therefore let through and stored, and no account is ever
merged.
-/
namespace Skywell
open U32Field AmountField AccountField LedgerEntrySet StateExcept

section
variable [Sha512Half] {env : Env} {t : Transactor} {txn : STTx} {params : TransactionEngineParams}
  {v : LedgerEntrySet} {entries : List SignerEntry}

/-- The check ends the transaction and leaves the set as it was. -/
def Rejects (m : LES (TER × Transactor)) (v : LedgerEntrySet) : Prop :=
  ∃ r, m v = .ok (r, v) ∧ r.1 ≠ .tesSUCCESS

variable {k root : Key} {sle : SLE} {masterWeight : UInt16} {quorum quorumHigh : UInt32}

theorem rejects_pure {r : TER × Transactor} :
    Rejects (pure r) v ↔ r.1 ≠ .tesSUCCESS := by
  simp [Rejects]

theorem rejects_guard {c : Prop} [Decidable c] {ter : TER} (h : ter ≠ .tesSUCCESS)
    {m : LES (TER × Transactor)} :
    Rejects (if c then pure (ter, t) else m) v ↔ c ∨ Rejects m v := by
  by_cases holds : c
  · simp [holds, rejects_pure, h]
  · simp [holds]

/-- A signature that `Transactor::preCheck` takes for a bad one. -/
def BadlySigned (txn : STTx) (params : TransactionEngineParams) : Prop :=
  txn.isKnownGood = false ∧ (txn.isKnownBad = true ∨
    params.tapNO_CHECK_SIGN = false ∧ txn.common.checkSign = false)

theorem Transactor.preCheck_rejects_iff : Rejects (t.preCheck env) v ↔
    t.mTxn.getSourceAccount = 0 ∨ env.closedLedger.checkBlackList t.mTxn.getSourceAccount = true ∨
      BadlySigned t.mTxn t.mParams := by
  unfold Transactor.preCheck
  rw [rejects_guard (by decide), rejects_guard (by decide)]
  refine or_congr Iff.rfl (or_congr Iff.rfl ?_)
  dsimp only [BadlySigned]
  split
  · next unknown =>
    rw [rejects_guard (by decide), rejects_pure]
    simp_all
  · next known =>
    rw [rejects_pure]
    simp_all

theorem incrementOwnerCountRef_other (other : root ≠ k) :
    Spec (incrementOwnerCountRef root) v fun _ v' => v'.read k = v.read k := by
  refine spec_bind.2 (spec_deref.2 fun _ _ => spec_ite.2 ⟨fun _ => spec_pure.2 rfl, fun _ => ?_⟩)
  refine spec_bind.2 (spec_assign.2 fun _ _ => spec_entryModify.2 fun _ _ _ _ => ?_)
  rw [read_setEntry, if_neg other, read_setEntry, if_neg other]

namespace SetSign

/-- The account is among the signers. -/
def Names (entries : List SignerEntry) (account : Account) : Prop :=
  ∃ ts ∈ entries, ts.account = account

/-- What `SetSign::preCheck` refuses, with the source still at its default. -/
def Refused (env : Env) (txn : STTx) (params : TransactionEngineParams)
    (entries : List SignerEntry) : Prop :=
  hasFlag txn.getFlags tfTrustSetMask = true ∨ Names entries 0 ∨ Names entries noAccount ∨
    txn.getSourceAccount = 0 ∨ env.closedLedger.checkBlackList txn.getSourceAccount = true ∨
    BadlySigned txn params

theorem preCheck_rejects_iff (new : t.mTxnAccountID = 0) :
    Rejects (preCheck env entries t) v ↔ Refused env t.mTxn t.mParams entries := by
  unfold preCheck
  rw [rejects_guard (by decide)]
  refine or_congr Iff.rfl ?_
  rw [← or_assoc, ← Transactor.preCheck_rejects_iff]
  dsimp only
  split
  · next ter found =>
    obtain ⟨ts, mem, fails⟩ := List.exists_of_findSome?_eq_some found
    rw [rejects_pure, new] at *
    split at fails
    · next bad =>
      cases fails
      refine iff_of_true nofun (.inl ?_)
      rcases Bool.or_eq_true_iff.1 bad with zero | no
      · exact .inl ⟨ts, mem, by simpa using zero⟩
      · exact .inr ⟨ts, mem, by simpa using no⟩
    · next good =>
      -- the source is compared, but it is zero
      split at fails
      · next zero => exact absurd (by simp [← zero]) good
      · cases fails
  · next none =>
    refine (or_iff_right ?_).symm
    have passes := List.findSome?_eq_none_iff.1 none
    rintro (⟨ts, mem, zero⟩ | ⟨ts, mem, no⟩)
    · exact absurd (passes ts mem) (by simp [zero])
    · exact absurd (passes ts mem) (by simp [no])

/-- The signer list that an entry holds. -/
def Stored (list : Option SLE) (entries : List SignerEntry) : Prop :=
  ∃ sle, list = some sle ∧ sle.get .sfSignerEntries = entries

theorem stored_setEntry {action : LedgerEntryAction} (alive : action ≠ .taaDELETE)
    (signers : sle.get .sfSignerEntries = entries) :
    Stored ((v.setEntry k ⟨sle, action⟩).read k) entries := by
  rw [read_setEntry, if_pos rfl]
  exact ⟨sle, if_neg alive, signers⟩

omit [Sha512Half] in
theorem get_signerEntries (nonempty : entries ≠ []) :
    (if !entries.isEmpty then sle.set .sfSignerEntries entries else sle).get .sfSignerEntries =
      entries := by
  have full : entries.isEmpty = false := by simpa using nonempty
  simp [full, SLE.get]

theorem signCreate_stores {source : Account} (nonempty : entries ≠ [])
    (other : root ≠ getSignStateIndex source) :
    Spec (signCreate (getSignStateIndex source) root source masterWeight quorum quorumHigh entries)
      v fun ter v' => ter = .tesSUCCESS → Stored (v'.read (getSignStateIndex source)) entries := by
  -- the new entry is not deleted while it is put into the directory
  have created : Spec (entryCreate (getSignStateIndex source)) v fun _ v1 =>
      Live v1 (getSignStateIndex source) :=
    spec_entryCreate.2 ⟨fun _ => live_setEntry nofun (.inl rfl),
      fun _ _ => live_setEntry nofun (.inl rfl)⟩
  refine spec_bind.2 (created.mono fun _ v1 live => spec_bind.2 ?_)
  refine (dirAdd_frame (c := (Caps.txn (fun _ _ => True) False).keep) rfl v1).mono fun ⟨ter, _⟩ v2 frame => ?_
  refine spec_ite.2 ⟨fun failed => spec_pure.2 fun e => absurd e failed, fun _ => ?_⟩
  obtain ⟨⟨sle, action⟩, held, alive⟩ :=
    EntrySteps.avoids (a := .taaDELETE) id nofun live (frame.entries _)
  refine spec_bind.2 (spec_assign.2 fun e entry => spec_bind.2 ?_)
  refine (incrementOwnerCountRef_other other).mono fun _ v4 same => spec_pure.2 fun _ => ?_
  rw [held] at entry
  cases entry
  rw [same]
  exact stored_setEntry alive (get_signerEntries nonempty)

theorem doApply_stores (nonempty : entries ≠ []) :
    Spec (doApply masterWeight quorum quorumHigh entries t) v fun ter v' => ter = .tesSUCCESS →
      Stored (v'.read (getSignStateIndex t.mTxn.getSourceAccount)) entries := by
  refine spec_ite.2 ⟨fun _ => spec_pure.2 nofun, fun _ => ?_⟩
  refine spec_bind.2 (spec_entryCache.2 (spec_bind.2 (spec_entryCache.2 (spec_ite.2 ⟨?_, ?_⟩))))
  · intro _
    refine spec_bind.2 (spec_pointer.2 fun root found => ?_)
    split at found
    · cases found
      exact signCreate_stores nonempty nofun
    · cases found
  · intro _
    refine spec_bind.2 (spec_assign.2 fun e _ => spec_bind.2 (spec_entryModify.2 ?_))
    intro sle action entry alive
    rw [getElem?_setEntry, if_pos rfl] at entry
    cases entry
    exact spec_pure.2 fun _ => stored_setEntry modified_alive (get_signerEntries nonempty)

end SetSign

namespace AccountMerge

/-- A merge that there is nothing against. -/
structure Mergeable (env : Env) (txn : STTx) (params : TransactionEngineParams)
    (v : LedgerEntrySet) (destination : Account) : Prop where
  signed : SignedBySource env txn params v
  listed : env.closedLedger.checkBlackList txn.getSourceAccount = false
  fee : txn.getSourceAccount ≠ env.closedLedger.getFeeAccountID env.config
  issuer : txn.getSourceAccount ≠ env.config.SISSUER_ACCOUNTID
  manager : txn.getSourceAccount ≠ env.config.SMNG_ACCOUNTID
  owners : (v.read (getAccountRootIndex txn.getSourceAccount)).any
    (·.getFieldU32 sfOwnerCount == 0) = true
  distinct : destination ≠ txn.getSourceAccount
  exists_destination : (v.read (getAccountRootIndex destination)).isSome = true
  destination_listed : env.closedLedger.checkBlackList destination = false

/-- The source is gone, and the destination has its balance. -/
def Merges (env : Env) (txn : STTx) (params : TransactionEngineParams) (v : LedgerEntrySet)
    (destination : Account) : Prop :=
  ∃ v' s d d', transact env txn params v = .ok (.tesSUCCESS, v') ∧
    v.read (getAccountRootIndex txn.getSourceAccount) = some s ∧
    v.read (getAccountRootIndex destination) = some d ∧
    v'.read (getAccountRootIndex txn.getSourceAccount) = none ∧
    v'.read (getAccountRootIndex destination) = some d' ∧
    (d.getFieldAmount sfBalance).add (s.getFieldAmount sfBalance) =
      .ok (d'.getFieldAmount sfBalance)

end AccountMerge

theorem AccountMerge.not_merges {destination : Account}
    (merge : txn.fields = .accountMerge destination) :
    ¬Merges env txn params v destination := by
  rintro ⟨v', _, _, _, succeeds, -⟩
  obtain ⟨t', v1, prepared, -⟩ := transact_succeeds succeeds
  exact not_merge_of_prepare rfl prepared destination merge

/-- The guards judge a transaction by its source: no list names its own account, and
what there is nothing against is merged. -/
structure GuardsSeeSource (env : Env) (txn : STTx) (params : TransactionEngineParams)
    (v : LedgerEntrySet) : Prop where
  signSet : ∀ {masterWeight quorum quorumHigh entries},
    txn.fields = .signSet masterWeight quorum quorumHigh entries →
    SetSign.Names entries txn.getSourceAccount →
    Rejects (SetSign.preCheck env entries { mTxn := txn, mParams := params }) v
  accountMerge : ∀ {destination}, txn.fields = .accountMerge destination →
    AccountMerge.Mergeable env txn params v destination →
    AccountMerge.Merges env txn params v destination

/-- What the guards miss is refused on other grounds, and there is something against every
merge. -/
structure OtherGrounds (env : Env) (txn : STTx) (params : TransactionEngineParams)
    (v : LedgerEntrySet) : Prop where
  signSet : ∀ {masterWeight quorum quorumHigh entries},
    txn.fields = .signSet masterWeight quorum quorumHigh entries →
    SetSign.Names entries txn.getSourceAccount → SetSign.Refused env txn params entries
  accountMerge : ∀ {destination}, txn.fields = .accountMerge destination →
    ¬AccountMerge.Mergeable env txn params v destination

namespace TransactionEngine
variable {engine engine' : TransactionEngine} {l : Ledger} {v1 v2 : LedgerEntrySet}
  {metaData : TransactionMetaSet}

theorem Committed.transacted (h : Committed env engine txn params .tesSUCCESS l v1 v2 metaData) :
    transact env txn params (engine.start txn params) = .ok (.tesSUCCESS, v1) := by
  obtain ⟨ter0, v0, ran, ⟨-, rfl, rfl⟩ | ⟨claim, -, claimed⟩⟩ := run_eq_ok h.run
  · exact ran
  · obtain ⟨same, -⟩ := claimFee_spec ter0 _ _ claimed rfl
    rw [← same] at claim
    cases claim

/-- A signer list that was set is what the ledger holds. -/
theorem signSet_stored (fields : txn.fields = .signSet masterWeight quorum quorumHigh entries)
    (nonempty : entries ≠ [])
    (call : applyTransaction env engine txn params = .ok ((.tesSUCCESS, true), engine')) :
    SetSign.Stored (engine'.mLedger.getSLE (getSignStateIndex txn.getSourceAccount)) entries := by
  obtain ⟨off, -⟩ | ⟨-, v1, v2, metaData, committed⟩ := (applyTransaction_cases call).2
  · cases off
  obtain ⟨t', v0, -, ready, applied⟩ := transact_succeeds committed.transacted
  rw [transactorOf, fields] at applied
  obtain ⟨sle, shown, signers⟩ := SetSign.doApply_stores nonempty _ _ applied rfl
  rw [ready.txn] at shown
  have shows := committed.shows (getSignStateIndex txn.getSourceAccount)
  rw [shown] at shows
  generalize engine'.mLedger.getSLE (getSignStateIndex txn.getSourceAccount) = held at shows
  cases shows with
  | some thread => exact ⟨_, rfl, (thread.get_eq (by decide) (by decide)).trans signers⟩

/-- The guards judge by the source only where they need not: a list that names its own account
is refused on other grounds or not at all, and then it is stored; no merge succeeds. -/
theorem guards_see_source_iff (env : Env) (txn : STTx) (params : TransactionEngineParams)
    (v : LedgerEntrySet) :
    (GuardsSeeSource env txn params v ↔ OtherGrounds env txn params v) ∧
    ∀ masterWeight quorum quorumHigh entries engine engine',
      txn.fields = .signSet masterWeight quorum quorumHigh entries → entries ≠ [] →
      applyTransaction env engine txn params = .ok ((.tesSUCCESS, true), engine') →
      SetSign.Stored (engine'.mLedger.getSLE (getSignStateIndex txn.getSourceAccount)) entries := by
  refine ⟨⟨fun h => ⟨?_, ?_⟩, fun h => ⟨?_, ?_⟩⟩, ?_⟩
  · intro _ _ _ entries fields named
    exact (SetSign.preCheck_rejects_iff rfl).1 (h.signSet fields named)
  · intro destination fields mergeable
    exact AccountMerge.not_merges fields (h.accountMerge fields mergeable)
  · intro _ _ _ entries fields named
    exact (SetSign.preCheck_rejects_iff rfl).2 (h.signSet fields named)
  · intro destination fields mergeable
    exact absurd mergeable (h.accountMerge fields)
  · intro _ _ _ entries engine engine' fields nonempty call
    exact signSet_stored fields nonempty call

end TransactionEngine

end

namespace TransactionEngine

/-- The roots of the fee account 2 and of accounts 5 and 6. -/
def threeRoots : @Ledger Key.coded :=
  let root (a : Account) := (((SLE.new .accountRoot).setFieldAccount sfAccount a).setFieldAmount
    sfBalance { mValue := 1000 }).setFieldU32 sfSequence 3
  letI := Key.coded
  { mAccountStateMap := (((∅ : StateMap).insert (.account 2) (root 2)).insert (.account 5)
      (root 5)).insert (.account 6) (root 6)
    mTransactionMap := ∅
    mLedgerSeq := 1
    mBaseFee := 10
    mReferenceFeeUnits := 10
    mReserveBase := 20
    mReserveIncrement := 5 }

/-- Every key is of account 5. -/
def ownEnv : @Env Key.coded :=
  letI := Key.coded
  { config := ⟨2, 3, 4, 10⟩
    closedLedger := threeRoots
    scaleFeeLoad := fun fee _ _ _ => fee
    accountID := fun _ => 5
    skywellCalculate := fun _ _ => .error .nullPointer }

/-- Account 5 makes itself its only signer. -/
def selfSign : STTx :=
  .mk { txID := 1, account := 5, sequence := 3, fee := { mValue := 10 }, sigState := .good }
    (.signSet 1 1 1 [⟨5, 1⟩]) []

/-- Account 5 is to be merged into account 6. -/
def mergeIntoSix : STTx :=
  .mk { txID := 2, account := 5, sequence := 3, fee := { mValue := 10 }, sigState := .good }
    (.accountMerge 6) []

/-- A list that names its own account is stored, and a merge that there is nothing against is
taken for one of the fee account. -/
theorem guards_miss_source : ∃ (_ : Sha512Half) (env : Env) (engine : TransactionEngine),
    (applyTransaction env engine selfSign {}).map (fun r => (r.1,
      (r.2.mLedger.getSLE (getSignStateIndex 5)).map (·.get .sfSignerEntries))) =
        .ok ((.tesSUCCESS, true), some [⟨5, 1⟩]) ∧
    AccountMerge.Mergeable env mergeIntoSix {} (engine.start mergeIntoSix {}) 6 ∧
    (applyTransaction env engine mergeIntoSix {}).map (·.1) = .ok (.temBAD_SRC_ACCOUNT, false) := by
  let _ := Key.coded
  refine ⟨Key.coded, ownEnv, ⟨threeRoots, { mLedger := threeRoots }, 0⟩, by decide +kernel, ?_,
    by decide +kernel⟩
  constructor <;> decide +kernel

end TransactionEngine

end Skywell
