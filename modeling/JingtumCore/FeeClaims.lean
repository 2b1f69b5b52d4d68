import JingtumCore.Commits
import JingtumCore.DeliveredAmounts
import JingtumCore.Drops
import JingtumCore.Threads

/-!
# Transactions that fail

A transaction that is not applied leaves the ledger as it was. One that fails
with a claim on its fee is run again to take the fee, and only that; but the
amount a payment of a batch has delivered stays in the metadata.
-/
namespace Skywell
open U32Field AmountField AccountField H256Field LedgerEntrySet StateExcept

section
variable [Sha512Half] {env : Env} {t : Transactor} {v v' : LedgerEntrySet} {txn : STTx}
  {params : TransactionEngineParams}

/-- The fees `payFee` goes on with. -/
def LegalFee (txn : STTx) : Prop :=
  txn.getTransactionFee.isLegalNet = true ∧ 0 ≤ txn.getTransactionFee.signum ∧
    txn.getTransactionFee.isNative = true

/-- A result after which the fee is known to be legal, if it is a success or
claims the fee. -/
def Fair (txn : STTx) (ter : TER) : Prop :=
  ter = .tesSUCCESS ∨ isTecClaim ter = true → LegalFee txn

section
omit [Sha512Half]

theorem fair_of_legal (h : LegalFee txn) {ter : TER} : Fair txn ter := fun _ => h

theorem fair_of_fail {ter : TER} (h : ter ≠ .tesSUCCESS ∧ isTecClaim ter = false) :
    Fair txn ter := by
  rintro (e | e)
  · exact absurd e h.1
  · rw [h.2] at e
    cases e

end

variable {account : Account} {d : LES TER} {s' : SLE}

theorem payFee_fair : Always (fun r => Fair t.mTxn r.1) t.payFee := by
  by_cases h : LegalFee t.mTxn
  · exact fun _ _ _ _ => fair_of_legal h
  have no {ter : TER} (h : ter ≠ .tesSUCCESS ∧ isTecClaim ter = false) :
      Always (fun r => Fair t.mTxn r.1) (pure (ter, t) : LES (TER × Transactor)) :=
    always_pure (fair_of_fail h)
  unfold Transactor.payFee
  by_cases hl : t.mTxn.getTransactionFee.isLegalNet = true
  · have hf : (t.mTxn.getTransactionFee.signum < 0 || !t.mTxn.getTransactionFee.isNative) = true := by
      simp only [LegalFee, hl, true_and, not_and] at h
      by_cases hs : t.mTxn.getTransactionFee.signum < 0
      · simp [hs]
      · simp [h (by omega)]
    simp only [hl, Bool.not_true, reduceCtorEq, if_false, hf]
    exact .ite (.bind fun _ => .ite (no (by decide)) (no (by decide)))
      (.bind fun _ => .ite (no (by decide)) (no (by decide)))
  · simp only [hl]
    exact no (by decide)

theorem seqFailure_fail {ledger : Ledger} {sle : SLE} {ter : TER}
    (h : Transactor.seqFailure txn ledger sle = some ter) :
    ter ≠ .tesSUCCESS ∧ isTecClaim ter = false := by
  simp only [Transactor.seqFailure, ite_not] at h
  split_ifs at h <;> cases h <;> decide

theorem checkSeq_fail :
    Always (fun ter => ter ≠ .tesSUCCESS → isTecClaim ter = false) t.checkSeq := by
  refine .bind fun root => .bind fun sle => .bind fun ledger => ?_
  split
  · next h => exact always_pure fun _ => (seqFailure_fail h).2
  · exact .bind fun _ => .ite (.bind fun _ => always_pure fun h => absurd rfl h)
      (always_pure fun h => absurd rfl h)

variable {h : Hooks} {s : SLE}

theorem charge_fair (hseq : h.checkSeq = Transactor.checkSeq)
    (hpay : h.payFee = Transactor.payFee) :
    Always (fun r => Fair t.mTxn r.1) (h.charge t) := by
  intro v
  unfold Hooks.charge
  rw [hseq, hpay]
  refine spec_bind.2 <| (checkSeq_fail v).mono fun ter v1 hter => spec_ite.2 ⟨fun hne => ?_, fun _ => ?_⟩
  · exact spec_pure.2 (fair_of_fail ⟨hne, hter hne⟩)
  · exact Always.ite (.bind fun _ => payFee_fair)
      payFee_fair v1

/-- The base class gets past the fee, or claims it, only if it is legal. -/
theorem prepare_fair (hk : h.Known) (hseq : h.checkSeq = Transactor.checkSeq)
    (hpay : h.payFee = Transactor.payFee)
    (hchecks : Checks env t (h.preCheck t)) (hp : t.mParams.tapPRE_CHECKED = false) :
    Spec (h.prepare env t) v fun r _ =>
      (∃ t', r = .ok t') ∨ (∃ ter, r = .error ter ∧ isTecClaim ter = true) → LegalFee t.mTxn := by
  have fail {v' : LedgerEntrySet} {ter : TER} (h : isTecClaim ter = true → LegalFee t.mTxn) :
      Spec (pure (.error ter) : LES (Except TER Transactor)) v' fun r _ =>
        (∃ t', r = .ok t') ∨ (∃ ter, r = .error ter ∧ isTecClaim ter = true) →
          LegalFee t.mTxn := by
    refine spec_pure.2 ?_
    rintro (⟨_, e⟩ | ⟨_, e, ht⟩)
    · cases e
    · cases e
      exact h ht
  refine spec_bind.2 <| (hchecks v).mono fun ⟨ter, t1⟩ v1 ⟨hok, hter⟩ => ?_
  dsimp only at hok hter ⊢
  split
  · exact fail fun e => by simp [hter] at e
  next hne =>
  have hpre := hok (not_not.1 hne)
  refine spec_bind.2 <| (load_spec hk.feeReads).mono fun t2 v2 ⟨hl, _⟩ => ?_
  have htxn : t2.mTxn = t.mTxn := hl.txn.trans hpre.txn
  split
  · exact fail fun e => by cases e
  rw [if_neg (by simp [hl.params, hpre.params, hp])]
  refine spec_bind.2 <| (charge_fair hseq hpay v2).mono fun ⟨ter, t3⟩ v3 hfair => ?_
  rw [htxn] at hfair
  split
  · exact fail fun e => hfair (.inr e)
  · next hne => exact fun _ _ _ _ => hfair (.inl (not_not.1 hne))

/-- A program whose result claims no fee. -/
abbrev ClaimsNothing (m : LES TER) : Prop := Always (fun ter => isTecClaim ter = false) m

/-- The same for the functions that return the members too. -/
abbrev FailsPlainly (m : LES (TER × Transactor)) : Prop := Always (fun r => isTecClaim r.1 = false) m

theorem apply_claimsNothing (hpre : ∀ t, FailsPlainly (h.preCheck t))
    (hseq : ∀ t, ClaimsNothing (h.checkSeq t)) (hpay : ∀ t, FailsPlainly (h.payFee t))
    (hsig : ∀ t, FailsPlainly (h.checkSig t)) (hdo : ∀ t, ClaimsNothing (h.doApply t)) :
    ClaimsNothing (h.apply env t) := by
  have hcharge (t : Transactor) : FailsPlainly (h.charge t) :=
    .andThen (hseq t) fun _ hter => .ite (always_pure hter) (.ite (.bind fun _ => hpay _) (hpay _))
  have hsign (t : Transactor) : Always (fun r => ∀ ter, r = .error ter → isTecClaim ter = false)
      (h.sign t) := by
    refine .andThen (hsig t) fun _ hter => .ite (always_pure ?_) ?_
    · rintro _ ⟨⟩
      exact hter
    · exact .bind fun _ => .bind fun _ => always_pure (by simp)
  have hprepare : Always (fun r => ∀ ter, r = .error ter → isTecClaim ter = false)
      (h.prepare env t) := by
    refine .andThen (hpre t) fun _ hter => .ite (always_pure ?_) (.bind fun t2 => ?_)
    · rintro _ ⟨⟩
      exact hter
    refine .ite (always_pure ?_) (.ite (hsign _) (.andThen (hcharge t2) fun _ hter => ?_))
    · rintro _ ⟨⟩
      decide
    refine .ite (always_pure ?_) (hsign _)
    rintro _ ⟨⟩
    exact hter
  refine .andThen hprepare fun r hr => ?_
  cases r with
  | error ter => exact always_pure (hr ter rfl)
  | ok t' => exact hdo t'

theorem manage_claimsNothing (hd : ClaimsNothing d) :
    ClaimsNothing ((ManageTransactor.hooks env d).apply env t) := by
  have success (t : Transactor) : FailsPlainly (pure (.tesSUCCESS, t)) := always_pure rfl
  refine apply_claimsNothing (fun t => ?_) (fun t => ?_) success success fun _ => hd
  · exact .ite (.ite (always_pure rfl) (always_pure rfl)) (.ite (always_pure rfl) (always_pure rfl))
  · exact .bind fun _ => .ite (always_pure rfl) (always_pure rfl)

theorem change_claimsNothing (hd : ClaimsNothing d) :
    ClaimsNothing ((Change.hooks env d).apply env t) := by
  refine apply_claimsNothing (fun t => ?_) (fun t => ?_) (fun t => ?_) (fun t => ?_)
    fun _ => hd
  · exact .ite (always_pure rfl) (.ite (always_pure rfl) (always_pure rfl))
  · exact .ite (always_pure rfl) (always_pure rfl)
  · exact .ite (always_pure rfl) (always_pure rfl)
  · exact .ite (always_pure rfl) (.ite (always_pure rfl) (always_pure rfl))

/-- A program whose result claims no fee and calls nothing malformed. -/
abbrev EndsPlainly (m : LES TER) : Prop :=
  Always (fun ter => isTecClaim ter = false ∧ isTemMalformed ter = false) m

theorem ManageTransactor.applyManage_plain {k : Key} {field : AccountField} :
    EndsPlainly (applyManage k field account) :=
  .bind fun _ => .when fun _ => .bind fun _ => .bind fun _ => always_pure ⟨rfl, rfl⟩

theorem ManageTransactor.applyManageBlackList_claimsNothing {isSet : Bool} :
    ClaimsNothing (applyManageBlackList account isSet) :=
  .bind fun _ => .ite (.bind fun _ => .bind fun _ => .bind fun _ => always_pure rfl)
    (.ite (.bind fun _ => always_pure rfl) (always_pure rfl))

theorem Change.applyAmendment_plain {amendment : Nat} : EndsPlainly (applyAmendment amendment) :=
  .bind fun _ => .when fun _ => .bind fun _ => .ite (always_pure ⟨rfl, rfl⟩)
    (.bind fun _ => .bind fun _ => always_pure ⟨rfl, rfl⟩)

theorem Change.applyFee_plain {baseFee : UInt64} {units base increment : UInt32} :
    EndsPlainly (applyFee baseFee units base increment) :=
  .bind fun _ => .when fun _ => .bind fun _ => .bind fun _ => always_pure ⟨rfl, rfl⟩

theorem AccountMerge.apply_claimsNothing (dst : Account)
    (hpre : h.preCheck = preCheck env dst) (ht : t.mTxnAccountID = t.mFeeAccountID) :
    ClaimsNothing (h.apply env t) := by
  intro v
  unfold Hooks.apply Hooks.prepare
  rw [hpre, spec_bind, spec_bind]
  refine (AccountMerge.preCheck_fails env dst ht).mono fun r v1 h => ?_
  dsimp only
  rw [if_pos h.1]
  exact spec_pure.2 (spec_pure.2 h.2.1)

/-- Outside a batch a transaction claims its fee only if the fee is legal. -/
theorem transact_fair (hp : params.tapPRE_CHECKED = false) :
    Always (fun ter => isTecClaim ter = true → LegalFee txn) (transact env txn params) := by
  obtain ⟨common, fields, operations⟩ := txn
  have nothing {m : LES TER} (h : ClaimsNothing m) : Always (fun ter => isTecClaim ter = true →
      LegalFee (.mk common fields operations)) m :=
    h.mono fun ter h e => by simp [h] at e
  have left {m : LES TER} (h : EndsPlainly m) : ClaimsNothing m := h.mono fun _ => And.left
  have hk := known_transactorOf env (Operations.applyAll env operations) (.mk common fields operations)
  refine .ite (nothing (always_pure rfl)) ?_
  cases fields with
  | amendment => exact nothing (change_claimsNothing (left Change.applyAmendment_plain))
  | fee => exact nothing (change_claimsNothing (left Change.applyFee_plain))
  | mngFee | mngIssuer =>
    exact nothing (manage_claimsNothing (left ManageTransactor.applyManage_plain))
  | blkListSet | blkListRmv =>
    exact nothing (manage_claimsNothing ManageTransactor.applyManageBlackList_claimsNothing)
  | accountMerge dst => exact nothing (AccountMerge.apply_claimsNothing dst rfl rfl)
  | _ =>
    intro v
    refine spec_bind.2 <| (prepare_fair hk rfl rfl (framedChecks_transactorOf rfl rfl rfl).1 hp).mono
      fun r v1 hr => ?_
    cases r with
    | error ter => exact spec_pure.2 fun e => hr (.inr ⟨ter, rfl, e⟩)
    | ok t' => exact fun _ _ _ _ => hr (.inl ⟨t', rfl⟩)

/-- What claiming a fee makes of the source's root. -/
structure FeeClaimed (txn : STTx) (s s' : SLE) : Prop where
  sequence : s.getFieldU32 sfSequence = txn.getSequence
  funds : (s.getFieldAmount sfBalance).isZero = false
  root : ∃ paid left, (txn.getTransactionFee.gt (s.getFieldAmount sfBalance) = .ok true ∧
      paid = s.getFieldAmount sfBalance ∨
      txn.getTransactionFee.gt (s.getFieldAmount sfBalance) = .ok false ∧
      paid = txn.getTransactionFee) ∧
    (s.getFieldAmount sfBalance).sub paid = .ok left ∧
    s' = (s.setFieldAmount sfBalance left).setFieldU32 sfSequence (txn.getSequence + 1)

theorem read_clear (k : Key) : v.clear.read k = v.mLedger.getSLE k := by
  simp [LedgerEntrySet.read, clear]

/-- The set holds the source's root only, if the claim is applied. -/
def Claimed (txn : STTx) (ter : TER) (v : LedgerEntrySet) (r : TER × Bool) (v' : LedgerEntrySet) :
    Prop :=
  r.2 = true → r.1 = ter ∧ ∃ s s',
    v.mLedger.getSLE (getAccountRootIndex txn.getSourceAccount) = some s ∧ FeeClaimed txn s s' ∧
    v' = v.clear.setEntry (getAccountRootIndex txn.getSourceAccount) ⟨s', .taaMODIFY⟩

theorem takeFee_spec (hseq : s.getFieldU32 sfSequence = txn.getSequence)
    (hz : (s.getFieldAmount sfBalance).isZero = false) :
    Spec (TransactionEngine.takeFee txn s)
      (v.setEntry (getAccountRootIndex txn.getSourceAccount) ⟨s, .taaCACHED⟩) fun _ v' =>
        ∃ s', FeeClaimed txn s s' ∧
          v' = v.setEntry (getAccountRootIndex txn.getSourceAccount) ⟨s', .taaMODIFY⟩ := by
  simp only [TransactionEngine.takeFee, spec_bind, spec_lift, spec_assign, getElem?_setEntry,
    if_true, Option.some.injEq, forall_eq', spec_entryModify]
  intro more hmore left hleft s' a he ha
  cases he
  rw [setEntry_setEntry, setEntry_setEntry]
  refine ⟨_, ⟨hseq, hz, _, left, ?_, hleft, rfl⟩, rfl⟩
  cases more with
  | true => exact .inl ⟨hmore, rfl⟩
  | false => exact .inr ⟨hmore, rfl⟩

theorem claimFee_spec (ter : TER) :
    Spec (TransactionEngine.claimFee txn params ter) v (Claimed txn ter v) := by
  have no {v' : LedgerEntrySet} {ter' : TER} :
      Spec (pure (ter', false) : LES (TER × Bool)) v' (Claimed txn ter v) :=
    spec_pure.2 fun e => by cases e
  unfold TransactionEngine.claimFee
  rw [spec_bind, spec_modify, spec_bind, spec_entryCache, read_clear]
  cases hs : v.mLedger.getSLE (getAccountRootIndex txn.getSourceAccount) with
  | none => exact no
  | some s =>
    have hcached : v.clear.cached (getAccountRootIndex txn.getSourceAccount) =
        v.clear.setEntry (getAccountRootIndex txn.getSourceAccount) ⟨s, .taaCACHED⟩ := by
      simp [LedgerEntrySet.cached, clear, hs]
    rw [hcached]
    simp only [Option.isSome_some, Bool.not_true, reduceCtorEq, if_false, spec_bind,
      spec_deref, getElem?_setEntry, if_true, Option.some.injEq, forall_eq']
    refine spec_ite.2 ⟨fun _ => no, fun hlt => spec_ite.2 ⟨fun _ => no, fun hgt => ?_⟩⟩
    have hseq : s.getFieldU32 sfSequence = txn.getSequence :=
      UInt32.le_antisymm (UInt32.not_lt.1 hgt) (UInt32.not_lt.1 hlt)
    refine spec_ite.2 ⟨fun _ => spec_bind.2 (spec_lift.2 fun _ _ => ?_), fun _ =>
      spec_bind.2 (spec_pure.2 ?_)⟩
    all_goals
      refine spec_ite.2 ⟨fun _ => no, fun hz => spec_bind.2 ?_⟩
      have hz : (s.getFieldAmount sfBalance).isZero = false := by simp_all
      refine (takeFee_spec hseq hz).mono fun _ v' ⟨s', hs', hv'⟩ => spec_pure.2 fun _ => ?_
      exact ⟨rfl, s, s', hs, hs', hv'⟩

/-- The source's root after a claim: of its other fields only the thread may have
changed. The fee and the balance are native amounts of the wire's size. -/
structure OnlyFeeTaken (txn : STTx) (params : TransactionEngineParams) (s s' : SLE) : Prop where
  sequence : s'.getFieldU32 sfSequence = txn.getSequence + 1
  balance : (s.getFieldAmount sfBalance).IsDrops →
    (txn.getTransactionFee.isNative = true → txn.getTransactionFee.IsDrops) →
    (s'.getFieldAmount sfBalance).drops = (s.getFieldAmount sfBalance).drops -
      min txn.getTransactionFee.drops (s.getFieldAmount sfBalance).drops
  fee : params.tapPRE_CHECKED = false → 0 ≤ txn.getTransactionFee.drops
  others : ∀ f, f ≠ .amount sfBalance → f ≠ .u32 sfSequence → f ≠ .h256 sfPreviousTxnID →
    f ≠ .u32 sfPreviousTxnLgrSeq → s'.field f = s.field f

/-- Two ledgers that differ in the source's root only. -/
def OnlySource (txn : STTx) (params : TransactionEngineParams) (l l' : Ledger) : Prop :=
  (∀ k ≠ getAccountRootIndex txn.getSourceAccount, l'.getSLE k = l.getSLE k) ∧
  ∃ s s', l.getSLE (getAccountRootIndex txn.getSourceAccount) = some s ∧
    l'.getSLE (getAccountRootIndex txn.getSourceAccount) = some s' ∧ OnlyFeeTaken txn params s s'

/-- Metadata that tells of the source's root and of nothing else. -/
def OnlySourceTold (txn : STTx) (metaData : TransactionMetaSet) : Prop :=
  metaData.mDelivered = none ∧
    ∀ n ∈ metaData.mNodes, n.ledgerIndex = getAccountRootIndex txn.getSourceAccount

/-- A call leaves the ledger as it was, applies the transaction, or takes the fee
and keeps no other effect of the transaction. -/
def Atomic (env : Env) (engine : TransactionEngine) (txn : STTx)
    (params : TransactionEngineParams) : Prop :=
  ∀ ter applied engine',
    TransactionEngine.applyTransaction env engine txn params = .ok ((ter, applied), engine') →
    (applied = false → engine'.mLedger.mAccountStateMap = engine.mLedger.mAccountStateMap ∧
      engine'.mLedger.mTransactionMap = engine.mLedger.mTransactionMap) ∧
    (applied = true → isTecClaim ter = true → OnlySource txn params engine.mLedger engine'.mLedger ∧
      ∃ item, engine'.mLedger.mTransactionMap =
          engine.mLedger.mTransactionMap.insert txn.getTransactionID item ∧ item.txn = txn ∧
        ∀ metaData, item.metaData = some metaData → OnlySourceTold txn metaData)

/-- What the engine looks at before it takes the fee of a transaction that failed in a
closed ledger, and applies it. -/
structure Claimable (engine : TransactionEngine) (txn : STTx) (params : TransactionEngineParams) :
    Prop where
  txID : txn.getTransactionID ≠ 0
  isClosed : params.tapOPEN_LEDGER = false
  noRetry : params.tapRETRY = false
  fresh : engine.mLedger.hasTransaction txn.getTransactionID = false
  root : ∃ s s', engine.mLedger.getSLE (getAccountRootIndex txn.getSourceAccount) = some s ∧
    FeeClaimed txn s s'

section
omit [Sha512Half]

theorem FeeClaimed.drops (h : FeeClaimed txn s s') (hb : (s.getFieldAmount sfBalance).IsDrops)
    (hfee : txn.getTransactionFee.isNative = true → txn.getTransactionFee.IsDrops) :
    (s'.getFieldAmount sfBalance).drops = (s.getFieldAmount sfBalance).drops -
      min txn.getTransactionFee.drops (s.getFieldAmount sfBalance).drops := by
  obtain ⟨paid, left, hpaid, hleft, rfl⟩ := h.root
  have hnew : ((s.setFieldAmount sfBalance left).setFieldU32 sfSequence
      (txn.getSequence + 1)).getFieldAmount sfBalance = left := by
    simp [SLE.getFieldAmount, SLE.get, SLE.setFieldU32, SLE.setFieldAmount]
  have hne : (s.getFieldAmount sfBalance).drops ≠ 0 := fun e => by
    have := STAmount.isZero_iff.2 e
    rw [h.funds] at this
    cases this
  have hf : txn.getTransactionFee.IsDrops := by
    rcases hpaid with ⟨hgt, -⟩ | ⟨hgt, -⟩ <;> exact hfee (STAmount.native_of_gt hgt hb.native)
  rw [STAmount.gt_drops hf hb hne, Except.ok.injEq, Except.ok.injEq, decide_eq_true_iff,
    decide_eq_false_iff_not] at hpaid
  rw [hnew]
  rcases hpaid with ⟨hgt, rfl⟩ | ⟨hle, rfl⟩
  · rw [STAmount.drops_sub hb hb hleft]
    omega
  · rw [STAmount.drops_sub hb hf hleft]
    omega

theorem LegalFee.drops_nonneg (h : LegalFee txn) : 0 ≤ txn.getTransactionFee.drops := by
  have hs := h.2.1
  unfold STAmount.signum at hs
  unfold STAmount.drops
  split_ifs at hs ⊢ <;> simp_all

theorem FeeClaimed.taken {s'' : SLE} (h : FeeClaimed txn s s') (hthread : s'.SameButThread s'')
    (hlegal : params.tapPRE_CHECKED = false → LegalFee txn) : OnlyFeeTaken txn params s s'' where
  sequence := by
    obtain ⟨paid, left, -, -, rfl⟩ := h.root
    rw [SLE.getFieldU32, hthread.get_eq (by simp) (by simp)]
    simp [SLE.get, SLE.setFieldU32]
  balance hb hfee := by
    rw [SLE.getFieldAmount, hthread.get_eq (by simp) (by simp)]
    exact h.drops hb hfee
  fee hp := (hlegal hp).drops_nonneg
  others f h1 h2 h3 h4 := by
    obtain ⟨paid, left, -, -, rfl⟩ := h.root
    rw [hthread f h3 h4, SLE.setFieldU32, SLE.field_set_of_ne _ h2, SLE.setFieldAmount,
      SLE.field_set_of_ne _ h1]

end

variable {engine : TransactionEngine} {ter : TER} {l : Ledger} {v1 v2 : LedgerEntrySet}
  {metaData : TransactionMetaSet}

open TransactionEngine in
/-- An applied call with a claim on the fee: what it takes, and what it tells. -/
theorem claimed_call (h : Committed env engine txn params ter l v1 v2 metaData)
    (hter : isTecClaim ter = true) : OnlySource txn params engine.mLedger l ∧
      (∀ n ∈ metaData.mNodes, n.ledgerIndex = getAccountRootIndex txn.getSourceAccount) ∧
      (txn.getTransactionID ≠ 0 → params.tapOPEN_LEDGER = false → Claimable engine txn params) ∧
      ∃ ter0 v0, transact env txn params (engine.start txn params) = .ok (ter0, v0) ∧
        isTecClaim ter0 = true ∧ metaData.mDelivered = v0.mSet.mDelivered := by
  obtain ⟨ter0, v0, ht, ⟨success, -⟩ | ⟨hter0, hretry, hclaim⟩⟩ := run_eq_ok h.run
  · cases success rfl
    cases hter
  have hledger : v0.mLedger = engine.mLedger := transact_ledger ht
  have hlegal : params.tapPRE_CHECKED = false → LegalFee txn := fun hp =>
    transact_fair hp _ ter0 v0 ht hter0
  obtain ⟨-, s, s', hs, hfee, rfl⟩ := claimFee_spec ter0 _ _ hclaim rfl
  rw [hledger] at hs
  -- the set holds the source's root, as modified, and nothing else
  have hentries (k : Key) : (v0.clear.setEntry (getAccountRootIndex txn.getSourceAccount)
      ⟨s', .taaMODIFY⟩).mEntries[k]? =
        if getAccountRootIndex txn.getSourceAccount = k then some ⟨s', .taaMODIFY⟩ else none := by
    simp [clear]
  have hu (k : Key) : Unowned (v0.clear.setEntry (getAccountRootIndex txn.getSourceAccount)
      ⟨s', .taaMODIFY⟩) k := by
    intro e he
    rw [hentries] at he
    split at he
    · cases he
      exact .inr rfl
    · cases he
  obtain ⟨-, hmeta, hdesc, habsent⟩ := calcRawMeta_spec ter engine.mTxnSeq _ _ h.described
  have hget (k : Key) : l.getSLE k =
      v2.mEntries[k]?.elim (engine.mLedger.getSLE k) (·.written (engine.mLedger.getSLE k)) := by
    rw [h.ledger]
    exact getSLE_txnWrite
  refine ⟨⟨fun k hk => ?_, s, ?_⟩, ?_, fun hid hopen => ⟨hid, hopen, hretry, h.fresh, s, s', hs, hfee⟩,
    ter0, v0, ht, hter0, hmeta.delivered⟩
  · rw [hget, habsent hu k (by rw [hentries, if_neg hk.symm])]
    rfl
  · rcases hdesc (getAccountRootIndex txn.getSourceAccount) with ⟨e, e', he, he', hr⟩ | ⟨he, -⟩
    · rw [hentries, if_pos rfl] at he
      cases he
      have hact : e'.mAction = .taaMODIFY := by
        rcases hr.2 with h | ⟨-, h, -⟩
        · exact h
        · cases h
      refine ⟨e'.mEntry, hs, ?_, hfee.taken hr.1 hlegal⟩
      rw [hget, he', hs]
      simp [LedgerEntrySetEntry.written, hact]
    · rw [hentries, if_pos rfl] at he
      cases he
  · refine calcRawMeta_nodes (P := (· = getAccountRootIndex txn.getSourceAccount)) hu (fun k hk => ?_)
      (fun n hn => by cases hn) ter _ _ h.described
    by_contra hne
    have hk := Std.ExtTreeMap.mem_iff_isSome_getElem?.1 (Std.ExtTreeMap.mem_keys.1 hk)
    rw [hentries, if_neg (Ne.symm hne)] at hk
    cases hk

theorem claimFee_eq (hopen : params.tapOPEN_LEDGER = false)
    (hs : v.mLedger.getSLE (getAccountRootIndex txn.getSourceAccount) = some s)
    (hfee : FeeClaimed txn s s') : TransactionEngine.claimFee txn params ter v = .ok ((ter, true),
      v.clear.setEntry (getAccountRootIndex txn.getSourceAccount) ⟨s', .taaMODIFY⟩) := by
  obtain ⟨paid, left, hpaid, hleft, rfl⟩ := hfee.root
  have hcached : v.clear.cached (getAccountRootIndex txn.getSourceAccount) =
      v.clear.setEntry (getAccountRootIndex txn.getSourceAccount) ⟨s, .taaCACHED⟩ := by
    simp [LedgerEntrySet.cached, clear, hs]
  have hcache : entryCache (getAccountRootIndex txn.getSourceAccount) v.clear = .ok (true,
      v.clear.setEntry (getAccountRootIndex txn.getSourceAccount) ⟨s, .taaCACHED⟩) := by
    rw [entryCache_eq, read_clear, hs, hcached]
    rfl
  have there (e : LedgerEntrySetEntry) : (v.clear.setEntry (getAccountRootIndex txn.getSourceAccount)
      e).mEntries[getAccountRootIndex txn.getSourceAccount]? = some e := by simp
  have hmore : ∃ more, txn.getTransactionFee.gt (s.getFieldAmount sfBalance) = .ok more ∧
      paid = if more then s.getFieldAmount sfBalance else txn.getTransactionFee := by
    rcases hpaid with ⟨hgt, rfl⟩ | ⟨hgt, rfl⟩
    · exact ⟨true, hgt, rfl⟩
    · exact ⟨false, hgt, rfl⟩
  obtain ⟨more, hgt, rfl⟩ := hmore
  have htake : TransactionEngine.takeFee txn s (v.clear.setEntry
      (getAccountRootIndex txn.getSourceAccount) ⟨s, .taaCACHED⟩) = .ok ((), v.clear.setEntry
        (getAccountRootIndex txn.getSourceAccount)
        ⟨(s.setFieldAmount sfBalance left).setFieldU32 sfSequence (txn.getSequence + 1), .taaMODIFY⟩) := by
    unfold TransactionEngine.takeFee
    dsimp only
    rw [bind_apply_ok (lift_apply_ok hgt _), bind_apply_ok (lift_apply_ok hleft _),
      bind_apply_ok (assign_eq (there _) _), setEntry_setEntry]
    refine (entryModify_eq (there _) (show LedgerEntryAction.taaCACHED ≠ .taaDELETE by decide)).trans ?_
    rw [setEntry_setEntry]
    rfl
  unfold TransactionEngine.claimFee
  dsimp only
  have hclear : (modify LedgerEntrySet.clear : LES Unit) v = .ok ((), v.clear) := rfl
  rw [bind_apply_ok hclear, bind_apply_ok hcache]
  simp only [Bool.not_true, reduceCtorEq, if_false]
  rw [bind_apply_ok (deref_eq (there _))]
  simp only [hfee.sequence, hfee.funds, hopen, UInt32.lt_irrefl, gt_iff_lt, reduceCtorEq, if_false,
    pure_bind, Bool.or_self]
  exact bind_apply_ok htake

theorem threadEntry_ends {k : Key} {e : LedgerEntrySetEntry} (he : v.mEntries[k]? = some e) :
    Ends (threadEntry k) v fun _ _ => True := by
  have hthread : Ends (threadTx k e.mEntry) v fun _ v' => v'.mEntries = v.mEntries := by
    simp only [threadTx, Ends, get_bind_apply]
    cases e.mEntry.thread v.mSet.mTransactionID v.mSet.mLedger with
    | none => exact ends_pure rfl
    | some r =>
      dsimp only
      by_cases hz : r.2.1 = 0
      · rw [if_pos hz]
        exact ends_pure rfl
      · rw [if_neg hz]
        exact ⟨_, _, rfl, rfl⟩
  unfold threadEntry
  rw [Ends, bind_apply_ok (deref_eq he)]
  refine hthread.bind fun ⟨threaded, ok⟩ v1 h1 => ?_
  cases threaded with
  | none => exact ends_pure trivial
  | some sle => exact ⟨_, _, bind_apply_ok (assign_eq (h1 ▸ he) _), trivial⟩

theorem calcModified_ends {k : Key} {e : LedgerEntrySetEntry} (he : v.mEntries[k]? = some e)
    (orig : SLE) : Ends (calcModified k orig) v fun _ v' => Passes v v' := by
  have hend {v1 : LedgerEntrySet} (he : (v1.mEntries[k]?).isSome = true) : Ends (do
      let cur ← deref k
      updateNode k fun n => { n with
        previousFields := previousFields orig cur
        finalFields := finalFields [.always, .changeNew] cur }) v1 fun _ _ => True := by
    obtain ⟨e1, he1⟩ := Option.isSome_iff_exists.1 he
    exact ⟨_, _, bind_apply_ok (deref_eq he1), trivial⟩
  have hends : Ends (calcModified k orig) v fun _ _ => True := by
    unfold calcModified
    refine Ends.bind (P := fun _ v1 => v1.mEntries = v.mEntries) ⟨(), _, rfl, rfl⟩ fun _ v1 h1 => ?_
    rw [← h1] at he
    dsimp only
    split
    · obtain ⟨ok, v2, h2, -⟩ := threadEntry_ends he
      obtain ⟨e2, he2, -⟩ := (threadEntry_passes k _ _ _ h2).entries k e he
      have hdiscard : discard (threadEntry k) v1 = .ok ((), v2) := by
        simp [discard, Functor.discard, Functor.mapConst, StateT.map, h2]
      rw [Ends, bind_apply_ok hdiscard]
      exact hend (by rw [he2]; rfl)
    · exact hend (by rw [he]; rfl)
  obtain ⟨u, v', h, -⟩ := hends
  exact ⟨u, v', h, calcModified_passes k orig _ _ _ h⟩

/-- A set in which every entry is changed and was in the ledger. -/
def AllModified (v : LedgerEntrySet) : Prop :=
  ∀ k e, v.mEntries[k]? = some e → e.mAction = .taaMODIFY ∧ (v.mLedger.getSLE k).isSome = true

theorem AllModified.passes (h : AllModified v) (hp : Passes v v') : AllModified v' := by
  intro k e' he'
  rw [hp.ledger]
  cases he : v.mEntries[k]? with
  | none => cases (hp.absent k he).symm.trans he'
  | some e =>
    obtain ⟨e1, he1, -, hact⟩ := hp.entries k e he
    cases he1.symm.trans he'
    obtain ⟨hmod, hbase⟩ := h k e he
    refine ⟨?_, hbase⟩
    rcases hact with hact | ⟨-, -, hact⟩
    · exact hact.trans hmod
    · exact hact

theorem AllModified.calcNode_ends (h : AllModified v) (k : Key) (newMods : NewMods) :
    Ends (calcNode k newMods) v fun newMods' v' => newMods' = newMods ∧ AllModified v' := by
  unfold calcNode
  rw [Ends, get_bind_apply]
  cases he : v.mEntries[k]? with
  | none => exact ends_pure ⟨rfl, h⟩
  | some e =>
    obtain ⟨hact, hbase⟩ := h k e he
    obtain ⟨orig, horig⟩ := Option.isSome_iff_exists.1 hbase
    simp only [hact, horig]
    by_cases heqv : e.mEntry.eqv orig = true
    · simp only [heqv]
      exact ends_pure ⟨rfl, h⟩
    · simp only [heqv]
      exact (calcModified_ends he orig).bind fun _ _ hp => ends_pure ⟨rfl, h.passes hp⟩

theorem AllModified.calcRawMeta_ends (h : AllModified v) (ter : TER) (index : UInt32) :
    ∃ metaData v', calcRawMeta ter index v = .ok (metaData, v') := by
  -- no root is kept apart
  have hnodes (keys : List Key) {v : LedgerEntrySet} (h : AllModified v) :
      Ends (calcNodes keys ∅) v fun newMods _ => newMods = ∅ := by
    induction keys generalizing v with
    | nil => exact ends_pure rfl
    | cons k rest ih =>
      refine (h.calcNode_ends k ∅).bind fun newMods v1 ⟨hempty, hv1⟩ => ?_
      rw [hempty]
      exact ih hv1
  have hends : Ends (calcRawMeta ter index) v fun _ _ => True := by
    unfold calcRawMeta
    rw [Ends, get_bind_apply]
    refine (hnodes _ h).bind fun newMods v1 hempty => ?_
    rw [hempty]
    exact ⟨_, _, rfl, trivial⟩
  obtain ⟨metaData, v', hmeta, -⟩ := hends
  exact ⟨metaData, v', hmeta⟩

open TransactionEngine in
theorem Claimable.commits (h : Claimable engine txn params) {v0 : LedgerEntrySet}
    (ht : transact env txn params (engine.start txn params) = .ok (ter, v0))
    (hter : isTecClaim ter = true) :
    ∃ engine', applyTransaction env engine txn params = .ok ((ter, true), engine') := by
  obtain ⟨s, s', hs, hfee⟩ := h.root
  have hledger : v0.mLedger = engine.mLedger := transact_ledger ht
  have hrun : run env txn params (engine.start txn params) = .ok ((ter, true),
      v0.clear.setEntry (getAccountRootIndex txn.getSourceAccount) ⟨s', .taaMODIFY⟩) := by
    unfold run
    rw [bind_apply_ok ht, if_neg (by rintro rfl; cases hter), if_pos (by simp [hter, h.noRetry])]
    exact claimFee_eq h.isClosed (hledger ▸ hs) hfee
  have hall : AllModified (v0.clear.setEntry (getAccountRootIndex txn.getSourceAccount)
      ⟨s', .taaMODIFY⟩) := by
    intro k e he
    rw [getElem?_setEntry] at he
    split at he
    · next hk =>
      cases he
      refine ⟨rfl, ?_⟩
      subst hk
      have hs : v0.mLedger.getSLE (getAccountRootIndex txn.getSourceAccount) = some s := hledger ▸ hs
      exact Option.isSome_iff_exists.2 ⟨s, hs⟩
    · simp [clear] at he
  obtain ⟨metaData, v2, hmeta⟩ := hall.calcRawMeta_ends ter engine.mTxnSeq
  obtain ⟨l, hcommit⟩ := commit_ok hmeta h.fresh
  exact ⟨_, applyTransaction_ok h.txID hrun (by rintro rfl; cases hter) hcommit⟩

open TransactionEngine in
/-- A call is atomic exactly if it stores no amount that a failed transaction's
payments delivered. -/
theorem applyTransaction_atomic_iff (env : Env) (engine : TransactionEngine) (txn : STTx)
    (params : TransactionEngineParams) :
    Atomic env engine txn params ↔
      ¬(Claimable engine txn params ∧ Undone env txn params (engine.start txn params)) := by
  have hstart : (engine.start txn params).mSet.mDelivered = none := rfl
  constructor
  · rintro hatomic ⟨hclaim, hundone⟩
    obtain ⟨hd, ter, w, ht, hter⟩ := undone_iff.1 hundone
    obtain ⟨engine', hcall⟩ := hclaim.commits ht hter
    obtain ⟨-, item, hmap, -, htold⟩ := (hatomic ter true engine' hcall).2 rfl hter
    obtain ⟨hf, -⟩ | ⟨-, v1, v2, metaData, hc⟩ := (applyTransaction_cases hcall).2
    · cases hf
    obtain ⟨-, -, -, ter0, v0, ht0, -, hmeta⟩ := claimed_call hc hter
    cases ht.symm.trans ht0
    have hitem : item = ⟨txn, some metaData⟩ := by
      have := congrArg (·[txn.getTransactionID]?)
        (hmap.symm.trans (congrArg Ledger.mTransactionMap hc.ledger))
      simpa [hclaim.isClosed] using this
    have hsome := (transact_delivered env txn params ht).2 (.inr hd)
    rw [← hmeta, (htold metaData (by rw [hitem])).1] at hsome
    cases hsome
  · intro h ter applied engine' hcall
    obtain ⟨hid, hl⟩ := applyTransaction_cases hcall
    obtain ⟨rfl, hl⟩ | ⟨rfl, v1, v2, metaData, hc⟩ := hl
    · rw [hl]
      exact ⟨fun _ => ⟨rfl, rfl⟩, by simp⟩
    refine ⟨by simp, fun _ hter => ?_⟩
    obtain ⟨hsource, hnodes, hclaim, ter0, v0, ht, hter0, hmeta⟩ := claimed_call hc hter
    refine ⟨hsource, _, congrArg Ledger.mTransactionMap hc.ledger, rfl, fun m hm => ?_⟩
    split at hm
    · cases hm
    next hopen =>
    cases hm
    refine ⟨?_, hnodes⟩
    by_contra hne
    have hdelivers : delivers env txn params (engine.start txn params) := by
      rw [hmeta, ← ne_eq, Option.ne_none_iff_isSome, transact_delivered env txn params ht, hstart] at hne
      simpa using hne
    have hid : txn.getTransactionID ≠ 0 := by
      rcases hid with ⟨-, rfl⟩ | ⟨hid, -⟩
      · cases hter
      · exact hid
    exact h ⟨hclaim hid (by simpa using hopen), undone_iff.2 ⟨hdelivers, ter0, v0, ht, hter0⟩⟩

/-- The delivered amount in the metadata that a call stored. -/
def storedDelivery (txn : STTx) (engine : TransactionEngine) : Option STAmount :=
  engine.mLedger.mTransactionMap[txn.getTransactionID]?.bind fun item =>
    item.metaData.bind (·.mDelivered)

theorem not_atomic_of_storedDelivery {amount : STAmount} (hter : isTecClaim ter = true)
    (h : (TransactionEngine.applyTransaction env engine txn params).map
      (fun r => (r.1, storedDelivery txn r.2)) = .ok ((ter, true), some amount)) :
    ¬Atomic env engine txn params := by
  intro hatomic
  cases hcall : TransactionEngine.applyTransaction env engine txn params with
  | error e => simp [hcall, Except.map] at h
  | ok r =>
    obtain ⟨⟨ter', applied⟩, engine'⟩ := r
    simp only [hcall, Except.map, Except.ok.injEq, Prod.mk.injEq] at h
    obtain ⟨⟨rfl, rfl⟩, hd⟩ := h
    obtain ⟨-, item, hmap, -, htold⟩ := (hatomic _ _ _ hcall).2 rfl hter
    simp only [storedDelivery, hmap, Std.ExtTreeMap.getElem?_insert_self, Option.bind_some] at hd
    cases hm : item.metaData with
    | none => simp [hm] at hd
    | some metaData =>
      rw [hm, Option.bind_some, (htold metaData hm).1] at hd
      cases hd

end

/-- Units of currency 7 of an account. -/
def iou (account : Account) (units : UInt64) : STAmount :=
  if units = 0 then { mIssue := ⟨7, account⟩, mOffset := -100, mIsNative := false }
  else { mIssue := ⟨7, account⟩, mValue := units * 100000000000000, mOffset := -14
         mIsNative := false }

/-- Account 5 has 80 of account 4's units; account 6 takes up to 20 of them. -/
def partialLedger : @Ledger Key.coded :=
  let root (a : Account) (sequence : UInt32) := (((SLE.new .accountRoot).setFieldAccount sfAccount
    a).setFieldAmount sfBalance { mValue := 1000 }).setFieldU32 sfSequence sequence
  let line (balance limit : STAmount) := (((SLE.new .skywellState).setFieldAmount sfBalance
    balance).setFieldAmount sfLowLimit (iou 4 0)).setFieldAmount sfHighLimit limit
  let dir (a : Account) (indexes : List Key) :=
    ((SLE.new .dirNode).setFieldAccount sfOwner a).set .sfIndexes indexes
  let entries : List (Key × SLE) := [
      (.account 2, root 2 1), (.account 4, root 4 1), (.account 5, root 5 3), (.account 6, root 6 1),
      (.skywell 4 5 7, line { iou 1 80 with mIsNegative := true } (iou 5 90)),
      (.skywell 4 6 7, line (iou 1 0) (iou 6 20)),
      (.ownerDir 4, dir 4 [.skywell 4 5 7, .skywell 4 6 7]),
      (.ownerDir 5, dir 5 [.skywell 4 5 7]), (.ownerDir 6, dir 6 [.skywell 4 6 7])]
  letI := Key.coded
  { mAccountStateMap := .ofList entries Key.cmp
    mTransactionMap := ∅
    mLedgerSeq := 1
    mBaseFee := 10
    mReferenceFeeUnits := 10
    mReserveBase := 20
    mReserveIncrement := 5 }

/-- The path engine finds the path over account 4, on which 20 units fit. -/
def partialEnv : @Env Key.coded :=
  letI := Key.coded
  { config := ⟨2, 3, 3, 10⟩
    closedLedger := partialLedger
    scaleFeeLoad := fun fee _ _ _ => fee
    accountID := fun _ => 5
    skywellCalculate := fun _ _ => .ok
      { result := .tesSUCCESS
        actualAmountOut := iou 4 20
        calls := [.skywellCredit 5 4 (iou 4 20), .skywellCredit 4 6 (iou 4 20)] } }

/-- A batch of account 5: a partial payment of 60 units to account 6, and a payment
to account 8, which does not exist. -/
def partialBatch : STTx :=
  let pay (id : TxID) (destination : Account) (units : UInt64) (flags : UInt32) :=
    STTx.mk { txID := id, account := 5, flags := flags, sigState := .good }
      (.payment destination (iou 4 units) none none none) []
  .mk { txID := 1, account := 5, sequence := 3, fee := { mValue := 10 }, sigState := .good }
    (.operation true none) [pay 2 6 60 tfPartialPayment, pay 3 8 10 0]

/-- The fee of the failed batch is claimed, and its metadata tells of the 20 units
that the first payment would have delivered. -/
theorem partialBatch_delivery : ∃ (_ : Sha512Half) (env : Env) (engine : TransactionEngine),
    ¬Atomic env engine partialBatch {} ∧
    (TransactionEngine.applyTransaction env engine partialBatch {}).map
      (fun r => (r.1, storedDelivery partialBatch r.2)) =
        .ok ((.tecNO_DST, true), some (iou 4 20)) :=
  letI := Key.coded
  have h : (TransactionEngine.applyTransaction partialEnv ⟨partialLedger, { mLedger := partialLedger }, 0⟩
      partialBatch {}).map (fun r => (r.1, storedDelivery partialBatch r.2)) =
        .ok ((.tecNO_DST, true), some (iou 4 20)) := by decide +kernel
  ⟨Key.coded, partialEnv, _, not_atomic_of_storedDelivery rfl h, h⟩

end Skywell
