import JingtumCore.FeeClaims
import JingtumCore.TwoRuns

/-!
# Malformed transactions

Which of the codes that call a transaction malformed depend on the transaction
alone. `TER.h` says of all of them that the transaction cannot succeed in any
imagined ledger. Some depend on what the ledger holds, and there the transaction
may well succeed on another one.
-/
namespace Skywell
open U32Field AccountField LedgerEntrySet StateExcept
open ExceptFold (Fails fails_pure fails_guard)

section
variable [Sha512Half]

/-- The result of a function that returns something else too is not a `tem` code. -/
abbrev NoTemIn {α : Type} (m : LES (TER × α)) : Prop :=
  Always (fun r => isTemMalformed r.1 = false) m

variable {high low src : Account} {keepRoot srcHigh stable tag : Bool}
  {index line root : Key} {v w : LedgerEntrySet} {balance limit : STAmount}
  {qualityIn qualityOut : UInt32} {page : UInt64}

namespace LedgerEntrySet

theorem dirAdd_noTem {describer : SLE → SLE} : NoTemIn (dirAdd root index describer) := by
  have done {page : UInt64} : NoTemIn (pure (TER.tesSUCCESS, page) : LES _) := always_pure rfl
  refine .bind fun _ => .ite (.bind fun _ => .bind fun _ => .bind fun _ => done) ?_
  refine .bind fun _ => .bind fun _ => .when fun _ => .bind fun _ => ?_
  refine .ite (.bind fun _ => .bind fun _ => done) (.ite (always_pure rfl) ?_)
  iterate 6 refine .bind fun _ => ?_
  exact .when fun _ => .bind fun _ => .bind fun _ => done

theorem dirAddBoth_noTem : NoTemIn (dirAddBoth index low high) := by
  refine .andThen dirAdd_noTem fun r hr => .ite (always_pure hr) ?_
  exact .andThen dirAdd_noTem fun r hr => always_pure hr

theorem relationCreate_noTem {dst : Account} :
    NoTem (relationCreate srcHigh src dst index root balance limit qualityIn qualityOut) := by
  refine .bind fun _ => .andThen dirAddBoth_noTem fun r hr => .ite (always_pure hr) ?_
  iterate 5 refine .bind fun _ => ?_
  exact always_pure hr

theorem signCreate_noTem {masterWeight : UInt16} {quorum quorumHigh : UInt32}
    {entries : List SignerEntry} :
    NoTem (signCreate index root src masterWeight quorum quorumHigh entries) := by
  refine .bind fun _ => .andThen dirAdd_noTem fun r hr => .ite (always_pure hr) ?_
  exact .bind fun _ => .bind fun _ => always_pure hr

theorem trustCreate_noTem {dst : Account} {auth noSkywell freeze : Bool} :
    NoTem (trustCreate srcHigh src dst index root auth noSkywell freeze balance limit qualityIn
      qualityOut) := by
  refine .bind fun _ => .andThen dirAddBoth_noTem fun r hr => .ite (always_pure hr) ?_
  refine .bind fun _ => .bind fun _ => .when fun _ => ?_
  iterate 5 refine .bind fun _ => ?_
  exact always_pure hr

theorem dirDeleteEmptied_noTem : NoTem (dirDeleteEmptied keepRoot page root) := by
  have done : NoTem (pure .tesSUCCESS) := always_pure rfl
  have bad : NoTem (pure .tefBAD_LEDGER) := always_pure rfl
  refine .bind fun _ => .ite (.ite (.bind fun _ => done) (.ite ?_ done)) (.ite ?_ (.ite done ?_))
  · refine .bind fun _ => .when fun _ => .bind fun _ => ?_
    exact .ite (.bind fun _ => .bind fun _ => done) done
  · refine .bind fun _ => .bind fun _ => .ite bad (.ite bad (.when fun _ => ?_))
    iterate 5 refine .bind fun _ => ?_
    exact done
  · refine .bind fun _ => .when fun _ => .when fun _ => .bind fun _ => ?_
    exact .ite (.bind fun _ => .bind fun _ => done) done

theorem dirDeleteAt_noTem {missing : LES TER} (h : NoTem missing) :
    NoTem (dirDeleteAt keepRoot page root index stable missing) := by
  refine .bind fun _ => .when fun _ => .either fun _ => .ite h ?_
  exact .bind fun _ => .bind fun _ => .ite dirDeleteEmptied_noTem (always_pure rfl)

theorem dirDelete_noTem {soft : Bool} : NoTem (dirDelete keepRoot page root index stable soft) := by
  have bad : NoTem (pure .tefBAD_LEDGER) := always_pure rfl
  unfold dirDelete
  generalize 20 - page.toNat = tries
  -- one page after the other
  induction tries generalizing page soft with
  | zero => exact dirDeleteAt_noTem bad
  | succ tries ih => exact dirDeleteAt_noTem (.ite bad ih)

theorem trustDelete_noTem : NoTem (trustDelete line low high) := by
  refine .bind fun _ => .andThen dirDelete_noTem fun r hr => ?_
  have ends {ter : TER} (h : isTemMalformed ter = false) :
      NoTem (do entryDelete line; return ter) := .bind fun _ => always_pure h
  exact .ite (.andThen dirDelete_noTem fun _ => ends)
    (.andThen (always_pure hr) fun _ => ends)

end LedgerEntrySet

omit [Sha512Half] in
theorem SetAccount.newFlags_noTem {sigMaster hasKey dirEmpty retry : Bool}
    {txFlags flagsIn setFlag clearFlag : UInt32} :
    Fails (fun ter => isTemMalformed ter = false)
      (newFlags sigMaster hasKey dirEmpty retry txFlags flagsIn setFlag clearFlag) := by
  have owners : isTemMalformed (if retry then .terOWNERS else .tecOWNERS) = false := by
    cases retry <;> rfl
  refine .ite (fails_guard owners ?_) ?_
  all_goals
    refine .ite (fails_guard rfl (fails_guard rfl ?_)) ?_
    all_goals exact fails_guard rfl (fails_pure _)

theorem SetAccount.doApply_noTem {emailHash walletLocator : Option Nat}
    {messageKey domain : Option Blob} {rate : Option UInt32} {setFlag clearFlag : UInt32}
    {t : Transactor} :
    NoTem (doApply emailHash walletLocator messageKey domain rate setFlag clearFlag t) := by
  refine .bind fun root => .bind fun sle => .either fun empty => ?_
  dsimp only
  split
  · next h => exact always_pure (newFlags_noTem _ h)
  refine .when fun _ => .when fun _ => .bind fun _ => .bind fun _ => .ite (always_pure rfl) ?_
  refine .bind fun _ => .ite (always_pure rfl) (.bind fun _ => ?_)
  split
  · refine .ite (.bind fun _ => ?_) (.when fun _ => ?_)
    all_goals exact .when fun _ => always_pure rfl
  · exact .when fun _ => always_pure rfl

theorem SetRegularKey.doApply_noTem {key : Option Account} {t : Transactor} :
    NoTem (doApply key t) := by
  have done : NoTem (pure .tesSUCCESS) := always_pure rfl
  refine .bind fun _ => .when fun _ => ?_
  split
  · exact .bind fun _ => done
  · exact .bind fun _ => .ite (always_pure rfl) (.bind fun _ => done)

theorem SetTrust.modifyLine_noTem {high : Bool} {dst : Account}
    {qualityIn qualityOut : Option UInt32} {reserve : UInt64} {t : Transactor} :
    NoTem (modifyLine line high dst limit qualityIn qualityOut reserve root t) := by
  iterate 10 refine .bind fun _ => ?_
  refine .when fun _ => .ite trustDelete_noTem (.either fun _ => ?_)
  exact .ite (always_pure rfl) (.bind fun _ => always_pure rfl)

theorem SetREL.doApply_noTem {set_ : Bool} {dst : Account} {relation : UInt32} {t : Transactor} :
    NoTem (doApply set_ dst relation limit t) := by
  refine .bind fun _ => .ite (always_pure rfl) (.bind fun _ => .ite trustDelete_noTem ?_)
  refine .ite (.bind fun _ => .andThen relationCreate_noTem fun ter h => ?_) ?_
  · exact .ite (.bind fun _ => .when fun _ => .bind fun _ => .bind fun _ => always_pure h)
      (always_pure h)
  · exact .ite (.bind fun _ => .bind fun _ => always_pure rfl) (always_pure rfl)

theorem SetNickName.doApply_noTem {domain nickname : Option Blob} {t : Transactor} :
    NoTem (doApply domain nickname t) := by
  refine .bind fun _ => .ite (.bind fun _ => .bind fun _ => ?_) ?_
  all_goals
    refine .bind fun _ => .ite (always_pure rfl) (.bind fun _ => ?_)
    exact .ite (always_pure rfl) (.bind fun _ => always_pure rfl)

theorem Message.doApply_noTem {dst : Account} (t : Transactor) : NoTem (doApply dst t) :=
  .bind fun _ => .ite (always_pure rfl) (always_pure rfl)

/-- A transaction that is malformed in the first of two runs does not succeed in
the second. -/
def TemStays (ter ter' : TER) : Prop := isTemMalformed ter = true → ter' ≠ .tesSUCCESS

/-- The same for functions that return the members too. -/
abbrev TemStaysIn (r r' : TER × Transactor) : Prop := TemStays r.1 r'.1

variable {ter : TER} {t t' : Transactor} {h h' : Hooks}

omit [Sha512Half] in
theorem temStays_fail (h : ter ≠ .tesSUCCESS) : TemStays ter ter := fun _ => h

theorem agree_fail (h : ter ≠ .tesSUCCESS) :
    Agree TemStaysIn (pure (ter, t) : LES _) (pure (ter, t')) := agree_pure (temStays_fail h)

/-- Either run may stop with a failure that calls nothing malformed. -/
theorem agree_stops (h : isTemMalformed ter = false) (h' : ter ≠ .tesSUCCESS)
    {p p' : Prop} [Decidable p] [Decidable p'] {m m' : LES (TER × Transactor)}
    (hm : Agree TemStaysIn m m') :
    Agree TemStaysIn (if p then pure (ter, t) else m) (if p' then pure (ter, t') else m') :=
  .guards (always_pure fun _ e => by simp [h] at e) (always_pure fun _ _ => h') hm

variable {env env' : Env}

theorem preCheck_stays :
    Agree TemStaysIn (t.preCheck env) (t.preCheck env') := by
  refine .ite (agree_fail (by decide)) (agree_stops rfl (by decide) (.ite ?_ ?_))
  · exact .ite (agree_fail (by decide)) (agree_pure nofun)
  · exact agree_pure nofun

theorem Payment.preCheck_stays {dst : Account} {amount : STAmount} {sendMax : Option STAmount}
    {paths : Bool} : Agree TemStaysIn (preCheck env dst amount sendMax paths t)
      (preCheck env' dst amount sendMax paths t) := by
  refine .ite (agree_fail (by decide)) (.bind agree_lift ?_)
  rintro amount _ rfl
  iterate 6 refine .ite (agree_fail (by decide)) ?_
  apply agree_stops rfl (by decide)
  iterate 5 refine .ite (agree_fail (by decide)) ?_
  refine .bind agree_true fun _ _ _ => agree_stops rfl (by decide) ?_
  exact Skywell.preCheck_stays

theorem SetAccount.preCheck_stays {rate : Option UInt32} {setFlag clearFlag : UInt32} :
    Agree TemStaysIn (preCheck env rate setFlag clearFlag t)
      (preCheck env' rate setFlag clearFlag t) := by
  iterate 6 refine .ite (agree_fail (by decide)) ?_
  exact Skywell.preCheck_stays

theorem checkLimit_stays {mask : UInt32} :
    Agree TemStaysIn (checkLimit env mask limit t) (checkLimit env' mask limit t) := by
  iterate 6 refine .ite (agree_fail (by decide)) ?_
  exact preCheck_stays

theorem SetSign.preCheck_stays {entries : List SignerEntry} :
    Agree TemStaysIn (preCheck env entries t) (preCheck env' entries t) := by
  refine .ite (agree_fail (by decide)) ?_
  dsimp only
  split
  · next h =>
    obtain ⟨_, _, h⟩ := List.exists_of_findSome?_eq_some h
    apply agree_fail
    split_ifs at h <;> cases h <;> decide
  · exact Skywell.preCheck_stays

theorem Message.preCheck_stays {dst : Account} :
    Agree TemStaysIn (preCheck env dst t) (preCheck env' dst t) := by
  iterate 2 refine .ite (agree_fail (by decide)) ?_
  exact agree_stops rfl (by decide) Skywell.preCheck_stays

theorem ManageTransactor.preCheck_stays (hc : env'.config = env.config) :
    Agree TemStaysIn (preCheck env t) (preCheck env' t) := by
  unfold preCheck
  rw [hc]
  refine .ite ?_ ?_
  all_goals exact .ite (agree_fail (by decide)) (agree_pure nofun)

theorem payFee_noTem (h : LegalFee t.mTxn) : NoTemIn t.payFee := by
  obtain ⟨hl, hs, hn⟩ := h
  have hfee : (t.mTxn.getTransactionFee.signum < 0 || !t.mTxn.getTransactionFee.isNative) = false := by
    simp [hn, hs]
  unfold Transactor.payFee
  simp only [hl, hfee, reduceCtorEq, if_false]
  refine .either fun _ => .ite (always_pure rfl) (.ite (always_pure rfl) (.bind fun _ => ?_))
  refine .ite (.ite ?_ (always_pure rfl)) ?_
  · exact .bind fun _ => .bind fun _ => always_pure rfl
  · exact .bind fun _ => .bind fun _ => .bind fun _ => .bind fun _ => .bind fun _ =>
      .bind fun _ => .bind fun _ => always_pure rfl

theorem payFee_stays (h : t'.mTxn = t.mTxn) :
    Agree TemStaysIn t.payFee t'.payFee := by
  by_cases hl : LegalFee t.mTxn
  · exact ((payFee_noTem hl).mono fun _ hr _ e => by simp [hr] at e).agree_left
  · exact (payFee_fair.mono fun _ hr _ _ e => hl (h ▸ hr (.inl e))).agree_right

theorem checkSeq_noTem : NoTem t.checkSeq := by
  refine .bind fun _ => .bind fun _ => .bind fun _ => ?_
  split
  · next h =>
    apply always_pure
    simp only [Transactor.seqFailure, ite_not] at h
    split_ifs at h <;> cases h <;> rfl
  · exact .bind fun _ => .when fun _ => always_pure rfl

/-- A run goes on after a success only. -/
theorem agree_unless {γ δ : Type} {P : γ → δ → Prop} {ter' : TER} (h : TemStays ter ter')
    {m m' : LES γ} {n n' : LES δ}
    (hm : isTemMalformed ter = false → Always (fun c => ∀ d, P c d) m)
    (hn : ter' ≠ .tesSUCCESS → Always (fun d => ∀ c, P c d) n)
    (hgo : ter = .tesSUCCESS → ter' = .tesSUCCESS → Agree P m' n') :
    Agree P (if ter ≠ .tesSUCCESS then m else m') (if ter' ≠ .tesSUCCESS then n else n') := by
  by_cases h' : ter' = .tesSUCCESS
  · rw [if_neg (not_not.2 h')]
    split
    · exact (hm (by simpa using fun e => h e h')).agree_left
    · next hter => exact hgo (not_not.1 hter) h'
  · rw [if_pos h']
    exact (hn h').agree_right

theorem charge_stays (hk : h.Known) (hseq : h'.checkSeq = h.checkSeq) (hpay : h'.payFee = h.payFee)
    (htxn : t'.mTxn = t.mTxn) : Agree TemStaysIn (h.charge t) (h'.charge t') := by
  have seq : Agree TemStays (h.checkSeq t) (h.checkSeq t') := by
    rcases hk.checkSeq with e | e | e
    · rw [e]
      exact (checkSeq_noTem.mono fun _ h _ e => by simp [h] at e).agree_left
    · rw [e]
      simp only [Change.checkSeq, htxn]
      exact .ite (agree_pure (temStays_fail (by decide))) (agree_pure nofun)
    · rw [e]
      have noTem : NoTem (ManageTransactor.checkSeq t) :=
        .bind fun _ => .ite (always_pure rfl) (always_pure rfl)
      exact (noTem.mono fun _ h _ e => by simp [h] at e).agree_left
  have pay {k k' : Option Key} : Agree TemStaysIn (h.payFee { t with mFeeAccount := k })
      (h.payFee { t' with mFeeAccount := k' }) := by
    rcases hk.payFee with e | e | e
    · rw [e]
      exact payFee_stays htxn
    · rw [e]
      simp only [htxn]
      exact .ite (agree_fail (by decide)) (agree_pure nofun)
    · rw [e]
      exact agree_pure nofun
  unfold Hooks.charge
  rw [hseq, hpay]
  refine .bind seq fun ter ter' hter => agree_unless hter ?_ ?_ ?_
  · exact fun h => always_pure fun _ e => by simp [h] at e
  · exact fun h => always_pure fun _ _ => h
  · exact fun _ _ => .when pay

/-- `prepare` up to the signature check. -/
def Hooks.reachSig (h : Hooks) (env : Env) (t : Transactor) : LES (Except TER Transactor) := do
  let (terResult, t) ← h.preCheck t
  if terResult ≠ .tesSUCCESS then return .error terResult
  let t ← h.load env t
  if t.mTxnAccount.isNone && h.mustHaveValidAccount then return .error .terNO_ACCOUNT
  if t.mParams.tapPRE_CHECKED then return .ok t
  let (terResult, t) ← h.charge t
  if terResult ≠ .tesSUCCESS then return .error terResult
  return .ok t

theorem prepare_eq_reachSig :
    h.prepare env t = (do
      match ← h.reachSig env t with
      | .error terResult => return .error terResult
      | .ok t => h.sign t) := by
  unfold Hooks.prepare Hooks.reachSig
  simp only [bind_assoc]
  refine bind_congr fun r => ?_
  split
  · simp
  simp only [bind_assoc]
  refine bind_congr fun t => ?_
  split
  · simp
  split
  · simp
  simp only [bind_assoc]
  refine bind_congr fun r => ?_
  split
  · simp
  · simp

theorem load_same (hk : h.Known) :
    Always (fun t' => t'.mTxn = t.mTxn ∧ t'.mParams = t.mParams ∧
      t'.mTxnAccountID = t.mTxnAccountID) (h.load env t) :=
  fun _ => (load_spec hk.feeReads).mono fun _ _ hl =>
    ⟨hl.1.txn, hl.1.params, hl.1.txnAccountID⟩

/-- A run that is malformed before its signature is checked does not come to
that check in the other. -/
def ReachStays (r r' : Except TER Transactor) : Prop :=
  ∀ ter, r = .error ter → isTemMalformed ter = true → ∀ t, r' ≠ .ok t

theorem reachSig_stays (hk : h.Known) (hk' : h'.Known) (hseq : h'.checkSeq = h.checkSeq)
    (hpay : h'.payFee = h.payFee) (hpre : Agree TemStaysIn (h.preCheck t) (h'.preCheck t))
    (hs : Sources t (h.preCheck t)) (hs' : Sources t (h'.preCheck t)) :
    Agree ReachStays (h.reachSig env t) (h'.reachSig env' t) := by
  have stops {ter : TER} (hter : isTemMalformed ter = false) :
      Always (fun r => ∀ r', ReachStays r r') (pure (.error ter) : LES (Except TER Transactor)) := by
    refine always_pure fun _ _ e e' => ?_
    cases e
    rw [hter] at e'
    cases e'
  have never {ter : TER} :
      Always (fun r' => ∀ r, ReachStays r r') (pure (.error ter) : LES (Except TER Transactor)) :=
    always_pure fun _ _ _ _ _ e => by cases e
  refine .bind (hpre.and hs hs') ?_
  rintro ⟨ter, t1⟩ ⟨ter', t1'⟩ ⟨hter, hs1, hs1'⟩
  refine agree_unless hter stops (fun _ => never) fun e e' => ?_
  refine .bind (agree_true.and (load_same hk) (load_same hk')) ?_
  rintro t2 t2' ⟨-, ⟨htxn, hparams, -⟩, htxn', hparams', -⟩
  have hparams : t2'.mParams = t2.mParams := by
    rw [hparams', hparams, (hs1 e).2.1, (hs1' e').2.1]
  have htxn : t2'.mTxn = t2.mTxn := by
    rw [htxn', htxn, (hs1 e).1, (hs1' e').1]
  refine .guards (stops rfl) never ?_
  rw [hparams]
  refine .ite (agree_pure nofun) (.bind (charge_stays hk hseq hpay htxn) fun r r' hr => ?_)
  exact agree_unless hr stops (fun _ => never) fun _ _ => agree_pure nofun

/-- The members with which a signature is checked and `doApply` is called. -/
structure Reached (t t' : Transactor) : Prop where
  txn : t'.mTxn = t.mTxn
  params : t'.mParams = t.mParams
  txnAccountID : t'.mTxnAccountID = t.mTxn.getSourceAccount

theorem reachSig_reached (env : Env) (hk : h.Known)
    (hs : Sources t (h.preCheck t)) : Always (fun r => r ≠ .error .tesSUCCESS ∧
      ∀ t', r = .ok t' → Reached t t') (h.reachSig env t) := by
  refine .andThen hs fun ⟨ter, t1⟩ hs1 => ?_
  dsimp only at hs1 ⊢
  split
  · next h => exact always_pure ⟨fun e => h (Except.error.inj e), by rintro _ ⟨⟩⟩
  next h =>
  obtain ⟨htxn, hparams, hid⟩ := hs1 (not_not.1 h)
  refine .andThen (load_same hk) fun t2 ⟨htxn2, hparams2, hid2⟩ => ?_
  have h2 : Reached t t2 := ⟨htxn2.trans htxn, hparams2.trans hparams, hid2.trans hid⟩
  refine .ite (always_pure ⟨nofun, by rintro _ ⟨⟩⟩) (.ite (always_pure ⟨nofun, ?_⟩) ?_)
  · rintro _ ⟨⟩
    exact h2
  refine .andThen hk.charge_same fun r hr => ?_
  split
  · next h => exact always_pure ⟨fun e => h (Except.error.inj e), by rintro _ ⟨⟩⟩
  · refine always_pure ⟨nofun, ?_⟩
    rintro _ ⟨⟩
    exact ⟨hr.1.txn.trans h2.txn, hr.1.params.trans h2.params, hr.1.txnAccountID.trans h2.txnAccountID⟩

/-- The signature is checked against a root without a regular key, and is not
made with the source's own key. -/
def Transactor.keyless (t : Transactor) : Bool :=
  !t.mParams.tapPRE_CHECKED && t.mSigningAccount != t.mTxnAccountID && !t.mHasAuthKey

/-- A line of the source with itself is asked for where there is none, and not to
authorize it. -/
def SetTrust.AsksForOwnLine (limit : STAmount) (t : Transactor) (v : LedgerEntrySet) : Prop :=
  limit.getIssuer = t.mTxnAccountID ∧
    v.read (getSkywellStateIndex t.mTxnAccountID t.mTxnAccountID limit.getCurrency) = none ∧
    (hasFlag t.mTxn.getFlags tfSetfAuth = true → (t.mTxnAccount.bind (v.mEntries[·]?)).any
      (fun e => hasFlag (e.mEntry.getFieldU32 sfFlags) lsfRequireAuth) = true)

/-- The branch of a `doApply` called in `v` that calls a transaction malformed for
what the ledger holds; `batch` says so for the transactions of a batch. -/
def TxFields.temBranch (env : Env) (t : Transactor) (fields : TxFields) (batch : Prop)
    (v : LedgerEntrySet) : Prop :=
  match fields with
  | .payment destination amount sendMax paths tag => ∃ rc v',
    Payment.Answers env destination amount sendMax paths tag.isSome t v rc v' ∧
      isTemMalformed rc.result = true
  | .trustSet limit _ _ => SetTrust.AsksForOwnLine limit t v
  | .blkListSet account => (v.read (getBlackListIndex account)).isSome = true
  | .blkListRmv account => v.read (getBlackListIndex account) = none
  | .operation legal _ => legal = true ∧ batch
  | _ => False

mutual

/-- A branch whose `tem` code depends on the ledger is taken when a transaction
is applied to `v`. -/
def ledgerTem (env : Env) : STTx → TransactionEngineParams → LedgerEntrySet → Prop
  | .mk common fields operations, params, v =>
    let txn := STTx.mk common fields operations
    let h := transactorOf env (Operations.applyAll env operations) txn
    let t : Transactor := { mTxn := txn, mParams := params }
    (isChange fields = false ∧ isManage fields = false ∧
      ∃ t' v', h.reachSig env t v = .ok (.ok t', v') ∧ t'.keyless = true) ∨
    ∃ t' v', h.prepare env t v = .ok (.ok t', v') ∧ fields.temBranch env t'
      (ledgerTemAll env operations (Operations.signAccounts env txn) params v') v'

/-- The same for the transactions of a batch, each when its turn comes. -/
def ledgerTemAll (env : Env) : List STTx → List Account → TransactionEngineParams →
    LedgerEntrySet → Prop
  | [], _, _, _ => False
  | sttx :: rest, mSigners, params, v =>
    ∃ p v1, Operations.precheckSig mSigners sttx.getSourceAccount params v =
      .ok ((.tesSUCCESS, p), v1) ∧
    let p := { p with tapPRE_CHECKED := true }
    (ledgerTem env sttx p v1 ∨ ∃ v2, transact env sttx p v1 = .ok (.tesSUCCESS, v2) ∧
      ledgerTemAll env rest mSigners p v2)

end

variable {loop loop' : List Account → TransactionEngineParams → LES TER} {txn : STTx}

theorem checkSig_keyless :
    Always (fun r => isTemMalformed r.1 = true → t.keyless = true) t.checkSig := by
  unfold Transactor.checkSig
  by_cases hp : t.mParams.tapPRE_CHECKED = true
  · rw [if_pos hp]
    exact .ite (always_pure nofun) (always_pure nofun)
  rw [if_neg hp]
  refine .bind fun _ => .bind fun _ => ?_
  by_cases hs : t.mSigningAccount = t.mTxnAccountID
  · rw [if_pos hs]
    exact .ite (always_pure nofun) (always_pure nofun)
  rw [if_neg hs]
  by_cases hk : t.mHasAuthKey = true
  · simp only [hk, Bool.not_true, reduceCtorEq, if_false]
    exact .ite (always_pure nofun) (always_pure nofun)
  · exact fun _ _ _ _ _ => by simp [Transactor.keyless, hp, hs, hk]

/-- The signature of a transaction of the network is checked without the ledger. -/
theorem Change.checkSig_stays (h : t'.mTxn = t.mTxn) :
    Agree TemStaysIn (checkSig t) (checkSig t') := by
  unfold checkSig
  rw [h]
  exact .ite (agree_fail (by decide)) (.ite (agree_fail (by decide)) (agree_pure nofun))

/-- A signature that is called malformed in one run is not accepted in another,
but for a source without a regular key. -/
theorem checkSig_stays (h : t'.mTxn = t.mTxn) :
    Agree (fun r r' => (isChange txn.fields = false ∧ isManage txn.fields = false ∧
        t.keyless = true) ∨ TemStaysIn r r')
      ((transactorOf env loop txn).checkSig t) ((transactorOf env' loop' txn).checkSig t') := by
  obtain ⟨common, fields, operations⟩ := txn
  cases fields with
  | amendment | fee => exact (Change.checkSig_stays h).mono fun _ _ => .inr
  | mngFee | mngIssuer | blkListSet | blkListRmv => exact agree_pure (.inr nofun)
  | _ =>
    refine (checkSig_keyless.mono fun r hr r' => ?_).agree_left
    by_cases hter : isTemMalformed r.1 = true
    · exact .inl ⟨rfl, rfl, hr hter⟩
    · exact .inr fun e => absurd e hter

theorem preCheck_stays_transactorOf (hc : env'.config = env.config)
    (ht : t.mTxnAccountID = t.mFeeAccountID) :
    Agree TemStaysIn ((transactorOf env loop txn).preCheck t)
      ((transactorOf env' loop' txn).preCheck t) := by
  obtain ⟨common, fields, operations⟩ := txn
  cases fields with
  | payment => exact Payment.preCheck_stays
  | accountSet => exact SetAccount.preCheck_stays
  | regularKeySet => exact .ite (agree_fail (by decide)) preCheck_stays
  | trustSet | relSet | relDel => exact checkLimit_stays
  | amendment | fee =>
    exact .ite (agree_fail (by decide)) (.ite (agree_fail (by decide)) (agree_pure nofun))
  | ticketCreate | ticketCancel | nicknameSet | operation => exact preCheck_stays
  | accountMerge dst =>
    refine Always.agree_right fun v => ?_
    exact (AccountMerge.preCheck_fails env' dst ht).mono fun _ _ h _ _ => h.1
  | mngFee | mngIssuer | blkListSet | blkListRmv => exact ManageTransactor.preCheck_stays hc
  | signSet => exact SetSign.preCheck_stays
  | message => exact Message.preCheck_stays

theorem reachSig_stays_transactorOf (hc : env'.config = env.config)
    (ht : t.mTxnAccountID = t.mFeeAccountID) :
    Agree ReachStays ((transactorOf env loop txn).reachSig env t)
      ((transactorOf env' loop' txn).reachSig env' t) := by
  refine reachSig_stays (known_transactorOf ..) (known_transactorOf ..) ?_ ?_
    (preCheck_stays_transactorOf hc ht) (preCheck_sources_transactorOf ht)
    (preCheck_sources_transactorOf ht)
  all_goals
    obtain ⟨common, fields, operations⟩ := txn
    cases fields <;> rfl

/-- Where the result of a transactor comes from. -/
theorem apply_cases (he : h.apply env t v = .ok (ter, w)) :
    (∃ v1, h.reachSig env t v = .ok (.error ter, v1)) ∨
    ∃ t1 v1, h.reachSig env t v = .ok (.ok t1, v1) ∧
      ((ter ≠ .tesSUCCESS ∧ ∃ t2 v2, h.checkSig t1 v1 = .ok ((ter, t2), v2)) ∨
      ∃ t2 v2 v3, h.checkSig t1 v1 = .ok ((.tesSUCCESS, t2), v2) ∧
        h.prepare env t v = .ok (.ok t2, v3) ∧ h.doApply t2 v3 = .ok (ter, w)) := by
  obtain ⟨r, v0, hr, he⟩ := bind_eq_ok.1 he
  have hprepare := hr
  rw [prepare_eq_reachSig] at hr
  obtain ⟨r1, v1, hreach, hr⟩ := bind_eq_ok.1 hr
  cases r1 with
  | error ter1 =>
    cases hr
    cases he
    exact .inl ⟨_, hreach⟩
  | ok t1 =>
    refine .inr ⟨t1, v1, hreach, ?_⟩
    obtain ⟨⟨ter2, t2⟩, v2, hsig, hr⟩ := bind_eq_ok.1 hr
    dsimp only at hr
    split at hr
    · next hter =>
      cases hr
      cases he
      exact .inl ⟨hter, t2, _, hsig⟩
    · next hter =>
      obtain ⟨_, _, -, hr⟩ := bind_eq_ok.1 hr
      obtain ⟨_, _, -, hr⟩ := bind_eq_ok.1 hr
      cases hr
      exact .inr ⟨t2, v2, v0, not_not.1 hter ▸ hsig, hprepare, he⟩

omit [Sha512Half] in
theorem isTemMalformed_settled (ter : TER) :
    isTemMalformed (if isTerRetry ter then .tecPATH_DRY else ter) = isTemMalformed ter := by
  cases ter <;> rfl

/-- A payment is called malformed exactly if the path engine says so. -/
theorem Payment.doApply_tem {dst : Account} {amount : STAmount} {sendMax : Option STAmount}
    {paths : Option (List (List STPathElement))}
    (hheld : ∀ k, t.Held k → k.type = .accountRoot ∧ v.Touched k)
    (h : doApply env dst amount sendMax paths tag t v = .ok (ter, w)) :
    isTemMalformed ter = true ↔ ∃ rc v', Answers env dst amount sendMax paths tag t v rc v' ∧
      isTemMalformed rc.result = true := by
  obtain ⟨rc, v', hans, -, hend⟩ | ⟨hno, hter, -⟩ := doApply_cases hheld h
  · have hcode : isTemMalformed ter = isTemMalformed rc.result := by
      by_cases hoff : OffAmount amount rc
      · rw [settled_off hoff] at hend
        cases hend
        rw [hoff.1]
      · rw [settled_even hoff] at hend
        cases hend
        exact isTemMalformed_settled _
    rw [hcode]
    constructor
    · exact fun hrc => ⟨rc, v', hans, hrc⟩
    · rintro ⟨rc1, v1, hans1, hrc1⟩
      rw [← hans.unique hans1] at hrc1
      exact hrc1
  · rw [hter]
    constructor
    · rintro ⟨⟩
    · rintro ⟨rc, v', hans, -⟩
      exact absurd hans (hno rc v')

theorem SetTrust.doApply_tem {qualityIn qualityOut : Option UInt32} :
    Spec (doApply limit qualityIn qualityOut t) v
      fun ter _ => isTemMalformed ter = true ↔ AsksForOwnLine limit t v := by
  have noTem {Q : Prop} {m : LES TER} (h : NoTem m) (hq : ¬Q) (v' : LedgerEntrySet) :
      Spec m v' fun ter _ => isTemMalformed ter = true ↔ Q :=
    (h v').mono fun ter _ h => by simp [h, hq]
  refine spec_bind.2 <| spec_pointer.2 fun root hroot => spec_bind.2 <| spec_deref.2 fun e he => ?_
  refine spec_bind.2 <| spec_getLedger.2 <| spec_ite.2 ⟨fun hauth => ?_, fun hauth => ?_⟩
  · refine noTem (always_pure rfl) (fun ⟨_, _, h⟩ => ?_) v
    rw [hroot, Option.bind_some, he, Option.any_some] at h
    simp_all
  have hflag : hasFlag t.mTxn.getFlags tfSetfAuth = true → (t.mTxnAccount.bind (v.mEntries[·]?)).any
      (fun e => hasFlag (e.mEntry.getFieldU32 sfFlags) lsfRequireAuth) = true := by
    rw [hroot, Option.bind_some, he, Option.any_some]
    simpa using hauth
  refine spec_ite.2 ⟨fun hself => ?_, fun hself => ?_⟩
  · rw [← hself]
    refine spec_bind.2 <| spec_entryCache.2 <| spec_ite.2 ⟨fun hline => ?_, fun hline => ?_⟩
    · refine noTem trustDelete_noTem (fun ⟨_, h, _⟩ => ?_) _
      rw [h] at hline
      cases hline
    · refine spec_pure.2 ⟨fun _ => ⟨hself.symm, Option.not_isSome_iff_eq_none.1 hline, hflag⟩, fun _ => rfl⟩
  · refine noTem (.bind fun _ => .ite (always_pure rfl) (.bind fun _ => .ite ?_ ?_))
      (fun h => hself h.1.symm) v
    · exact modifyLine_noTem
    · exact .ite (always_pure rfl) (.bind fun _ => .ite (always_pure rfl)
        trustCreate_noTem)

theorem ManageTransactor.applyManageBlackList_tem (account : Account) (isSet : Bool) :
    Spec (applyManageBlackList account isSet) v
      fun ter _ => isTemMalformed ter = true ↔
        (v.read (getBlackListIndex account)).isSome = isSet := by
  refine spec_bind.2 <| spec_entryCache.2 ?_
  cases (v.read (getBlackListIndex account)).isSome <;> cases isSet
  case false.false | true.true => exact spec_pure.2 ⟨fun _ => rfl, fun _ => rfl⟩
  · refine spec_bind.2 fun _ _ _ => spec_bind.2 fun _ _ _ => spec_bind.2 fun _ _ _ => ?_
    exact spec_pure.2 ⟨nofun, nofun⟩
  · exact spec_bind.2 fun _ _ _ => spec_pure.2 ⟨nofun, nofun⟩

theorem SetSign.doApply_stays (masterWeight : UInt16) (quorum quorumHigh : UInt32)
    (entries : List SignerEntry) (h : t'.mTxn = t.mTxn) :
    Agree TemStays (doApply masterWeight quorum quorumHigh entries t)
      (doApply masterWeight quorum quorumHigh entries t') := by
  unfold doApply
  rw [h]
  refine .ite (agree_pure (temStays_fail (by decide))) (Always.agree_left ?_)
  have noTem {m : LES TER} (hm : NoTem m) : Always (fun ter => ∀ ter', TemStays ter ter') m :=
    hm.mono fun _ h _ e => by simp [h] at e
  refine .bind fun _ => .bind fun _ => .ite (.bind fun _ => ?_) ?_
  · exact noTem signCreate_noTem
  · exact noTem (.bind fun _ => .bind fun _ => always_pure rfl)

theorem doApply_stays (hid : env'.accountID = env.accountID) (ht : t.mTxn = txn)
    (ht' : t'.mTxn = txn) (hp : t'.mParams = t.mParams)
    (hheld : ∀ k, t.Held k → k.type = .accountRoot ∧ v.Touched k)
    (hm : ∀ dst, txn.fields ≠ .accountMerge dst)
    (htem : isTemMalformed ter = true) (he : (transactorOf env loop txn).doApply t v = .ok (ter, w))
    {batch : Prop} (hloop : loop (Operations.signAccounts env txn) t.mParams v = .ok (ter, w) →
      batch ∨ Always (· ≠ .tesSUCCESS) (loop' (Operations.signAccounts env txn) t.mParams)) :
    txn.fields.temBranch env t batch v ∨
      Always (· ≠ .tesSUCCESS) ((transactorOf env' loop' txn).doApply t') := by
  have noTem {P : Prop} {m : LES TER} (h : NoTem m) (he : m v = .ok (ter, w)) : P := by
    have h : isTemMalformed ter = false := h v ter w he
    rw [htem] at h
    cases h
  obtain ⟨common, fields, operations⟩ := txn
  cases fields with
  | payment => exact .inl ((Payment.doApply_tem hheld he).1 htem)
  | accountSet => exact noTem SetAccount.doApply_noTem he
  | regularKeySet => exact noTem SetRegularKey.doApply_noTem he
  | trustSet => exact .inl ((SetTrust.doApply_tem ter w he).1 htem)
  | relSet | relDel => exact noTem SetREL.doApply_noTem he
  | amendment => exact noTem (Change.applyAmendment_plain.mono fun _ => And.right) he
  | fee => exact noTem (Change.applyFee_plain.mono fun _ => And.right) he
  | ticketCreate | ticketCancel => exact .inr (always_pure (by decide))
  | nicknameSet => exact noTem SetNickName.doApply_noTem he
  | accountMerge dst => exact absurd rfl (hm dst)
  | mngFee | mngIssuer =>
    exact noTem (ManageTransactor.applyManage_plain.mono fun _ => And.right) he
  | blkListSet account =>
    exact .inl ((ManageTransactor.applyManageBlackList_tem account true ter w he).1 htem)
  | blkListRmv account =>
    have h := (ManageTransactor.applyManageBlackList_tem account false ter w he).1 htem
    exact .inl (Option.not_isSome_iff_eq_none.1 (by simp [h]))
  | signSet masterWeight quorum quorumHigh entries =>
    have h := SetSign.doApply_stays masterWeight quorum quorumHigh entries (ht'.trans ht.symm)
    exact .inr fun v' ter' w' he' => h v v' ter w he ter' w' he' htem
  | message => exact noTem (Message.doApply_noTem t) he
  | operation legal signs =>
    have h1 : Operations.doApply env legal loop t v = .ok (ter, w) := he
    have h2 : (transactorOf env' loop' (.mk common (.operation legal signs) operations)).doApply t' =
        Operations.doApply env' legal loop' t' := rfl
    rw [h2]
    have hsign : Operations.signAccounts env' = Operations.signAccounts env := by
      funext txn
      simp [Operations.signAccounts, hid]
    unfold Operations.doApply at h1 ⊢
    rw [ht']
    rw [ht] at h1
    split at h1
    · next hl =>
      rw [if_pos hl]
      exact .inr (always_pure (by decide))
    · next hl =>
      rw [if_neg hl, hsign, hp]
      refine (hloop h1).imp_left fun hb => ⟨?_, hb⟩
      cases legal
      · exact absurd rfl hl
      · rfl

/-- Such a branch does call the transaction malformed. -/
theorem temBranch_tem (ht : t.mTxn = txn)
    (hheld : ∀ k, t.Held k → k.type = .accountRoot ∧ v.Touched k)
    (he : (transactorOf env loop txn).doApply t v = .ok (ter, w)) {batch : Prop}
    (hloop : loop (Operations.signAccounts env txn) t.mParams v = .ok (ter, w) → batch →
      isTemMalformed ter = true) (hb : txn.fields.temBranch env t batch v) :
    isTemMalformed ter = true := by
  obtain ⟨common, fields, operations⟩ := txn
  cases fields with
  | payment => exact (Payment.doApply_tem hheld he).2 hb
  | trustSet => exact (SetTrust.doApply_tem ter w he).2 hb
  | blkListSet account =>
    exact (ManageTransactor.applyManageBlackList_tem account true ter w he).2 hb
  | blkListRmv account =>
    have hb : v.read (getBlackListIndex account) = none := hb
    exact (ManageTransactor.applyManageBlackList_tem account false ter w he).2 (by rw [hb]; rfl)
  | operation legal signs =>
    have he : Operations.doApply env legal loop t v = .ok (ter, w) := he
    unfold Operations.doApply at he
    rw [ht] at he
    split at he
    · cases he
      rfl
    · exact hloop he hb.2
  | _ => exact absurd hb id

/-- The parameters that `precheckSig` leaves do not depend on the ledger. -/
theorem precheckSig_same (mSigners : List Account) (source : Account)
    (params : TransactionEngineParams) :
    Always (fun r => isTemMalformed r.1 = false ∧ (r.1 = .tesSUCCESS → r.2 =
      if mSigners.contains source then { params with tapMASTER_SIGN := true } else params))
      (Operations.precheckSig mSigners source params) := by
  refine .bind fun _ => .either fun _ => ?_
  by_cases hs : mSigners.contains source = true
  · simp only [hs, if_true]
    exact .ite (always_pure ⟨rfl, nofun⟩) (always_pure ⟨rfl, fun _ => rfl⟩)
  simp only [hs, reduceCtorEq, if_false]
  refine .ite (always_pure ⟨rfl, fun _ => rfl⟩) (.ite (.bind fun _ => .ite ?_ ?_) ?_)
  · exact .bind fun _ => .ite (always_pure ⟨rfl, fun _ => rfl⟩) (always_pure ⟨rfl, nofun⟩)
  all_goals exact always_pure ⟨rfl, nofun⟩

mutual

theorem transact_tem (hc : env'.config = env.config) (hid : env'.accountID = env.accountID) :
    (txn : STTx) → (params : TransactionEngineParams) → {v w : LedgerEntrySet} → {ter : TER} →
    transact env txn params v = .ok (ter, w) → isTemMalformed ter = true →
    ledgerTem env txn params v ∨ Always (· ≠ .tesSUCCESS) (transact env' txn params)
  | .mk common fields operations, params, v, w, ter, he, htem => by
    rw [transact] at he ⊢
    by_cases hticket : isTicket fields = true
    · rw [if_pos hticket]
      exact .inr (always_pure (by decide))
    rw [if_neg hticket] at he ⊢
    refine or_iff_not_imp_left.2 fun hbranch v' _ w' he' hok => ?_
    subst hok
    have hk (env : Env) := known_transactorOf env (Operations.applyAll env operations)
      (.mk common fields operations)
    have hr (env : Env) := reachSig_reached env (hk env) (preCheck_sources_transactorOf
      (t := { mTxn := .mk common fields operations, mParams := params }) rfl)
    -- the run that succeeds gets as far as `doApply`
    obtain ⟨_, h⟩ | ⟨t1', v1', hreach', ⟨hne, -⟩ | ⟨t2', v2', v3', hsig', -, hdo'⟩⟩ := apply_cases he'
    · exact (hr env' v' _ _ h).1 rfl
    · exact hne rfl
    have h1' := (hr env' v' _ _ hreach').2 t1' rfl
    have h2' := ((hk env').checkSig_signs.1 v1' _ _ hsig').1
    obtain ⟨_, h⟩ | ⟨t1, v1, hreach, ⟨-, t2, v2, hsig⟩ | ⟨t2, v2, v3, hsig, hprepare, hdo⟩⟩ :=
      apply_cases he
    · exact reachSig_stays_transactorOf hc rfl v v' _ _ h _ _ hreach' ter rfl htem t1' rfl
    · have h1 := (hr env v _ _ hreach).2 t1 rfl
      obtain ⟨hch, hmg, hkey⟩ | h :=
        checkSig_stays (h1'.txn.trans h1.txn.symm) v1 v1' _ _ hsig _ _ hsig'
      · exact hbranch (.inl ⟨hch, hmg, t1, v1, hreach, hkey⟩)
      · exact h htem rfl
    have h1 := (hr env v _ _ hreach).2 t1 rfl
    have h2 := ((hk env).checkSig_signs.1 v1 _ _ hsig).1
    have hp : t2.mParams = params := h2.params.trans h1.params
    have hready := ((prepare_transactorOf True _ _ hprepare).2.1 t2 rfl).2
    obtain h | h := doApply_stays hid (h2.txn.trans h1.txn) (h2'.txn.trans h1'.txn)
      ((h2'.params.trans h1'.params).trans hp.symm) hready.held
      (not_merge_of_prepare rfl hprepare) htem hdo fun h => applyAll_tem hc hid operations _ _ h htem
    · rw [hp] at h
      exact hbranch (.inr ⟨t2, v3, hprepare, h⟩)
    · exact h v3' _ _ hdo' rfl

theorem applyAll_tem (hc : env'.config = env.config) (hid : env'.accountID = env.accountID) :
    (ops : List STTx) → (mSigners : List Account) → (params : TransactionEngineParams) →
    {v w : LedgerEntrySet} → {ter : TER} →
    Operations.applyAll env ops mSigners params v = .ok (ter, w) → isTemMalformed ter = true →
    ledgerTemAll env ops mSigners params v ∨
      Always (· ≠ .tesSUCCESS) (Operations.applyAll env' ops mSigners params)
  | [], mSigners, params, v, w, ter, he, htem => by
    cases he
    cases htem
  | sttx :: rest, mSigners, params, v, w, ter, he, htem => by
    obtain ⟨⟨ter0, p⟩, v1, h0, he⟩ := bind_eq_ok.1 he
    obtain ⟨hno, hp⟩ := precheckSig_same mSigners sttx.getSourceAccount params v _ _ h0
    dsimp only at he hno hp
    split at he
    · cases he
      rw [htem] at hno
      cases hno
    next hter0 =>
    have hp := hp (not_not.1 hter0)
    rw [not_not.1 hter0] at h0
    refine or_iff_not_imp_left.2 fun hbranch v' _ w' he' hok => ?_
    subst hok
    obtain ⟨⟨ter0', p'⟩, v1', h0', he'⟩ := bind_eq_ok.1 he'
    obtain ⟨-, hp'⟩ := precheckSig_same mSigners sttx.getSourceAccount params v' _ _ h0'
    dsimp only at he' hp'
    split at he'
    · next hne =>
      cases he'
      exact hne rfl
    next hter0' =>
    -- the other run comes here with the same parameters
    rw [hp' (not_not.1 hter0'), ← hp] at he'
    obtain ⟨ter1', v2', h1', he'⟩ := bind_eq_ok.1 he'
    obtain ⟨ter1, v2, h1, he⟩ := bind_eq_ok.1 he
    split at he'
    · next hne =>
      cases he'
      exact hne rfl
    next hter1' =>
    split at he
    · cases he
      obtain h | h := transact_tem hc hid sttx _ h1 htem
      · exact hbranch ⟨p, v1, h0, .inl h⟩
      · exact h v1' _ _ h1' (not_not.1 hter1')
    · next hter1 =>
      rw [not_not.1 hter1] at h1
      obtain h | h := applyAll_tem hc hid rest mSigners _ he htem
      · exact hbranch ⟨p, v1, h0, .inr ⟨v2, h1, h⟩⟩
      · exact h v2' _ _ he' rfl

end

theorem checkSig_of_keyless (hk : t.keyless = true) (h : t.checkSig v = .ok ((ter, t'), w)) :
    isTemMalformed ter = true := by
  simp only [Transactor.keyless, Bool.and_eq_true, Bool.not_eq_true', bne_iff_ne] at hk
  obtain ⟨⟨hp, hs⟩, hk⟩ := hk
  unfold Transactor.checkSig at h
  simp only [hp, reduceCtorEq, if_false] at h
  obtain ⟨root, v1, -, h⟩ := bind_eq_ok.1 h
  obtain ⟨sle, v2, -, h⟩ := bind_eq_ok.1 h
  rw [if_neg hs, if_pos (by simp [hk])] at h
  cases h
  rfl

mutual

/-- A transaction that takes one of the branches is called malformed. -/
theorem ledgerTem_tem (env : Env) : (txn : STTx) → (params : TransactionEngineParams) →
    {v w : LedgerEntrySet} → {ter : TER} → transact env txn params v = .ok (ter, w) →
    ledgerTem env txn params v → isTemMalformed ter = true
  | .mk common fields operations, params, v, w, ter, he, hb => by
    rw [transact] at he
    split at he
    · cases he
      rfl
    rcases hb with ⟨hch, hmg, t1, v1, hreach, hkey⟩ | ⟨t2, v2, hprepare, hb⟩
    · have hbase : (transactorOf env (Operations.applyAll env operations)
          (.mk common fields operations)).checkSig = Transactor.checkSig := by
        cases fields with
        | amendment | fee => cases hch
        | mngFee | mngIssuer | blkListSet | blkListRmv => cases hmg
        | _ => rfl
      obtain ⟨_, h⟩ | ⟨t1', v1', h, ⟨-, t2, v2, hsig⟩ | ⟨t2, v2, _, hsig, -⟩⟩ := apply_cases he
      · cases hreach.symm.trans h
      · cases hreach.symm.trans h
        rw [hbase] at hsig
        exact checkSig_of_keyless hkey hsig
      · cases hreach.symm.trans h
        rw [hbase] at hsig
        cases checkSig_of_keyless hkey hsig
    · have hready := ((prepare_transactorOf True _ _ hprepare).2.1 t2 rfl).2
      replace he := (bind_apply_ok hprepare).symm.trans he
      refine temBranch_tem hready.txn hready.held he ?_ hb
      rw [hready.params]
      exact ledgerTemAll_tem env operations _ _

theorem ledgerTemAll_tem (env : Env) : (ops : List STTx) → (mSigners : List Account) →
    (params : TransactionEngineParams) → {v w : LedgerEntrySet} → {ter : TER} →
    Operations.applyAll env ops mSigners params v = .ok (ter, w) →
    ledgerTemAll env ops mSigners params v → isTemMalformed ter = true
  | [], mSigners, params, v, w, ter, he, hb => absurd hb id
  | sttx :: rest, mSigners, params, v, w, ter, he, hb => by
    obtain ⟨p, v1, h0, hb⟩ := hb
    replace he := (bind_apply_ok h0).symm.trans he
    obtain ⟨ter1, v2, h1, he⟩ := bind_eq_ok.1 he
    rcases hb with hb | ⟨v2', h1', hb⟩
    · have htem := ledgerTem_tem env sttx _ h1 hb
      rw [if_pos (by rintro rfl; cases htem)] at he
      cases he
      exact htem
    · cases h1.symm.trans h1'
      exact ledgerTemAll_tem env rest mSigners _ he hb

end

namespace TransactionEngine
variable {engine engine' engine1 engine1' : TransactionEngine} {params : TransactionEngineParams}
  {ter ter' : TER} {applied applied' : Bool}

omit [Sha512Half] in
theorem isTecClaim_fail (h : isTecClaim ter = true) :
    isTemMalformed ter = false ∧ ter ≠ .tesSUCCESS := by
  have hcode : 100 ≤ ter.code := of_decide_eq_true h
  constructor
  · have : ¬ter.code < TER.tefFAILURE.code := by
      simp only [TER.code] at hcode ⊢
      omega
    simp [isTemMalformed, this]
  · rintro rfl
    cases h

/-- The branches are no more than that: a call that takes one is called malformed. -/
theorem malformed_of_ledgerTem (hbranch : ledgerTem env txn params (engine.start txn params))
    (hid : txn.getTransactionID ≠ 0)
    (h : applyTransaction env engine txn params = .ok ((ter, applied), engine1)) :
    isTemMalformed ter = true := by
  obtain ⟨hz, -⟩ | ⟨-, _, v, hrun⟩ := (applyTransaction_cases h).1
  · exact absurd hz hid
  obtain ⟨ter0, v0, ht, ⟨-, rfl, -⟩ | ⟨hclaim, -, -⟩⟩ := run_eq_ok hrun
  · exact ledgerTem_tem env txn params ht hbranch
  · have htem := ledgerTem_tem env txn params ht hbranch
    rw [(isTecClaim_fail hclaim).1] at htem
    cases htem

end TransactionEngine

end

/-- A ledger with the root of account 5, which may have a regular key. -/
def nicknameLedger (regularKey : Option Account) : @Ledger Key.coded :=
  letI := Key.coded
  let root := ((SLE.new .accountRoot).setFieldAccount sfAccount 5).setFieldU32 sfSequence 1
  { mAccountStateMap := (∅ : StateMap).insert (.account 5)
      (regularKey.elim root fun key => root.setFieldAccount sfRegularKey key)
    mTransactionMap := ∅
    mLedgerSeq := 1
    mBaseFee := 10
    mReferenceFeeUnits := 10
    mReserveBase := 20
    mReserveIncrement := 5 }

/-- Every key is of account 7. -/
def nicknameEnv : @Env Key.coded :=
  letI := Key.coded
  { config := ⟨1, 2, 3, 10⟩
    closedLedger := nicknameLedger none
    scaleFeeLoad := fun fee _ _ _ => fee
    accountID := fun _ => 7
    skywellCalculate := fun _ _ => .error .nullPointer }

/-- A transaction, a ledger on which it is called malformed, the code, and a ledger on
which it succeeds. -/
structure BranchCall where
  txn : STTx
  refused : @TransactionEngine Key.coded
  code : TER
  accepted : @TransactionEngine Key.coded

def BranchCall.outcome (call : BranchCall) (engine : @TransactionEngine Key.coded) :
    Except Fault (TER × Bool) :=
  letI := Key.coded
  (TransactionEngine.applyTransaction nicknameEnv engine call.txn {}).map (·.1)

end Skywell
