import JingtumCore.LineFrames
import JingtumCore.Operations

/-!
# Frames of the transactors

What `Transactor::apply` does to a set before it calls `doApply`, and what each
`doApply` does.
-/
namespace Skywell
open U32Field AmountField AccountField H256Field LedgerEntrySet StateExcept Caps
variable [Sha512Half] {c : Caps} {env : Env} {t t' : Transactor} {v : LedgerEntrySet}

/-- The signature is good, or was not to be checked. -/
def Verified (txn : STTx) (params : TransactionEngineParams) : Prop :=
  txn.isKnownGood = true ∨ params.tapNO_CHECK_SIGN = true ∨ txn.common.checkSign = true

/-- The members of a transactor after a `preCheck` that succeeded. -/
structure PreChecked (env : Env) (t t' : Transactor) : Prop where
  txn : t'.mTxn = t.mTxn
  params : t'.mParams = t.mParams
  txnAccountID : t'.mTxnAccountID = t.mTxn.getSourceAccount
  feeAccountID : t'.mFeeAccountID = env.closedLedger.getFeeAccountID env.config
  signingAccount : t'.mSigningAccount = env.accountID t.mTxn.getSigningPubKey
  verified : Verified t.mTxn t.mParams
  source : t.mTxn.getSourceAccount ≠ 0
  sigMaster : t'.mSigMaster = t.mSigMaster

/-- Every success of a check has passed `Transactor::preCheck`, and no failure
claims a fee. -/
abbrev Checks (env : Env) (t : Transactor) : LES (TER × Transactor) → Prop :=
  Always fun r => (r.1 = .tesSUCCESS → PreChecked env t r.2) ∧ isTecClaim r.1 = false

variable {source : Account} {d : Key → Prop} {k : Option Key} {limit : STAmount} {ter : TER}
  {mask : UInt32}

theorem checks_pure (h : ter ≠ .tesSUCCESS ∧ isTecClaim ter = false) :
    Checks env t (pure (ter, t')) := always_pure ⟨fun e => absurd e h.1, h.2⟩

theorem preCheck_checks : Checks env t (t.preCheck env) := by
  unfold Transactor.preCheck
  by_cases h0 : t.mTxn.getSourceAccount = 0
  · rw [if_pos h0]
    exact checks_pure (by decide)
  rw [if_neg h0]
  refine .ite (checks_pure (by decide)) fun v => ?_
  simp only [spec_ite, spec_pure]
  refine ⟨fun hg => ⟨fun _ => ⟨fun h => absurd h (by decide), rfl⟩, fun hv => ⟨fun _ => ?_, rfl⟩⟩,
    fun hg => ⟨fun _ => ?_, rfl⟩⟩
  · simp only [Bool.or_eq_true, Bool.and_eq_true, Bool.not_eq_true', not_or, not_and,
      Bool.not_eq_false] at hv
    refine ⟨rfl, rfl, rfl, rfl, rfl, ?_, h0, rfl⟩
    by_cases hn : t.mParams.tapNO_CHECK_SIGN = true
    · exact .inr (.inl hn)
    · exact .inr (.inr (hv.2 (by simpa using hn)))
  · exact ⟨rfl, rfl, rfl, rfl, rfl, .inl (by simpa using hg), h0, rfl⟩

theorem spec_pointer {Q : Key → LedgerEntrySet → Prop} :
    Spec (pointer k) v Q ↔ ∀ k', k = some k' → Q k' v := by
  cases k <;> simp [pointer]

/-- Every result satisfies `Q`, and nothing is done to the set that any of the `ok` does not
allow. -/
def Framed (ok : Caps → Prop) (Q : TER × Transactor → Prop) (m : LES (TER × Transactor)) : Prop :=
  Always Q m ∧ ∀ c, ok c → Keeps (Frame c) m

namespace Framed
variable {ok : Caps → Prop} {Q : TER × Transactor → Prop} {m n : LES (TER × Transactor)}

theorem pure {r : TER × Transactor} (h : Q r) : Framed ok Q (pure r) :=
  ⟨always_pure h, fun _ _ => keeps_pure _⟩

theorem ite {p : Prop} [Decidable p] (hm : Framed ok Q m) (hn : Framed ok Q n) :
    Framed ok Q (if p then m else n) :=
  ⟨.ite hm.1 hn.1, fun c hc => keeps_ite (hm.2 c hc) (hn.2 c hc)⟩

theorem bind {α : Type} {m : LES α} {f : α → LES (TER × Transactor)}
    (hm : ∀ c, ok c → Keeps (Frame c) m) (hf : ∀ a, Framed ok Q (f a)) : Framed ok Q (m >>= f) :=
  ⟨.bind fun a => (hf a).1, fun c hc => .bind (hm c hc) fun a => (hf a).2 c hc⟩

theorem pointer {f : Key → LES (TER × Transactor)}
    (hf : ∀ k', k = some k' → Framed ok Q (f k')) : Framed ok Q (pointer k >>= f) :=
  ⟨fun v => spec_bind.2 <| spec_pointer.2 fun k' hk => (hf k' hk).1 v,
    fun c hc v => spec_bind.2 <| spec_pointer.2 fun k' hk => (hf k' hk).2 c hc v⟩

end Framed

/-- Checks that do nothing to the set that a payment may not do. -/
abbrev FramedChecks (env : Env) (t : Transactor) : LES (TER × Transactor) → Prop :=
  Framed Paying fun r => (r.1 = .tesSUCCESS → PreChecked env t r.2) ∧ isTecClaim r.1 = false

theorem Framed.guard {p : Prop} [Decidable p] {m : LES (TER × Transactor)}
    (h : ter ≠ .tesSUCCESS ∧ isTecClaim ter = false) (hm : FramedChecks env t m) :
    FramedChecks env t (if p then Pure.pure (ter, t') else m) :=
  .ite (.pure ⟨fun e => absurd e h.1, h.2⟩) hm

theorem preCheck_framed : FramedChecks env t (t.preCheck env) := by
  refine ⟨preCheck_checks, fun _ _ => ?_⟩
  refine keeps_ite (keeps_pure _) (keeps_ite (keeps_pure _) (keeps_ite ?_ (keeps_pure _)))
  exact keeps_ite (keeps_pure _) (keeps_pure _)

/-- Some checks set the source first. -/
theorem preCheck_framed_source :
    FramedChecks env t ({ t with mTxnAccountID := t.mTxn.getSourceAccount }.preCheck env) := by
  refine ⟨preCheck_framed.1.mono fun _ h => ⟨fun he => ?_, h.2⟩, preCheck_framed.2⟩
  have h := h.1 he
  exact ⟨h.1, h.2, h.3, h.4, h.5, h.6, h.7, h.8⟩

theorem Payment.preCheck_framed {dst : Account} {amount : STAmount}
    {sendMax : Option STAmount} {paths : Bool} :
    FramedChecks env t (preCheck env dst amount sendMax paths t) := by
  refine .guard (by decide) (.bind (fun _ _ => keeps_lift) fun _ => ?_)
  iterate 12 refine .guard (by decide) ?_
  exact .bind (fun _ hc => accountFundsCheck_frame hc) fun _ =>
    .guard (by decide) preCheck_framed_source

theorem SetAccount.preCheck_framed {rate : Option UInt32} {setFlag clearFlag : UInt32} :
    FramedChecks env t (preCheck env rate setFlag clearFlag t) := by
  iterate 6 refine .guard (by decide) ?_
  exact Skywell.preCheck_framed

theorem checkLimit_framed :
    FramedChecks env t (checkLimit env mask limit t) := by
  iterate 6 refine .guard (by decide) ?_
  exact preCheck_framed

theorem SetSign.preCheck_framed {entries : List SignerEntry} :
    FramedChecks env t (preCheck env entries t) := by
  refine .guard (by decide) ?_
  dsimp only
  split
  · next h =>
    obtain ⟨_, _, h⟩ := List.exists_of_findSome?_eq_some h
    refine ⟨checks_pure ?_, fun _ _ => keeps_pure _⟩
    split_ifs at h <;> cases h <;> decide
  · exact Skywell.preCheck_framed

theorem Message.preCheck_framed {dst : Account} :
    FramedChecks env t (preCheck env dst t) := by
  iterate 3 refine .guard (by decide) ?_
  exact preCheck_framed_source

/-- A new transactor does not get through `AccountMerge::preCheck`: its source and
its fee account are both zero there. -/
theorem AccountMerge.preCheck_fails (env : Env) (dst : Account)
    (h : t.mTxnAccountID = t.mFeeAccountID) : Spec (preCheck env dst t) v fun r v' =>
      r.1 ≠ .tesSUCCESS ∧ isTecClaim r.1 = false ∧ v' = v := by
  iterate 3 refine spec_ite.2 ⟨fun _ => spec_pure.2 ⟨nofun, rfl, rfl⟩, fun _ => ?_⟩
  rw [if_pos (by simp [h])]
  exact spec_pure.2 ⟨nofun, rfl, rfl⟩

theorem pointer_frame : Keeps (Frame c) (pointer k) :=
  fun v => spec_pointer.2 fun _ _ => refl v

theorem seqFailure_eq_none {txn : STTx} {ledger : Ledger} {sle : SLE}
    (h : Transactor.seqFailure txn ledger sle = none) :
    sle.getFieldU32 sfSequence = txn.getSequence := by
  by_contra hne
  simp only [Transactor.seqFailure, ne_comm.1 hne, ne_eq, not_false_eq_true] at h
  split_ifs at h

theorem checkSeq_frame (hd : ∀ k, t.mTxnAccount = some k → c.dirty k)
    (hw : ∀ k, c.writes k (.h256 sfAccountTxnID))
    (hb : ∀ k, t.mTxnAccount = some k → c.bump k t.mTxn.getSequence) :
    Keeps (Frame c) t.checkSeq := by
  intro v
  simp only [Transactor.checkSeq, spec_bind, spec_pointer, spec_deref, spec_getLedger]
  intro k hk e he
  split
  · exact spec_pure.2 (refl v)
  · next hnone =>
    rw [spec_bind, spec_assign]
    intro e' he'
    cases he.symm.trans he'
    have hs := seqFailure_eq_none hnone
    have hseq : c.Write k e.1 (e.1.setFieldU32 sfSequence (t.mTxn.getSequence + 1)) :=
      ⟨rfl, rfl, fun _ => .inr ⟨by simp [SLE.getFieldU32, SLE.get, SLE.setFieldU32, ← hs],
        .inl (hs ▸ hb k hk)⟩, fun _ f hf _ => SLE.field_set_of_ne _ hf _⟩
    have hbump := frame_setEntry he (.single (.write hseq fun _ => hd k hk))
    refine Spec.mono (keeps_when (assign_frame ?_ (hd k hk))
      (fun _ => keeps_pure _) _) fun _ _ h => IsTrans.trans _ _ _ hbump h
    exact sets_set ⟨by decide, by decide, fun _ => ⟨by decide, hw k⟩⟩ _

theorem createAccountRoot_touched {a : Account} (hf : c.fresh (getAccountRootIndex a))
    (hr : c.roots (getAccountRootIndex a))
    (hw : c.writes (getAccountRootIndex a) (.account sfAccount)) :
    Spec (createAccountRoot a) v fun _ v' => Frame c v v' ∧ v'.Touched (getAccountRootIndex a) := by
  refine spec_bind.2 <| (entryCreate_new (.inr hf) fun _ => hr).mono fun _ v1 ⟨h1, action, ha, he⟩ =>
    spec_assign.2 fun e he' => ?_
  cases he.symm.trans he'
  refine ⟨IsTrans.trans _ _ _ h1 (frame_setEntry he (.single (.write ?_ fun h => absurd h ha))),
    touched_setEntry ha⟩
  -- the sequence of a new root goes from zero to one
  exact {
    prevTxnID := rfl
    prevTxnLgrSeq := rfl
    sequence := fun _ => .inr ⟨rfl, .inr rfl⟩
    others := fun _ f hseq hn => by
      rw [SLE.setFieldU32, SLE.field_set_of_ne _ hseq, SLE.setFieldAccount, SLE.field_set_of_ne]
      rintro rfl
      exact hn hw }

/-- What `load` leaves in the members, from the set it was called with. -/
structure Loaded (v : LedgerEntrySet) (t t' : Transactor) : Prop where
  txn : t'.mTxn = t.mTxn
  params : t'.mParams = t.mParams
  txnAccountID : t'.mTxnAccountID = t.mTxnAccountID
  feeAccountID : t'.mFeeAccountID = t.mFeeAccountID
  signingAccount : t'.mSigningAccount = t.mSigningAccount
  txnAccount : t'.mTxnAccount =
    (v.read (getAccountRootIndex t.mTxnAccountID)).map fun _ => getAccountRootIndex t.mTxnAccountID
  feeAccount : t'.mFeeAccount =
    (v.read (getAccountRootIndex t.mFeeAccountID)).map fun _ => getAccountRootIndex t.mFeeAccountID
  root : ∀ sle, v.read (getAccountRootIndex t.mTxnAccountID) = some sle →
    t'.mPriorBalance = sle.getFieldAmount sfBalance ∧
    t'.mSourceBalance = sle.getFieldAmount sfBalance ∧
    t'.mHasAuthKey = sle.isFieldPresent (.account sfRegularKey)

/-- The base fee is computed without a change of the set. -/
def Hooks.FeeReads (h : Hooks) : Prop := ∀ t v, Spec (h.calculateBaseFee t) v fun _ v' => v' = v

variable {h : Hooks}

theorem load_spec (hb : h.FeeReads) :
    Spec (h.load env t) v fun t' v' => Loaded v t t' ∧
      v' = (v.cached (getAccountRootIndex t.mTxnAccountID)).cached
        (getAccountRootIndex t.mFeeAccountID) := by
  simp only [Hooks.load, spec_bind, spec_entryCache, read_cached]
  refine (hb _ _).mono fun fee v' hv => ?_
  subst hv
  simp only [Transactor.calculateFee, spec_bind, spec_getLedger]
  have hfee : (if (v.read (getAccountRootIndex t.mFeeAccountID)).isSome then
      some (getAccountRootIndex t.mFeeAccountID) else none) =
      (v.read (getAccountRootIndex t.mFeeAccountID)).map
        fun _ => getAccountRootIndex t.mFeeAccountID := by
    cases v.read (getAccountRootIndex t.mFeeAccountID) <;> rfl
  cases hr : v.read (getAccountRootIndex t.mTxnAccountID) with
  | none =>
    simp only [Option.isSome_none, Bool.not_false, if_true, spec_pure]
    exact ⟨⟨rfl, rfl, rfl, rfl, rfl, by simp [hr], hfee, by simp [hr]⟩, trivial⟩
  | some sle =>
    simp only [Option.isSome_some, Bool.not_true, reduceCtorEq, if_false, spec_bind,
      spec_deref, spec_pure]
    intro e he
    obtain ⟨rfl, -⟩ := mEntry_eq_of_read he (by simpa using hr)
    exact ⟨⟨rfl, rfl, rfl, rfl, rfl, by simp [hr], hfee, fun s hs => by
      cases hr.symm.trans hs
      exact ⟨rfl, rfl, rfl⟩⟩, trivial⟩

/-- The members that charging and checking signatures leave alone. -/
structure Transactor.Same (t t' : Transactor) : Prop where
  txn : t'.mTxn = t.mTxn
  params : t'.mParams = t.mParams
  txnAccountID : t'.mTxnAccountID = t.mTxnAccountID
  feeAccountID : t'.mFeeAccountID = t.mFeeAccountID
  signingAccount : t'.mSigningAccount = t.mSigningAccount
  txnAccount : t'.mTxnAccount = t.mTxnAccount
  hasAuthKey : t'.mHasAuthKey = t.mHasAuthKey
  priorBalance : t'.mPriorBalance = t.mPriorBalance

/-- The fee is charged to the same accounts. -/
def SameFee (t : Transactor) (r : TER × Transactor) : Prop :=
  t.Same r.2 ∧ r.2.mFeeAccount = t.mFeeAccount

section
omit [Sha512Half]

theorem sameFee_balance {b : STAmount} : SameFee t (ter, { t with mSourceBalance := b }) :=
  ⟨⟨rfl, rfl, rfl, rfl, rfl, rfl, rfl, rfl⟩, rfl⟩

theorem sameFee_self (ter : TER) : SameFee t (ter, t) :=
  ⟨⟨rfl, rfl, rfl, rfl, rfl, rfl, rfl, rfl⟩, rfl⟩

end

/-- What paying the fee writes: balances of the source and of the fee account. -/
structure Transactor.Pays (t : Transactor) (c : Caps) : Prop where
  txnAccount : ∀ k, t.mTxnAccount = some k → c.dirty k
  feeAccount : ∀ k, t.mFeeAccount = some k → c.dirty k
  balance : ∀ k, c.writes k (.amount sfBalance)

theorem payFee_framed : Framed t.Pays (SameFee t) t.payFee := by
  have same {ter : TER} : Framed t.Pays (SameFee t) (pure (ter, t)) := .pure (sameFee_self _)
  have source {b : STAmount} {f : Unit → LES (TER × Transactor)}
      (hf : ∀ u, Framed t.Pays (SameFee t) (f u)) : Framed t.Pays (SameFee t) (do
        f (← assign (← pointer t.mTxnAccount) fun sle => sle.setFieldAmount sfBalance b)) :=
    .pointer fun k hk => .bind
      (fun _ hc => assign_frame (sets_balance hc.balance k b) (hc.txnAccount k hk)) hf
  refine .ite same (.ite (.bind (fun _ _ => keeps_lift) fun _ => ?_)
    (.bind (fun _ _ => keeps_pure _) fun _ => ?_))
  all_goals
    iterate 3 refine .ite same ?_
    refine .bind (fun _ _ => keeps_lift) fun _ => .ite (.ite ?_ same) ?_
    · exact source fun _ => .pure sameFee_balance
    refine .bind (fun _ _ => keeps_lift) fun _ => source fun _ => .pointer fun k hk => ?_
    refine .bind (fun _ _ => deref_frame) fun _ => .bind (fun _ _ => keeps_lift) fun _ => ?_
    exact .bind (fun _ hc => assign_frame (sets_balance hc.balance k _) (hc.feeAccount k hk))
      fun _ => .pure sameFee_balance

/-- A signature is checked without a change of the set. -/
abbrev Signs (t : Transactor) : LES (TER × Transactor) → Prop := Framed (fun _ => True) (SameFee t)

theorem checkSig_signs : Signs t t.checkSig := by
  have same {ter : TER} : Signs t (pure (ter, t)) := .pure (sameFee_self _)
  have master : Signs t (pure (TER.tesSUCCESS, { t with mSigMaster := true })) :=
    .pure ⟨⟨rfl, rfl, rfl, rfl, rfl, rfl, rfl, rfl⟩, rfl⟩
  refine .ite (.ite master same) (.pointer fun _ _ => .bind (fun _ _ => deref_frame) fun _ => ?_)
  exact .ite (.ite same master) (.ite same (.ite same same))

/-- The virtual functions called before `doApply` that touch the set. -/
structure Hooks.Known (h : Hooks) : Prop where
  feeReads : h.FeeReads
  checkSeq : h.checkSeq = Transactor.checkSeq ∨ h.checkSeq = Change.checkSeq ∨
    h.checkSeq = ManageTransactor.checkSeq
  payFee : h.payFee = Transactor.payFee ∨ h.payFee = Change.payFee ∨
    h.payFee = ManageTransactor.payFee
  checkSig : h.checkSig = Transactor.checkSig ∨ h.checkSig = Change.checkSig ∨
    h.checkSig = ManageTransactor.checkSig

/-- What charging a transaction of `source` needs. -/
structure Charging (c : Caps) (source : Account) (sequence : UInt32) : Prop where
  roots : ∀ k, c.roots k
  balance : ∀ k, c.writes k (.amount sfBalance)
  account : ∀ k, c.writes k (.account sfAccount)
  accountTxnID : ∀ k, c.writes k (.h256 sfAccountTxnID)
  bump : c.bump (getAccountRootIndex source) sequence

namespace Hooks.Known
variable {h : Hooks} (hk : h.Known)
include hk

theorem payFee_framed :
    Framed t.Pays (SameFee t) (h.payFee t) := by
  have same {ter : TER} : Framed t.Pays (SameFee t) (pure (ter, t)) := .pure (sameFee_self _)
  rcases hk.payFee with e | e | e <;> rw [e]
  · exact Skywell.payFee_framed
  · exact .ite same same
  · exact same

theorem checkSig_signs : Signs t (h.checkSig t) := by
  have same {ter : TER} : Signs t (pure (ter, t)) := .pure (sameFee_self _)
  rcases hk.checkSig with e | e | e <;> rw [e]
  · exact Skywell.checkSig_signs
  · exact .ite same (.ite same same)
  · exact same

theorem checkSeq_frame (hc : Charging c source t.mTxn.getSequence)
    (ht : ∀ k, t.mTxnAccount = some k → k = getAccountRootIndex source ∧ c.dirty k) :
    Keeps (Frame c) (h.checkSeq t) := by
  rcases hk.checkSeq with e | e | e <;> rw [e]
  · exact Skywell.checkSeq_frame (fun k hk => (ht k hk).2) hc.accountTxnID
      fun k hk => (ht k hk).1 ▸ hc.bump
  · exact keeps_ite (keeps_pure _) (keeps_pure _)
  · exact .bind getLedger_frame fun _ => keeps_ite (keeps_pure _) (keeps_pure _)

theorem charge_frame (hc : Charging c source t.mTxn.getSequence)
    (ht : ∀ k, t.mTxnAccount = some k → k = getAccountRootIndex source ∧ c.dirty k)
    (hd : c.dirty (getAccountRootIndex t.mFeeAccountID))
    (hf : t.mFeeAccount = none → c.fresh (getAccountRootIndex t.mFeeAccountID)) :
    Keeps (Frame c) (h.charge t) := by
  have pay : Keeps (Frame c)
      (h.payFee { t with mFeeAccount := some (getAccountRootIndex t.mFeeAccountID) }) :=
    hk.payFee_framed.2 c ⟨fun k hk => (ht k hk).2, fun k e => by cases e; exact hd, hc.balance⟩
  refine .bind (hk.checkSeq_frame hc ht) fun _ => keeps_ite (keeps_pure _) ?_
  refine keeps_if (fun hn => .bind (fun v => ?_) fun _ => pay) fun _ => pay
  exact (createAccountRoot_touched (hf (by simpa using hn)) (hc.roots _)
    (hc.account _)).mono fun _ _ h => h.1

theorem charge_same : Always (fun r => t.Same r.2 ∧
    (r.1 = .tesSUCCESS → r.2.mFeeAccount = some (getAccountRootIndex t.mFeeAccountID)))
    (h.charge t) := by
  refine .bind fun ter => ?_
  split
  · next hne => exact always_pure ⟨(sameFee_self ter).1, fun e => absurd e hne⟩
  · refine .ite (.bind fun _ => ?_) ?_
    all_goals
      refine hk.payFee_framed.1.mono fun r hr => ⟨?_, fun _ => hr.2⟩
      exact ⟨hr.1.1, hr.1.2, hr.1.3, hr.1.4, hr.1.5, hr.1.6, hr.1.7, hr.1.8⟩

end Hooks.Known

theorem forM_entryModify (o : Option Key) : Spec (o.forM entryModify) v fun _ v' =>
    Frame c v v' ∧ ∀ k, o = some k → v'.Touched k := by
  cases o with
  | none => exact spec_pure.2 ⟨refl v, fun _ e => by cases e⟩
  | some k =>
    refine entryModify_touched.mono fun _ _ h => ⟨h.1, fun _ e => ?_⟩
    cases e
    exact h.2

/-- `c`, and leaving any entry changed but only cached. -/
def Caps.loose (c : Caps) : Caps := { c with dirty := fun _ => True }

omit [Sha512Half] in
theorem Caps.le_loose (k : Key) : Caps.LeAt { c with dirty := d } c.loose k :=
  ⟨fun _ => trivial, id, id, id, fun _ => id, fun _ => id, id⟩

/-- `c`, and leaving changed what charging the fee changes. -/
def Transactor.charging (t : Transactor) (c : Caps) : Caps := { c with
  dirty := fun k => c.dirty k ∨ t.mTxnAccount = some k ∨
    t.mParams.tapPRE_CHECKED = false ∧ k = getAccountRootIndex t.mFeeAccountID }

/-- A fee account that was not found may be created. -/
theorem charge_spec (hk : h.Known) (hc : Charging c source t.mTxn.getSequence)
    (ht : ∀ k, t.mTxnAccount = some k → k = getAccountRootIndex source)
    (hf : t.mFeeAccount = none → v.read (getAccountRootIndex t.mFeeAccountID) = none)
    (hp : t.mParams.tapPRE_CHECKED = false) :
    Spec (h.charge t) v fun _ v' => Frame (t.charging c) v v' := by
  have hd : ∀ k, t.mTxnAccount = some k →
      k = getAccountRootIndex source ∧ (t.charging c).dirty k :=
    fun k e => ⟨ht k e, .inr (.inl e)⟩
  have hfee : (t.charging c).dirty (getAccountRootIndex t.mFeeAccountID) := .inr (.inr ⟨hp, rfl⟩)
  by_cases hn : t.mFeeAccount = none
  · refine Spec.mono (hk.charge_frame
      (c := (t.charging c).allowFresh (getAccountRootIndex t.mFeeAccountID))
      { hc with } hd hfee (fun _ => .inr rfl) v) ?_
    exact fun _ _ h => h.absent (hf hn)
  · exact hk.charge_frame (c := t.charging c) { hc with } hd hfee (fun e => absurd e hn) v

/-- The members with which `doApply` is called. -/
structure Ready (h : Hooks) (t t' : Transactor) (v' : LedgerEntrySet) : Prop where
  txn : t'.mTxn = t.mTxn
  params : t'.mParams = t.mParams
  txnAccountID : t'.mTxnAccountID = t.mTxn.getSourceAccount
  txnAccount : ∀ k, t'.mTxnAccount = some k →
    k = getAccountRootIndex t.mTxn.getSourceAccount ∧ v'.Touched k
  valid : h.mustHaveValidAccount = true → t'.mTxnAccount ≠ none

theorem sign_inv {v' : LedgerEntrySet} (he : h.sign t v = .ok (.ok t', v')) :
    ∃ v1, h.checkSig t v = .ok ((.tesSUCCESS, t'), v1) := by
  obtain ⟨⟨ter, t1⟩, v1, h1, he⟩ := bind_eq_ok.1 he
  dsimp only at he
  split at he
  · cases he
  next hter =>
  obtain ⟨_, _, -, he⟩ := bind_eq_ok.1 he
  obtain ⟨_, _, -, he⟩ := bind_eq_ok.1 he
  cases he
  exact ⟨v1, not_not.1 hter ▸ h1⟩

/-- The calls behind a `doApply` that is reached. -/
theorem prepare_inv {v' : LedgerEntrySet} (he : h.prepare env t v = .ok (.ok t', v')) :
    ∃ t1 v1 t2 v2 t3 v3, h.preCheck t v = .ok ((.tesSUCCESS, t1), v1) ∧
      h.load env t1 v1 = .ok (t2, v2) ∧
      (h.mustHaveValidAccount = true → t2.mTxnAccount ≠ none) ∧
      (t2.mParams.tapPRE_CHECKED = true ∧ t3 = t2 ∧ v3 = v2 ∨
        t2.mParams.tapPRE_CHECKED = false ∧ h.charge t2 v2 = .ok ((.tesSUCCESS, t3), v3)) ∧
      h.sign t3 v3 = .ok (.ok t', v') := by
  obtain ⟨⟨ter, t1⟩, v1, h1, he⟩ := bind_eq_ok.1 he
  dsimp only at he
  split at he
  · cases he
  next hter =>
  obtain ⟨t2, v2, h2, he⟩ := bind_eq_ok.1 he
  split at he
  · cases he
  next hvalid =>
  have hvalid : h.mustHaveValidAccount = true → t2.mTxnAccount ≠ none :=
    fun hm hn => hvalid (by simp [hn, hm])
  refine ⟨t1, v1, t2, v2, ?_⟩
  rw [not_not.1 hter] at h1
  split at he
  · next hp => exact ⟨t2, v2, h1, h2, hvalid, .inl ⟨hp, rfl, rfl⟩, he⟩
  next hp =>
  obtain ⟨⟨ter, t3⟩, v3, h3, he⟩ := bind_eq_ok.1 he
  dsimp only at he
  split at he
  · cases he
  next hter =>
  rw [not_not.1 hter] at h3
  exact ⟨t3, v3, h1, h2, hvalid, .inr ⟨by simpa using hp, h3⟩, he⟩

/-- What is known of the outcome of `prepare`, and of `sign` in its end. -/
def Prepared (h : Hooks) (c : Caps) (t : Transactor) (v : LedgerEntrySet)
    (r : Except TER Transactor) (v' : LedgerEntrySet) : Prop :=
  Frame c.loose v v' ∧ (∀ t', r = .ok t' → Frame c v v' ∧ Ready h t t' v') ∧
    r ≠ .error .tesSUCCESS

theorem prepared_error (hf : Frame { c with dirty := d } v v') (hter : ter ≠ .tesSUCCESS) :
    Prepared h c t v (.error ter) v' :=
  ⟨hf.mono Caps.le_loose, by simp, by simpa using hter⟩

/-- After the fee is charged only the two account roots have to be announced. -/
theorem sign_spec (hk : h.Known) {t2 t3 : Transactor} {v3 : LedgerEntrySet}
    (hf : Frame (t2.charging c) v v3) (hs : t2.Same t3)
    (hfee : t2.mParams.tapPRE_CHECKED = false →
      t3.mFeeAccount = some (getAccountRootIndex t2.mFeeAccountID))
    (ht : ∀ t' v', SameFee t3 (.tesSUCCESS, t') → (∀ k, t'.mTxnAccount = some k → v'.Touched k) →
      Ready h t t' v') :
    Spec (h.sign t3) v3 (Prepared h c t v) := by
  refine spec_bind.2 <| ((hk.checkSig_signs.2 (t2.charging c) trivial v3).and
    (hk.checkSig_signs.1 v3)).mono fun ⟨ter, t4⟩ v4 ⟨h4, hs4⟩ => ?_
  have h4 : Frame (t2.charging c) v v4 := IsTrans.trans _ _ _ hf h4
  dsimp only
  split
  · next hne => exact spec_pure.2 (prepared_error h4 hne)
  refine spec_bind.2 <| (forM_entryModify (c := (t2.charging c).keep) t4.mTxnAccount).mono
    fun _ v5 ⟨h5, ht5⟩ => spec_bind.2 <|
      (forM_entryModify (c := (t2.charging c).keep) t4.mFeeAccount).mono fun _ v6 ⟨h6, ht6⟩ => ?_
  have htouched : ∀ k, t4.mTxnAccount = some k → v6.Touched k :=
    fun k e => h6.touched id (ht5 k e)
  have hall : Frame (t2.charging c) v v6 :=
    IsTrans.trans _ _ _ h4 (IsTrans.trans _ _ _ h5.of_keep h6.of_keep)
  refine spec_pure.2 ⟨hall.mono Caps.le_loose, fun t' e => ?_, by simp⟩
  cases e
  refine ⟨hall.clean fun k hd => hd.imp_right fun hd => Touched.announced ?_,
    ht _ _ ⟨hs4.1, hs4.2⟩ htouched⟩
  rcases hd with e | ⟨hp, rfl⟩
  · exact htouched k (by rw [hs4.1.txnAccount, hs.txnAccount, e])
  · exact ht6 _ (by rw [hs4.2, hfee hp])

/-- What a `preCheck` that succeeds leaves, whatever the transactor. -/
abbrev Sources (t : Transactor) : LES (TER × Transactor) → Prop :=
  Always fun r => r.1 = .tesSUCCESS → r.2.mTxn = t.mTxn ∧ r.2.mParams = t.mParams ∧
    r.2.mTxnAccountID = t.mTxn.getSourceAccount

theorem prepare_spec (hk : h.Known)
    (hc : t.mParams.tapPRE_CHECKED = false →
      Charging c t.mTxn.getSourceAccount t.mTxn.getSequence)
    (hpre : Keeps (Frame c) (h.preCheck t))
    (hsame : Sources t (h.preCheck t)) :
    Spec (h.prepare env t) v (Prepared h c t v) := by
  refine spec_bind.2 <| ((hpre v).and (hsame v)).mono fun ⟨ter, t1⟩ v1 ⟨h1, hs1⟩ => ?_
  dsimp only
  split
  · next hne => exact spec_pure.2 (prepared_error h1 hne)
  next hne =>
  obtain ⟨htxn, hparams, hid⟩ := hs1 (not_not.1 hne)
  refine spec_bind.2 <| (load_spec hk.feeReads).mono fun t2 v2 ⟨hl, hv2⟩ => ?_
  have h2 : Frame c v v2 := IsTrans.trans _ _ _ h1
    (hv2 ▸ IsTrans.trans _ _ _ frame_cached frame_cached)
  have ht2 : ∀ k, t2.mTxnAccount = some k → k = getAccountRootIndex t.mTxn.getSourceAccount := by
    intro k e
    rw [hl.txnAccount, Option.map_eq_some_iff] at e
    obtain ⟨_, -, rfl⟩ := e
    rw [hid]
  have hfee2 : t2.mFeeAccount = none → v2.read (getAccountRootIndex t2.mFeeAccountID) = none := by
    rw [hl.feeAccount, hl.feeAccountID, hv2]
    simp
  split
  · exact spec_pure.2 (prepared_error h2 (by decide))
  next hvalid =>
  have ready {t3 t' : Transactor} {v' : LedgerEntrySet} (hs : t2.Same t3)
      (hs' : SameFee t3 (.tesSUCCESS, t')) (ht : ∀ k, t'.mTxnAccount = some k → v'.Touched k) :
      Ready h t t' v' := by
    have e : t'.mTxnAccount = t2.mTxnAccount := hs'.1.txnAccount.trans hs.txnAccount
    exact
      { txn := by rw [hs'.1.txn, hs.txn, hl.txn, htxn]
        params := by rw [hs'.1.params, hs.params, hl.params, hparams]
        txnAccountID := by rw [hs'.1.txnAccountID, hs.txnAccountID, hl.txnAccountID, hid]
        txnAccount := fun k hk => ⟨ht2 k (e ▸ hk), ht k hk⟩
        valid := fun hm hn => hvalid (by simp [e ▸ hn, hm]) }
  have hle : ∀ k, c.LeAt (t2.charging c) k := fun _ =>
    ⟨.inl, id, id, id, fun _ => id, fun _ => id, id⟩
  split
  · next hp =>
    have hs : t2.Same t2 := (sameFee_self .tesSUCCESS).1
    exact sign_spec hk (h2.mono hle) hs (fun e => by simp [hp] at e) fun _ _ => ready hs
  next hp =>
  rw [Bool.not_eq_true] at hp
  have hc2 : Charging c t.mTxn.getSourceAccount t2.mTxn.getSequence := by
    rw [hl.txn, htxn]
    exact hc (by rw [← hparams, ← hl.params, hp])
  refine spec_bind.2 <| ((charge_spec hk hc2 ht2 hfee2 hp).and (hk.charge_same v2)).mono
    fun ⟨ter, t3⟩ v3 ⟨h3, hs, hfee⟩ => ?_
  have h3 : Frame (t2.charging c) v v3 := IsTrans.trans _ _ _ (h2.mono hle) h3
  split
  · next hne => exact spec_pure.2 (prepared_error h3 hne)
  · next hne => exact sign_spec hk h3 hs (fun _ => hfee (not_not.1 hne)) fun _ _ => ready hs

theorem base_feeReads (t : Transactor) (v : LedgerEntrySet) :
    Spec (t.calculateBaseFee env) v fun _ v' => v' = v := spec_pure.2 rfl

theorem SetRegularKey.feeReads (t : Transactor) (v : LedgerEntrySet) :
    Spec (calculateBaseFee env t) v fun _ v' => v' = v := by
  unfold calculateBaseFee
  split
  · exact spec_bind.2 <| spec_deref.2 fun _ _ =>
      spec_ite.2 ⟨fun _ => spec_pure.2 rfl, fun _ => base_feeReads t v⟩
  · exact base_feeReads t v

theorem known_transactorOf (env : Env)
    (loop : List Account → TransactionEngineParams → LES TER) (txn : STTx) :
    (transactorOf env loop txn).Known := by
  have change (doApply : LES TER) : (Change.hooks env doApply).Known :=
    ⟨base_feeReads, .inr (.inl rfl), .inr (.inl rfl), .inr (.inl rfl)⟩
  have manage (doApply : LES TER) : (ManageTransactor.hooks env doApply).Known :=
    ⟨base_feeReads, .inr (.inr rfl), .inr (.inr rfl), .inr (.inr rfl)⟩
  obtain ⟨common, fields, operations⟩ := txn
  cases fields with
  | regularKeySet => exact ⟨SetRegularKey.feeReads, .inl rfl, .inl rfl, .inl rfl⟩
  | amendment | fee => exact change _
  | accountMerge => exact ⟨base_feeReads, .inl rfl, .inr (.inr rfl), .inl rfl⟩
  | mngFee | mngIssuer | blkListSet | blkListRmv => exact manage _
  | payment | accountSet | trustSet | relSet | relDel | ticketCreate | ticketCancel | nicknameSet
  | signSet | message | operation => exact ⟨base_feeReads, .inl rfl, .inl rfl, .inl rfl⟩

/-- The transactions of the network itself. -/
def isChange : TxFields → Bool
  | .amendment .. | .fee .. => true
  | _ => false

/-- The transactions of the network's managers. -/
def isManage : TxFields → Bool
  | .mngFee .. | .mngIssuer .. | .blkListSet .. | .blkListRmv .. => true
  | _ => false

variable {loop : List Account → TransactionEngineParams → LES TER} {txn : STTx}
  (ht : t.mTxnAccountID = t.mFeeAccountID)
include ht

/-- All other transactions pass `Transactor::preCheck`, merges of accounts fail
before. -/
theorem framedChecks_transactorOf (hc : isChange txn.fields = false)
    (hm : isManage txn.fields = false) :
    FramedChecks env t ((transactorOf env loop txn).preCheck t) := by
  obtain ⟨common, fields, operations⟩ := txn
  cases fields with
  | payment => exact Payment.preCheck_framed
  | accountSet => exact SetAccount.preCheck_framed
  | regularKeySet => exact .guard (by decide) preCheck_framed
  | trustSet | relSet | relDel => exact checkLimit_framed
  | amendment | fee => cases hc
  | ticketCreate | ticketCancel | nicknameSet | operation => exact preCheck_framed
  | accountMerge =>
    refine ⟨fun v => (AccountMerge.preCheck_fails env _ ht).mono fun _ _ h =>
      ⟨fun e => absurd e h.1, h.2.1⟩, fun _ _ v => ?_⟩
    exact (AccountMerge.preCheck_fails env _ ht).mono fun _ _ h => h.2.2.symm ▸ refl v
  | mngFee | mngIssuer | blkListSet | blkListRmv => cases hm
  | signSet => exact SetSign.preCheck_framed
  | message => exact Message.preCheck_framed

/-- Merges do not get to their `doApply`. -/
theorem not_merge_of_prepare {v' : LedgerEntrySet}
    (he : (transactorOf env loop txn).prepare env t v = .ok (.ok t', v')) (dst : Account) :
    txn.fields ≠ .accountMerge dst := by
  intro hf
  obtain ⟨_, _, _, _, _, _, h1, -⟩ := prepare_inv he
  rw [transactorOf, hf] at h1
  exact (AccountMerge.preCheck_fails env dst ht _ _ h1).1 rfl

theorem preCheck_frame_transactorOf (hc : Paying c) :
    Keeps (Frame c) ((transactorOf env loop txn).preCheck t) := by
  have checks (hc' : isChange txn.fields = false) (hm : isManage txn.fields = false) :
      Keeps (Frame c) ((transactorOf env loop txn).preCheck t) :=
    (framedChecks_transactorOf ht hc' hm).2 c hc
  obtain ⟨common, fields, operations⟩ := txn
  cases fields with
  | amendment | fee =>
    exact keeps_ite (keeps_pure _) (keeps_ite (keeps_pure _) (keeps_pure _))
  | mngFee | mngIssuer | blkListSet | blkListRmv =>
    exact keeps_ite (keeps_ite (keeps_pure _) (keeps_pure _))
      (keeps_ite (keeps_pure _) (keeps_pure _))
  | _ => exact checks rfl rfl

theorem preCheck_sources_transactorOf :
    Sources t ((transactorOf env loop txn).preCheck t) := by
  have checks (hc : isChange txn.fields = false) (hm : isManage txn.fields = false) :
      Sources t ((transactorOf env loop txn).preCheck t) :=
    (framedChecks_transactorOf ht hc hm).1.mono fun _ h e =>
      ⟨(h.1 e).txn, (h.1 e).params, (h.1 e).txnAccountID⟩
  have same {ter : TER} : Sources t
      (pure (ter, { t with mTxnAccountID := t.mTxn.getSourceAccount })) :=
    always_pure fun _ => ⟨rfl, rfl, rfl⟩
  obtain ⟨common, fields, operations⟩ := txn
  cases fields with
  | amendment | fee => exact .ite same (.ite same same)
  | mngFee | mngIssuer | blkListSet | blkListRmv => exact .ite (.ite same same) (.ite same same)
  | _ => exact checks rfl rfl

end Skywell
