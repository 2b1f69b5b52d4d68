import JingtumCore.Applied

/-!
# Sequences of account roots

Short of an overflow the sequence of an account root never goes down, and a
transaction of the base class that is applied leaves it above its own number.
-/
namespace Skywell
open U32Field LedgerEntrySet StateExcept Relation

/-- The sequence after which the counter starts over. -/
def maxSequence : UInt32 := 0xffffffff

theorem lt_add_one_of_ne_max {q : UInt32} (h : q ≠ maxSequence) : q < q + 1 := by
  have hlt := q.toNat_lt
  have hne : q.toNat ≠ 0xffffffff := fun e => h (UInt32.toNat_inj.1 e)
  rw [UInt32.lt_iff_toNat_lt, UInt32.toNat_add]
  simp only [UInt32.toNat_one]
  omega

theorem add_one_ne_zero_of_ne_max {q : UInt32} (h : q ≠ maxSequence) : q + 1 ≠ 0 := by
  intro e
  have hlt := lt_add_one_of_ne_max h
  rw [e] at hlt
  exact absurd hlt UInt32.not_lt_zero

namespace Caps.Write
variable {c : Caps} {k : Key} {s s' : SLE}

theorem sequence_le (hk : k.type = .accountRoot) (hb : ∀ q, c.bump k q → q ≠ maxSequence)
    (h : ReflTransGen (c.Write k) s s') :
    s.getFieldU32 sfSequence ≤ s'.getFieldU32 sfSequence := by
  induction h with
  | refl => exact UInt32.le_refl _
  | @tail s1 s2 _ hs ih =>
    refine UInt32.le_trans ih ?_
    rcases hs.sequence hk with e | ⟨e, he⟩
    · simp [SLE.getFieldU32, SLE.get, e]
    · rw [e]
      refine UInt32.le_of_lt (lt_add_one_of_ne_max ?_)
      rcases he with he | he
      · exact hb _ he
      · rw [he]
        decide

/-- A sequence that may not be counted up stays. -/
theorem sequence_eq (hk : k.type = .accountRoot) (hb : ∀ q, ¬c.bump k q)
    (h0 : s.getFieldU32 sfSequence ≠ 0) (h : ReflTransGen (c.Write k) s s') :
    s'.getFieldU32 sfSequence = s.getFieldU32 sfSequence := by
  induction h with
  | refl => rfl
  | @tail s1 s2 _ hs ih =>
    rcases hs.sequence hk with e | ⟨-, he | he⟩
    · rw [← ih]
      simp [SLE.getFieldU32, SLE.get, e]
    · exact absurd he (hb _)
    · exact absurd (ih.symm.trans he) h0

end Caps.Write

variable [Sha512Half] {env : Env} {t : Transactor} {v v' : LedgerEntrySet} {txn : STTx}
  {params : TransactionEngineParams} {a : Account} {q : UInt32} {c : Caps}

/-- The sequence of an account's root, if it has one. -/
def Ledger.sequence (l : Ledger) (a : Account) : Option UInt32 :=
  (l.getSLE (getAccountRootIndex a)).map (·.getFieldU32 sfSequence)

namespace LedgerEntrySet

def sequence (v : LedgerEntrySet) (a : Account) : Option UInt32 :=
  (v.read (getAccountRootIndex a)).map (·.getFieldU32 sfSequence)

theorem sequence_eq_some : v.sequence a = some q ↔
    ∃ s, v.read (getAccountRootIndex a) = some s ∧ s.getFieldU32 sfSequence = q :=
  Option.map_eq_some_iff

section
variable (h : Frame c v v') (hd : ¬c.drops (getAccountRootIndex a)) (hf : ¬c.fresh (getAccountRootIndex a))
include h hd hf

theorem Frame.sequence_le (hb : ∀ q, c.bump (getAccountRootIndex a) q → q ≠ maxSequence)
    (hq : v.sequence a = some q) : ∃ q', v'.sequence a = some q' ∧ q ≤ q' := by
  obtain ⟨s, hs, rfl⟩ := sequence_eq_some.1 hq
  obtain ⟨s', hs', hw⟩ := h.read hd hf (by simp [getAccountRootIndex, Key.type]) hs
  exact ⟨_, sequence_eq_some.2 ⟨s', hs', rfl⟩, Caps.Write.sequence_le rfl hb hw⟩

theorem Frame.sequence_eq (hb : ∀ q, ¬c.bump (getAccountRootIndex a) q) (h0 : q ≠ 0)
    (hq : v.sequence a = some q) : v'.sequence a = some q := by
  obtain ⟨s, hs, rfl⟩ := sequence_eq_some.1 hq
  obtain ⟨s', hs', hw⟩ := h.read hd hf (by simp [getAccountRootIndex, Key.type]) hs
  exact sequence_eq_some.2 ⟨s', hs', Caps.Write.sequence_eq rfl hb h0 hw⟩

end

end LedgerEntrySet

/-- What may happen once the sequence of `source` is counted up. -/
def countedCaps (source : Account) : Caps where
  dirty _ := True
  fresh k := k ≠ getAccountRootIndex source
  drops k := k.type ≠ .accountRoot
  roots _ := True
  writes _ _ := True
  bump _ _ := False
  delivers := True

theorem sequence_of_counted (h : Frame (countedCaps a) v v') (h0 : q ≠ 0)
    (hq : v.sequence a = some q) : v'.sequence a = some q :=
  h.sequence_eq (fun h => h rfl) (fun h => h rfl) (fun _ => id) h0 hq

theorem checkSeq_counts (ht : t.mTxnAccount = some (getAccountRootIndex a))
    (hq : v.sequence a = some q) : Spec t.checkSeq v fun ter v' => ter = .tesSUCCESS →
      q = t.mTxn.getSequence ∧ v'.sequence a = some (t.mTxn.getSequence + 1) := by
  obtain ⟨s, hs, rfl⟩ := sequence_eq_some.1 hq
  simp only [Transactor.checkSeq, spec_bind, spec_pointer, spec_deref, spec_getLedger, ht]
  rintro _ ⟨⟩ e he
  obtain ⟨rfl, ha⟩ := mEntry_eq_of_read he hs
  split
  · next hf => exact spec_pure.2 fun e => absurd e (seqFailure_fail hf).1
  next hnone =>
  have hseq := seqFailure_eq_none hnone
  rw [spec_bind, spec_assign]
  intro e' he'
  cases he.symm.trans he'
  have hcounted : (v.setEntry (getAccountRootIndex a) { e with
      mEntry := e.mEntry.setFieldU32 sfSequence (t.mTxn.getSequence + 1) }).sequence a =
        some (t.mTxn.getSequence + 1) := by
    simp [LedgerEntrySet.sequence, read_setEntry, LedgerEntrySetEntry.shown, ha, SLE.getFieldU32,
      SLE.get, SLE.setFieldU32]
  refine spec_ite.2 ⟨fun _ => spec_bind.2 (spec_assign.2 fun e1 he1 => spec_pure.2 fun _ => ?_),
    fun _ => spec_pure.2 fun _ => ⟨hseq, hcounted⟩⟩
  rw [getElem?_setEntry, if_pos rfl] at he1
  cases he1
  refine ⟨hseq, ?_⟩
  simp [LedgerEntrySet.sequence, read_setEntry, LedgerEntrySetEntry.shown, ha, SLE.getFieldU32,
    SLE.get, SLE.setFieldU32, SLE.setFieldH256]

theorem charge_counts {h : Hooks} (hk : h.Known) (hseq : h.checkSeq = Transactor.checkSeq)
    (ht : t.mTxnAccount = some (getAccountRootIndex a)) (hq : v.sequence a = some q)
    (hfee : t.mFeeAccount = none → t.mFeeAccountID ≠ a)
    (hmax : t.mTxn.getSequence ≠ maxSequence) :
    Spec (h.charge t) v fun r v' => r.1 = .tesSUCCESS →
      q = t.mTxn.getSequence ∧ v'.sequence a = some (t.mTxn.getSequence + 1) := by
  unfold Hooks.charge
  rw [hseq]
  refine spec_bind.2 <| (checkSeq_counts ht hq).mono fun ter v1 h1 => ?_
  refine spec_ite.2 ⟨fun hne => spec_pure.2 fun e => absurd e hne, fun he => ?_⟩
  obtain ⟨rfl, hcounted⟩ := h1 (not_not.1 he)
  have h0 : t.mTxn.getSequence + 1 ≠ 0 := add_one_ne_zero_of_ne_max hmax
  have pay : Keeps (Frame (countedCaps a))
      (h.payFee { t with mFeeAccount := some (getAccountRootIndex t.mFeeAccountID) }) :=
    hk.payFee_framed.2 _ ⟨fun _ _ => trivial, fun _ _ => trivial, fun _ => trivial⟩
  refine spec_ite.2 ⟨fun hn => spec_bind.2 ?_, fun _ => ?_⟩
  · have hne : getAccountRootIndex t.mFeeAccountID ≠ getAccountRootIndex a := by
      simpa [getAccountRootIndex] using hfee (by simpa using hn)
    refine (createAccountRoot_touched (c := countedCaps a) hne trivial trivial).mono ?_
    intro _ v2 h2
    refine (pay v2).mono fun _ _ h3 _ => ⟨rfl, ?_⟩
    exact sequence_of_counted (IsTrans.trans _ _ _ h2.1 h3) h0 hcounted
  · exact (pay v1).mono fun _ _ h2 _ => ⟨rfl, sequence_of_counted h2 h0 hcounted⟩

/-- A transaction that has counted up the sequence of its source. -/
def CountsUp (txn : STTx) (v v' : LedgerEntrySet) : Prop :=
  (∃ q, v.sequence txn.getSourceAccount = some q ∧ q ≤ txn.getSequence) ∧
    v'.sequence txn.getSourceAccount = some (txn.getSequence + 1)

/-- What a `preCheck` may do to the set. -/
def preCheckCaps : Caps := { Caps.txn (fun _ _ => False) False with roots := fun _ => False }

omit [Sha512Half] in
theorem paying_preCheckCaps : Paying preCheckCaps :=
  ⟨⟨fun _ h => h, fun _ => trivial⟩, fun _ => trivial⟩

theorem prepare_counts {h : Hooks} (hk : h.Known) (hseq : h.checkSeq = Transactor.checkSeq)
    (hvalid : h.mustHaveValidAccount = true) (hpre : Keeps (Frame preCheckCaps) (h.preCheck t))
    (hsame : Sources t (h.preCheck t)) (hp : t.mParams.tapPRE_CHECKED = false)
    (hmax : t.mTxn.getSequence ≠ maxSequence) {t' : Transactor}
    (he : h.prepare env t v = .ok (.ok t', v')) : CountsUp t.mTxn v v' := by
  obtain ⟨t1, v1, t2, v2, t3, v3, h1, h2, hv, h3, h4⟩ := prepare_inv he
  obtain ⟨htxn, hparams, hid⟩ := hsame v _ _ h1 rfl
  dsimp only at htxn hparams hid
  have h1 := hpre v _ _ h1
  obtain ⟨hl, hv2⟩ := load_spec hk.feeReads _ _ h2
  -- the root of the source is there, and was there before `preCheck`
  cases hr : v1.read (getAccountRootIndex t.mTxn.getSourceAccount) with
  | none =>
    refine absurd ?_ (hv hvalid)
    rw [hl.txnAccount, hid, hr]
    rfl
  | some s1 =>
  have hq1 : v1.sequence t.mTxn.getSourceAccount = some (s1.getFieldU32 sfSequence) :=
    sequence_eq_some.2 ⟨s1, hr, rfl⟩
  have hq2 : v2.sequence t.mTxn.getSourceAccount = some (s1.getFieldU32 sfSequence) := by
    rw [hv2, LedgerEntrySet.sequence, read_cached, read_cached, hr]
    rfl
  have hbefore : ∃ q, v.sequence t.mTxn.getSourceAccount = some q ∧
      q ≤ s1.getFieldU32 sfSequence := by
    cases hs : v.read (getAccountRootIndex t.mTxn.getSourceAccount) with
    | none =>
      rw [h1.read_none rfl id hs] at hr
      cases hr
    | some s =>
      have hq : v.sequence t.mTxn.getSourceAccount = some (s.getFieldU32 sfSequence) :=
        sequence_eq_some.2 ⟨s, hs, rfl⟩
      obtain ⟨q', hq', hle⟩ := h1.sequence_le (fun h => h rfl) id (fun _ => False.elim) hq
      cases hq1.symm.trans hq'
      exact ⟨_, hq, hle⟩
  have ht2 : t2.mTxnAccount = some (getAccountRootIndex t.mTxn.getSourceAccount) := by
    rw [hl.txnAccount, hid, hr]
    rfl
  have hfee : t2.mFeeAccount = none → t2.mFeeAccountID ≠ t.mTxn.getSourceAccount := by
    rw [hl.feeAccount, hl.feeAccountID]
    intro hn e
    rw [e, hr] at hn
    cases hn
  have hmax2 : t2.mTxn.getSequence ≠ maxSequence := by
    rw [hl.txn, htxn]
    exact hmax
  obtain ⟨hp', -, -⟩ | ⟨-, h3⟩ := h3
  · simp [hl.params, hparams, hp] at hp'
  obtain ⟨hnumber, hcounted⟩ := charge_counts hk hseq ht2 hq2 hfee hmax2 _ _ h3 rfl
  rw [hl.txn, htxn] at hnumber hcounted
  rw [hnumber] at hbefore
  have hsign : Keeps (Frame (countedCaps t.mTxn.getSourceAccount)) (h.sign t3) := by
    refine .bind (hk.checkSig_signs.2 _ trivial) fun _ => keeps_ite (keeps_pure _) ?_
    refine .bind (fun v => (forM_entryModify _).mono fun _ _ h => h.1) fun _ => ?_
    exact .bind (fun v => (forM_entryModify _).mono fun _ _ h => h.1) fun _ => keeps_pure _
  exact ⟨hbefore,
    sequence_of_counted (hsign v3 _ _ h4) (add_one_ne_zero_of_ne_max hmax) hcounted⟩

/-- Outside a batch, a transaction of the base class that succeeds has found the
sequence at its number or below, and leaves it one above. -/
theorem transact_counts (hm : isManage txn.fields = false) (hc : isChange txn.fields = false)
    (hp : params.tapPRE_CHECKED = false) (hmax : txn.getSequence ≠ maxSequence)
    (he : transact env txn params v = .ok (.tesSUCCESS, v')) : CountsUp txn v v' := by
  obtain ⟨t', v1, prepared, ready, applied⟩ := transact_succeeds he
  have hbase : (transactorOf env (Operations.applyAll env txn.operations) txn).checkSeq =
      Transactor.checkSeq ∧
      (transactorOf env (Operations.applyAll env txn.operations) txn).mustHaveValidAccount = true := by
    obtain ⟨common, fields, operations⟩ := txn
    cases fields with
    | mngFee | mngIssuer | blkListSet | blkListRmv => cases hm
    | amendment | fee => cases hc
    | _ => exact ⟨rfl, rfl⟩
  obtain ⟨hbefore, hcounted⟩ := prepare_counts (known_transactorOf ..) hbase.1 hbase.2
    (preCheck_frame_transactorOf rfl paying_preCheckCaps) (preCheck_sources_transactorOf rfl) hp hmax
    prepared
  have loose : Frame (Caps.txn (fun _ _ => False) True).loose v1 v' := (doApply_outcome
    (fun _ => trivial) (fun _ => applyAll_applies env _) (not_merge_of_prepare rfl prepared) ready _ _ applied).1
  refine ⟨hbefore, sequence_of_counted (loose.mono fun k => ?_) (add_one_ne_zero_of_ne_max hmax)
    hcounted⟩
  exact ⟨id, False.elim, id, id, fun _ => id, fun _ => id, id⟩

theorem change_fails (hc : isChange txn.fields = true) (hs : txn.getSourceAccount ≠ 0) :
    Always (fun ter => ter ≠ .tesSUCCESS) (transact env txn params) := by
  obtain ⟨common, fields, operations⟩ := txn
  have fails {d : LES TER} : Always (fun ter => ter ≠ .tesSUCCESS) ((Change.hooks env d).apply env
      { mTxn := .mk common fields operations, mParams := params }) := by
    intro v
    refine spec_bind.2 (spec_bind.2 ?_)
    simp only [Change.hooks, Change.preCheck]
    rw [if_pos hs]
    exact spec_pure.2 (spec_pure.2 (by simp))
  cases fields with
  | amendment | fee => exact fails
  | _ => cases hc

namespace TransactionEngine
variable {engine : TransactionEngine} {ter : TER} {l : Ledger} {v1 v2 : LedgerEntrySet}
  {metaData : TransactionMetaSet}

theorem Committed.sequence_eq (h : Committed env engine txn params ter l v1 v2 metaData)
    (a : Account) : l.sequence a = v1.sequence a := by
  have hshows := h.shows (getAccountRootIndex a)
  unfold Ledger.sequence LedgerEntrySet.sequence
  generalize l.getSLE (getAccountRootIndex a) = after at hshows
  generalize v1.read (getAccountRootIndex a) = shown at hshows
  cases hshows with
  | none => rfl
  | some hsame =>
    simp only [Option.map_some, SLE.getFieldU32]
    rw [hsame.get_eq (by simp) (by simp)]

theorem sequence_start (a : Account) :
    (engine.start txn params).sequence a = engine.mLedger.sequence a := by
  simp [LedgerEntrySet.sequence, Ledger.sequence, LedgerEntrySet.read, start, LedgerEntrySet.init]

omit [Sha512Half] in
theorem FeeClaimed.sequence_eq {s s' : SLE} (h : FeeClaimed txn s s') :
    s'.getFieldU32 sfSequence = txn.getSequence + 1 := by
  obtain ⟨paid, left, -, -, rfl⟩ := h.root
  simp [SLE.getFieldU32, SLE.get, SLE.setFieldU32]

/-- The sequence that a claim of the fee leaves. -/
theorem sequence_claimed {s s' : SLE} {v0 : LedgerEntrySet} (hfee : FeeClaimed txn s s') :
    (v0.clear.setEntry (getAccountRootIndex txn.getSourceAccount) ⟨s', .taaMODIFY⟩).sequence a =
      if a = txn.getSourceAccount then some (txn.getSequence + 1) else v0.mLedger.sequence a := by
  rw [LedgerEntrySet.sequence, read_setEntry]
  by_cases ha : a = txn.getSourceAccount
  · rw [if_pos (by rw [ha]), if_pos ha]
    simp [LedgerEntrySetEntry.shown, FeeClaimed.sequence_eq hfee]
  · rw [if_neg (by simpa [getAccountRootIndex] using Ne.symm ha), if_neg ha]
    rfl

/-- No sequence goes down in a call, unless the one of the transaction starts over. -/
theorem Committed.sequence_le (h : Committed env engine txn params ter l v1 v2 metaData)
    (hmax : txn.getSequence ≠ maxSequence) (hq : engine.mLedger.sequence a = some q) :
    ∃ q', l.sequence a = some q' ∧ q ≤ q' := by
  rw [h.sequence_eq]
  obtain ⟨-, hf⟩ | ⟨_, v0, s, s', -, -, hs, hfee, hl, rfl⟩ := h.run_cases
    (fun _ q => q = txn.getSequence) fun _ => rfl
  · exact hf.sequence_le (fun h => h rfl) id (fun q e => e ▸ hmax) (sequence_start a ▸ hq)
  · rw [sequence_claimed hfee, hl]
    split
    · next ha =>
      subst ha
      rw [Ledger.sequence, hs] at hq
      cases hq
      refine ⟨_, rfl, ?_⟩
      dsimp only
      rw [hfee.sequence]
      exact UInt32.le_of_lt (lt_add_one_of_ne_max hmax)
    · exact ⟨q, hq, UInt32.le_refl q⟩

/-- A call that applies a transaction of an account has found the sequence at the
transaction's number or below, and leaves it above. -/
theorem Committed.sequence_counts (h : Committed env engine txn params ter l v1 v2 metaData)
    (hp : params.tapPRE_CHECKED = false) (hm : isManage txn.fields = false)
    (hs : txn.getSourceAccount ≠ 0) (hmax : txn.getSequence ≠ maxSequence) :
    (∃ q, engine.mLedger.sequence txn.getSourceAccount = some q ∧ q ≤ txn.getSequence) ∧
      l.sequence txn.getSourceAccount = some (txn.getSequence + 1) := by
  rw [h.sequence_eq]
  obtain ⟨ht, -⟩ | ⟨_, v0, s, s', -, -, hroot, hfee, -, rfl⟩ := h.run_cases
    (fun _ _ => True) fun _ => trivial
  · have hc : isChange txn.fields = false := by
      by_contra hc
      exact change_fails (by simpa using hc) hs _ _ _ ht rfl
    obtain ⟨hbefore, hafter⟩ := transact_counts hm hc hp hmax ht
    exact ⟨hbefore, hafter⟩
  · rw [sequence_claimed hfee, if_pos rfl]
    refine ⟨⟨_, ?_, UInt32.le_refl _⟩, rfl⟩
    rw [Ledger.sequence, hroot, ← hfee.sequence]
    rfl

end TransactionEngine

end Skywell
