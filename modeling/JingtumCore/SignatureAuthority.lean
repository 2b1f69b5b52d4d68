import JingtumCore.TransactorFrames

/-!
# Who may sign a transaction

Outside a batch `Transactor::apply` is to call `doApply` only for a signature
that was verified, of the source's master key or of its regular key. The
transactors of the network's managers override every check that says so.
-/
namespace Skywell
open U32Field AmountField AccountField H256Field LedgerEntrySet StateExcept

section
variable [Sha512Half] {env : Env} {t : Transactor} {txn : STTx} {params : TransactionEngineParams}
  {v : LedgerEntrySet}

/-- Whether the transactor of a transaction gets to its `doApply`. -/
def reachesDoApply (env : Env) (txn : STTx) (params : TransactionEngineParams)
    (v : LedgerEntrySet) : Bool :=
  !isTicket txn.fields &&
    match (transactorOf env (Operations.applyAll env txn.operations) txn).prepare env
      { mTxn := txn, mParams := params } v with
    | .ok (.ok _, _) => true
    | _ => false

/-- The key that signed is the master key of the root, not disabled, or its
regular key. -/
def SLE.signableBy (root : SLE) (source signer : Account) : Bool :=
  signer == source && !root.isFlag lsfDisableMaster ||
    root.isFieldPresent (.account sfRegularKey) && signer == root.getFieldAccount160 sfRegularKey

/-- A verified signature of a key of the source. -/
def SignedBySource (env : Env) (txn : STTx) (params : TransactionEngineParams)
    (v : LedgerEntrySet) : Prop :=
  Verified txn params ∧ (v.read (getAccountRootIndex txn.getSourceAccount)).any
    (·.signableBy txn.getSourceAccount (env.accountID txn.getSigningPubKey)) = true

/-- What happens to the set before the signature is checked. -/
def signingCaps (roots : Bool) (source : Account) (sequence : UInt32) : Caps where
  dirty _ := False
  fresh _ := False
  drops k := k.type ≠ .accountRoot
  roots _ := roots = true
  writes _ f := f = .amount sfBalance ∨ f = .u32 sfOwnerCount ∨ f = .account sfAccount ∨
    f = .h256 sfAccountTxnID
  bump k q := k = getAccountRootIndex source ∧ q = sequence
  delivers := False

section
omit [Sha512Half]

variable {source : Account} {sequence : UInt32}

theorem paying_signingCaps {roots : Bool} : Paying (signingCaps roots source sequence) where
  drops _ h := h
  ownerCount _ := .inr (.inl rfl)
  balance _ := .inl rfl

theorem charging_signingCaps : Charging (signingCaps true source sequence) source sequence where
  roots _ := rfl
  balance _ := .inl rfl
  account _ := .inr (.inr (.inl rfl))
  accountTxnID _ := .inr (.inr (.inr rfl))
  bump := ⟨rfl, rfl⟩

end

variable {v' : LedgerEntrySet} {k : Key}

/-- Neither the flags nor the regular key of a root changes before the signature
is checked. -/
theorem signable_of_frame {c : Caps} {source : Account} {s : SLE}
    (signer : Account) (hf : Frame c v v') (hc : ∀ k, c.fresh k → False)
    (hd : ∀ k, c.drops k → k.type ≠ .accountRoot) (hw : ∀ k f, c.writes k f → f = .amount sfBalance ∨
      f = .u32 sfOwnerCount ∨ f = .account sfAccount ∨ f = .h256 sfAccountTxnID)
    (hs : v.read (getAccountRootIndex source) = some s) :
    ∃ s', v'.read (getAccountRootIndex source) = some s' ∧
      s'.isFieldPresent (.account sfRegularKey) = s.isFieldPresent (.account sfRegularKey) ∧
      s'.signableBy source signer = s.signableBy source signer := by
  obtain ⟨s', hs', hw'⟩ := hf.read (fun h => hd _ h rfl) (hc _) (fun h => by cases h) hs
  have field (f : SField) (hseq : f ≠ .u32 sfSequence) (h : ¬(f = .amount sfBalance ∨
      f = .u32 sfOwnerCount ∨ f = .account sfAccount ∨ f = .h256 sfAccountTxnID)) :
      s'.field f = s.field f :=
    Caps.Write.field_eq rfl hseq (fun hc => h (hw _ f hc)) hw'
  have flags := field (.u32 sfFlags) (by decide) (by decide)
  have key := field (.account sfRegularKey) (by decide) (by decide)
  refine ⟨s', hs', by simp [SLE.isFieldPresent, key], ?_⟩
  simp [SLE.signableBy, SLE.isFlag, SLE.getFlags, SLE.getFieldU32, SLE.getFieldAccount160,
    SLE.get, SLE.isFieldPresent, flags, key]

/-- Outside a batch the root, as it is when the signature is checked, allows the key. -/
theorem checkSig_signable (hp : t.mParams.tapPRE_CHECKED = false) :
    Spec t.checkSig v fun r _ => r.1 = .tesSUCCESS → ∃ k e, t.mTxnAccount = some k ∧
      v.mEntries[k]? = some e ∧ (t.mHasAuthKey = e.mEntry.isFieldPresent (.account sfRegularKey) →
        e.mEntry.signableBy t.mTxnAccountID t.mSigningAccount = true) := by
  simp only [Transactor.checkSig, hp, reduceCtorEq, if_false, spec_bind, spec_pointer,
    spec_deref]
  intro k hk e he
  split
  · next hs =>
    split
    · exact spec_pure.2 fun h => by cases h
    · next hm => exact spec_pure.2 fun _ => ⟨k, e, hk, he, fun _ => by simp [SLE.signableBy, hs, hm]⟩
  split
  · exact spec_pure.2 fun h => by cases h
  next ha =>
  split
  · next hr =>
    refine spec_pure.2 fun _ => ⟨k, e, hk, he, fun h => ?_⟩
    have ha : t.mHasAuthKey = true := by simpa using ha
    simp [SLE.signableBy, ← h, ha, hr]
  · exact spec_pure.2 fun h => by cases h

theorem signedBySource_of_prepare {h : Hooks} (hk : h.Known)
    (hsig : h.checkSig = Transactor.checkSig) (hchecks : Checks env t (h.preCheck t))
    (hframe : Keeps (Frame (signingCaps false t.mTxn.getSourceAccount t.mTxn.getSequence))
      (h.preCheck t)) (hp : t.mParams.tapPRE_CHECKED = false) {t' : Transactor}
    (he : h.prepare env t v = .ok (.ok t', v')) :
    SignedBySource env t.mTxn t.mParams v := by
  obtain ⟨t1, v1, t2, v2, t3, v3, h1, h2, -, h3, h4⟩ := prepare_inv he
  obtain ⟨v4, h4⟩ := sign_inv h4
  have hpre := (hchecks v _ _ h1).1 rfl
  have hf1 := hframe v _ _ h1
  obtain ⟨hl, hv2⟩ := load_spec hk.feeReads _ _ h2
  have hp2 : t2.mParams.tapPRE_CHECKED = false := by rw [hl.params, hpre.params, hp]
  have hsource : t2.mTxnAccountID = t.mTxn.getSourceAccount :=
    hl.txnAccountID.trans hpre.txnAccountID
  have htxn : t2.mTxnAccount = (v1.read (getAccountRootIndex t.mTxn.getSourceAccount)).map
      fun _ => getAccountRootIndex t.mTxn.getSourceAccount := by
    rw [hl.txnAccount, hpre.txnAccountID]
  obtain ⟨hp', -, -⟩ | ⟨-, h3⟩ := h3
  · simp [hp2] at hp'
  -- the fee is charged, and then the signature checked
  have hc : Charging (signingCaps true t.mTxn.getSourceAccount t.mTxn.getSequence)
      t.mTxn.getSourceAccount t2.mTxn.getSequence := by
    rw [hl.txn, hpre.txn]
    exact charging_signingCaps
  have hf3 := charge_spec hk hc (fun k e => by
    rw [htxn, Option.map_eq_some_iff] at e
    obtain ⟨_, -, rfl⟩ := e
    rfl) (by rw [hl.feeAccount, hl.feeAccountID, hv2]; simp) hp2 _ _ h3
  have hs3 := (hk.charge_same _ _ _ h3).1
  rw [hsig] at h4
  obtain ⟨k, e, hke, hee, hsign⟩ := checkSig_signable (by rw [hs3.params, hp2]) _ _ h4 rfl
  rw [hs3.txnAccount, htxn, Option.map_eq_some_iff] at hke
  obtain ⟨s1, hs1, rfl⟩ := hke
  cases hs : v.read (getAccountRootIndex t.mTxn.getSourceAccount) with
  | none =>
    rw [hf1.read_none rfl (by simp [signingCaps]) hs] at hs1
    cases hs1
  | some s =>
    obtain ⟨s1', hs1', hkey1, hsig1⟩ := signable_of_frame
      (env.accountID t.mTxn.getSigningPubKey) hf1 (fun _ => id) (fun _ => id)
      (fun _ _ => id) hs
    cases hs1.symm.trans hs1'
    obtain ⟨s3, hs3', hkey3, hsig3⟩ := signable_of_frame
      (env.accountID t.mTxn.getSigningPubKey) hf3 (fun _ => id)
      (fun _ => id) (fun _ _ => id) (by rw [hv2]; simpa using hs1)
    obtain ⟨rfl, -⟩ := mEntry_eq_of_read hee hs3'
    refine ⟨hpre.verified, ?_⟩
    have hauth : t3.mHasAuthKey = e.mEntry.isFieldPresent (.account sfRegularKey) := by
      rw [hs3.hasAuthKey, hkey3]
      exact (hl.root s1 (by rw [hpre.txnAccountID, hs1])).2.2
    rw [hs3.txnAccountID, hsource, hs3.signingAccount, hl.signingAccount,
      hpre.signingAccount] at hsign
    rw [hs, Option.any_some, ← hsig1, ← hsig3]
    exact hsign hauth

/-- The account whose transactions of a managers' type pass `preCheck`. -/
def managerOf (env : Env) (txn : STTx) : Account :=
  if txn.getTxnType = .ttMNGISSUER then env.config.SISSUER_ACCOUNTID
  else env.config.SMNG_ACCOUNTID

/-- An entry that is in the set and was not deleted. -/
def Live (v : LedgerEntrySet) (k : Key) : Prop :=
  ∃ e, v.mEntries[k]? = some e ∧ e.mAction ≠ .taaDELETE

theorem live_setEntry {k' : Key} {e : LedgerEntrySetEntry} (he : e.mAction ≠ .taaDELETE)
    (h : k' = k ∨ Live v k') : Live (v.setEntry k e) k' := by
  by_cases hk : k = k'
  · exact ⟨e, by simp [hk], he⟩
  · obtain ⟨e', he'⟩ := h.resolve_left (Ne.symm hk)
    exact ⟨e', by simpa [hk] using he'⟩

theorem live_cached (h : (v.read k).isSome) : Live (v.cached k) k := by
  obtain ⟨s, hs⟩ := Option.isSome_iff_exists.1 h
  obtain ⟨a, ha, he⟩ := getElem?_cached_of_read hs
  exact ⟨_, he, ha⟩

theorem Live.cached (h : Live v k) (k' : Key) : Live (v.cached k') k := by
  unfold LedgerEntrySet.cached
  split
  · exact live_setEntry (by simp) (.inr h)
  · exact h

theorem entryModify_ends (h : Live v k) :
    Ends (entryModify k) v fun _ v' => ∀ k', Live v k' → Live v' k' := by
  obtain ⟨⟨s, a⟩, he, ha⟩ := h
  exact ⟨(), _, entryModify_eq he ha, fun k' h => live_setEntry modified_alive (.inr h)⟩

theorem assign_ends (h : Live v k) {g : SLE → SLE} :
    Ends (assign k g) v fun _ v' => ∀ k', Live v k' → Live v' k' := by
  obtain ⟨e, he, ha⟩ := h
  exact ⟨(), _, assign_eq he g, fun k' h => live_setEntry ha (.inr h)⟩

theorem entryCreate_ends (h : v.read k = none) :
    Ends (entryCreate k) v fun _ v' => ∀ k', k' = k ∨ Live v k' → Live v' k' := by
  obtain ⟨a, ha, -, he⟩ := entryCreate_eq h
  exact ⟨(), _, he, fun k' h => live_setEntry ha h⟩

theorem createAccountRoot_ends {a : Account} (h : v.read (getAccountRootIndex a) = none) :
    Ends (createAccountRoot a) v fun _ v' =>
      ∀ k, k = getAccountRootIndex a ∨ Live v k → Live v' k :=
  (entryCreate_ends h).bind fun _ _ h1 => by
    obtain ⟨_, v2, he, h2⟩ := assign_ends (h1 _ (.inl rfl))
    exact ⟨_, v2, he, fun k hk => h2 k (h1 k hk)⟩

theorem forM_entryModify_ends {o : Option Key} (h : ∀ k, o = some k → Live v k) :
    Ends (o.forM entryModify) v fun _ v' => ∀ k, Live v k → Live v' k := by
  cases o with
  | none => exact ends_pure fun _ => id
  | some k => exact entryModify_ends (h k rfl)

variable (env) (doApply : LES TER)

/-- The managers' transactors find the source, and nothing can go wrong then. -/
theorem ManageTransactor.load_ends (t : Transactor)
    (hr : (v.read (getAccountRootIndex t.mTxnAccountID)).isSome) :
    Ends ((ManageTransactor.hooks env doApply).load env t) v fun t' v' => Loaded v t t' ∧
      v' = (v.cached (getAccountRootIndex t.mTxnAccountID)).cached
        (getAccountRootIndex t.mFeeAccountID) := by
  obtain ⟨e, he, -⟩ := (live_cached hr).cached (getAccountRootIndex t.mFeeAccountID)
  have hends : ∃ r, (ManageTransactor.hooks env doApply).load env t v = .ok r := by
    unfold Hooks.load
    rw [bind_apply_ok entryCache_eq, bind_apply_ok entryCache_eq]
    simp [ManageTransactor.hooks, Transactor.calculateBaseFee, Transactor.calculateFee, getLedger,
      hr, bind_apply_ok (deref_eq he), -bind_pure_comp]
  obtain ⟨⟨t', v'⟩, h⟩ := hends
  exact ⟨t', v', h, load_spec (h := ManageTransactor.hooks env doApply) base_feeReads _ _ h⟩

theorem ManageTransactor.preCheck_eq (t : Transactor) (v : LedgerEntrySet) :
    (ManageTransactor.hooks env doApply).preCheck t v =
      .ok ((if t.mTxn.getSourceAccount = managerOf env t.mTxn then .tesSUCCESS
        else .temBAD_SRC_ACCOUNT, { t with mTxnAccountID := t.mTxn.getSourceAccount }), v) := by
  unfold ManageTransactor.hooks ManageTransactor.preCheck managerOf
  by_cases ht : t.mTxn.getTxnType = .ttMNGISSUER
  · simp only [ht, if_true]
    split <;> simp_all
  · simp only [ht, if_false]
    split <;> simp_all

theorem ManageTransactor.sign_ends (h1 : ∀ k, t.mTxnAccount = some k → Live v k)
    (h2 : ∀ k, t.mFeeAccount = some k → Live v k) :
    Ends ((ManageTransactor.hooks env doApply).sign t) v fun r _ => ∃ t', r = .ok t' :=
  .bind (ends_pure (Q := fun r v' => r = (.tesSUCCESS, t) ∧ v' = v) ⟨rfl, rfl⟩) <| by
    rintro _ _ ⟨rfl, rfl⟩
    refine (forM_entryModify_ends h1).bind fun _ v1 hv1 => ?_
    exact (forM_entryModify_ends fun k e => hv1 k (h2 k e)).bind fun _ _ _ => ends_pure ⟨t, rfl⟩

theorem ManageTransactor.charge_ends (htx : v.mLedger.hasTransaction t.mTxn.getTransactionID = false)
    (h1 : ∀ k, t.mTxnAccount = some k → Live v k)
    (h2 : t.mFeeAccount = none → v.read (getAccountRootIndex t.mFeeAccountID) = none)
    (h3 : t.mFeeAccount ≠ none → Live v (getAccountRootIndex t.mFeeAccountID)) :
    Ends ((ManageTransactor.hooks env doApply).charge t) v fun r v' => r.1 = .tesSUCCESS ∧
      (∀ k, r.2.mTxnAccount = some k → Live v' k) ∧
      ∀ k, r.2.mFeeAccount = some k → Live v' k := by
  have hseq : (ManageTransactor.hooks env doApply).checkSeq t v = .ok (.tesSUCCESS, v) := by
    simp [ManageTransactor.hooks, ManageTransactor.checkSeq, getLedger, htx]
  unfold Hooks.charge
  rw [Ends, bind_apply_ok hseq]
  cases hn : t.mFeeAccount with
  | none =>
    refine (createAccountRoot_ends (h2 hn)).bind fun _ _ h => ends_pure ⟨rfl, ?_, ?_⟩
    · exact fun k e => h k (.inr (h1 k e))
    · rintro _ ⟨⟩
      exact h _ (.inl rfl)
  | some k =>
    refine ends_pure ⟨rfl, h1, ?_⟩
    rintro _ ⟨⟩
    exact h3 (by simp [hn])

/-- Any signature will do for a transaction of the managers' account that is not in
the ledger yet. -/
theorem ManageTransactor.prepare_ends (hp : t.mParams.tapPRE_CHECKED = false)
    (hsource : t.mTxn.getSourceAccount = managerOf env t.mTxn)
    (hroot : (v.read (getAccountRootIndex t.mTxn.getSourceAccount)).isSome)
    (htx : v.mLedger.hasTransaction t.mTxn.getTransactionID = false) :
    Ends ((ManageTransactor.hooks env doApply).prepare env t) v fun r _ => ∃ t', r = .ok t' := by
  have hpre := ManageTransactor.preCheck_eq env doApply t v
  rw [if_pos hsource] at hpre
  obtain ⟨t2, v2, h2, hl, hv2⟩ := ManageTransactor.load_ends env doApply
    { t with mTxnAccountID := t.mTxn.getSourceAccount } hroot
  have hlive : ∀ k, t2.mTxnAccount = some k → Live v2 k := by
    intro k e
    rw [hl.txnAccount, Option.map_eq_some_iff] at e
    obtain ⟨_, -, rfl⟩ := e
    exact hv2 ▸ (live_cached hroot).cached _
  have htx2 : v2.mLedger.hasTransaction t2.mTxn.getTransactionID = false := by
    rw [hv2, hl.txn]
    simpa using htx
  have hcharge := ManageTransactor.charge_ends env doApply htx2 hlive
    (by rw [hl.feeAccount, hl.feeAccountID, hv2]; simp) (by
      rw [hl.feeAccount, hl.feeAccountID, hv2]
      intro h
      exact live_cached (by simpa [Option.isSome_iff_ne_none] using h))
  unfold Hooks.prepare
  rw [Ends, bind_apply_ok hpre]
  simp only [ne_eq, not_true, if_false]
  rw [bind_apply_ok h2]
  have hvalid : t2.mTxnAccount.isNone = false := by
    rw [hl.txnAccount]
    simpa using hroot
  simp only [hvalid, hl.params, hp]
  refine hcharge.bind fun ⟨ter, t3⟩ v3 ⟨hter, h3, h3'⟩ => ?_
  cases hter
  exact ManageTransactor.sign_ends env doApply h3 h3'

theorem reachesDoApply_iff : reachesDoApply env txn params v = true ↔
    isTicket txn.fields = false ∧ Ends ((transactorOf env (Operations.applyAll env txn.operations)
      txn).prepare env { mTxn := txn, mParams := params }) v fun r _ => ∃ t', r = .ok t' := by
  rw [reachesDoApply, Bool.and_eq_true, Bool.not_eq_true']
  refine and_congr_right fun _ => ?_
  constructor
  · intro h
    split at h
    · next t' v' he => exact ⟨_, v', he, t', rfl⟩
    · cases h
  · rintro ⟨_, v', he, t', rfl⟩
    rw [he]

/-- A transaction of a managers' type that passes the checks made of it, and that
no key of its source has signed. -/
def PassesUnsigned (env : Env) (txn : STTx) (params : TransactionEngineParams)
    (v : LedgerEntrySet) : Prop :=
  isManage txn.fields = true ∧ txn.getSourceAccount = managerOf env txn ∧
    (v.read (getAccountRootIndex txn.getSourceAccount)).isSome = true ∧
    v.mLedger.hasTransaction txn.getTransactionID = false ∧ ¬SignedBySource env txn params v

/-- What the transactors of the managers do check. -/
theorem ManageTransactor.checked_of_prepare (hp : t.mParams.tapPRE_CHECKED = false) {t' : Transactor}
    (he : (ManageTransactor.hooks env doApply).prepare env t v = .ok (.ok t', v')) :
    t.mTxn.getSourceAccount = managerOf env t.mTxn ∧
      (v.read (getAccountRootIndex t.mTxn.getSourceAccount)).isSome = true ∧
      v.mLedger.hasTransaction t.mTxn.getTransactionID = false := by
  obtain ⟨t1, v1, t2, v2, t3, v3, h1, h2, hvalid, h3, -⟩ := prepare_inv he
  rw [ManageTransactor.preCheck_eq] at h1
  split at h1
  swap
  · cases h1
  next hsource =>
  cases h1
  obtain ⟨hl, hv2⟩ := load_spec (h := ManageTransactor.hooks env doApply) base_feeReads _ _ h2
  refine ⟨hsource, ?_, ?_⟩
  · rw [Option.isSome_iff_ne_none]
    intro hn
    exact hvalid rfl (by rw [hl.txnAccount]; simp [hn])
  obtain ⟨hp', -, -⟩ | ⟨-, h3⟩ := h3
  · simp [hl.params, hp] at hp'
  obtain ⟨ter, v3, hseq, h3⟩ := bind_eq_ok.1 h3
  simp only [ManageTransactor.hooks, ManageTransactor.checkSeq, getLedger, get_bind_apply,
    bind_assoc, pure_bind, hl.txn] at hseq
  split at hseq
  · cases hseq
    simp at h3
  · next h => simpa [hv2] using h

theorem manage_reaches_iff (hm : isManage txn.fields = true)
    (hp : params.tapPRE_CHECKED = false) : reachesDoApply env txn params v = true ↔
      txn.getSourceAccount = managerOf env txn ∧
      (v.read (getAccountRootIndex txn.getSourceAccount)).isSome = true ∧
      v.mLedger.hasTransaction txn.getTransactionID = false := by
  obtain ⟨ht, d, hd⟩ : isTicket txn.fields = false ∧ ∃ d, transactorOf env
      (Operations.applyAll env txn.operations) txn = ManageTransactor.hooks env d := by
    obtain ⟨common, fields, operations⟩ := txn
    cases fields with
    | mngFee | mngIssuer | blkListSet | blkListRmv => exact ⟨rfl, _, rfl⟩
    | _ => cases hm
  rw [reachesDoApply_iff, hd]
  constructor
  · rintro ⟨-, _, v', he, t', rfl⟩
    exact ManageTransactor.checked_of_prepare
      env d hp he
  · rintro ⟨hs, hr, htx⟩
    exact ⟨ht, ManageTransactor.prepare_ends env d hp hs hr htx⟩

/-- Outside a batch, and the transactions of the network apart, `doApply` is
reached with the signature of a key of the source only, but for transactions of
the managers. -/
theorem doApply_only_signed_iff (env : Env) (txn : STTx) (params : TransactionEngineParams)
    (v : LedgerEntrySet) :
    (isChange txn.fields = false → params.tapPRE_CHECKED = false →
      reachesDoApply env txn params v = true → SignedBySource env txn params v) ↔
    ¬(params.tapPRE_CHECKED = false ∧ PassesUnsigned env txn params v) := by
  by_cases hp : params.tapPRE_CHECKED = false
  swap
  · simp [hp]
  by_cases hm : isManage txn.fields = true
  · have hc : isChange txn.fields = false := by
      cases hf : txn.fields <;> simp_all [isManage, isChange]
    rw [manage_reaches_iff env hm hp]
    simp only [PassesUnsigned]
    tauto
  · rw [Bool.not_eq_true] at hm
    refine iff_of_true (fun hc _ hreach => ?_) fun h => by simp [PassesUnsigned, hm] at h
    obtain ⟨ht, _, v', he, t', rfl⟩ := (reachesDoApply_iff env).1 hreach
    have hsig : (transactorOf env (Operations.applyAll env txn.operations) txn).checkSig =
        Transactor.checkSig := by
      obtain ⟨common, fields, operations⟩ := txn
      cases fields with
      | mngFee | mngIssuer | blkListSet | blkListRmv => cases hm
      | amendment | fee => cases hc
      | _ => rfl
    exact signedBySource_of_prepare (known_transactorOf ..) hsig (framedChecks_transactorOf rfl hc hm).1
      (preCheck_frame_transactorOf rfl paying_signingCaps) hp he

end

instance (txn : STTx) (params : TransactionEngineParams) : Decidable (Verified txn params) :=
  inferInstanceAs (Decidable (_ = true ∨ _ = true ∨ _ = true))

instance [Sha512Half] (env : Env) (txn : STTx) (params : TransactionEngineParams)
    (v : LedgerEntrySet) : Decidable (SignedBySource env txn params v) :=
  inferInstanceAs (Decidable (Verified txn params ∧ _ = true))

/-- A ledger with the root of the managers' account, which is account 2. -/
def managedLedger : @Ledger Key.coded :=
  letI := Key.coded
  { mAccountStateMap := (∅ : StateMap).insert (.account 2)
      ((SLE.new .accountRoot).setFieldAccount sfAccount 2)
    mTransactionMap := ∅
    mLedgerSeq := 1
    mBaseFee := 10
    mReferenceFeeUnits := 10
    mReserveBase := 20
    mReserveIncrement := 5 }

/-- Every key is of account 9. -/
def strangerEnv : @Env Key.coded :=
  letI := Key.coded
  { config := ⟨1, 2, 3, 10⟩
    closedLedger := managedLedger
    scaleFeeLoad := fun fee _ _ _ => fee
    accountID := fun _ => 9
    skywellCalculate := fun _ _ => .error .nullPointer }

/-- A `ttMNGFEE` in the name of account 2 that makes account 9 the fee account. Its
signature is known to be bad. -/
def strangerMngFee : STTx :=
  .mk { txID := 1, account := 2, sigState := .bad } (.mngFee 9) []

/-- The transaction of a stranger gets to `doApply`, and account 9 is the fee account. -/
theorem mngFee_unsigned : ∃ (_ : Sha512Half) (env : Env) (v : LedgerEntrySet),
    reachesDoApply env strangerMngFee {} v = true ∧ ¬SignedBySource env strangerMngFee {} v ∧
    (transact env strangerMngFee {} v).map (fun r =>
      (r.1, (r.2.read .manageFee).map (·.getFieldAccount160 sfFeeAccountID))) =
        .ok (.tesSUCCESS, some 9) :=
  letI := Key.coded
  ⟨Key.coded, strangerEnv, { mLedger := managedLedger }, by decide +kernel⟩

end Skywell
