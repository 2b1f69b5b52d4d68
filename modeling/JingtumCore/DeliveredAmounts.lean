import JingtumCore.DoApplyFrames

/-!
# What payments deliver

A payment that asks the path engine ends as the engine answers. If the engine
succeeds and delivers another amount than the one asked for, the set records
that amount, and nothing that is done with the set takes the record back.
-/
namespace Skywell
open LedgerEntrySet StateExcept
variable [Sha512Half] {env : Env} {t : Transactor} {v w : LedgerEntrySet} {ter : TER}

/-- The result is not a `tem` code. -/
abbrev NoTem (m : LES TER) : Prop := Always (fun ter => isTemMalformed ter = false) m

/-- All that a transaction may do but record a delivery. -/
abbrev quiet : Caps := Caps.txn (fun _ _ => True) False

namespace Payment

/-- Asks the path engine, which makes its calls on the set. -/
def ask (env : Env) (uDstAccountID : Account) (saDstAmount : STAmount) (input : PathInput) :
    LES PathOutput := do
  openLine uDstAccountID saDstAmount
  let rc ← env.skywellCalculate (← get) input
  runPathCalls rc.calls
  return rc

/-- What a payment asks the path engine, if it comes that far. -/
def question (env : Env) (uDstAccountID : Account) (saDstAmount : STAmount)
    (sendMax : Option STAmount) (paths : Option (List (List STPathElement))) (hasTag : Bool)
    (t : Transactor) : LES (Option PathInput) := do
  let maxSourceAmount ← maxSource t.mTxnAccountID sendMax saDstAmount
  let opened ← openDestination uDstAccountID saDstAmount
    (hasFlag t.mTxn.getFlags tfPartialPayment) hasTag t
  match opened with
  | some _ => return none
  | none =>
    if paths.isSome || sendMax.isSome || !saDstAmount.isNative then
      return (pathInput env uDstAccountID saDstAmount maxSourceAmount (paths.getD []) t).toOption
    else return none

variable {dst : Account} {amount maxSource' : STAmount} {sendMax : Option STAmount}
  {paths : Option (List (List STPathElement))} {hasTag : Bool} {rc : PathOutput} {input : PathInput}

theorem openDestination_noTem {part : Bool} :
    Always (fun r => ∀ ter, r = some ter → isTemMalformed ter = false)
      (openDestination dst amount part hasTag t) := by
  have stops {ter : TER} (h : isTemMalformed ter = false) :
      Always (fun r => ∀ ter, r = some ter → isTemMalformed ter = false)
        (pure (some ter) : LES (Option TER)) :=
    always_pure fun _ e => Option.some.inj e ▸ h
  refine .bind fun _ => .ite (.ite (stops rfl) (.ite (stops rfl) (.bind fun _ => ?_))) ?_
  all_goals exact .bind fun _ => .ite (stops rfl) (.bind fun _ => always_pure nofun)

theorem directPayment_noTem : NoTem (directPayment dst amount t) := by
  refine .bind fun _ => .bind fun _ => .bind fun _ => .when fun _ => .when fun _ => ?_
  refine .bind fun _ => .bind fun _ => .ite (always_pure rfl) ?_
  iterate 6 refine .bind fun _ => ?_
  exact .when fun _ => always_pure rfl

theorem pathInput_noTem {paths : List (List STPathElement)}
    (h : pathInput env dst amount maxSource' paths t = .error ter) : isTemMalformed ter = false := by
  unfold pathInput at h
  dsimp only at h
  split_ifs at h <;> cases h <;> rfl

/-- What a payment makes of the engine's answer. -/
def settled (amount : STAmount) (rc : PathOutput) : LES TER := do
  if rc.result = .tesSUCCESS && !rc.actualAmountOut.eqv amount then
    setDeliveredAmount rc.actualAmountOut
  return if isTerRetry rc.result then .tecPATH_DRY else rc.result

/-- The engine delivered another amount than it was asked for. -/
abbrev OffAmount (amount : STAmount) (rc : PathOutput) : Prop :=
  rc.result = .tesSUCCESS ∧ rc.actualAmountOut.eqv amount = false

theorem settled_off (h : OffAmount amount rc) : settled amount rc v =
    .ok (.tesSUCCESS, { v with mSet := v.mSet.setDeliveredAmount rc.actualAmountOut }) := by
  simp only [settled, h.1, h.2, decide_true, Bool.not_false, Bool.and_self, if_true]
  rfl

theorem settled_even (h : ¬OffAmount amount rc) : settled amount rc v =
    .ok (if isTerRetry rc.result then .tecPATH_DRY else rc.result, v) := by
  have heven : (decide (rc.result = .tesSUCCESS) && !rc.actualAmountOut.eqv amount) = false := by
    simpa [OffAmount] using h
  simp only [settled, heven]
  rfl

/-- The engine is asked in the course of a payment, and answers. -/
def Answers (env : Env) (dst : Account) (amount : STAmount) (sendMax : Option STAmount)
    (paths : Option (List (List STPathElement))) (hasTag : Bool) (t : Transactor)
    (v : LedgerEntrySet) (rc : PathOutput) (v' : LedgerEntrySet) : Prop :=
  ∃ input v1, question env dst amount sendMax paths hasTag t v = .ok (some input, v1) ∧
    ask env dst amount input v1 = .ok (rc, v')

/-- The engine answers with another amount. -/
def Delivers (env : Env) (dst : Account) (amount : STAmount) (sendMax : Option STAmount)
    (paths : Option (List (List STPathElement))) (hasTag : Bool) (t : Transactor)
    (v : LedgerEntrySet) : Prop :=
  ∃ rc v', Answers env dst amount sendMax paths hasTag t v rc v' ∧ OffAmount amount rc

theorem Answers.unique {rc1 : PathOutput} {v' v1 : LedgerEntrySet}
    (h : Answers env dst amount sendMax paths hasTag t v rc v')
    (h1 : Answers env dst amount sendMax paths hasTag t v rc1 v1) : rc = rc1 := by
  obtain ⟨input, v2, hq, hask⟩ := h
  obtain ⟨input1, v3, hq1, hask1⟩ := h1
  cases hq.symm.trans hq1
  cases hask.symm.trans hask1
  rfl

theorem Answers.delivers_iff {v' : LedgerEntrySet}
    (h : Answers env dst amount sendMax paths hasTag t v rc v') :
    Delivers env dst amount sendMax paths hasTag t v ↔ OffAmount amount rc := by
  constructor
  · rintro ⟨rc1, v1, h1, hoff⟩
    rw [h.unique h1]
    exact hoff
  · intro hoff
    exact ⟨rc, v', h, hoff⟩

theorem skywellPayment_of_input {paths : List (List STPathElement)}
    (h : pathInput env dst amount maxSource' paths t = .ok input) :
    skywellPayment env dst amount maxSource' paths t = ask env dst amount input >>= settled amount := by
  simp only [skywellPayment, h, ask, skywell, settled, bind_assoc, pure_bind]
  congr! 8
  split <;> simp

theorem ask_frame : Keeps (Frame quiet) (ask env dst amount input) :=
  .bind (openLine_frame paying_txn) fun _ => .bind keeps_get fun _ => .bind keeps_lift fun _ =>
    .bind (runPathCalls_frame paying_txn) fun _ => keeps_pure _

/-- A payment ends as the engine answers, or ends plainly without an answer. -/
theorem doApply_cases (hheld : ∀ k, t.Held k → k.type = .accountRoot ∧ v.Touched k)
    (h : doApply env dst amount sendMax paths hasTag t v = .ok (ter, w)) :
    (∃ rc v', Answers env dst amount sendMax paths hasTag t v rc v' ∧
      Frame quiet v v' ∧ settled amount rc v' = .ok (ter, w)) ∨
    (∀ rc v', ¬Answers env dst amount sendMax paths hasTag t v rc v') ∧
      isTemMalformed ter = false ∧ Frame quiet v w := by
  obtain ⟨m, v0, hm, h⟩ := bind_eq_ok.1 h
  obtain ⟨opened, v1, ho, h⟩ := bind_eq_ok.1 h
  have asked : question env dst amount sendMax paths hasTag t v = _ :=
    (bind_apply_ok hm).trans (bind_apply_ok ho)
  rw [(lift_eq_ok.1 hm).2] at ho
  obtain ⟨h1, hdst⟩ := openDestination_touched (fun _ _ => True) False opened v1 ho
  -- without a question there is no answer
  have unasked (hq : question env dst amount sendMax paths hasTag t v = .ok (none, v1))
      (hter : isTemMalformed ter = false) (hw : Frame quiet v w) :
      (∀ rc v', ¬Answers env dst amount sendMax paths hasTag t v rc v') ∧
      isTemMalformed ter = false ∧ Frame quiet v w := by
    refine ⟨?_, hter, hw⟩
    rintro rc v' ⟨input, v2, hq', -⟩
    cases hq.symm.trans hq'
  cases opened with
  | some ter' =>
    cases h
    exact .inr (unasked asked (openDestination_noTem _ _ _ ho ter rfl) h1)
  | none =>
  dsimp only at h asked
  by_cases hp : (paths.isSome || sendMax.isSome || !amount.isNative) = true
  · rw [if_pos hp] at h asked
    cases hin : pathInput env dst amount m (paths.getD []) t with
    | error ter' =>
      rw [hin] at asked
      have hpay : skywellPayment env dst amount m (paths.getD []) t =
          pure (if isTerRetry ter' then .tecPATH_DRY else ter') := by
        simp [skywellPayment, hin]
      rw [hpay] at h
      cases h
      refine .inr (unasked asked ?_ h1)
      split
      · rfl
      · exact pathInput_noTem hin
    | ok input =>
      rw [hin] at asked
      rw [skywellPayment_of_input hin] at h
      unfold catching at h
      split at h
      · next hthrow =>
        cases h
        refine .inr ⟨?_, rfl, h1⟩
        rintro rc v' ⟨input', v2, hq, hask⟩
        cases asked.symm.trans hq
        rw [bind_apply_ok hask] at hthrow
        by_cases hoff : OffAmount amount rc
        · rw [settled_off hoff] at hthrow
          cases hthrow
        · rw [settled_even hoff] at hthrow
          cases hthrow
      · obtain ⟨rc, v', hask, hend⟩ := bind_eq_ok.1 h
        exact .inl ⟨rc, v', ⟨input, v1, asked, hask⟩, IsTrans.trans _ _ _ h1 (ask_frame _ _ _ hask), hend⟩
  · rw [if_neg hp] at h asked
    refine .inr (unasked asked (directPayment_noTem _ _ _ h) ?_)
    have holds : ∀ k, t.Held k ∨ k = getAccountRootIndex dst → v1.Touched k := by
      rintro k (hk | rfl)
      · exact h1.touched (fun hd => hd (hheld k hk).1) (hheld k hk).2
      · exact hdst rfl
    exact IsTrans.trans _ _ _ h1 (directPayment_holding _ _ _ h holds).1

/-- A delivery is recorded exactly if there is one, and then the payment succeeds. -/
theorem doApply_delivered (hheld : ∀ k, t.Held k → k.type = .accountRoot ∧ v.Touched k)
    (h : doApply env dst amount sendMax paths hasTag t v = .ok (ter, w)) :
    (w.mSet.mDelivered.isSome = true ↔ v.mSet.mDelivered.isSome = true ∨
      Delivers env dst amount sendMax paths hasTag t v) ∧
    (Delivers env dst amount sendMax paths hasTag t v → ter = .tesSUCCESS) := by
  obtain ⟨rc, v', hans, hframe, hend⟩ | ⟨hno, -, hframe⟩ :=
    doApply_cases hheld h
  · rw [hans.delivers_iff, ← hframe.delivered id]
    by_cases hoff : OffAmount amount rc
    · rw [settled_off hoff] at hend
      cases hend
      exact ⟨⟨fun _ => .inr hoff, fun _ => rfl⟩, fun _ => rfl⟩
    · rw [settled_even hoff] at hend
      cases hend
      exact ⟨⟨.inl, fun h => h.resolve_right hoff⟩, fun h => absurd h hoff⟩
  · have hnone : ¬Delivers env dst amount sendMax paths hasTag t v := by
      rintro ⟨rc, v', h1, -⟩
      exact hno rc v' h1
    rw [hframe.delivered id]
    exact ⟨⟨.inl, fun h => h.resolve_right hnone⟩, fun h => absurd h hnone⟩

end Payment

/-- A `doApply` that is called in `v` delivers; `batch` says so for the transactions of
a batch. -/
def TxFields.delivers (env : Env) (t : Transactor) (fields : TxFields) (batch : Prop)
    (v : LedgerEntrySet) : Prop :=
  match fields with
  | .payment destination amount sendMax paths tag =>
    Payment.Delivers env destination amount sendMax paths tag.isSome t v
  | .operation legal _ => legal = true ∧ batch
  | _ => False

mutual

/-- In a transaction that is applied to `v` a payment delivers another amount than
the one it is of. -/
def delivers (env : Env) : STTx → TransactionEngineParams → LedgerEntrySet → Prop
  | .mk common fields operations, params, v =>
    let txn := STTx.mk common fields operations
    ∃ t' v', (transactorOf env (Operations.applyAll env operations) txn).prepare env
        { mTxn := txn, mParams := params } v = .ok (.ok t', v') ∧
      fields.delivers env t'
        (deliversAll env operations (Operations.signAccounts env txn) params v') v'

/-- The same for the transactions of a batch, each when its turn comes. -/
def deliversAll (env : Env) : List STTx → List Account → TransactionEngineParams →
    LedgerEntrySet → Prop
  | [], _, _, _ => False
  | sttx :: rest, mSigners, params, v =>
    ∃ p v1, Operations.precheckSig mSigners sttx.getSourceAccount params v =
      .ok ((.tesSUCCESS, p), v1) ∧
    let p := { p with tapPRE_CHECKED := true }
    (delivers env sttx p v1 ∨ ∃ v2, transact env sttx p v1 = .ok (.tesSUCCESS, v2) ∧
      deliversAll env rest mSigners p v2)

end

/-- What is delivered is decided in the state that `doApply` starts from. -/
theorem delivers_of_prepare {common : TxCommon} {fields : TxFields} {operations : List STTx}
    {params : TransactionEngineParams} {t' : Transactor}
    (h : (transactorOf env (Operations.applyAll env operations) (.mk common fields operations)).prepare
      env { mTxn := .mk common fields operations, mParams := params } v = .ok (.ok t', w)) :
    delivers env (.mk common fields operations) params v ↔ fields.delivers env t'
      (deliversAll env operations (Operations.signAccounts env (.mk common fields operations)) params w)
      w := by
  unfold delivers
  constructor
  · rintro ⟨t1, v1, h1, hd⟩
    cases h.symm.trans h1
    exact hd
  · intro hd
    exact ⟨t', w, h, hd⟩

theorem deliversAll_cons {sttx : STTx} {rest : List STTx} {mSigners : List Account}
    {params p : TransactionEngineParams} {v1 v2 : LedgerEntrySet}
    (h0 : Operations.precheckSig mSigners sttx.getSourceAccount params v = .ok ((.tesSUCCESS, p), v1))
    (h1 : transact env sttx { p with tapPRE_CHECKED := true } v1 = .ok (ter, v2)) :
    deliversAll env (sttx :: rest) mSigners params v ↔
      delivers env sttx { p with tapPRE_CHECKED := true } v1 ∨ ter = .tesSUCCESS ∧
        deliversAll env rest mSigners { p with tapPRE_CHECKED := true } v2 := by
  constructor
  · rintro ⟨p', v1', h0', hd | ⟨v2', h1', hd⟩⟩
    · cases h0.symm.trans h0'
      exact .inl hd
    · cases h0.symm.trans h0'
      cases h1.symm.trans h1'
      exact .inr ⟨rfl, hd⟩
  · rintro (hd | ⟨rfl, hd⟩)
    · exact ⟨p, v1, h0, .inl hd⟩
    · exact ⟨p, v1, h0, .inr ⟨v2, h1, hd⟩⟩

mutual

/-- A delivery is recorded exactly if there is one. -/
theorem transact_delivered (env : Env) : (txn : STTx) → (params : TransactionEngineParams) →
    {v w : LedgerEntrySet} → {ter : TER} → transact env txn params v = .ok (ter, w) →
    (w.mSet.mDelivered.isSome = true ↔
      v.mSet.mDelivered.isSome = true ∨ delivers env txn params v)
  | .mk common fields operations, params, v, w, ter, h => by
    rw [transact] at h
    split at h
    · next hticket =>
      cases h
      refine ⟨.inl, fun h => h.resolve_right ?_⟩
      rintro ⟨t', v', -, hno⟩
      cases fields <;> first | exact hno | cases hticket
    obtain ⟨r, v1, hp, h⟩ := bind_eq_ok.1 h
    obtain ⟨hloose, hok, -⟩ := prepare_transactorOf False r v1 hp
    rw [← hloose.delivered id]
    cases r with
    | error ter' =>
      cases h
      refine ⟨.inl, fun h => h.resolve_right ?_⟩
      rintro ⟨t', v', hp', -⟩
      cases hp.symm.trans hp'
    | ok t' =>
    obtain ⟨-, hr⟩ := hok t' rfl
    have hmerge := not_merge_of_prepare rfl hp
    have hsame (h1 : isPayment fields = false) (h2 : isBatch fields = false) :
        w.mSet.mDelivered = v1.mSet.mDelivered := by
      have hout : Outcome quiet v1 ter w := doApply_outcome ?_ ?_ hmerge hr _ _ h
      · exact hout.1.delivered id
      · intro e
        exact absurd (h1.symm.trans e) (by decide)
      · intro e
        exact absurd (h2.symm.trans e) (by decide)
    cases fields with
    | payment destination amount sendMax paths tag =>
      rw [delivers_of_prepare hp]
      exact (Payment.doApply_delivered hr.held h).1
    | operation legal signs =>
      rw [delivers_of_prepare hp]
      have h : Operations.doApply env legal (Operations.applyAll env operations) t' v1 = .ok (ter, w) := h
      unfold Operations.doApply at h
      rw [hr.txn, hr.params] at h
      split at h
      · next hbad =>
        cases h
        refine ⟨.inl, fun h => h.resolve_right ?_⟩
        rintro ⟨rfl, hall⟩
        cases operations with
        | nil => exact hall
        | cons => cases hbad
      · next hgood =>
        have hlegal : legal = true := by
          cases legal
          · exact absurd rfl hgood
          · rfl
        rw [applyAll_delivered env operations _ _ h]
        exact or_congr_right ⟨fun h => ⟨hlegal, h⟩, And.right⟩
    | _ =>
      rw [delivers_of_prepare hp, hsame rfl rfl]
      exact ⟨.inl, fun h => h.resolve_right id⟩

theorem applyAll_delivered (env : Env) : (ops : List STTx) → (mSigners : List Account) →
    (params : TransactionEngineParams) → {v w : LedgerEntrySet} → {ter : TER} →
    Operations.applyAll env ops mSigners params v = .ok (ter, w) →
    (w.mSet.mDelivered.isSome = true ↔
      v.mSet.mDelivered.isSome = true ∨ deliversAll env ops mSigners params v)
  | [], mSigners, params, v, w, ter, h => by
    cases h
    simp [deliversAll]
  | sttx :: rest, mSigners, params, v, w, ter, h => by
    obtain ⟨⟨ter0, p⟩, v1, h0, h⟩ := bind_eq_ok.1 h
    have hsame : v1.mSet.mDelivered = v.mSet.mDelivered :=
      (precheckSig_frame (c := quiet) _ _ _ h0).delivered id
    rw [← hsame]
    dsimp only at h
    split at h
    · next hter =>
      cases h
      refine ⟨.inl, fun h => h.resolve_right ?_⟩
      rintro ⟨p', v1', h0', -⟩
      cases h0.symm.trans h0'
      exact hter rfl
    next hter =>
    rw [not_not.1 hter] at h0
    obtain ⟨ter1, v2, h1, h⟩ := bind_eq_ok.1 h
    have hall : deliversAll env (sttx :: rest) mSigners params v ↔ _ := deliversAll_cons h0 h1
    have hhead := transact_delivered env sttx _ h1
    rw [hall, ← or_assoc, ← hhead]
    split at h
    · next hne =>
      cases h
      simp [hne]
    · next heq =>
      rw [applyAll_delivered env rest mSigners _ h]
      simp [not_not.1 heq]

end

/-- One of the transactions of a batch claims the fee when its turn comes. -/
def claimsAll (env : Env) : List STTx → List Account → TransactionEngineParams →
    LedgerEntrySet → Prop
  | [], _, _, _ => False
  | sttx :: rest, mSigners, params, v =>
    ∃ p v1, Operations.precheckSig mSigners sttx.getSourceAccount params v =
      .ok ((.tesSUCCESS, p), v1) ∧ ∃ ter v2,
      let p := { p with tapPRE_CHECKED := true }
      transact env sttx p v1 = .ok (ter, v2) ∧
        (isTecClaim ter = true ∨ ter = .tesSUCCESS ∧ claimsAll env rest mSigners p v2)

theorem precheckSig_claimsNothing (mSigners : List Account) (source : Account)
    (params : TransactionEngineParams) :
    Always (fun r => isTecClaim r.1 = false) (Operations.precheckSig mSigners source params) := by
  refine .bind fun _ => .either fun _ => .ite (.ite (always_pure rfl) (always_pure rfl)) ?_
  refine .ite (always_pure rfl) (.ite (.bind fun _ => .ite ?_ (always_pure rfl)) (always_pure rfl))
  exact .bind fun _ => .ite (always_pure rfl) (always_pure rfl)

theorem claimsAll_iff {params : TransactionEngineParams} {mSigners : List Account} {ops : List STTx} :
    claimsAll env ops mSigners params v ↔
      ∃ ter w, Operations.applyAll env ops mSigners params v = .ok (ter, w) ∧ isTecClaim ter = true := by
  induction ops generalizing params v with
  | nil =>
    constructor
    · exact False.elim
    · rintro ⟨_, _, ⟨⟩, h⟩
      cases h
  | cons sttx rest ih =>
    constructor
    · rintro ⟨p, v1, h0, ter, v2, h1, h⟩
      have happly : Operations.applyAll env (sttx :: rest) mSigners params v = _ :=
        (bind_apply_ok h0).trans (bind_apply_ok h1)
      rw [happly]
      rcases h with hter | ⟨rfl, hrest⟩
      · refine ⟨ter, v2, ?_, hter⟩
        rw [if_pos]
        · rfl
        · rintro rfl
          cases hter
      · exact ih.1 hrest
    · rintro ⟨ter, w, h, hter⟩
      obtain ⟨⟨ter0, p⟩, v1, h0, h⟩ := bind_eq_ok.1 h
      have hplain := precheckSig_claimsNothing _ _ _ _ _ _ h0
      dsimp only at h hplain
      split at h
      · cases h
        rw [hter] at hplain
        cases hplain
      next hter0 =>
      rw [not_not.1 hter0] at h0
      obtain ⟨ter1, v2, h1, h⟩ := bind_eq_ok.1 h
      refine ⟨p, v1, h0, ter1, v2, h1, ?_⟩
      split at h
      · cases h
        exact .inl hter
      · next hter1 => exact .inr ⟨not_not.1 hter1, ih.2 ⟨ter, w, h, hter⟩⟩

variable {params : TransactionEngineParams} {txn : STTx}

/-- A batch in which there is a delivery claims the fee. -/
def Undone (env : Env) (txn : STTx) (params : TransactionEngineParams) (v : LedgerEntrySet) : Prop :=
  ∃ signs t' v', txn.fields = .operation true signs ∧
    (transactorOf env (Operations.applyAll env txn.operations) txn).prepare env
      { mTxn := txn, mParams := params } v = .ok (.ok t', v') ∧
    deliversAll env txn.operations (Operations.signAccounts env txn) params v' ∧
    claimsAll env txn.operations (Operations.signAccounts env txn) params v'

/-- No other transaction claims the fee after a delivery. -/
theorem undone_iff : Undone env txn params v ↔ delivers env txn params v ∧
    ∃ ter w, transact env txn params v = .ok (ter, w) ∧ isTecClaim ter = true := by
  obtain ⟨common, fields, operations⟩ := txn
  constructor
  · rintro ⟨signs, t', v', hf, hp, hd, hc⟩
    cases hf
    refine ⟨⟨t', v', hp, rfl, hd⟩, ?_⟩
    obtain ⟨-, hok, -⟩ := prepare_transactorOf False _ _ hp
    obtain ⟨-, hr⟩ := hok t' rfl
    obtain ⟨ter, w, hall, hter⟩ := claimsAll_iff.1 hc
    refine ⟨ter, w, ?_, hter⟩
    rw [transact, if_neg (by simp [isTicket])]
    refine (bind_apply_ok hp).trans ?_
    show Operations.doApply env true (Operations.applyAll env operations) t' v' = _
    unfold Operations.doApply
    rw [hr.txn, hr.params, if_neg]
    · exact hall
    · cases operations with
      | nil => exact absurd hd id
      | cons => simp [STTx.operations]
  · rintro ⟨⟨t', v', hp, hd⟩, ter, w, h, hter⟩
    obtain ⟨-, hok, -⟩ := prepare_transactorOf False _ _ hp
    obtain ⟨-, hr⟩ := hok t' rfl
    rw [transact] at h
    split at h
    · cases h
      cases hter
    replace h := (bind_apply_ok hp).symm.trans h
    cases fields with
    | payment destination amount sendMax paths tag =>
      rw [(Payment.doApply_delivered hr.held h).2 hd] at hter
      cases hter
    | operation legal signs =>
      obtain ⟨rfl, hd⟩ := hd
      refine ⟨signs, t', v', rfl, hp, hd, claimsAll_iff.2 ⟨ter, w, ?_, hter⟩⟩
      have h : Operations.doApply env true (Operations.applyAll env operations) t' v' = .ok (ter, w) := h
      unfold Operations.doApply at h
      rw [hr.txn, hr.params] at h
      split at h
      · cases h
        cases hter
      · exact h
    | _ => exact absurd hd id

end Skywell
