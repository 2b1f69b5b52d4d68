import JingtumCore.SignerLists

/-!
# The master-key flag in a batch

The loop of `Operations::doApply` hands its parameters on from one transaction
to the next, so that `tapMASTER_SIGN`, once set for a source that signed, stays
set for the transactions after it.
-/
namespace Skywell.Operations
open U32Field AccountField LedgerEntrySet StateExcept

section
variable [Sha512Half]

/-- The transactions that the loop runs, each with the parameters it is run with. -/
def ran (env : Env) : List STTx → List Account → TransactionEngineParams → LedgerEntrySet →
    List (STTx × TransactionEngineParams)
  | [], _, _, _ => []
  | sttx :: rest, mSigners, mParams, v =>
    match precheckSig mSigners sttx.getSourceAccount mParams v with
    | .ok ((.tesSUCCESS, mParams), v) =>
      let mParams := { mParams with tapPRE_CHECKED := true }
      (sttx, mParams) :: match transact env sttx mParams v with
        | .ok (.tesSUCCESS, v) => ran env rest mSigners mParams v
        | _ => []
    | _ => []

variable {env : Env} {mSigners : List Account} {params : TransactionEngineParams}
  {v : LedgerEntrySet}

/-- `precheckSig` sets the flag for a source that signed and else leaves it. -/
theorem masterSign_of_precheckSig {source : Account} {p : TransactionEngineParams}
    {v' : LedgerEntrySet}
    (h : precheckSig mSigners source params v = .ok ((.tesSUCCESS, p), v')) :
    p.tapMASTER_SIGN = true ↔ params.tapMASTER_SIGN = true ∨ source ∈ mSigners := by
  cases hr : v.read (getAccountRootIndex source) with
  | none => simp [precheckSig_eq_error hr] at h
  | some root =>
    obtain ⟨v1, -, he⟩ := precheckSig_eq_ok mSigners params hr
    rw [h] at he
    simp only [decision, List.contains_iff_mem] at he
    by_cases hs : source ∈ mSigners
    · by_cases hd : root.isFlag lsfDisableMaster <;> simp_all
    · simp only [if_neg hs] at he
      split at he <;> simp_all

/-- Whether the source of a transaction is among the signers. -/
def SourceSigned (mSigners : List Account) (x : STTx × TransactionEngineParams) : Prop :=
  x.1.getSourceAccount ∈ mSigners

instance (x : STTx × TransactionEngineParams) : Decidable (SourceSigned mSigners x) :=
  inferInstanceAs (Decidable (_ ∈ _))

theorem masterSign_only_with_source_iff (env : Env) (ops : List STTx) (mSigners : List Account)
    (params : TransactionEngineParams) (v : LedgerEntrySet) :
    (∀ x ∈ ran env ops mSigners params v, x.2.tapMASTER_SIGN = true → SourceSigned mSigners x) ↔
      (params.tapMASTER_SIGN = true → ∀ x ∈ ran env ops mSigners params v, SourceSigned mSigners x) ∧
      (ran env ops mSigners params v).Pairwise fun x y =>
        SourceSigned mSigners x → SourceSigned mSigners y := by
  induction ops generalizing params v with
  | nil => simp [ran]
  | cons sttx rest ih =>
    unfold ran
    split
    · next p v1 hp =>
      have hflag := masterSign_of_precheckSig hp
      have hsource (x : TransactionEngineParams) :
          SourceSigned mSigners (sttx, x) ↔ sttx.getSourceAccount ∈ mSigners := Iff.rfl
      dsimp only
      split
      · next v2 ht =>
        -- the flag a transaction is run with is the one the rest starts from
        simp only [List.forall_mem_cons, List.pairwise_cons, ih, hflag, hsource]
        generalize (ran _ rest _ _ _) = tail
        by_cases hm : params.tapMASTER_SIGN = true <;>
          by_cases hs : sttx.getSourceAccount ∈ mSigners <;> simp [hm, hs]
      · simp [hflag, hsource, or_imp]
    · simp

end

/-- Account 6 has a list on which account 5 alone reaches the quorum. -/
def delegatedLedger : @Ledger Key.coded :=
  let root (a : Account) := (SLE.new .accountRoot).setFieldAccount sfAccount a
  let list := (((SLE.new .signerList).setFieldAccount sfAccount 6).setFieldU32 sfQuorum 1).set
    .sfSignerEntries [⟨5, 1⟩]
  letI := Key.coded
  { mAccountStateMap := (((∅ : StateMap).insert (.account 5) (root 5)).insert (.account 6)
      ((root 6).setFieldAccount sfRegularKey 7)).insert (.sign 6) list
    mTransactionMap := ∅
    mLedgerSeq := 1
    mBaseFee := 10
    mReferenceFeeUnits := 10
    mReserveBase := 20
    mReserveIncrement := 5 }

def delegatedEnv : @Env Key.coded :=
  letI := Key.coded
  { config := ⟨1, 2, 3, 10⟩
    closedLedger := delegatedLedger
    scaleFeeLoad := fun fee _ _ _ => fee
    accountID := fun _ => 5
    skywellCalculate := fun _ _ => .error .nullPointer }

/-- An empty `ttACCOUNT_SET` of account 5, and one of account 6 that disables its
master key. -/
def delegatedOperations : List STTx :=
  let set (id : TxID) (account : Account) (setFlag : UInt32) :=
    STTx.mk { txID := id, account := account, sigState := .good }
      (.accountSet none none none none none setFlag 0) []
  [set 1 5 0, set 2 6 asfDisableMaster]

/-- Account 5 signs. The transaction of account 6, for which it may sign, is run
with the master-key flag and succeeds in disabling the master key. -/
theorem masterSign_carries_over : ∃ (_ : Sha512Half) (env : Env) (v : LedgerEntrySet),
    (∃ x ∈ ran env delegatedOperations [5] {} v,
      x.2.tapMASTER_SIGN = true ∧ ¬SourceSigned [5] x) ∧
    (applyAll env delegatedOperations [5] {} v).map (fun r =>
      (r.1, (r.2.read (.account 6)).map (·.isFlag lsfDisableMaster))) =
        .ok (.tesSUCCESS, some true) :=
  letI := Key.coded
  ⟨Key.coded, delegatedEnv, { mLedger := delegatedLedger }, by decide +kernel⟩

end Skywell.Operations
