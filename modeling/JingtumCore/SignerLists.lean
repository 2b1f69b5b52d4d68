import JingtumCore.Operations
import JingtumCore.Views

/-!
# Who may sign for an account in a batch

`precheckSig` as a decision about the account's root and signer list, and what
that decision is worth: it lets through more than the keys of the account and
the signers of its list.
-/
namespace Skywell.Operations
open U16Field U32Field AccountField LedgerEntrySet StateExcept

section
variable [Sha512Half] {v : LedgerEntrySet} {mSigners : List Account} {source : Account}
  {params : TransactionEngineParams}

/-- What `precheckSig` answers, as a function of the two entries it reads. -/
def decision (mSigners : List Account) (source : Account) (params : TransactionEngineParams)
    (root : SLE) (list : Option SLE) : TER × TransactionEngineParams :=
  if mSigners.contains source then
    if root.isFlag lsfDisableMaster then (.tefMASTER_DISABLED, params)
    else (.tesSUCCESS, { params with tapMASTER_SIGN := true })
  else if ownRegularKey source root || (!mSigners.isEmpty && list.any (signerListAllows mSigners))
    then (.tesSUCCESS, params)
  else (.tefBAD_AUTH, params)

theorem precheckSig_eq_error (h : v.read (getAccountRootIndex source) = none) :
    precheckSig mSigners source params v = .error .nullPointer := by
  simp only [precheckSig, bind_apply_ok entryCache_eq, h]
  rfl

theorem precheckSig_eq_ok (mSigners : List Account) (params : TransactionEngineParams) {root : SLE}
    (h : v.read (getAccountRootIndex source) = some root) :
    ∃ v', v'.read = v.read ∧ precheckSig mSigners source params v =
      .ok (decision mSigners source params root (v.read (getSignStateIndex source)), v') := by
  simp only [precheckSig, bind_apply_ok entryCache_eq, h, Option.isSome_some, if_pos,
    bind_apply_ok (deref_cached h), decision]
  have hread : (v.cached (getAccountRootIndex source)).read = v.read := funext fun _ => read_cached
  by_cases hs : mSigners.contains source
  · simp only [if_pos hs]
    split <;> exact ⟨_, hread, rfl⟩
  simp only [if_neg hs]
  cases ownRegularKey source root with
  | true => exact ⟨_, hread, rfl⟩
  | false =>
  cases mSigners with
  | nil => exact ⟨_, hread, rfl⟩
  | cons signer rest =>
    refine ⟨(v.cached (getAccountRootIndex source)).cached (getSignStateIndex source), ?_, ?_⟩
    · exact funext fun k => read_cached.trans (congrFun hread k)
    cases hl : v.read (getSignStateIndex source) with
    | none => simp [bind_apply_ok entryCache_eq, hl]
    | some list =>
      have hl' := hl
      rw [← hread] at hl'
      by_cases ha : signerListAllows (signer :: rest) list <;>
        simp [bind_apply_ok entryCache_eq, hl, bind_apply_ok (deref_cached hl'), ha]

/-- `precheckSig` answers `tesSUCCESS`. -/
def Allows (mSigners : List Account) (source : Account) (params : TransactionEngineParams)
    (v : LedgerEntrySet) : Prop :=
  (precheckSig mSigners source params v).map (fun r => r.1.1) = .ok .tesSUCCESS

instance : Decidable (Allows mSigners source params v) :=
  inferInstanceAs (Decidable (_ = _))

theorem allows_iff : Allows mSigners source params v ↔
    ∃ root, v.read (getAccountRootIndex source) = some root ∧
      if source ∈ mSigners then root.isFlag lsfDisableMaster = false
      else ownRegularKey source root = true ∨ mSigners ≠ [] ∧
        ∃ list, v.read (getSignStateIndex source) = some list ∧ signerListAllows mSigners list := by
  cases hr : v.read (getAccountRootIndex source) with
  | none => simp [Allows, precheckSig_eq_error hr, Except.map]
  | some root =>
    obtain ⟨v', -, he⟩ := precheckSig_eq_ok mSigners params hr
    simp only [Allows, he, Except.map, decision]
    by_cases hs : source ∈ mSigners
    · by_cases hd : root.isFlag lsfDisableMaster <;> simp [hs, hd]
    · by_cases ho : ownRegularKey source root
      · simp [hs, ho]
      cases v.read (getSignStateIndex source) with
      | none => simp [hs, ho]
      | some list =>
        by_cases ha : mSigners ≠ [] ∧ signerListAllows mSigners list <;> simp [hs, ho, ha]

/-- The weight of the entries that signed, each time they occur. -/
def repeatedWeight (mSigners : List Account) (entries : List SignerEntry) : Nat :=
  ((entries.filter (mSigners.contains ·.account)).map (·.weight.toNat)).sum

/-- The weight of the distinct entries that signed. -/
def signedWeight (mSigners : List Account) (entries : List SignerEntry) : Nat :=
  repeatedWeight mSigners entries.dedup

section
omit [Sha512Half]

theorem repeatedWeight_cons (entry : SignerEntry) (rest : List SignerEntry) :
    repeatedWeight mSigners (entry :: rest) =
      (if mSigners.contains entry.account then entry.weight.toNat else 0) +
        repeatedWeight mSigners rest := by
  unfold repeatedWeight
  by_cases hs : mSigners.contains entry.account = true
  · rw [List.filter_cons, if_pos hs, if_pos hs, List.map_cons, List.sum_cons]
  · rw [List.filter_cons, if_neg hs, if_neg hs, Nat.zero_add]

theorem quorumReached_iff {quorum : Int} (h : 0 < quorum) (entries : List SignerEntry) :
    quorumReached mSigners quorum entries = true ↔ quorum ≤ repeatedWeight mSigners entries := by
  induction entries generalizing quorum with
  | nil => simp [quorumReached, repeatedWeight, h]
  | cons entry rest ih =>
    rw [repeatedWeight_cons, quorumReached]
    by_cases hs : mSigners.contains entry.account = true
    · simp only [if_pos hs]
      split
      · simp only [true_iff]
        omega
      · rw [ih (by omega)]
        omega
    · simp only [if_neg hs]
      rw [ih h]
      omega

theorem toInt_toInt32 (q : UInt32) :
    q.toInt32.toInt = if q.toNat < 2 ^ 31 then (q.toNat : Int) else q.toNat - 2 ^ 32 := by
  have h : q.toInt32.toInt = q.toBitVec.toInt := rfl
  rw [h, BitVec.toInt_eq_toNat_cond, UInt32.toNat_toBitVec]
  split <;> split <;> omega

theorem signerListAllows_iff (sle : SLE) : signerListAllows mSigners sle = true ↔
    (sle.getFieldU32 sfQuorum).toNat = 0 ∨ (sle.getFieldU32 sfQuorum).toNat < 2 ^ 31 ∧
      (sle.getFieldU32 sfQuorum).toNat ≤ (sle.getFieldU16 sfMasterWeight).toNat +
        repeatedWeight mSigners (sle.get .sfSignerEntries) := by
  simp only [signerListAllows, toInt_toInt32]
  have hq := (sle.getFieldU32 sfQuorum).toNat_lt
  generalize (sle.getFieldU32 sfQuorum).toNat = q at hq ⊢
  generalize (sle.getFieldU16 sfMasterWeight).toNat = w
  by_cases hlt : q < 2 ^ 31
  · simp only [if_pos hlt]
    split
    · simp_all
    rw [if_neg (by omega)]
    split
    · simp only [true_iff]
      omega
    · rw [quorumReached_iff (by omega)]
      omega
  · rw [if_neg (by omega), if_pos (by omega)]
    simp only [Bool.false_eq_true, false_iff]
    omega

end

/-- The account's own key signed, and is not disabled. -/
def MasterSigned (mSigners : List Account) (source : Account) (v : LedgerEntrySet) : Prop :=
  source ∈ mSigners ∧
    (v.read (getAccountRootIndex source)).any (fun root => !root.isFlag lsfDisableMaster) = true

/-- The account's regular key signed. -/
def RegularSigned (mSigners : List Account) (source : Account) (v : LedgerEntrySet) : Prop :=
  (v.read (getAccountRootIndex source)).any (fun root =>
    root.isFieldPresent (.account sfRegularKey) &&
      mSigners.contains (root.getFieldAccount160 sfRegularKey)) = true

/-- Enough distinct signers of the account's list signed; the master key counts
when it is among the signers. -/
def QuorumSigned (mSigners : List Account) (source : Account) (v : LedgerEntrySet) : Prop :=
  (v.read (getSignStateIndex source)).any (fun sle =>
    let quorum := (sle.getFieldU32 sfQuorum).toNat
    let master := if source ∈ mSigners then (sle.getFieldU16 sfMasterWeight).toNat else 0
    0 < quorum && quorum ≤ master + signedWeight mSigners (sle.get .sfSignerEntries)) = true

def Authorized (mSigners : List Account) (source : Account) (v : LedgerEntrySet) : Prop :=
  MasterSigned mSigners source v ∨ RegularSigned mSigners source v ∨
    QuorumSigned mSigners source v

instance : Decidable (Authorized mSigners source v) :=
  inferInstanceAs (Decidable ((_ ∧ _ = true) ∨ _ = true ∨ _ = true))

/-- The ways in which `precheckSig` accepts signers without authority: the
account is its own regular key, the quorum is zero, or the quorum is reached
with the weight of a master key that did not sign or of entries counted twice. -/
def SlipsThrough (mSigners : List Account) (source : Account) (v : LedgerEntrySet) : Prop :=
  source ∉ mSigners ∧ ¬RegularSigned mSigners source v ∧ ¬QuorumSigned mSigners source v ∧
    ∃ root, v.read (getAccountRootIndex source) = some root ∧
      (ownRegularKey source root = true ∨ mSigners ≠ [] ∧
        ∃ sle, v.read (getSignStateIndex source) = some sle ∧
          ((sle.getFieldU32 sfQuorum).toNat = 0 ∨ (sle.getFieldU32 sfQuorum).toNat < 2 ^ 31 ∧
            (sle.getFieldU32 sfQuorum).toNat ≤ (sle.getFieldU16 sfMasterWeight).toNat +
              repeatedWeight mSigners (sle.get .sfSignerEntries)))

theorem allows_only_authorized_iff (mSigners : List Account) (source : Account)
    (params : TransactionEngineParams) (v : LedgerEntrySet) :
    (Allows mSigners source params v → Authorized mSigners source v) ↔
      ¬SlipsThrough mSigners source v := by
  rw [allows_iff]
  by_cases hs : source ∈ mSigners
  · -- a signer is let through only with its master key enabled
    refine iff_of_true ?_ fun h => h.1 hs
    rintro ⟨root, hr, hd⟩
    rw [if_pos hs] at hd
    exact .inl ⟨hs, by simp [hr, hd]⟩
  · simp only [hs, signerListAllows_iff, SlipsThrough, Authorized, MasterSigned,
      false_and, false_or, not_false_eq_true, true_and]
    refine ⟨fun h hslip => (h hslip.2.2).elim hslip.1 hslip.2.1, fun h hallow => ?_⟩
    by_contra hno
    rw [not_or] at hno
    exact h ⟨hno.1, hno.2, hallow⟩

end

/-- Account 5 has a master key of weight two and a list with quorum two, of
which account 7 is the only signer. -/
def listedLedger : @Ledger Key.coded :=
  let root := (SLE.new .accountRoot).setFieldAccount sfAccount 5
  let list := ((((SLE.new .signerList).setFieldAccount sfAccount 5).setFieldU16 sfMasterWeight
    2).setFieldU32 sfQuorum 2).set .sfSignerEntries [⟨7, 1⟩]
  letI := Key.coded
  { mAccountStateMap := ((∅ : StateMap).insert (.account 5) root).insert (.sign 5) list
    mTransactionMap := ∅
    mLedgerSeq := 1
    mBaseFee := 10
    mReferenceFeeUnits := 10
    mReserveBase := 20
    mReserveIncrement := 5 }

/-- A signature of the unrelated account 9 is enough to act for account 5. -/
theorem stranger_slips_through : ∃ (_ : Sha512Half) (v : LedgerEntrySet),
    Allows [9] 5 {} v ∧ ¬Authorized [9] 5 v :=
  letI := Key.coded
  ⟨Key.coded, { mLedger := listedLedger }, by decide +kernel⟩

end Skywell.Operations
