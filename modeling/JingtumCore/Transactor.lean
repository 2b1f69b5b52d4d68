import JingtumCore.TrustLines

/-!
# The transactor

`Transactor::apply` as a template over its virtual functions. `prepare` is all
of it up to the call of `doApply`. The closed ledger, the configuration, the
fee track and the path engine belong to the environment. The path engine is
known only by the calls it makes on the ledger entry set it works on.
-/
namespace Skywell
open U32Field AmountField AccountField H256Field LedgerEntrySet
variable [Sha512Half]

structure PathInput where
  saMaxAmountReq : STAmount
  saDstAmountReq : STAmount
  uDstAccountID : Account
  uSrcAccountID : Account
  spsPaths : List (List STPathElement)
  partialPaymentAllowed : Bool
  defaultPathsAllowed : Bool
  limitQuality : Bool
  isLedgerOpen : Bool

/-- A call the path engine makes on the ledger entry set. -/
inductive PathCall where
  | entryCache (k : Key)
  | accountSend (uSenderID uReceiverID : Account) (saAmount : STAmount)
  | skywellCredit (uSenderID uReceiverID : Account) (saAmount : STAmount)
  | offerDelete (offer : Key)
  /-- New amounts of an offer taken in part. -/
  | consumeOffer (account : Account) (sequence : UInt32) (saTakerGets saTakerPays : STAmount)
  | issueTrustAuto (account : Account) (amount : STAmount) (issue : Issue)
  /-- A fee put on the fee account's line with the issuer. -/
  | setLineBalance (feeAccount issuer : Account) (currency : Currency) (balance : STAmount)

structure PathOutput where
  result : TER
  actualAmountOut : STAmount
  calls : List PathCall

structure Env where
  config : Config
  closedLedger : Ledger
  /-- `LoadFeeTrack::scaleFeeLoad (fee, baseFee, referenceFeeUnits, bAdmin)`. -/
  scaleFeeLoad : UInt64 → UInt64 → UInt32 → Bool → UInt64
  /-- The account of a public key. -/
  accountID : Blob → Account
  skywellCalculate : LedgerEntrySet → PathInput → Except Fault PathOutput

def PathCall.run : PathCall → LES Unit
  | .entryCache k => discard (LedgerEntrySet.entryCache k)
  | .accountSend s r amount => discard (LedgerEntrySet.accountSend s r amount)
  | .skywellCredit s r amount => discard (LedgerEntrySet.skywellCredit s r amount)
  | .offerDelete offer => discard (LedgerEntrySet.offerDelete offer)
  | .consumeOffer account sequence gets pays => do
    let offer := Key.offer account sequence
    if ← LedgerEntrySet.entryCache offer then
      assign offer fun sle => (sle.setFieldAmount sfTakerGets gets).setFieldAmount sfTakerPays pays
      entryModify offer
  | .issueTrustAuto account amount issue => discard (issue_trust_auto account amount issue)
  | .setLineBalance feeAccount issuer currency balance => do
    let line := getSkywellStateIndex feeAccount issuer currency
    if ← LedgerEntrySet.entryCache line then
      assign line fun sle => sle.setFieldAmount sfBalance balance
      entryModify line

/-- The calls of a payment, with credits deferred while they run. -/
def runPathCalls (calls : List PathCall) : LES Unit := do
  modify fun v => { v with mDeferredCredits := some (v.mDeferredCredits.getD {}) }
  calls.forM PathCall.run
  modify fun v => { v with mDeferredCredits := none }

/-- The members of a transactor. The two account pointers are indexes; the
signing key is known by its account. -/
structure Transactor where
  mTxn : STTx
  mParams : TransactionEngineParams
  mTxnAccountID : Account := 0
  mFeeAccountID : Account := 0
  mFeeDue : STAmount := {}
  mPriorBalance : STAmount := {}
  mSourceBalance : STAmount := {}
  mTxnAccount : Option Key := none
  mFeeAccount : Option Key := none
  mHasAuthKey : Bool := false
  mSigMaster : Bool := false
  mSigningAccount : Account := 0

structure Hooks where
  preCheck : Transactor → LES (TER × Transactor)
  calculateBaseFee : Transactor → LES UInt64
  mustHaveValidAccount : Bool
  checkSeq : Transactor → LES TER
  payFee : Transactor → LES (TER × Transactor)
  checkSig : Transactor → LES (TER × Transactor)
  doApply : Transactor → LES TER

/-- A pointer that is dereferenced must not be null. -/
def pointer : Option Key → LES Key
  | some k => return k
  | none => throw .nullPointer

namespace Transactor

def preCheck (env : Env) (t : Transactor) : LES (TER × Transactor) := do
  let t := { t with
    mTxnAccountID := t.mTxn.getSourceAccount
    mFeeAccountID := env.closedLedger.getFeeAccountID env.config }
  if t.mTxnAccountID = 0 then return (.temBAD_SRC_ACCOUNT, t)
  if env.closedLedger.checkBlackList t.mTxnAccountID then return (.telBLKLIST, t)
  let t := { t with mSigningAccount := env.accountID t.mTxn.getSigningPubKey }
  if !t.mTxn.isKnownGood then
    if t.mTxn.isKnownBad || (!t.mParams.tapNO_CHECK_SIGN && !t.mTxn.common.checkSign) then
      return (.temINVALID, t)
  return (.tesSUCCESS, t)

def calculateBaseFee (env : Env) (_ : Transactor) : LES UInt64 :=
  return env.config.TRANSACTION_FEE_BASE

def calculateFee (env : Env) (baseFee : UInt64) (t : Transactor) : LES Transactor := do
  let ledger ← getLedger
  let due := env.scaleFeeLoad baseFee ledger.mBaseFee ledger.mReferenceFeeUnits t.mParams.tapADMIN
  return { t with mFeeDue := STAmount.ofNative due }

/-- The end of `payFee`: the fee goes from the source to the fee account. -/
def moveFee (saPaid : STAmount) (t : Transactor) : LES (TER × Transactor) := do
  let t := { t with mSourceBalance := ← t.mSourceBalance.sub saPaid }
  assign (← pointer t.mTxnAccount) fun sle => sle.setFieldAmount sfBalance t.mSourceBalance
  let feeRoot ← pointer t.mFeeAccount
  let balance ← ((← deref feeRoot).getFieldAmount sfBalance).add saPaid
  assign feeRoot fun sle => sle.setFieldAmount sfBalance balance
  return (.tesSUCCESS, t)

def payFee (t : Transactor) : LES (TER × Transactor) := do
  let saPaid := t.mTxn.getTransactionFee
  if !saPaid.isLegalNet then return (.temBAD_AMOUNT, t)
  let low ← if t.mParams.tapOPEN_LEDGER then saPaid.lt t.mFeeDue else pure false
  if low then return (.telINSUF_FEE_P, t)
  if saPaid.signum < 0 || !saPaid.isNative then return (.temBAD_FEE, t)
  if saPaid.isZero then return (.tesSUCCESS, t)
  if ← t.mSourceBalance.lt saPaid then
    if t.mSourceBalance.signum > 0 && !t.mParams.tapOPEN_LEDGER then
      let t := { t with mSourceBalance := t.mSourceBalance.clear }
      assign (← pointer t.mTxnAccount) fun sle => sle.setFieldAmount sfBalance t.mSourceBalance
      return (.tecINSUFF_FEE, t)
    return (.terINSUF_FEE_B, t)
  moveFee saPaid t

def checkSig (t : Transactor) : LES (TER × Transactor) := do
  if t.mParams.tapPRE_CHECKED then
    if t.mParams.tapMASTER_SIGN then return (.tesSUCCESS, { t with mSigMaster := true })
    return (.tesSUCCESS, t)
  let sleAccount ← deref (← pointer t.mTxnAccount)
  if t.mSigningAccount = t.mTxnAccountID then
    if sleAccount.isFlag lsfDisableMaster then return (.tefMASTER_DISABLED, t)
    return (.tesSUCCESS, { t with mSigMaster := true })
  if !t.mHasAuthKey then return (.temBAD_AUTH_MASTER, t)
  if t.mSigningAccount = sleAccount.getFieldAccount160 sfRegularKey then return (.tesSUCCESS, t)
  return (.tefBAD_AUTH, t)

/-- Why a transaction may not follow those of its source so far. -/
def seqFailure (txn : STTx) (ledger : Ledger) (sleAccount : SLE) : Option TER :=
  let t_seq := txn.getSequence
  let a_seq := sleAccount.getFieldU32 sfSequence
  if t_seq ≠ a_seq then
    if a_seq < t_seq then some .terPRE_SEQ
    else if ledger.hasTransaction txn.getTransactionID then some .tefALREADY
    else some .tefPAST_SEQ
  else if txn.common.accountTxnID.any (· != sleAccount.getFieldH256 sfAccountTxnID) then
    some .tefWRONG_PRIOR
  else if txn.common.lastLedgerSequence.any (ledger.mLedgerSeq > ·) then some .tefMAX_LEDGER
  else none

def checkSeq (t : Transactor) : LES TER := do
  let root ← pointer t.mTxnAccount
  let sleAccount ← deref root
  match seqFailure t.mTxn (← getLedger) sleAccount with
  | some terResult => return terResult
  | none =>
    assign root fun sle => sle.setFieldU32 sfSequence (t.mTxn.getSequence + 1)
    if sleAccount.isFieldPresent (.h256 sfAccountTxnID) then
      assign root fun sle => sle.setFieldH256 sfAccountTxnID t.mTxn.getTransactionID
    return .tesSUCCESS

end Transactor

/-- A new account root; its other fields have their defaults. -/
def createAccountRoot (account : Account) : LES Unit := do
  let root := getAccountRootIndex account
  entryCreate root
  assign root fun sle => (sle.setFieldAccount sfAccount account).setFieldU32 sfSequence 1

/-- The part of `apply` that a batch has done already for its transactions. -/
def Hooks.charge (h : Hooks) (t : Transactor) : LES (TER × Transactor) := do
  let terResult ← h.checkSeq t
  if terResult ≠ .tesSUCCESS then return (terResult, t)
  if t.mFeeAccount.isNone then
    createAccountRoot t.mFeeAccountID
  h.payFee { t with mFeeAccount := some (getAccountRootIndex t.mFeeAccountID) }

/-- The account roots, and what is read of them. -/
def Hooks.load (h : Hooks) (env : Env) (t : Transactor) : LES Transactor := do
  let txnAccount := getAccountRootIndex t.mTxnAccountID
  let feeAccount := getAccountRootIndex t.mFeeAccountID
  let hasAccount ← entryCache txnAccount
  let hasFeeAccount ← entryCache feeAccount
  let t := { t with
    mTxnAccount := if hasAccount then some txnAccount else none
    mFeeAccount := if hasFeeAccount then some feeAccount else none }
  let t ← t.calculateFee env (← h.calculateBaseFee t)
  if !hasAccount then return t
  let sleAccount ← deref txnAccount
  return { t with
    mPriorBalance := sleAccount.getFieldAmount sfBalance
    mSourceBalance := sleAccount.getFieldAmount sfBalance
    mHasAuthKey := sleAccount.isFieldPresent (.account sfRegularKey) }

/-- The signature is checked, and the account roots count as modified. -/
def Hooks.sign (h : Hooks) (t : Transactor) : LES (Except TER Transactor) := do
  let (terResult, t) ← h.checkSig t
  if terResult ≠ .tesSUCCESS then return .error terResult
  t.mTxnAccount.forM entryModify
  t.mFeeAccount.forM entryModify
  return .ok t

/-- `Transactor::apply` up to `doApply`: either its result, or the members with
which `doApply` is called. -/
def Hooks.prepare (h : Hooks) (env : Env) (t : Transactor) : LES (Except TER Transactor) := do
  let (terResult, t) ← h.preCheck t
  if terResult ≠ .tesSUCCESS then return .error terResult
  let t ← h.load env t
  if t.mTxnAccount.isNone && h.mustHaveValidAccount then return .error .terNO_ACCOUNT
  if t.mParams.tapPRE_CHECKED then h.sign t else
    let (terResult, t) ← h.charge t
    if terResult ≠ .tesSUCCESS then return .error terResult
    h.sign t

def Hooks.apply (h : Hooks) (env : Env) (t : Transactor) : LES TER := do
  match ← h.prepare env t with
  | .error terResult => return terResult
  | .ok t => h.doApply t

/-- The virtual functions of the base class. -/
def Hooks.base (env : Env) (doApply : Transactor → LES TER) : Hooks where
  preCheck := Transactor.preCheck env
  calculateBaseFee := Transactor.calculateBaseFee env
  mustHaveValidAccount := true
  checkSeq := Transactor.checkSeq
  payFee := Transactor.payFee
  checkSig := Transactor.checkSig
  doApply := doApply

end Skywell
