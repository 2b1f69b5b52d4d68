import JingtumCore.Transactor

/-!
# Payments

`Payment::preCheck` and `Payment::doApply`: the direct payment of native
currency, and the payment through the path engine.
-/
namespace Skywell.Payment
open U32Field AmountField LedgerEntrySet
variable [Sha512Half]

def MaxPathSize : Nat := 6

def MaxPathLength : Nat := 8

/-- The most the source is willing to spend. -/
def maxSource (source : Account) (sendMax : Option STAmount) (saDstAmount : STAmount) :
    Except Fault STAmount :=
  match sendMax with
  | some amount => .ok amount
  | none =>
    if saDstAmount.isNative then .ok saDstAmount
    else STAmount.ofIssue ⟨saDstAmount.getCurrency, source⟩ saDstAmount.mValue saDstAmount.mOffset
      (decide (saDstAmount.signum < 0))

def preCheck (env : Env) (uDstAccountID : Account) (saDstAmount : STAmount)
    (sendMax : Option STAmount) (bPaths : Bool) (t : Transactor) : LES (TER × Transactor) := do
  let uTxFlags := t.mTxn.getFlags
  let t := { t with mTxnAccountID := t.mTxn.getSourceAccount }
  if hasFlag uTxFlags tfPaymentMask then return (.temINVALID_FLAG, t)
  let bMax := sendMax.isSome
  let maxSourceAmount ← maxSource t.mTxnAccountID sendMax saDstAmount
  let uSrcCurrency := maxSourceAmount.getCurrency
  let uDstCurrency := saDstAmount.getCurrency
  let bSWTDirect := uSrcCurrency == 0 && uDstCurrency == 0
  if !saDstAmount.isLegalNet || !maxSourceAmount.isLegalNet then return (.temBAD_AMOUNT, t)
  if uDstAccountID = 0 then return (.temDST_NEEDED, t)
  if bMax && maxSourceAmount.signum ≤ 0 then return (.temBAD_AMOUNT, t)
  if saDstAmount.signum ≤ 0 then return (.temBAD_AMOUNT, t)
  if badCurrency = uSrcCurrency || badCurrency = uDstCurrency then return (.temBAD_CURRENCY, t)
  if t.mTxnAccountID == uDstAccountID && uSrcCurrency == uDstCurrency && !bPaths then
    return (.temREDUNDANT, t)
  if env.closedLedger.checkBlackList uDstAccountID then return (.telBLKLIST, t)
  if bSWTDirect && bMax then return (.temBAD_SEND_SWT_MAX, t)
  if bSWTDirect && bPaths then return (.temBAD_SEND_SWT_PATHS, t)
  if bSWTDirect && hasFlag uTxFlags tfPartialPayment then return (.temBAD_SEND_SWT_PARTIAL, t)
  if bSWTDirect && hasFlag uTxFlags tfLimitQuality then return (.temBAD_SEND_SWT_LIMIT, t)
  if bSWTDirect && hasFlag uTxFlags tfNoSkywellDirect then
    return (.temBAD_SEND_SWT_NO_DIRECT, t)
  let checked ← accountFundsCheck env.config t.mTxnAccountID (sendMax.getD saDstAmount)
  if checked ≠ .tesSUCCESS then return (.telINSUF_FUND, t)
  t.preCheck env

/-- The destination root, created when a native payment can fund it. Nothing is
returned when the payment may go on. -/
def openDestination (uDstAccountID : Account) (saDstAmount : STAmount)
    (partialPaymentAllowed hasTag : Bool) (t : Transactor) : LES (Option TER) := do
  let dst := getAccountRootIndex uDstAccountID
  if !(← entryCache dst) then
    if !saDstAmount.isNative then return some .tecNO_DST
    if t.mParams.tapOPEN_LEDGER && partialPaymentAllowed then return some .telNO_DST_PARTIAL
    if ← saDstAmount.ltNative ((← getLedger).getReserve 0) then return some .tecNO_DST_INSUF_SWT
    createAccountRoot uDstAccountID
    return none
  if hasFlag (← deref dst).getFlags lsfRequireDestTag && !hasTag then
    return some .tecDST_TAG_NEEDED
  entryModify dst
  return none

/-- The path engine on the set, and the amount it delivered if that is not the
amount asked for. -/
def skywell (env : Env) (input : PathInput) (saDstAmount : STAmount) : LES TER := do
  let rc ← env.skywellCalculate (← get) input
  runPathCalls rc.calls
  if rc.result = .tesSUCCESS && !rc.actualAmountOut.eqv saDstAmount then
    setDeliveredAmount rc.actualAmountOut
  return rc.result

/-- The line the destination needs is opened for it. -/
def openLine (uDstAccountID : Account) (saDstAmount : STAmount) : LES Unit := do
  if !isSWT saDstAmount.getCurrency && uDstAccountID ≠ saDstAmount.getIssuer then
    let issue : Issue := ⟨saDstAmount.getCurrency, saDstAmount.getIssuer⟩
    discard (issue_trust_auto uDstAccountID (STAmount.zeroOf issue) issue)

/-- What the path engine is asked to do, or the result of a payment that does not
ask it. The operator of the issuers pays as the issuer of the amount. -/
def pathInput (env : Env) (uDstAccountID : Account) (saDstAmount maxSourceAmount : STAmount)
    (spsPaths : List (List STPathElement)) (t : Transactor) : Except TER PathInput :=
  let isLedgerOpen := t.mParams.tapOPEN_LEDGER
  let pathTooBig := spsPaths.length > MaxPathSize || spsPaths.any (·.length > MaxPathLength)
  let input : PathInput := {
    saMaxAmountReq := maxSourceAmount
    saDstAmountReq := saDstAmount
    uDstAccountID := uDstAccountID
    uSrcAccountID := t.mTxnAccountID
    spsPaths := spsPaths
    partialPaymentAllowed := hasFlag t.mTxn.getFlags tfPartialPayment
    defaultPathsAllowed := !hasFlag t.mTxn.getFlags tfNoSkywellDirect
    limitQuality := hasFlag t.mTxn.getFlags tfLimitQuality
    isLedgerOpen := isLedgerOpen }
  if isLedgerOpen && pathTooBig then .error .telBAD_PATH_COUNT
  else if t.mTxnAccountID = env.closedLedger.getIssuerOpAccountID env.config then
    .ok { input with
      saMaxAmountReq := maxSourceAmount.setIssuer saDstAmount.getIssuer
      uSrcAccountID := saDstAmount.getIssuer }
  else if t.mTxnAccountID = saDstAmount.getIssuer then .error .tecNO_PERMISSION
  else .ok input

/-- The body of the `try` block. -/
def skywellPayment (env : Env) (uDstAccountID : Account) (saDstAmount maxSourceAmount : STAmount)
    (spsPaths : List (List STPathElement)) (t : Transactor) : LES TER := do
  let terResult ←
    match pathInput env uDstAccountID saDstAmount maxSourceAmount spsPaths t with
    | .error terResult => pure terResult
    | .ok input => do
      openLine uDstAccountID saDstAmount
      skywell env input saDstAmount
  return if isTerRetry terResult then .tecPATH_DRY else terResult

/-- A `catch` of every exception. What the body changed before it threw is of no
consequence: the set is not applied after `tefEXCEPTION`. -/
def catching (body : LES TER) : LES TER := fun v =>
  match body v with
  | .error (.runtimeError _) => .ok (.tefEXCEPTION, v)
  | r => r

def directPayment (uDstAccountID : Account) (saDstAmount : STAmount) (t : Transactor) :
    LES TER := do
  let src ← pointer t.mTxnAccount
  let dst := getAccountRootIndex uDstAccountID
  let uReserve := (← getLedger).getReserve ((← deref src).getFieldU32 sfOwnerCount)
  let saFee := t.mTxn.getTransactionFee
  if !saFee.isNative then throw (.runtimeError "amount is not native!")
  if saFee.mIsNegative then throw (.runtimeError "amount is negative!")
  let needed ← saDstAmount.addNative (max uReserve saFee.mValue)
  if ← t.mPriorBalance.lt needed then return .tecUNFUNDED_PAYMENT
  let left ← t.mSourceBalance.sub saDstAmount
  assign src fun sle => sle.setFieldAmount sfBalance left
  let balance ← ((← deref dst).getFieldAmount sfBalance).add saDstAmount
  assign dst fun sle => sle.setFieldAmount sfBalance balance
  if hasFlag (← deref dst).getFlags lsfPasswordSpent then
    assign dst fun sle => sle.clearFlag lsfPasswordSpent
  return .tesSUCCESS

def doApply (env : Env) (uDstAccountID : Account) (saDstAmount : STAmount)
    (sendMax : Option STAmount) (paths : Option (List (List STPathElement))) (hasTag : Bool)
    (t : Transactor) : LES TER := do
  let maxSourceAmount ← maxSource t.mTxnAccountID sendMax saDstAmount
  let opened ← openDestination uDstAccountID saDstAmount
    (hasFlag t.mTxn.getFlags tfPartialPayment) hasTag t
  match opened with
  | some terResult => return terResult
  | none =>
    if paths.isSome || sendMax.isSome || !saDstAmount.isNative then
      catching (skywellPayment env uDstAccountID saDstAmount maxSourceAmount (paths.getD []) t)
    else directPayment uDstAccountID saDstAmount t

def hooks (env : Env) (uDstAccountID : Account) (saDstAmount : STAmount)
    (sendMax : Option STAmount) (paths : Option (List (List STPathElement)))
    (destinationTag : Option UInt32) : Hooks :=
  { Hooks.base env (doApply env uDstAccountID saDstAmount sendMax paths destinationTag.isSome) with
    preCheck := preCheck env uDstAccountID saDstAmount sendMax paths.isSome }

end Skywell.Payment
