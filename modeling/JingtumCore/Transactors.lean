import JingtumCore.Transactor

/-!
# The other transactors

Account settings, regular keys, trust lines, relations, signer lists,
nicknames, messages, account merges, and the transactions of the network and
of its managers. Tests of an unsigned number for being negative are left out.
-/
namespace Skywell
open U16Field U32Field U64Field H128Field H256Field AmountField VLField AccountField
open LedgerEntrySet
variable [Sha512Half]

namespace SetAccount

def DOMAIN_BYTES_MAX : Nat := 256

def PUBLIC_BYTES_MAX : Nat := 33

def preCheck (env : Env) (transferRate : Option UInt32) (uSetFlag uClearFlag : UInt32)
    (t : Transactor) : LES (TER × Transactor) := do
  let uTxFlags := t.mTxn.getFlags
  if hasFlag uTxFlags tfAccountSetMask then return (.temINVALID_FLAG, t)
  if uSetFlag ≠ 0 && uSetFlag = uClearFlag then return (.temINVALID_FLAG, t)
  let contradictory (tfSet tfClear asf : UInt32) : Bool :=
    (hasFlag uTxFlags tfSet || uSetFlag == asf) && (hasFlag uTxFlags tfClear || uClearFlag == asf)
  if contradictory tfRequireAuth tfOptionalAuth asfRequireAuth then return (.temINVALID_FLAG, t)
  if contradictory requireDestTag tfOptionalDestTag asfRequireDest then
    return (.temINVALID_FLAG, t)
  if contradictory tfDisallowSWT tfAllowSWT asfDisallowSWT then return (.temINVALID_FLAG, t)
  if transferRate.any fun uRate => uRate != 0 && uRate < QUALITY_ONE then
    return (.temBAD_TRANSFER_RATE, t)
  t.preCheck env

/-- `uFlagsOut` with one flag set or cleared as the transaction asks. -/
def toggle (bSet bClear : Bool) (lsf uFlagsIn uFlagsOut : UInt32) : UInt32 :=
  let out := if bSet && !hasFlag uFlagsIn lsf then uFlagsOut ||| lsf else uFlagsOut
  if bClear && hasFlag uFlagsIn lsf then out &&& ~~~lsf else out

/-- The flags after the transaction, or the code with which it fails. -/
def newFlags (mSigMaster hasRegularKey ownerDirEmpty retry : Bool)
    (uTxFlags uFlagsIn uSetFlag uClearFlag : UInt32) : Except TER UInt32 := do
  let asked (tf asf flag : UInt32) : Bool := hasFlag uTxFlags tf || flag == asf
  if asked tfRequireAuth asfRequireAuth uSetFlag && !hasFlag uFlagsIn lsfRequireAuth then
    if !ownerDirEmpty then throw (if retry then .terOWNERS else .tecOWNERS)
  let out := toggle (asked tfRequireAuth asfRequireAuth uSetFlag)
    (asked tfOptionalAuth asfRequireAuth uClearFlag) lsfRequireAuth uFlagsIn uFlagsIn
  let out := toggle (asked requireDestTag asfRequireDest uSetFlag)
    (asked tfOptionalDestTag asfRequireDest uClearFlag) lsfRequireDestTag uFlagsIn out
  let out := toggle (asked tfDisallowSWT asfDisallowSWT uSetFlag)
    (asked tfAllowSWT asfDisallowSWT uClearFlag) lsfDisallowSWT uFlagsIn out
  if uSetFlag = asfDisableMaster && !hasFlag uFlagsIn lsfDisableMaster then
    if !mSigMaster then throw .tecNEED_MASTER_KEY
    if !hasRegularKey then throw .tecNO_REGULAR_KEY
  let out := toggle (uSetFlag == asfDisableMaster) (uClearFlag == asfDisableMaster)
    lsfDisableMaster uFlagsIn out
  let out := if uSetFlag = asfDefaultSkywell then out ||| lsfDefaultSkywell
    else if uClearFlag = asfDefaultSkywell then out &&& ~~~lsfDefaultSkywell
    else out
  if uSetFlag = asfNoFreeze && !mSigMaster && !hasFlag uFlagsIn lsfDisableMaster then
    throw .tecNEED_MASTER_KEY
  let out := if uSetFlag = asfNoFreeze then out ||| lsfNoFreeze else out
  let out := if uSetFlag = asfGlobalFreeze then out ||| lsfGlobalFreeze else out
  return if uSetFlag ≠ asfGlobalFreeze && uClearFlag = asfGlobalFreeze &&
      out &&& lsfNoFreeze = 0 then out &&& ~~~lsfGlobalFreeze
    else out

/-- Sets a field to a value, or unsets it for the value that means none. -/
def setOrUnset (f : SField) (none_ : f.Val → Bool) (value : Option f.Val) (sle : SLE) : SLE :=
  match value with
  | some v => if none_ v then sle.makeFieldAbsent f else sle.set f v
  | none => sle

def doApply (emailHash walletLocator : Option Nat) (messageKey domain : Option Blob)
    (transferRate : Option UInt32) (uSetFlag uClearFlag : UInt32) (t : Transactor) :
    LES TER := do
  let root ← pointer t.mTxnAccount
  let sleAccount ← deref root
  let uFlagsIn := sleAccount.getFieldU32 sfFlags
  let uTxFlags := t.mTxn.getFlags
  let setsAuth := (hasFlag uTxFlags tfRequireAuth || uSetFlag == asfRequireAuth) &&
    !hasFlag uFlagsIn lsfRequireAuth
  -- the owner directory is looked at only when RequireAuth is to be set
  let ownerDirEmpty ← if setsAuth then dirIsEmpty (getOwnerDirIndex t.mTxnAccountID) else pure true
  match newFlags t.mSigMaster (sleAccount.isFieldPresent (.account sfRegularKey)) ownerDirEmpty
      t.mParams.tapRETRY uTxFlags uFlagsIn uSetFlag uClearFlag with
  | .error terResult => return terResult
  | .ok uFlagsOut =>
    if uSetFlag = asfAccountTxnID then
      assign root fun sle => sle.makeFieldPresent (.h256 sfAccountTxnID)
    if uClearFlag = asfAccountTxnID then
      assign root fun sle => sle.makeFieldAbsent (.h256 sfAccountTxnID)
    assign root (setOrUnset (.h128 sfEmailHash) (· == (0 : Nat)) emailHash)
    assign root (setOrUnset (.h256 sfWalletLocator) (· == (0 : Nat)) walletLocator)
    if messageKey.any (·.length > PUBLIC_BYTES_MAX) then return .telBAD_PUBLIC_KEY
    assign root (setOrUnset (.vl sfMessageKey) List.isEmpty messageKey)
    if domain.any (·.length > DOMAIN_BYTES_MAX) then return .telBAD_DOMAIN
    assign root (setOrUnset (.vl sfDomain) List.isEmpty domain)
    match transferRate with
    | some uRate =>
      if uRate = 0 || uRate = QUALITY_ONE then
        assign root fun sle => sle.makeFieldAbsent (.u32 sfTransferRate)
      else if uRate > QUALITY_ONE then
        assign root fun sle => sle.setFieldU32 sfTransferRate uRate
    | none => pure ()
    if uFlagsIn ≠ uFlagsOut then
      assign root fun sle => sle.setFieldU32 sfFlags uFlagsOut
    return .tesSUCCESS

end SetAccount

namespace SetRegularKey

def calculateBaseFee (env : Env) (t : Transactor) : LES UInt64 := do
  match t.mTxnAccount with
  | some root =>
    if !hasFlag (← deref root).getFlags lsfPasswordSpent && t.mSigningAccount == t.mTxnAccountID then
      return 0
    t.calculateBaseFee env
  | none => t.calculateBaseFee env

def preCheck (env : Env) (t : Transactor) : LES (TER × Transactor) := do
  if hasFlag t.mTxn.getFlags tfUniversalMask then return (.temINVALID_FLAG, t)
  t.preCheck env

def doApply (regularKey : Option Account) (t : Transactor) : LES TER := do
  let root ← pointer t.mTxnAccount
  if t.mFeeDue.isZero then
    assign root fun sle => sle.setFlag lsfPasswordSpent
  match regularKey with
  | some key => assign root fun sle => sle.setFieldAccount sfRegularKey key
  | none =>
    if (← deref root).isFlag lsfDisableMaster then return .tecMASTER_DISABLED
    assign root fun sle => sle.makeFieldAbsent (.account sfRegularKey)
  return .tesSUCCESS

end SetRegularKey

/-- The checks of a limit that `SetTrust` and `SetREL` share. -/
def checkLimit (env : Env) (mask : UInt32) (saLimitAmount : STAmount) (t : Transactor) :
    LES (TER × Transactor) := do
  if hasFlag t.mTxn.getFlags mask then return (.temINVALID_FLAG, t)
  if !saLimitAmount.isLegalNet then return (.temBAD_AMOUNT, t)
  if saLimitAmount.isNative then return (.temBAD_LIMIT, t)
  if badCurrency = saLimitAmount.getCurrency then return (.temBAD_CURRENCY, t)
  if saLimitAmount.signum < 0 then return (.temBAD_LIMIT, t)
  let issuer := saLimitAmount.getIssuer
  if issuer = 0 || issuer = noAccount then return (.temDST_NEEDED, t)
  t.preCheck env

namespace SetTrust

def preCheck (env : Env) : STAmount → Transactor → LES (TER × Transactor) :=
  checkLimit env tfTrustSetMask

/-- A line's quality field after the transaction: kept, set, or unset. -/
def setQuality (f : U32Field) (given : Bool) (quality : UInt32) (sle : SLE) : SLE :=
  if !given then sle
  else if quality ≠ 0 then sle.setFieldU32 f quality
  else sle.makeFieldAbsent (.u32 f)

/-- A quality of one counts as none. -/
def normalQuality (quality : UInt32) : UInt32 := if QUALITY_ONE = quality then 0 else quality

/-- `uFlagsOut` before authorization and reserves. -/
def lineFlags (bHigh : Bool) (uTxFlags accountFlags uFlagsIn : UInt32) (own : STAmount) :
    UInt32 :=
  let bSetNoSkywell := hasFlag uTxFlags tfSetNoSkywell
  let bClearNoSkywell := hasFlag uTxFlags tfClearNoSkywell
  let bSetFreeze := hasFlag uTxFlags tfSetFreeze
  let bClearFreeze := hasFlag uTxFlags tfClearFreeze
  let noSkywell := if bHigh then lsfHighNoSkywell else lsfLowNoSkywell
  let freeze := if bHigh then lsfHighFreeze else lsfLowFreeze
  let out := if bSetNoSkywell && !bClearNoSkywell && own.signum ≥ 0 then uFlagsIn ||| noSkywell
    else if bClearNoSkywell && !bSetNoSkywell then uFlagsIn &&& ~~~noSkywell
    else uFlagsIn
  if bSetFreeze && !bClearFreeze && !(accountFlags &&& lsfNoFreeze == lsfNoFreeze) then
    out ||| freeze
  else if bClearFreeze && !bSetFreeze then out &&& ~~~freeze
  else out

/-- Whether one side of a line keeps a reserve. -/
def reserveSet (qualityIn qualityOut uFlagsOut noSkywell freeze accountFlags : UInt32)
    (limit balance : STAmount) : Bool :=
  let defSkywell := !hasFlag accountFlags lsfDefaultSkywell
  normalQuality qualityIn != 0 || normalQuality qualityOut != 0 ||
    (!hasFlag uFlagsOut noSkywell) != defSkywell || hasFlag uFlagsOut freeze ||
    !limit.isZero || balance.signum > 0

/-- Takes or gives back the reserve of one side of a line; the flag goes along. -/
def adjustReserve (account : Key) (reserve : UInt32) (set_ reserved : Bool) (uFlagsOut : UInt32) :
    LES UInt32 := do
  if set_ && !reserved then
    incrementOwnerCountRef account
    return uFlagsOut ||| reserve
  if !set_ && reserved then
    decrementOwnerCountRef account
    return uFlagsOut &&& ~~~reserve
  return uFlagsOut

/-- A transaction on an existing line. -/
def modifyLine (line : Key) (bHigh : Bool) (uDstAccountID : Account) (saLimitAllow : STAmount)
    (qualityIn qualityOut : Option UInt32) (uReserveCreate : UInt64) (root : Key)
    (t : Transactor) : LES TER := do
  let uLowAccountID := if !bHigh then t.mTxnAccountID else uDstAccountID
  let uHighAccountID := if bHigh then t.mTxnAccountID else uDstAccountID
  let dst := getAccountRootIndex uDstAccountID
  let sleLowAccount := if !bHigh then root else dst
  let sleHighAccount := if bHigh then root else dst
  let saLowBalance := (← deref line).getFieldAmount sfBalance
  let saHighBalance := saLowBalance.neg
  assign line fun sle => sle.setFieldAmount (if !bHigh then sfLowLimit else sfHighLimit) saLimitAllow
  assign line (setQuality (if !bHigh then sfLowQualityIn else sfHighQualityIn) qualityIn.isSome
    (qualityIn.getD 0))
  assign line (setQuality (if !bHigh then sfLowQualityOut else sfHighQualityOut) qualityOut.isSome
    (normalQuality (qualityOut.getD 0)))
  let state ← deref line
  let lowFlags := (← deref sleLowAccount).getFlags
  let highFlags := (← deref sleHighAccount).getFlags
  let uTxFlags := t.mTxn.getFlags
  let uFlagsIn := state.getFieldU32 sfFlags
  let uFlagsOut := lineFlags bHigh uTxFlags (← deref root).getFlags uFlagsIn
    (if bHigh then saHighBalance else saLowBalance)
  let bLowReserveSet := reserveSet (state.getFieldU32 sfLowQualityIn)
    (state.getFieldU32 sfLowQualityOut) uFlagsOut lsfLowNoSkywell lsfLowFreeze lowFlags
    (state.getFieldAmount sfLowLimit) saLowBalance
  let bHighReserveSet := reserveSet (state.getFieldU32 sfHighQualityIn)
    (state.getFieldU32 sfHighQualityOut) uFlagsOut lsfHighNoSkywell lsfHighFreeze highFlags
    (state.getFieldAmount sfHighLimit) saHighBalance
  let bLowReserved := hasFlag uFlagsIn lsfLowReserve
  let bHighReserved := hasFlag uFlagsIn lsfHighReserve
  let uFlagsOut := if hasFlag uTxFlags tfSetfAuth then
      uFlagsOut ||| (if bHigh then lsfHighAuth else lsfLowAuth)
    else uFlagsOut
  let uFlagsOut ← adjustReserve sleLowAccount lsfLowReserve bLowReserveSet bLowReserved uFlagsOut
  let uFlagsOut ← adjustReserve sleHighAccount lsfHighReserve bHighReserveSet bHighReserved
    uFlagsOut
  let bReserveIncrease := if bHigh then bHighReserveSet && !bHighReserved
    else bLowReserveSet && !bLowReserved
  if uFlagsIn ≠ uFlagsOut then
    assign line fun sle => sle.setFieldU32 sfFlags uFlagsOut
  if (!bLowReserveSet && !bHighReserveSet) || badCurrency = saLimitAllow.getCurrency then
    trustDelete line uLowAccountID uHighAccountID
  else
    let short ← if bReserveIncrease then t.mPriorBalance.ltNative uReserveCreate else pure false
    if short then return .tecINSUF_RESERVE_LINE
    entryModify line
    return .tesSUCCESS

def doApply (saLimitAmount : STAmount) (qualityIn qualityOut : Option UInt32) (t : Transactor) :
    LES TER := do
  let currency := saLimitAmount.getCurrency
  let uDstAccountID := saLimitAmount.getIssuer
  let bHigh : Bool := t.mTxnAccountID > uDstAccountID
  let root ← pointer t.mTxnAccount
  let sleAccount ← deref root
  let uOwnerCount := sleAccount.getFieldU32 sfOwnerCount
  let ledger ← getLedger
  let uReserveCreate := if uOwnerCount < 2 then 0 else ledger.getReserve (uOwnerCount + 1)
  let uTxFlags := t.mTxn.getFlags
  let bSetAuth := hasFlag uTxFlags tfSetfAuth
  if bSetAuth && !hasFlag (sleAccount.getFieldU32 sfFlags) lsfRequireAuth then
    return .tefNO_AUTH_REQUIRED
  let line := getSkywellStateIndex t.mTxnAccountID uDstAccountID currency
  if t.mTxnAccountID = uDstAccountID then
    if ← entryCache line then return ← trustDelete line t.mTxnAccountID uDstAccountID
    return .temDST_IS_SRC
  if !(← entryCache (getAccountRootIndex uDstAccountID)) then return .tecNO_DST
  let saLimitAllow := saLimitAmount.setIssuer t.mTxnAccountID
  if ← entryCache line then
    modifyLine line bHigh uDstAccountID saLimitAllow qualityIn qualityOut uReserveCreate root t
  else if saLimitAmount.isZero && qualityIn.getD 0 = 0 && normalQuality (qualityOut.getD 0) = 0 then
    return .tecNO_LINE_REDUNDANT
  else if ← t.mPriorBalance.ltNative uReserveCreate then return .tecNO_LINE_INSUF_RESERVE
  else
    trustCreate bHigh t.mTxnAccountID uDstAccountID line root bSetAuth
      (hasFlag uTxFlags tfSetNoSkywell && !hasFlag uTxFlags tfClearNoSkywell)
      (hasFlag uTxFlags tfSetFreeze && !hasFlag uTxFlags tfClearFreeze)
      (STAmount.zeroOf ⟨currency, noAccount⟩) saLimitAllow (qualityIn.getD 0)
      (normalQuality (qualityOut.getD 0))

end SetTrust

namespace SetREL

def preCheck (env : Env) : STAmount → Transactor → LES (TER × Transactor) :=
  checkLimit env tfRelationSetMask

/-- `bSet` tells `ttREL_SET` from `ttREL_DEL`. Neither template has a quality. -/
def doApply (bSet : Bool) (uDstAccountID : Account) (uRelationType : UInt32)
    (saLimitAmount : STAmount) (t : Transactor) : LES TER := do
  let currency := saLimitAmount.getCurrency
  let uIssuerID := saLimitAmount.getIssuer
  let bHigh : Bool := t.mTxnAccountID > uDstAccountID
  if !(← entryCache (getAccountRootIndex uDstAccountID)) then return .tecNO_DST
  let saLimitAllow := saLimitAmount.setIssuer t.mTxnAccountID
  let index := getTrustStateIndex t.mTxnAccountID uDstAccountID uRelationType uIssuerID currency
  let found ← entryCache index
  if !bSet && found then return ← trustDelete index t.mTxnAccountID uDstAccountID
  if !found && bSet then
    let root ← pointer t.mTxnAccount
    let terResult ← relationCreate bHigh t.mTxnAccountID uDstAccountID index root
      (STAmount.zeroOf ⟨currency, uIssuerID⟩) saLimitAllow 0 0
    if terResult = .tesSUCCESS then
      if !(← entryCache index) then throw .nullPointer
      assign index fun sle => sle.setFieldU32 sfRelationType uRelationType
      entryModify index
    return terResult
  if found && bSet then
    assign index fun sle =>
      sle.setFieldAmount (if !bHigh then sfLowLimit else sfHighLimit) saLimitAllow
    entryModify index
  return .tesSUCCESS

end SetREL

namespace SetSign

/-- The source is compared before the base class has set it. -/
def preCheck (env : Env) (signerEntries : List SignerEntry) (t : Transactor) :
    LES (TER × Transactor) := do
  if hasFlag t.mTxn.getFlags tfTrustSetMask then return (.temINVALID_FLAG, t)
  let bad := signerEntries.findSome? fun ts =>
    if ts.account = 0 || ts.account = noAccount then some TER.temDST_NEEDED
    else if t.mTxnAccountID = ts.account then some TER.temREDUNDANTSIGN
    else none
  match bad with
  | some terResult => return (terResult, t)
  | none => t.preCheck env

def doApply (saMasterWeight : UInt16) (saQuorum saQuorumHigh : UInt32)
    (tSignEntries : List SignerEntry) (t : Transactor) : LES TER := do
  let source := t.mTxn.getSourceAccount
  if source = 0 then return .temBAD_SRC_ACCOUNT
  let root := getAccountRootIndex source
  let hasRoot ← entryCache root
  let index := getSignStateIndex source
  if !(← entryCache index) then
    let root ← pointer (if hasRoot then some root else none)
    signCreate index root source saMasterWeight saQuorum saQuorumHigh tSignEntries
  else
    assign index fun sle =>
      let sle := if saMasterWeight ≠ 0 then sle.setFieldU16 sfMasterWeight saMasterWeight else sle
      let sle := if saQuorum ≠ 0 then sle.setFieldU32 sfQuorum saQuorum else sle
      let sle := if saQuorumHigh ≠ 0 then sle.setFieldU32 sfQuorumHigh saQuorumHigh else sle
      if !tSignEntries.isEmpty then sle.set .sfSignerEntries tSignEntries else sle
    entryModify index
    return .tesSUCCESS

end SetSign

namespace SetNickName

def DOMAIN_BYTES_MAX : Nat := 256

def NICKNAME_BYTES_MAX : Nat := 256

def doApply (domain nickname : Option Blob) (t : Transactor) : LES TER := do
  let source := t.mTxn.getSourceAccount
  let nick := getNickNameIndex source
  if !(← entryCache nick) then
    entryCreate nick
    assign nick fun sle => sle.setFieldAccount sfAccount source
  entryModify nick
  if domain.any (·.length > DOMAIN_BYTES_MAX) then return .telBAD_DOMAIN
  assign nick (SetAccount.setOrUnset (.vl sfDomain) List.isEmpty domain)
  if nickname.any (·.length > NICKNAME_BYTES_MAX) then return .telBAD_NICKNAME
  assign nick (SetAccount.setOrUnset (.vl sfNickname) List.isEmpty nickname)
  return .tesSUCCESS

end SetNickName

namespace Message

def preCheck (env : Env) (uDstAccountID : Account) (t : Transactor) : LES (TER × Transactor) := do
  let t := { t with mTxnAccountID := t.mTxn.getSourceAccount }
  if uDstAccountID = 0 then return (.temDST_NEEDED, t)
  if t.mTxnAccountID = uDstAccountID then return (.temREDUNDANT, t)
  if env.closedLedger.checkBlackList uDstAccountID then return (.telBLKLIST, t)
  t.preCheck env

def doApply (uDstAccountID : Account) (_ : Transactor) : LES TER := do
  if !(← entryCache (getAccountRootIndex uDstAccountID)) then return .tecNO_DST
  return .tesSUCCESS

end Message

namespace AccountMerge

/-- The members that are compared here are those of a new transactor. -/
def preCheck (env : Env) (uDstAccountID : Account) (t : Transactor) : LES (TER × Transactor) := do
  if hasFlag t.mTxn.getFlags tfAccountMergeMask then return (.temINVALID_FLAG, t)
  if uDstAccountID = 0 then return (.temDST_NEEDED, t)
  if env.closedLedger.checkBlackList uDstAccountID then return (.telBLKLIST, t)
  if t.mTxnAccountID = t.mFeeAccountID || t.mTxnAccountID = env.config.SISSUER_ACCOUNTID ||
      t.mTxnAccountID = env.config.SMNG_ACCOUNTID then return (.temBAD_SRC_ACCOUNT, t)
  if t.mTxnAccountID = uDstAccountID then return (.temDST_IS_SRC, t)
  if (← deref (← pointer t.mTxnAccount)).getFieldU32 sfOwnerCount ≠ 0 then return (.terOWNERS, t)
  t.preCheck env

def doApply (uDstAccountID : Account) (t : Transactor) : LES TER := do
  if !(← entryCache (getAccountRootIndex uDstAccountID)) then return .tecNO_DST
  let root ← pointer t.mTxnAccount
  let saAmount := (← deref root).getFieldAmount sfBalance
  if !saAmount.eqv saAmount.zeroed then
    let terResult ← accountSend t.mTxnAccountID uDstAccountID saAmount
    if terResult ≠ .tesSUCCESS then return terResult
  entryDelete root
  return .tesSUCCESS

end AccountMerge

namespace Change

def preCheck (t : Transactor) : LES (TER × Transactor) := do
  let t := { t with mTxnAccountID := t.mTxn.getSourceAccount }
  if t.mTxnAccountID ≠ 0 then return (.temBAD_SRC_ACCOUNT, t)
  if t.mParams.tapOPEN_LEDGER then return (.temINVALID, t)
  return (.tesSUCCESS, t)

def checkSeq (t : Transactor) : LES TER :=
  if t.mTxn.getSequence ≠ 0 || t.mTxn.common.previousTxnID.isSome then return .temBAD_SEQUENCE
  else return .tesSUCCESS

def payFee (t : Transactor) : LES (TER × Transactor) :=
  if !t.mTxn.getTransactionFee.eqv {} then return (.temBAD_FEE, t) else return (.tesSUCCESS, t)

def checkSig (t : Transactor) : LES (TER × Transactor) :=
  if t.mTxn.getSourceAccount ≠ 0 then return (.temBAD_SRC_ACCOUNT, t)
  else if !t.mTxn.getSigningPubKey.isEmpty || !t.mTxn.common.txnSignature.isEmpty then
    return (.temBAD_SIGNATURE, t)
  else return (.tesSUCCESS, t)

/-- What follows in the amendment table is left out. -/
def applyAmendment (amendment : Nat) : LES TER := do
  if !(← entryCache .amendment) then entryCreate .amendment
  let amendments := (← deref .amendment).get (.v256 .sfAmendments)
  if amendments.contains amendment then return .tefALREADY
  assign .amendment fun sle => sle.set (.v256 .sfAmendments) (amendments ++ [amendment])
  entryModify .amendment
  return .tesSUCCESS

def applyFee (baseFee : UInt64) (referenceFeeUnits reserveBase reserveIncrement : UInt32) :
    LES TER := do
  if !(← entryCache .fee) then entryCreate .fee
  assign .fee fun sle => (((sle.setFieldU64 sfBaseFee baseFee).setFieldU32 sfReferenceFeeUnits
    referenceFeeUnits).setFieldU32 sfReserveBase reserveBase).setFieldU32 sfReserveIncrement
    reserveIncrement
  entryModify .fee
  return .tesSUCCESS

def hooks (env : Env) (doApply : LES TER) : Hooks where
  preCheck := preCheck
  calculateBaseFee := Transactor.calculateBaseFee env
  mustHaveValidAccount := false
  checkSeq := checkSeq
  payFee := payFee
  checkSig := checkSig
  doApply := fun _ => doApply

end Change

namespace ManageTransactor

def preCheck (env : Env) (t : Transactor) : LES (TER × Transactor) := do
  let t := { t with mTxnAccountID := t.mTxn.getSourceAccount }
  if t.mTxn.getTxnType = .ttMNGISSUER then
    if t.mTxnAccountID ≠ env.config.SISSUER_ACCOUNTID then return (.temBAD_SRC_ACCOUNT, t)
  else if t.mTxnAccountID ≠ env.config.SMNG_ACCOUNTID then return (.temBAD_SRC_ACCOUNT, t)
  return (.tesSUCCESS, t)

def checkSeq (t : Transactor) : LES TER := do
  if (← getLedger).hasTransaction t.mTxn.getTransactionID then return .tefALREADY
  return .tesSUCCESS

def payFee (t : Transactor) : LES (TER × Transactor) := return (.tesSUCCESS, t)

def checkSig (t : Transactor) : LES (TER × Transactor) := return (.tesSUCCESS, t)

/-- An object that there is one of, made on its first use. -/
def applyManage (index : Key) (field : AccountField) (account : Account) : LES TER := do
  if !(← entryCache index) then entryCreate index
  assign index fun sle => sle.setFieldAccount field account
  entryModify index
  return .tesSUCCESS

def applyManageFee : Account → LES TER := applyManage .manageFee sfFeeAccountID

def applyManageIssuer : Account → LES TER := applyManage .manageIssuer sfIssuerAccountID

def applyManageBlackList (account : Account) (isSet : Bool) : LES TER := do
  let index := getBlackListIndex account
  let listed ← entryCache index
  if !listed && isSet then
    entryCreate index
    assign index fun sle => sle.setFieldAccount sfBlackListAccountID account
    entryModify index
    return .tesSUCCESS
  if listed && !isSet then
    entryDelete index
    return .tesSUCCESS
  return .temINVALID

def hooks (env : Env) (doApply : LES TER) : Hooks where
  preCheck := preCheck env
  calculateBaseFee := Transactor.calculateBaseFee env
  mustHaveValidAccount := true
  checkSeq := checkSeq
  payFee := payFee
  checkSig := checkSig
  doApply := fun _ => doApply

end ManageTransactor

end Skywell
