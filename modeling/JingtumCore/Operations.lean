import JingtumCore.Payment
import JingtumCore.Transactors

/-!
# Batches and dispatch

`Operations` runs a list of transactions in one ledger entry set, and
`Transactor::transact` picks the transactor of a transaction. The two call
each other: a batch may hold batches.
-/
namespace Skywell
open U16Field U32Field AccountField LedgerEntrySet
variable [Sha512Half]

namespace Operations

/-- Whether the entries that signed bring the quorum down to zero. -/
def quorumReached (mSigners : List Account) : Int → List SignerEntry → Bool
  | _, [] => false
  | saQuorum, entry :: rest =>
    if mSigners.contains entry.account then
      let saQuorum := saQuorum - entry.weight.toNat
      if saQuorum ≤ 0 then true else quorumReached mSigners saQuorum rest
    else quorumReached mSigners saQuorum rest

/-- The signer list's part of `precheckSig`. -/
def signerListAllows (mSigners : List Account) (sle : SLE) : Bool :=
  let saQuorum : Int := (sle.getFieldU32 sfQuorum).toInt32.toInt
  if saQuorum = 0 then true
  else if saQuorum < 0 then false
  else
    let saQuorum := saQuorum - (sle.getFieldU16 sfMasterWeight).toNat
    if saQuorum ≤ 0 then true
    else quorumReached mSigners saQuorum (sle.get .sfSignerEntries)

/-- The test of the regular key, which is compared with the account it belongs to. -/
def ownRegularKey (source : Account) (root : SLE) : Bool :=
  root.isFieldPresent (.account sfRegularKey) &&
    source == root.getFieldAccount160 sfRegularKey

/-- `precheckSig`, with the parameters it leaves. -/
def precheckSig (mSigners : List Account) (source : Account) (params : TransactionEngineParams) :
    LES (TER × TransactionEngineParams) := do
  let root := getAccountRootIndex source
  let hasRoot ← entryCache root
  let sleAccount ← if hasRoot then deref root else throw .nullPointer
  if mSigners.contains source then
    if sleAccount.isFlag lsfDisableMaster then return (.tefMASTER_DISABLED, params)
    return (.tesSUCCESS, { params with tapMASTER_SIGN := true })
  if ownRegularKey source sleAccount then return (.tesSUCCESS, params)
  if mSigners.length ≥ 1 then
    let list := getSignStateIndex source
    if ← entryCache list then
      if signerListAllows mSigners (← deref list) then return (.tesSUCCESS, params)
  return (.tefBAD_AUTH, params)

/-- `STTx::getSignAccount`. -/
def signAccounts (env : Env) (txn : STTx) : List Account :=
  match txn.fields with
  | .operation _ (some signs) => signs.map env.accountID
  | _ => [env.accountID txn.getSigningPubKey]

/-- `Operations::doApply`, given the loop over the transactions of the batch. -/
def doApply (env : Env) (legal : Bool)
    (loop : List Account → TransactionEngineParams → LES TER) (t : Transactor) : LES TER :=
  if !legal || t.mTxn.operations.isEmpty then return .temINVALID
  else loop (signAccounts env t.mTxn) t.mParams

end Operations

/-- The transactor of a transaction; `loop` runs the transactions of a batch. -/
def transactorOf (env : Env) (loop : List Account → TransactionEngineParams → LES TER)
    (txn : STTx) : Hooks :=
  match txn.fields with
  | .payment destination amount sendMax paths tag =>
    Payment.hooks env destination amount sendMax paths tag
  | .accountSet emailHash walletLocator messageKey domain transferRate setFlag clearFlag =>
    { Hooks.base env (SetAccount.doApply emailHash walletLocator messageKey domain transferRate
        setFlag clearFlag) with
      preCheck := SetAccount.preCheck env transferRate setFlag clearFlag }
  | .regularKeySet regularKey =>
    { Hooks.base env (SetRegularKey.doApply regularKey) with
      preCheck := SetRegularKey.preCheck env
      calculateBaseFee := SetRegularKey.calculateBaseFee env }
  | .trustSet limit qualityIn qualityOut =>
    { Hooks.base env (SetTrust.doApply limit qualityIn qualityOut) with
      preCheck := SetTrust.preCheck env limit }
  | .relSet target relationType limit =>
    { Hooks.base env (SetREL.doApply true target relationType limit) with
      preCheck := SetREL.preCheck env limit }
  | .relDel target relationType limit =>
    { Hooks.base env (SetREL.doApply false target relationType limit) with
      preCheck := SetREL.preCheck env limit }
  | .amendment amendment => Change.hooks env (Change.applyAmendment amendment)
  | .fee baseFee units base increment =>
    Change.hooks env (Change.applyFee baseFee units base increment)
  -- tickets are not compiled in
  | .ticketCreate | .ticketCancel => Hooks.base env fun _ => return .temDISABLED
  | .nicknameSet domain nickname => Hooks.base env (SetNickName.doApply domain nickname)
  | .accountMerge destination =>
    { Hooks.base env (AccountMerge.doApply destination) with
      preCheck := AccountMerge.preCheck env destination
      payFee := ManageTransactor.payFee }
  | .mngFee account => ManageTransactor.hooks env (ManageTransactor.applyManageFee account)
  | .mngIssuer account => ManageTransactor.hooks env (ManageTransactor.applyManageIssuer account)
  | .blkListSet account =>
    ManageTransactor.hooks env (ManageTransactor.applyManageBlackList account true)
  | .blkListRmv account =>
    ManageTransactor.hooks env (ManageTransactor.applyManageBlackList account false)
  | .signSet masterWeight quorum quorumHigh entries =>
    { Hooks.base env (SetSign.doApply masterWeight quorum quorumHigh entries) with
      preCheck := SetSign.preCheck env entries }
  | .message destination =>
    { Hooks.base env (Message.doApply destination) with
      preCheck := Message.preCheck env destination }
  | .operation legal _ => Hooks.base env (Operations.doApply env legal loop)

/-- `SKYWELL_ENABLE_TICKETS` is off. -/
def isTicket : TxFields → Bool
  | .ticketCreate | .ticketCancel => true
  | _ => false

mutual

/-- `Transactor::transact`. -/
def transact (env : Env) : STTx → TransactionEngineParams → LES TER
  | .mk common fields operations, params =>
    let txn := STTx.mk common fields operations
    if isTicket fields then return .temDISABLED
    else (transactorOf env (Operations.applyAll env operations) txn).apply env
      { mTxn := txn, mParams := params }

/-- The loop of `Operations::doApply`. The parameters grow from one transaction
to the next. -/
def Operations.applyAll (env : Env) :
    List STTx → List Account → TransactionEngineParams → LES TER
  | [], _, _ => return .tesSUCCESS
  | sttx :: rest, mSigners, mParams => do
    let (terResult, mParams) ← Operations.precheckSig mSigners sttx.getSourceAccount mParams
    if terResult ≠ .tesSUCCESS then return terResult
    let mParams := { mParams with tapPRE_CHECKED := true }
    let terResult ← transact env sttx mParams
    if terResult ≠ .tesSUCCESS then return terResult
    Operations.applyAll env rest mSigners mParams

end

end Skywell
