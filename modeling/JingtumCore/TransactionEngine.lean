import JingtumCore.Operations
import JingtumCore.Metadata

/-!
# The transaction engine

`TransactionEngine::applyTransaction`. A call that faults returns nothing.
-/
namespace Skywell
open U32Field AmountField LedgerEntrySet
variable [Sha512Half]

structure TransactionEngine where
  mLedger : Ledger
  mNodes : LedgerEntrySet
  mTxnSeq : UInt32 := 0

namespace TransactionEngine

def writeEntry (l : Ledger) (k : Key) (e : LedgerEntrySetEntry) : Ledger :=
  match e.mAction with
  | .taaCACHED => l
  | .taaCREATE => l.writeBack true k e.mEntry
  | .taaMODIFY => l.writeBack false k e.mEntry
  | .taaDELETE => l.delItem k

/-- `txnWrite`: the entries of the set, written to the ledger one by one. -/
def txnWrite (mNodes : LedgerEntrySet) (l : Ledger) : Ledger :=
  mNodes.mEntries.toList.foldl (fun l e => writeEntry l e.1 e.2) l

/-- The fee, or what there is of it, is taken from the source. -/
def takeFee (txn : STTx) (txnAcct : SLE) : LES Unit := do
  let root := getAccountRootIndex txn.getSourceAccount
  let fee := txn.getTransactionFee
  let balance := txnAcct.getFieldAmount sfBalance
  let fee := if ← fee.gt balance then balance else fee
  let balance ← balance.sub fee
  assign root fun sle =>
    (sle.setFieldAmount sfBalance balance).setFieldU32 sfSequence (txn.getSequence + 1)
  entryModify root

/-- The second run of a transaction that failed with a claim on its fee: the
result, and whether it is to be applied. -/
def claimFee (txn : STTx) (params : TransactionEngineParams) (terResult : TER) :
    LES (TER × Bool) := do
  modify LedgerEntrySet.clear
  let root := getAccountRootIndex txn.getSourceAccount
  if !(← entryCache root) then return (.terNO_ACCOUNT, false)
  let txnAcct ← deref root
  let t_seq := txn.getSequence
  let a_seq := txnAcct.getFieldU32 sfSequence
  if a_seq < t_seq then return (.terPRE_SEQ, false)
  if a_seq > t_seq then return (.tefPAST_SEQ, false)
  let fee := txn.getTransactionFee
  let balance := txnAcct.getFieldAmount sfBalance
  let short ← if params.tapOPEN_LEDGER then balance.lt fee else pure false
  if balance.isZero || short then return (.terINSUF_FEE_B, false)
  takeFee txn txnAcct
  return (terResult, true)

/-- The transaction in the set, before any of it is written: the result and
whether it is to be applied. -/
def run (env : Env) (txn : STTx) (params : TransactionEngineParams) : LES (TER × Bool) := do
  let terResult ← transact env txn params
  if terResult = .temUNKNOWN then return (.temUNKNOWN, false)
  if isTecClaim terResult && !params.tapRETRY then claimFee txn params terResult
  else return (terResult, isTesSuccess terResult)

/-- The metadata of a transaction that is applied, and the ledger it leaves. -/
def commit (txn : STTx) (params : TransactionEngineParams) (terResult : TER) (mTxnSeq : UInt32)
    (mNodes : LedgerEntrySet) (l : Ledger) : Except Fault (Ledger × LedgerEntrySet) := do
  let (metaData, mNodes) ← calcRawMeta terResult mTxnSeq mNodes
  let item : TxItem := ⟨txn, if params.tapOPEN_LEDGER then none else some metaData⟩
  match (txnWrite mNodes l).addTransaction txn.getTransactionID item with
  | some l => return (l, mNodes)
  | none => throw (.runtimeError (if params.tapOPEN_LEDGER then "Duplicate transaction applied"
      else "Duplicate transaction applied to closed ledger"))

def applyTransaction (env : Env) (engine : TransactionEngine) (txn : STTx)
    (params : TransactionEngineParams) : Except Fault ((TER × Bool) × TransactionEngine) := do
  let txID := txn.getTransactionID
  if txID = 0 then return ((.temINVALID_FLAG, false), engine)
  let mNodes := engine.mNodes.init engine.mLedger txID engine.mLedger.mLedgerSeq params
  let ((terResult, didApply), mNodes) ← run env txn params mNodes
  if terResult = .temUNKNOWN then return ((.temUNKNOWN, false), { engine with mNodes })
  if didApply then
    let (mLedger, mNodes) ← commit txn params terResult engine.mTxnSeq mNodes engine.mLedger
    return ((terResult, true), ⟨mLedger, mNodes.clear, engine.mTxnSeq + 1⟩)
  return ((terResult, false), { engine with mNodes := mNodes.clear })

end TransactionEngine

end Skywell
