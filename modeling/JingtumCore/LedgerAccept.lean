import JingtumCore.ApplyTransactions

/-!
# Building the next closed ledger

Ledgers with their headers, and the part of `LedgerConsensusImp::accept` that
builds the new last closed ledger. The hashes of maps and headers are functions
of their contents. What a node looks up outside the ledger while it applies a
transaction is given for each call of the engine, and may differ between calls.
-/
namespace Skywell
open U32Field U64Field LedgerEntrySet Std
variable [Sha512Half]

/-- The configuration with the default fee and the reserves. -/
structure FeeConfig extends Config where
  FEE_DEFAULT : UInt32
  FEE_ACCOUNT_RESERVE : UInt64
  FEE_OWNER_RESERVE : UInt64

def sLCF_NoConsensusTime : UInt32 := 1

/-- A ledger and its header. -/
structure LedgerRecord extends Ledger where
  mParentHash : LedgerHash
  mTotCoins : UInt64
  mCloseTime : UInt32
  mParentCloseTime : UInt32
  mCloseResolution : Int
  mCloseFlags : UInt32

/-- What `addRaw` serializes. -/
structure RawLedger where
  mLedgerSeq : UInt32
  mTotCoins : UInt64
  mParentHash : LedgerHash
  mTransHash : Nat
  mAccountHash : Nat
  mParentCloseTime : UInt32
  mCloseTime : UInt32
  mCloseResolution : UInt8
  mCloseFlags : UInt8

class LedgerHashes where
  transHash : ExtTreeMap TxID TxItem compare → Nat
  accountHash : StateMap → Nat
  ledgerHash : RawLedger → LedgerHash

namespace Ledger

/-- `updateFees`. -/
def updateFees (config : FeeConfig) (l : Ledger) : Ledger :=
  if l.mBaseFee ≠ 0 then l
  else
    let (baseFee, referenceFeeUnits) := match l.getSLE .fee with
      | some sle => (sle.getFieldU64 sfBaseFee, sle.getFieldU32 sfReferenceFeeUnits)
      | none => (config.FEE_DEFAULT.toUInt64, config.TRANSACTION_FEE_BASE.toUInt32)
    { l with
      mBaseFee := baseFee
      mReferenceFeeUnits := referenceFeeUnits
      mReserveBase := config.FEE_ACCOUNT_RESERVE.toUInt32
      mReserveIncrement := config.FEE_OWNER_RESERVE.toUInt32 }

/-- A skip list with one more hash at its end. -/
def addHash (l : Ledger) (k : Key) (hashes : List LedgerHash) (prevIndex : UInt32) : Ledger :=
  let skipList := (l.getSLE k).getD (SLE.new k.type)
  l.writeBack true k
    ((skipList.set (.v256 .sfHashes) hashes).setFieldU32 sfLastLedgerSequence prevIndex)

/-- The hashes of a skip list. -/
def hashesAt (l : Ledger) (k : Key) : List LedgerHash :=
  match l.getSLE k with
  | some sle => sle.get (.v256 .sfHashes)
  | none => []

end Ledger

namespace LedgerRecord

def addRaw [LedgerHashes] (l : LedgerRecord) : RawLedger where
  mLedgerSeq := l.mLedgerSeq
  mTotCoins := l.mTotCoins
  mParentHash := l.mParentHash
  mTransHash := LedgerHashes.transHash l.mTransactionMap
  mAccountHash := LedgerHashes.accountHash l.mAccountStateMap
  mParentCloseTime := l.mParentCloseTime
  mCloseTime := l.mCloseTime
  mCloseResolution := .ofInt l.mCloseResolution
  mCloseFlags := l.mCloseFlags.toUInt8

def getHash [LedgerHashes] (l : LedgerRecord) : LedgerHash := LedgerHashes.ledgerHash l.addRaw

def getCloseAgree (l : LedgerRecord) : Bool := l.mCloseFlags &&& sLCF_NoConsensusTime == 0

/-- The ledger that follows one, at the time `closeTimeNC` of the node's clock.
There is none if the search for its resolution leaves the table. The fees are
loaded at once. -/
def next [LedgerHashes] (config : FeeConfig) (closeTimeNC : UInt32) (prevLedger : LedgerRecord) :
    Option LedgerRecord := do
  let mLedgerSeq := prevLedger.mLedgerSeq + 1
  let mCloseResolution ← ContinuousLedgerTiming.getNextLedgerTimeResolution
    prevLedger.mCloseResolution prevLedger.getCloseAgree mLedgerSeq
  let ledger : Ledger := {
    mAccountStateMap := prevLedger.mAccountStateMap
    mTransactionMap := ∅
    mLedgerSeq
    mBaseFee := 0
    mReferenceFeeUnits := 0
    mReserveBase := 0
    mReserveIncrement := 0 }
  return { ledger.updateFees config with
    mParentHash := prevLedger.getHash
    mTotCoins := prevLedger.mTotCoins
    mCloseTime :=
      if prevLedger.mCloseTime = 0 then roundCloseTime closeTimeNC (.ofInt mCloseResolution)
      else prevLedger.mCloseTime + .ofInt mCloseResolution
    mParentCloseTime := prevLedger.mCloseTime
    mCloseResolution
    mCloseFlags := 0 }

/-- `updateSkipList`. -/
def updateSkipList (l : LedgerRecord) : LedgerRecord :=
  if l.mLedgerSeq = 0 then l
  else
    let prevIndex := l.mLedgerSeq - 1
    let group := Key.skipListOf (prevIndex >>> 16)
    let ledger := if prevIndex &&& 0xff = 0 then
        l.toLedger.addHash group (l.hashesAt group ++ [l.mParentHash]) prevIndex
      else l.toLedger
    let hashes := ledger.hashesAt .skipList
    let hashes := if hashes.length = 256 then hashes.tail else hashes
    { l with toLedger := ledger.addHash .skipList (hashes ++ [l.mParentHash]) prevIndex }

def setAccepted (closeTime : UInt32) (closeResolution : Int) (correctCloseTime : Bool)
    (l : LedgerRecord) : LedgerRecord :=
  { l with
    mCloseTime :=
      if correctCloseTime then roundCloseTime closeTime (.ofInt closeResolution) else closeTime
    mCloseResolution := closeResolution
    mCloseFlags := if correctCloseTime then 0 else sLCF_NoConsensusTime }

end LedgerRecord

namespace TransactionEngine

/-- What a call that throws leaves. Until the transaction is written there is
no change: the next call sets up the set anew. -/
def thrown (env : Env) (engine : TransactionEngine) (txn : STTx)
    (params : TransactionEngineParams) : TransactionEngine :=
  let mNodes :=
    engine.mNodes.init engine.mLedger txn.getTransactionID engine.mLedger.mLedgerSeq params
  match run env txn params mNodes with
  | .ok ((terResult, true), mNodes) =>
    match calcRawMeta terResult engine.mTxnSeq mNodes with
    | .ok (_, mNodes) =>
      ⟨txnWrite mNodes engine.mLedger, engine.mNodes, engine.mTxnSeq + 1⟩
    | .error _ => { engine with mTxnSeq := engine.mTxnSeq + 1 }
  | _ => engine

/-- A call of the engine inside a `try` block. -/
def tryApply (env : Env) (engine : TransactionEngine) (txn : STTx)
    (params : TransactionEngineParams) : Except Fault (TER × Bool) × TransactionEngine :=
  match engine.applyTransaction env txn params with
  | .ok (result, engine) => (.ok result, engine)
  | .error fault => (.error fault, engine.thrown env txn params)

end TransactionEngine

/-- What a node looks up outside the ledger it builds. -/
structure NodeState where
  env : Env
  hashRouter : TxID → SuppressionFlags

/-- A computation on an engine; the number of its calls so far says when the
node's own state is looked at. -/
abbrev Build := StateM (TransactionEngine × Nat)

namespace Build

def getFlags (node : Nat → NodeState) (id : TxID) : Build SuppressionFlags :=
  fun s => ((node s.2).hashRouter id, s)

def engine (node : Nat → NodeState) (txn : STTx) (params : TransactionEngineParams) :
    Build (Except Fault (TER × Bool)) :=
  fun s =>
    let (result, engine) := s.1.tryApply (node s.2).env txn params
    (result, engine, s.2 + 1)

def hasTransaction (id : TxID) : Build Bool := fun s => (s.1.mLedger.hasTransaction id, s)

end Build

/-- The consensus set applied to `newLCL`, against which it is checked too. -/
def applyConsensusSet (node : Nat → NodeState) (set : List (TxID × Option STTx))
    (setHash : TxSetHash) (newLCL : LedgerRecord) : LedgerRecord :=
  let engine : TransactionEngine := ⟨newLCL.toLedger, { mLedger := newLCL.toLedger }, 0⟩
  let (_, engine, _) := (Consensus.applyTransactions Build.hasTransaction
    (Consensus.applyTransaction (Build.getFlags node) (Build.engine node) newLCL.mCloseTime false)
    set { mSetHash := setHash }).run (engine, 0)
  { newLCL with toLedger := engine.mLedger }

/-- The ledger that `accept` builds on `mPreviousLedger`, before it is accepted. -/
def buildLCL [LedgerHashes] [SHAMapHash] (config : FeeConfig) (closeTimeNC : UInt32)
    (node : Nat → NodeState) (stTx : Blob → Option STTx) (mPreviousLedger : LedgerRecord)
    (set : SHAMap) : Option LedgerRecord := do
  let newLCL ← mPreviousLedger.next config closeTimeNC
  let items := set.toList.map fun e => (e.1, stTx e.2)
  return (applyConsensusSet node items (SHAMapHash.getHash set) newLCL).updateSkipList

end Skywell
