import JingtumCore.HashRouter
import JingtumCore.Interleaving
import JingtumCore.LedgerAccept

/-!
# The threads of a node

What a node does with transactions, as threads on its state: receiving them
from a peer outside its cluster, submitting them, holding them and applying
those held, and applying the consensus set. Each call of the hash router, of
the engine and of a lock-protected container is one step; the mutexes that rule
out some of the orders in which these steps can be taken are left out. The
calls that the properties are about are recorded.
-/
namespace Skywell
open Interleaving Consensus Std
variable [Sha512Half]

inductive TransStatus where
  | NEW | INVALID | INCLUDED | HELD | OBSOLETE
  deriving DecidableEq

/-- `Transaction`: a transaction and what has become of it. -/
structure Transaction where
  mTransaction : STTx
  mStatus : TransStatus := .INVALID
  mResult : TER := .temUNCERTAIN

def Transaction.getID (t : Transaction) : TxID := t.mTransaction.getTransactionID

/-- The jobs on transactions in the job queue. -/
inductive Job where
  | checkTransaction (flags : SuppressionFlags) (stx : STTx)
  | processTransaction (trans : Transaction) (bAdmin bLocal bFailHard : Bool)

/-- A call that has been made. -/
inductive NodeCall where
  | checkSign (id : TxID) (verdict : Bool)
  | setFlag (id : TxID) (flag : SuppressionFlags)
  | applyTransaction (id : TxID) (params : TransactionEngineParams)
  deriving DecidableEq

structure Node where
  config : FeeConfig
  env : Env
  /-- `UptimeTimer`, in seconds. -/
  elapsedSeconds : Int
  closeTimeNC : UInt32
  needNetworkLedger : Bool
  validLedgerIndex : UInt32
  validatedLedgerAge : Int
  /-- Whether `mMode` is `omFULL`. -/
  omFULL : Bool
  /-- What is cached in a transaction about its signature. -/
  sig_state : STTx → SigState
  passesLocalChecks : STTx → Except Fault Bool
  hashRouter : HashRouter := {}
  jobs : List Job := []
  mHeldTransactions : CanonicalTXSet := { mSetHash := 0 }
  m_localTX : List STTx := []
  mCache : ExtTreeMap TxID Transaction compare := ∅
  mCurrentLedger : LedgerRecord
  /-- The calls made so far, the last one first. -/
  history : List NodeCall := []

/-- A transaction with what is cached about its signature. -/
def STTx.withSigState : STTx → SigState → STTx
  | .mk common fields operations, sig_state =>
    .mk { common with sigState := sig_state } fields operations

/-- `STTx::checkSign`. -/
def STTx.checkSign (txn : STTx) : Bool :=
  match txn.common.sigState with
  | .good => true
  | .bad => false
  | .indeterminate => txn.common.checkSign

abbrev NodeM := Thread Node Fault

namespace Node

def read {α : Type} (f : Node → α) : NodeM α := .atomic fun n => (f n, n)

def record (n : Node) (call : NodeCall) : Node := { n with history := call :: n.history }

def checkSign (txn : STTx) : NodeM Bool :=
  .atomic fun n =>
    let verdict := (txn.withSigState (n.sig_state txn)).checkSign
    (verdict, n.record (.checkSign txn.getTransactionID verdict))

def passesLocal (txn : STTx) : NodeM Bool := do
  match ← read (·.passesLocalChecks txn) with
  | .ok passes => return passes
  | .error fault => throw fault

def addSuppressionPeer (id : TxID) : NodeM (Bool × SuppressionFlags) :=
  .atomic fun n =>
    let (result, hashRouter) := n.hashRouter.addSuppressionPeer n.elapsedSeconds id
    (result, { n with hashRouter })

def getFlags (id : TxID) : NodeM SuppressionFlags :=
  .atomic fun n =>
    let (flags, hashRouter) := n.hashRouter.getFlags n.elapsedSeconds id
    (flags, { n with hashRouter })

def setFlag (id : TxID) (flag : SuppressionFlags) : NodeM Bool :=
  .atomic fun n =>
    let (changed, hashRouter) := n.hashRouter.setFlag n.elapsedSeconds id flag
    (changed, { n with hashRouter }.record (.setFlag id flag))

def addSuppressionFlags (id : TxID) (flag : SuppressionFlags) : NodeM Bool :=
  .atomic fun n =>
    let (created, hashRouter) := n.hashRouter.addSuppressionFlags n.elapsedSeconds id flag
    (created, { n with hashRouter }.record (.setFlag id flag))

def addJob (job : Job) : NodeM Unit := .atomic fun n => ((), { n with jobs := job :: n.jobs })

/-- `TransactionEngine::applyTransaction` on an engine of the thread. -/
def engineApply (engine : TransactionEngine) (txn : STTx) (params : TransactionEngineParams) :
    NodeM (Except Fault (TER × Bool) × TransactionEngine) :=
  .atomic fun n =>
    (engine.tryApply n.env (txn.withSigState (n.sig_state txn)) params,
      n.record (.applyTransaction txn.getTransactionID params))

/-- `TransactionMaster::canonicalize`: the transaction known by the same id, if there is one. -/
def canonicalize (trans : Transaction) : NodeM Transaction :=
  .atomic fun n =>
    if trans.getID = 0 then (trans, n)
    else
      match n.mCache[trans.getID]? with
      | some known => (known, n)
      | none => (trans, { n with mCache := n.mCache.insert trans.getID trans })

def addHeldTransaction (trans : Transaction) : NodeM Unit :=
  .atomic fun n =>
    ((), { n with mHeldTransactions := n.mHeldTransactions.push_back trans.mTransaction })

def addLocalTx (txn : STTx) : NodeM Unit :=
  .atomic fun n => ((), { n with m_localTX := n.m_localTX ++ [txn] })

def setCurrentLedger (ledger : LedgerRecord) : NodeM Unit :=
  .atomic fun n => ((), { n with mCurrentLedger := ledger })

/-- The constructor of `Transaction`; `validate` says that it is `Validate::YES`. -/
def transaction (stx : STTx) (validate : Bool) : NodeM Transaction := do
  if !validate then return { mTransaction := stx, mStatus := .NEW }
  if !(← passesLocal stx) then return { mTransaction := stx }
  if !(← checkSign stx) then return { mTransaction := stx }
  return { mTransaction := stx, mStatus := .NEW }

/-- `LedgerMaster::doTransaction`. -/
def doTransaction (txn : STTx) (params : TransactionEngineParams) : NodeM (TER × Bool) := do
  let ledger ← read (·.mCurrentLedger)
  let (result, engine) ←
    engineApply ⟨ledger.toLedger, { mLedger := ledger.toLedger }, 0⟩ txn params
  match result with
  | .error fault => throw fault
  | .ok (ter, didApply) =>
    if didApply then setCurrentLedger { ledger with toLedger := engine.mLedger }
    return (ter, didApply)

/-- The start of `processTransactionCb`: whether the signature is known to be
good when it is over. -/
def knownGood (trans : Transaction) : NodeM Bool := do
  let newFlags ← getFlags trans.getID
  if newFlags.SF_BAD then return false
  if newFlags.SF_SIGGOOD then return true
  if ← checkSign trans.mTransaction then
    discard (setFlag trans.getID { SF_SIGGOOD := true })
    return true
  discard (setFlag trans.getID { SF_BAD := true })
  return false

/-- What `processTransactionCb` does about a result: the transaction, and
whether it is to be kept as a local one. -/
def processResult (trans : Transaction) (bLocal bFailHard : Bool) (r : TER) :
    NodeM (Transaction × Bool) := do
  if r = .tesSUCCESS then
    return (← canonicalize { trans with mStatus := .INCLUDED }, bLocal)
  if r = .tefPAST_SEQ then return ({ trans with mStatus := .OBSOLETE }, bLocal)
  if isTerRetry r then
    if bFailHard then return (trans, false)
    let trans ← canonicalize { trans with mStatus := .HELD }
    addHeldTransaction trans
    return (trans, bLocal)
  if isTelLocal r then return (trans, false)
  return ({ trans with mStatus := .INVALID }, bLocal)

/-- The end of `processTransactionCb`; the message to the peers is left out. -/
def relay (trans : Transaction) (didApply bLocal bFailHard : Bool) : NodeM Unit := do
  let omFULL ← read (·.omFULL)
  if didApply || (!omFULL && !bFailHard && bLocal) then
    discard (setFlag trans.getID { SF_RELAYED := true })

/-- The rest of `processTransactionCb`. -/
def processGood (trans : Transaction) (bAdmin bLocal bFailHard : Bool) : NodeM Transaction := do
  let (r, didApply) ← doTransaction trans.mTransaction
    { tapOPEN_LEDGER := true, tapNO_CHECK_SIGN := true, tapADMIN := bAdmin }
  let trans := { trans with mResult := r }
  if isTemMalformed r then discard (setFlag trans.getID { SF_BAD := true })
  if r = .tefFAILURE then throw (.runtimeError "IO_ERROR")
  let (trans, addLocal) ← processResult trans bLocal bFailHard r
  if addLocal then addLocalTx trans.mTransaction
  relay trans didApply bLocal bFailHard
  return trans

def processTransactionCb (trans : Transaction) (bAdmin bLocal bFailHard : Bool) :
    NodeM Transaction := do
  if ← knownGood trans then processGood trans bAdmin bLocal bFailHard
  else return { trans with mStatus := .INVALID, mResult := .temBAD_SIGNATURE }

/-- `submitTransaction` where the verdict on the signature is not cached:
whether the transaction is to be processed. -/
def submitUnchecked (trans : STTx) : NodeM Bool := do
  let id := trans.getTransactionID
  if !(← passesLocal trans) then
    discard (setFlag id { SF_BAD := true })
    return false
  if !(← checkSign trans) then
    discard (setFlag id { SF_BAD := true })
    return false
  discard (setFlag id { SF_SIGGOOD := true })
  return true

/-- `NetworkOPs::submitTransaction`. -/
def submitTransaction (trans : STTx) : NodeM Unit := do
  if ← read (·.needNetworkLedger) then return
  let (created, flags) ← addSuppressionPeer trans.getTransactionID
  if created && flags.SF_RETRY then return
  if flags.SF_BAD then return
  let good ← if flags.SF_SIGGOOD then pure true
    else tryCatch (submitUnchecked trans) fun _ => pure false
  if good then
    let trans ← transaction trans false
    addJob (.processTransaction trans false false false)

/-- `submitTransactionSync`. -/
def submitTransactionSync (stx : STTx) (bAdmin bLocal bFailHard bSubmit : Bool) :
    NodeM Unit := do
  let trans ← transaction stx true
  if bSubmit then discard (processTransactionCb trans bAdmin bLocal bFailHard)

/-- `doSubmit` with a transaction blob. -/
def doSubmit (stx : STTx) (admin failHard : Bool) : NodeM Unit := do
  let trans ← transaction stx true
  if trans.mStatus = .NEW then discard (processTransactionCb trans admin true failHard)

/-- `PeerImp::onMessage (TMTransaction)` for a peer outside the cluster. -/
def onMessage (stx : STTx) : NodeM Unit := do
  if ← read (·.needNetworkLedger) then return
  let (created, flags) ← addSuppressionPeer stx.getTransactionID
  if !created && (flags.SF_BAD || !flags.SF_RETRY) then return
  let jobCount ← read (·.jobs.length)
  let age ← read (·.validatedLedgerAge)
  if jobCount > 100 || age > 240 then return
  addJob (.checkTransaction flags stx)

/-- The body of `PeerImp::checkTransaction`. -/
def checkReceived (flags : SuppressionFlags) (stx : STTx) : NodeM Unit := do
  let id := stx.getTransactionID
  let validLedgerIndex ← read (·.validLedgerIndex)
  if stx.common.lastLedgerSequence.any (· < validLedgerIndex) then
    discard (setFlag id { SF_BAD := true })
  else
    let tx ← transaction stx (!flags.SF_SIGGOOD)
    if tx.mStatus = .INVALID then discard (setFlag id { SF_BAD := true })
    else
      discard (setFlag id { SF_SIGGOOD := true })
      discard (processTransactionCb tx flags.SF_TRUSTED false false)

/-- `PeerImp::checkTransaction`. -/
def checkTransaction (flags : SuppressionFlags) (stx : STTx) : NodeM Unit :=
  tryCatch (checkReceived flags stx) fun _ =>
    discard (setFlag stx.getTransactionID { SF_BAD := true })

def runJob : Job → NodeM Unit
  | .checkTransaction flags stx => checkTransaction flags stx
  | .processTransaction tx bAdmin bLocal bFailHard =>
    discard (processTransactionCb tx bAdmin bLocal bFailHard)

/-- One held transaction: it is applied without a check of its signature if
its entry had expired. -/
def applyHeld (engine : TransactionEngine) (held : CanonicalTXSet.Key × STTx) :
    NodeM TransactionEngine := do
  let created ← addSuppressionFlags held.1.mTXid { SF_SIGGOOD := true }
  let (_, engine) ← engineApply engine held.2
    { tapOPEN_LEDGER := true, tapNO_CHECK_SIGN := created }
  return engine

/-- `LedgerMaster::applyHeldTransactions`. -/
def applyHeldTransactions [LedgerHashes] : NodeM Unit := do
  let ledger ← read (·.mCurrentLedger)
  let held ← read (·.mHeldTransactions.mMap.toList)
  let engine : TransactionEngine := ⟨ledger.toLedger, { mLedger := ledger.toLedger }, 0⟩
  let engine ← held.foldlM applyHeld engine
  let ledger := { ledger with toLedger := engine.mLedger }
  .atomic fun n => ((), { n with
    mHeldTransactions := n.mHeldTransactions.reset ledger.getHash
    mCurrentLedger := ledger })

/-- `LocalTxs::apply`. -/
def applyLocal (ledger : Ledger) : NodeM Ledger := do
  let txns ← read (·.m_localTX)
  let tset := txns.foldl CanonicalTXSet.push_back { mSetHash := 0 }
  let engine : TransactionEngine := ⟨ledger, { mLedger := ledger }, 0⟩
  let engine ← tset.mMap.toList.foldlM (fun engine e => do
    let (_, engine) ← engineApply engine e.2 { tapOPEN_LEDGER := true }
    return engine) engine
  return engine.mLedger

/-- A part of a thread that works on an engine. -/
abbrev EngineM := StateT TransactionEngine NodeM

def engineFlags (id : TxID) : EngineM SuppressionFlags := StateT.lift (getFlags id)

def engineCall (txn : STTx) (params : TransactionEngineParams) :
    EngineM (Except Fault (TER × Bool)) :=
  fun engine => engineApply engine txn params

/-- Whether `checkLedger`, or else the ledger of the engine, has a transaction. -/
def engineHas (checkLedger : Option Ledger) (id : TxID) : EngineM Bool :=
  fun engine => pure ((checkLedger.getD engine.mLedger).hasTransaction id, engine)

/-- `applyTransactions` on a ledger of the thread. -/
def applySet (set : List (TxID × Option STTx)) (applyLedger : LedgerRecord)
    (checkLedger : Option Ledger) (retriableTransactions : CanonicalTXSet) (openLgr : Bool) :
    NodeM (LedgerRecord × CanonicalTXSet) := do
  let (retriableTransactions, engine) ← applyTransactions (engineHas checkLedger)
    (applyTransaction engineFlags engineCall applyLedger.mCloseTime openLgr) set
    retriableTransactions ⟨applyLedger.toLedger, { mLedger := applyLedger.toLedger }, 0⟩
  return ({ applyLedger with toLedger := engine.mLedger }, retriableTransactions)

/-- `LedgerConsensusImp::accept`, as far as it applies transactions. `disputes`
are the disputed transactions that were voted against. -/
def accept [LedgerHashes] (mPreviousLedger : LedgerRecord) (set : List (TxID × Option STTx))
    (setHash : TxSetHash) (closeTime : UInt32) (mCloseResolution : Int)
    (closeTimeCorrect : Bool) (disputes : List (Option STTx)) : NodeM Unit := do
  let config ← read (·.config)
  let closeTimeNC ← read (·.closeTimeNC)
  match mPreviousLedger.next config closeTimeNC with
  | none => return
  | some newLCL =>
    let (newLCL, retriableTransactions) ←
      applySet set newLCL none { mSetHash := setHash } false
    let newLCL := newLCL.updateSkipList.setAccepted closeTime mCloseResolution closeTimeCorrect
    let closeTimeNC ← read (·.closeTimeNC)
    match newLCL.next config closeTimeNC with
    | none => return
    | some newOL =>
      let retriableTransactions := disputes.reduceOption.foldl CanonicalTXSet.push_back
        retriableTransactions
      let (newOL, retriableTransactions) ← if disputes.reduceOption.isEmpty
        then pure (newOL, retriableTransactions)
        else applySet [] newOL (some newLCL.toLedger) retriableTransactions true
      let oldOL ← read (·.mCurrentLedger.mTransactionMap.toList)
      let set := oldOL.map fun e => (e.1, some e.2.txn)
      let (newOL, _) ← if set.isEmpty
        then pure (newOL, retriableTransactions)
        else applySet set newOL (some newLCL.toLedger) retriableTransactions true
      let ledger ← applyLocal newOL.toLedger
      .atomic fun n => ((), { n with
        env := { n.env with closedLedger := newLCL.toLedger }
        mCurrentLedger := { newOL with toLedger := ledger } })

/-- The threads that can start. -/
inductive Starts [LedgerHashes] : Node → NodeM Unit → Node → Prop
  | onMessage (n stx) : Starts n (Node.onMessage stx) n
  | submitTransaction (n stx) : Starts n (Node.submitTransaction stx) n
  | submitTransactionSync (n stx bAdmin bLocal bFailHard bSubmit) :
      Starts n (Node.submitTransactionSync stx bAdmin bLocal bFailHard bSubmit) n
  | doSubmit (n stx admin failHard) : Starts n (Node.doSubmit stx admin failHard) n
  | job (n : Node) (before after : List Job) (job : Job) (h : n.jobs = before ++ job :: after) :
      Starts n (runJob job) { n with jobs := before ++ after }
  | applyHeldTransactions (n) : Starts n Node.applyHeldTransactions n
  | accept (n mPreviousLedger set setHash closeTime mCloseResolution closeTimeCorrect disputes) :
      Starts n (Node.accept mPreviousLedger set setHash closeTime mCloseResolution
        closeTimeCorrect disputes) n

/-- What the rest of the node may do meanwhile: anything, except that it sets
no `SF_SIGGOOD`, adds no job on a transaction and holds none, and keeps a
transaction in the cache under its own id. Entries of the router may expire. -/
structure Drifts (n n' : Node) : Prop where
  hashRouter : n'.hashRouter.GoodOnly fun id =>
    ∃ flags, n.hashRouter.mSuppressionMap[id]? = some flags ∧ flags.SF_SIGGOOD
  jobs : ∀ job ∈ n'.jobs, job ∈ n.jobs
  mHeldTransactions : n'.mHeldTransactions = n.mHeldTransactions
  mCache : (∀ (id) (tx : Transaction), n.mCache[id]? = some tx → tx.getID = id) →
    ∀ (id) (tx : Transaction), n'.mCache[id]? = some tx → tx.getID = id
  history : n'.history = n.history

def system [LedgerHashes] : System Node Fault := ⟨Starts, Drifts⟩

/-- A node that has just been started. -/
structure Fresh (n : Node) : Prop where
  hashRouter : n.hashRouter.mSuppressionMap = ∅
  jobs : n.jobs = []
  mHeldTransactions : n.mHeldTransactions.mMap = ∅
  mCache : n.mCache = ∅
  history : n.history = []

end Node

end Skywell
