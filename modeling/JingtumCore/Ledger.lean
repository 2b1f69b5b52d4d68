import JingtumCore.STTx
import Mathlib.Data.List.Sort

/-!
# Ledgers and transaction metadata

A ledger holds the account state map and the transaction map. The map nodes,
their hashes and their wire form are left out: a map is its finite contents.
The fee schedule is the one a ledger has once `updateFees` has run.
-/
namespace Skywell
open U64Field AccountField Std

inductive NodeKind where
  | created | modified | deleted
  deriving DecidableEq

/-- One entry of `sfAffectedNodes`. -/
structure AffectedNode where
  kind : NodeKind
  ledgerIndex : Key
  ledgerEntryType : LedgerEntryType
  previousTxnID : Option TxID := none
  previousTxnLgrSeq : Option UInt32 := none
  previousFields : Option SLE := none
  finalFields : Option SLE := none
  newFields : Option SLE := none

structure TransactionMetaSet where
  mTransactionID : TxID := 0
  mLedger : UInt32 := 0
  mIndex : UInt32 := 0xffffffff
  mResult : TER := .tesSUCCESS
  mDelivered : Option STAmount := none
  mNodes : List AffectedNode := []

namespace TransactionMetaSet

def init (s : TransactionMetaSet) (id : TxID) (ledger : UInt32) : TransactionMetaSet :=
  { s with mTransactionID := id, mLedger := ledger, mNodes := [], mDelivered := none }

def clear (s : TransactionMetaSet) : TransactionMetaSet := { s with mNodes := [] }

def setDeliveredAmount (s : TransactionMetaSet) (amount : STAmount) : TransactionMetaSet :=
  { s with mDelivered := some amount }

def isNodeAffected (s : TransactionMetaSet) (node : Key) : Bool :=
  s.mNodes.any fun n => n.ledgerIndex == node

/-- Changes the affected node of an index in place. -/
def updateNode (s : TransactionMetaSet) (node : Key) (f : AffectedNode → AffectedNode) :
    TransactionMetaSet :=
  { s with mNodes := s.mNodes.map fun n => if n.ledgerIndex = node then f n else n }

def setAffectedNode (s : TransactionMetaSet) (node : Key) (kind : NodeKind)
    (nodeType : LedgerEntryType) : TransactionMetaSet :=
  if s.isNodeAffected node then
    s.updateNode node fun n => { n with kind := kind, ledgerEntryType := nodeType }
  else { s with mNodes := s.mNodes ++ [⟨kind, node, nodeType, none, none, none, none, none⟩] }

/-- `getAffectedNode (SLE::ref, type)`: makes the node of the entry if it has none. -/
def getAffectedNode (s : TransactionMetaSet) (node : Key) (kind : NodeKind) :
    TransactionMetaSet :=
  if s.isNodeAffected node then s
  else { s with mNodes := s.mNodes ++ [⟨kind, node, node.type, none, none, none, none, none⟩] }

/-- Whether the node of an index has recorded a thread. -/
def hasThread (s : TransactionMetaSet) (node : Key) : Bool :=
  s.mNodes.any fun n => n.ledgerIndex == node && n.previousTxnID.isSome

/-- `TransactionMetaSet::thread` on the node of an index; a thread already
recorded stays. -/
def thread (s : TransactionMetaSet) (node : Key) (prevTxID : TxID) (prevLgrID : UInt32) :
    TransactionMetaSet :=
  s.updateNode node fun n => match n.previousTxnID with
    | none => { n with previousTxnID := some prevTxID, previousTxnLgrSeq := some prevLgrID }
    | some _ => n

/-- `addRaw`: what is stored with the transaction. -/
def addRaw [Sha512Half] (s : TransactionMetaSet) (result : TER) (index : UInt32) :
    TransactionMetaSet :=
  { s with
    mResult := result
    mIndex := index
    mNodes := s.mNodes.insertionSort fun a b => Key.cmp a.ledgerIndex b.ledgerIndex ≠ .gt }

end TransactionMetaSet

/-- What the transaction map holds: the metadata is there in closed ledgers. -/
structure TxItem where
  txn : STTx
  metaData : Option TransactionMetaSet

abbrev StateMap [Sha512Half] := ExtTreeMap Key SLE Key.cmp

structure Ledger [Sha512Half] where
  mAccountStateMap : StateMap
  mTransactionMap : ExtTreeMap TxID TxItem compare
  mLedgerSeq : UInt32
  mBaseFee : UInt64
  mReferenceFeeUnits : UInt32
  mReserveBase : UInt32
  mReserveIncrement : UInt32

/-- The configured accounts and fee. -/
structure Config where
  FEE_ACCOUNTID : Account
  SMNG_ACCOUNTID : Account
  SISSUER_ACCOUNTID : Account
  TRANSACTION_FEE_BASE : UInt64

namespace Ledger
variable [Sha512Half]

def getSLE (l : Ledger) (k : Key) : Option SLE := l.mAccountStateMap[k]?

def hasTransaction (l : Ledger) (id : TxID) : Bool := l.mTransactionMap.contains id

/-- `getReserve (int)`: the count is converted to a signed number first. -/
def getReserve (l : Ledger) (increments : UInt32) : UInt64 :=
  increments.toInt32.toInt64.toUInt64 * l.mReserveIncrement.toUInt64 + l.mReserveBase.toUInt64

def checkBlackList (l : Ledger) (a : Account) : Bool := (l.getSLE (getBlackListIndex a)).isSome

def getFeeAccountID (l : Ledger) (config : Config) : Account :=
  match l.getSLE .manageFee with
  | some sle => sle.getFieldAccount160 sfFeeAccountID
  | none => config.FEE_ACCOUNTID

def getIssuerOpAccountID (l : Ledger) (config : Config) : Account :=
  match l.getSLE .manageIssuer with
  | some sle => sle.getFieldAccount160 sfIssuerAccountID
  | none => config.SISSUER_ACCOUNTID

/-- `writeBack`; `create` says that `lepCREATE` is given. -/
def writeBack (l : Ledger) (create : Bool) (k : Key) (entry : SLE) : Ledger :=
  if !l.mAccountStateMap.contains k && !create then l
  else { l with mAccountStateMap := l.mAccountStateMap.insert k entry }

def delItem (l : Ledger) (k : Key) : Ledger :=
  { l with mAccountStateMap := l.mAccountStateMap.erase k }

/-- `addTransaction`; nothing is added over a transaction already there. -/
def addTransaction (l : Ledger) (id : TxID) (item : TxItem) : Option Ledger :=
  if l.hasTransaction id then none
  else some { l with mTransactionMap := l.mTransactionMap.insert id item }

/-- One page after the other from `current`; `pages` bounds the pages that can
be read before some page is read twice. -/
def visitPages (l : Ledger) (root : Key) :
    Nat → Key → Except Fault (List (Key × Option SLE))
  | 0, _ => .error .endlessLoop
  | pages + 1, current =>
    match l.getSLE current with
    | none => .ok []
    | some ownerDir =>
      let items := ownerDir.getIndexes.map fun node => (node, l.getSLE node)
      let next := ownerDir.getFieldU64 sfIndexNext
      if next = 0 then .ok items
      else do
        let rest ← visitPages l root pages (getDirNodeIndex root next)
        return items ++ rest

/-- The items of an account's owner directory, in the order they are visited. -/
def visitAccountItems (l : Ledger) (a : Account) : Except Fault (List (Key × Option SLE)) :=
  visitPages l (getOwnerDirIndex a) (l.mAccountStateMap.size + 1) (getOwnerDirIndex a)

end Ledger

end Skywell
