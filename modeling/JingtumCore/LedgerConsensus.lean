import JingtumCore.DisputedTx
import JingtumCore.LedgerTiming
import Mathlib.Logic.Equiv.List

/-!
# A consensus round

`LedgerConsensusImp`, from its construction to the moment it accepts a set,
with the part of `InboundTransactions` it works on. A transaction set is its
contents; its hash is injective. Messages to peers, the hash router's relay
flags and assertions are left out. The unordered maps of the code are visited
in key order.
-/
namespace Skywell
open Std

abbrev LedgerHash := Nat

/-- The hash of a transaction set. -/
abbrev TxSetHash := Nat

/-- A `SHAMap` of transactions: the serialized transactions by their id. -/
abbrev SHAMap := ExtTreeMap TxID Blob compare

class SHAMapHash where
  getHash : SHAMap → TxSetHash
  injective : Function.Injective getHash

namespace SHAMap

/-- A hash to run the model with. -/
@[reducible] def coded : SHAMapHash where
  getHash m := Encodable.encode (m.toList.map fun e => (e.1, e.2.map UInt8.toNat))
  injective := by
    intro m1 m2 h
    have blobs : Function.Injective (List.map UInt8.toNat) :=
      List.map_injective_iff.2 fun _ _ => UInt8.toNat_inj.1
    have items : Function.Injective fun e : TxID × Blob => (e.1, e.2.map UInt8.toNat) :=
      Function.injective_id.prodMap blobs
    exact ExtTreeMap.toList_inj.1 (List.map_injective_iff.2 items (Encodable.encode_injective h))

def hasItem (m : SHAMap) (id : TxID) : Bool := m.contains id

/-- `addItem`; an item that is there stays. -/
def addItem (m : SHAMap) (id : TxID) (data : Blob) : SHAMap := m.insertIfNew id data

def delItem (m : SHAMap) (id : TxID) : SHAMap := m.erase id

/-- Where two sets differ, with what the first and the second have there. -/
def delta (m1 m2 : SHAMap) : List (TxID × Option Blob × Option Blob) :=
  (m1.toList.filter fun e => m2[e.1]? ≠ some e.2).map (fun e => (e.1, some e.2, m2[e.1]?)) ++
    (m2.toList.filter fun e => !m1.contains e.1).map fun e => (e.1, none, some e.2)

/-- `compare`: at most `maxCount` differences are found. -/
def differences (m1 m2 : SHAMap) (maxCount : Nat) : List (TxID × Option Blob × Option Blob) :=
  (m1.delta m2).take maxCount

end SHAMap

structure LedgerProposal where
  mPreviousLedger : LedgerHash
  mCurrentHash : TxSetHash
  mCloseTime : UInt32
  mProposeSeq : UInt32 := 0
  mPeerID : NodeID := 0
  /-- When it was made or last changed, in nanoseconds. -/
  mTime : Int
  hasSignature : Bool := false
  /-- The previous ledger its signature was made over, if the signature is good. -/
  signedOver : Option LedgerHash := none

namespace LedgerProposal

def seqLeave : UInt32 := 0xffffffff

def isBowOut (p : LedgerProposal) : Bool := p.mProposeSeq == seqLeave

def isStale (p : LedgerProposal) (cutoff : Int) : Bool := p.mTime ≤ cutoff

def checkSign (p : LedgerProposal) : Bool := p.signedOver == some p.mPreviousLedger

def bowOut (p : LedgerProposal) (now : Int) : LedgerProposal :=
  { p with mTime := now, mProposeSeq := seqLeave }

def changePosition (p : LedgerProposal) (newPosition : TxSetHash) (closeTime : UInt32)
    (now : Int) : Option LedgerProposal :=
  if p.mProposeSeq = seqLeave then none
  else some { p with
    mCurrentHash := newPosition
    mCloseTime := closeTime
    mTime := now
    mProposeSeq := p.mProposeSeq + 1 }

end LedgerProposal

structure InboundTransactionSet where
  mSeq : UInt32 := 0
  /-- Whether the set is being acquired. -/
  mAcquire : Bool := false
  mSet : Option SHAMap := none

structure InboundTransactions where
  m_map : ExtTreeMap TxSetHash InboundTransactionSet compare := ∅
  m_seq : UInt32 := 0
  isStopping : Bool := false

namespace InboundTransactions

def getSet (i : InboundTransactions) (hash : TxSetHash) (acquire : Bool) :
    Option SHAMap × InboundTransactions :=
  match i.m_map[hash]? with
  | some it =>
    (it.mSet,
      if acquire then { i with m_map := i.m_map.insert hash { it with mSeq := i.m_seq } } else i)
  | none =>
    if !acquire || i.isStopping then (none, i)
    else (none, { i with m_map := i.m_map.insert hash { mSeq := i.m_seq, mAcquire := true } })

/-- `giveSet`, without the call of `gotSet` that follows it. -/
def giveSet (i : InboundTransactions) (hash : TxSetHash) (set : SHAMap) : InboundTransactions :=
  let inboundSet := i.m_map.getD hash {}
  let inboundSet : InboundTransactionSet := {
    mSeq := if inboundSet.mSeq < i.m_seq then i.m_seq else inboundSet.mSeq
    mAcquire := false
    mSet := inboundSet.mSet <|> some set }
  { i with m_map := i.m_map.insert hash inboundSet }

end InboundTransactions

inductive LCState where
  | lcsPRE_CLOSE | lcsESTABLISH | lcsFINISHED | lcsACCEPTED
  deriving DecidableEq

/-- What a round reads of a closed ledger. -/
structure LedgerInfo where
  hash : LedgerHash
  parentHash : LedgerHash := 0
  mLedgerSeq : UInt32 := 0
  mCloseResolution : Int := 30
  closeAgree : Bool := true

/-- A null pointer that is dereferenced, or a resolution that is not in the table. -/
inductive ConsensusFault where
  | nullPosition | nullSet | noResolution
  deriving DecidableEq

structure LedgerConsensus where
  inbound : InboundTransactions
  mState : LCState := .lcsPRE_CLOSE
  mCloseTime : UInt32 := 0
  mPrevLedgerHash : LedgerHash
  mAcquiringLedger : LedgerHash := 0
  mPreviousLedger : LedgerInfo
  mOurPosition : Option LedgerProposal := none
  mProposing : Bool := false
  mValidating : Bool := false
  mHaveCorrectLCL : Bool := false
  mConsensusFail : Bool := false
  mCurrentMSeconds : Int := 0
  mClosePercent : Int := 0
  mCloseResolution : Int := 30
  mHaveCloseTimeConsensus : Bool := false
  mPreviousProposers : Int := 0
  mPreviousMSeconds : Int := 0
  mPeerPositions : ExtTreeMap NodeID LedgerProposal compare := ∅
  /-- The sets by hash; a set that was reported invalid is there as `none`. -/
  mAcquired : ExtTreeMap TxSetHash (Option SHAMap) compare := ∅
  mDisputes : ExtTreeMap TxID DisputedTx compare := ∅
  mCompares : ExtTreeSet TxSetHash compare := ∅
  mCloseTimes : ExtTreeMap UInt32 Int compare := ∅
  mDeadNodes : ExtTreeSet NodeID compare := ∅

namespace LedgerConsensus
open ContinuousLedgerTiming

/-- The set that was acquired for a hash, and is valid. -/
def acquired (s : LedgerConsensus) (hash : TxSetHash) : Option SHAMap := (s.mAcquired[hash]?).join

/-- Our own vote on a transaction, when a dispute about it is found. -/
def ourVote (s : LedgerConsensus) (txID : TxID) : Except ConsensusFault Bool :=
  match s.mOurPosition with
  | none => return false
  | some ours =>
    match s.mAcquired[ours.mCurrentHash]? with
    | none => return false
    | some none => throw .nullSet
    | some (some set) => return set.hasItem txID

/-- The vote of one peer, if we have its set. -/
def votePeer (s : LedgerConsensus) (txID : TxID) (txn : DisputedTx)
    (pit : NodeID × LedgerProposal) : DisputedTx :=
  match s.acquired pit.2.mCurrentHash with
  | some set => txn.setVote pit.1 (set.hasItem txID)
  | none => txn

def peerVotes (s : LedgerConsensus) (txID : TxID) (txn : DisputedTx) : DisputedTx :=
  s.mPeerPositions.toList.foldl (s.votePeer txID) txn

def addDisputedTransaction (s : LedgerConsensus) (txID : TxID) (tx : Blob) :
    Except ConsensusFault LedgerConsensus := do
  if s.mDisputes.contains txID then return s
  let ourVote ← s.ourVote txID
  let txn := s.peerVotes txID { mTransactionID := txID, transaction := tx, mOurVote := ourVote }
  return { s with mDisputes := s.mDisputes.insert txID txn }

def maxDifferences : Nat := 16384

def addDifference (s : LedgerConsensus) (pos : TxID × Option Blob × Option Blob) :
    Except ConsensusFault LedgerConsensus :=
  match pos with
  | (txID, some tx, _) => s.addDisputedTransaction txID tx
  | (txID, none, some tx) => s.addDisputedTransaction txID tx
  | (_, none, none) => return s

section
variable [SHAMapHash]
open SHAMapHash

def createDisputes (s : LedgerConsensus) (m1 m2 : SHAMap) :
    Except ConsensusFault LedgerConsensus :=
  if getHash m1 = getHash m2 then return s
  else (m1.differences m2 maxDifferences).foldlM addDifference s

/-- A set is noted as compared with our own. -/
def noteCompare (s : LedgerConsensus) (hash : TxSetHash) : LedgerConsensus :=
  { s with mCompares := s.mCompares.insert hash }

def adjustCount (s : LedgerConsensus) (map : SHAMap) (peers : List NodeID) : LedgerConsensus :=
  { s with mDisputes := s.mDisputes.map fun _ d =>
      let setHas := map.hasItem d.mTransactionID
      peers.foldl (fun d pit => d.setVote pit setHas) d }

/-- The comparison of a new set with our own position. -/
def compareWithOurs (s : LedgerConsensus) (hash : TxSetHash) (map : SHAMap) :
    Except ConsensusFault LedgerConsensus :=
  match s.mOurPosition with
  | none => return s
  | some ours =>
    if !ours.isBowOut && hash != ours.mCurrentHash then
      match s.mAcquired[ours.mCurrentHash]? with
      | none => return s
      | some none => throw .nullSet
      | some (some set) => (s.noteCompare hash).createDisputes set map
    else return s

/-- The peers whose current position is a set. -/
def peersAt (s : LedgerConsensus) (hash : TxSetHash) : List NodeID :=
  (s.mPeerPositions.toList.filter fun it => it.2.mCurrentHash == hash).map fun it => it.2.mPeerID

/-- A set is recorded, and the votes of the peers at it follow. -/
def recordSet (s : LedgerConsensus) (hash : TxSetHash) (map : SHAMap) : LedgerConsensus :=
  { s with mAcquired := s.mAcquired.insert hash (some map) }.adjustCount map
    (s.peersAt (getHash map))

def mapCompleteInternal (s : LedgerConsensus) (hash : TxSetHash) (map : Option SHAMap)
    (acquired : Bool) : Except ConsensusFault LedgerConsensus :=
  match map with
  | none => return { s with mAcquired := s.mAcquired.insert hash none }
  | some map =>
    match s.mAcquired[hash]? with
    | some (some _) => return s
    | _ => do
      let s := { s with
        mAcquired := s.mAcquired.erase hash
        inbound := if acquired then s.inbound else s.inbound.giveSet hash map }
      let s ← s.compareWithOurs hash map
      return s.recordSet hash map

def getTransactionTree (s : LedgerConsensus) (hash : TxSetHash) :
    Option SHAMap × LedgerConsensus :=
  match s.mAcquired[hash]? with
  | some (some set) => (some set, s)
  | _ =>
    match s.inbound.getSet hash true with
    | (some set, inbound) =>
      (some set, { s with inbound, mAcquired := s.mAcquired.insert hash (some set) })
    | (none, inbound) => (none, { s with inbound })

/-- A peer's votes on the disputes follow a set. -/
def votesFollow (s : LedgerConsensus) (peerID : NodeID) (set : SHAMap) : LedgerConsensus :=
  { s with mDisputes := s.mDisputes.map fun id d => d.setVote peerID (set.hasItem id) }

/-- A peer's position that counts: it is kept, and the peer's votes follow it. -/
def takePosition (s : LedgerConsensus) (newPosition : LedgerProposal) : LedgerConsensus :=
  let s := { s with mPeerPositions := s.mPeerPositions.insert newPosition.mPeerID newPosition }
  match s.getTransactionTree newPosition.mCurrentHash with
  | (some set, s) => s.votesFollow newPosition.mPeerID set
  | (none, s) => s

def peerBowsOut (s : LedgerConsensus) (peerID : NodeID) : LedgerConsensus :=
  { s with
    mDisputes := s.mDisputes.map fun _ d => d.unVote peerID
    mPeerPositions := s.mPeerPositions.erase peerID
    mDeadNodes := s.mDeadNodes.insert peerID }

/-- Whether the position is to be relayed, and the round afterwards. -/
def peerPosition (s : LedgerConsensus) (newPosition : LedgerProposal) : Bool × LedgerConsensus :=
  let peerID := newPosition.mPeerID
  if s.mDeadNodes.contains peerID then (false, s)
  else if (s.mPeerPositions[peerID]?).any fun currentPosition =>
      newPosition.mProposeSeq ≤ currentPosition.mProposeSeq then (false, s)
  else if newPosition.mProposeSeq = 0 then
    let mCloseTimes := s.mCloseTimes.alter newPosition.mCloseTime fun n => some (n.getD 0 + 1)
    (true, { s with mCloseTimes }.takePosition newPosition)
  else if newPosition.mProposeSeq = LedgerProposal.seqLeave then (true, s.peerBowsOut peerID)
  else (true, s.takePosition newPosition)

/-- What `closeLedger` works with: the open ledger's parent and transactions,
the fee and amendment votes of a flag ledger, and the times. -/
structure Closing where
  parentHash : LedgerHash
  transactions : SHAMap
  doVoting : SHAMap → SHAMap
  RUN_STANDALONE : Bool
  mCloseTime : UInt32
  now : Int

def initialSet (s : LedgerConsensus) (c : Closing) : SHAMap :=
  if (c.RUN_STANDALONE || (s.mProposing && s.mHaveCorrectLCL)) &&
      s.mPreviousLedger.mLedgerSeq % 256 == 0 then c.doVoting c.transactions
  else c.transactions

/-- One position that some peer has, compared with our initial set. -/
def compareInitial (initialSet : SHAMap) (s : LedgerConsensus) (set : TxSetHash) :
    Except ConsensusFault LedgerConsensus :=
  match s.mAcquired[set]? with
  | none => return s
  | some none => throw .nullSet
  | some (some map) =>
    (s.noteCompare (getHash map)).createDisputes initialSet map

def takeInitialPosition (s : LedgerConsensus) (c : Closing) :
    Except ConsensusFault LedgerConsensus := do
  let initialSet := s.initialSet c
  let txSet := getHash initialSet
  let s ← s.mapCompleteInternal txSet (some initialSet) false
  let s : LedgerConsensus := { s with
    mOurPosition := some {
      mPreviousLedger := c.parentHash
      mCurrentHash := txSet
      mCloseTime := s.mCloseTime
      mTime := c.now }
    mDisputes := s.mDisputes.map fun id d => d.setOurVote (c.transactions.hasItem id) }
  let found := (s.mPeerPositions.toList.map fun it => it.2.mCurrentHash).dedup
  found.foldlM (compareInitial initialSet) s

def closeLedger (s : LedgerConsensus) (c : Closing) : Except ConsensusFault LedgerConsensus :=
  { s with mState := .lcsESTABLISH, mCloseTime := c.mCloseTime }.takeInitialPosition c

def leaveConsensus (s : LedgerConsensus) (now : Int) : LedgerConsensus :=
  if s.mProposing then
    { s with
      mProposing := false
      mOurPosition := s.mOurPosition.map fun p => if p.isBowOut then p else p.bowOut now }
  else s

def second : Int := 1000000000

def removeStale (s : LedgerConsensus) (peerCutoff : Int) : LedgerConsensus :=
  let stale := s.mPeerPositions.toList.filter fun it => it.2.isStale peerCutoff
  { s with
    mDisputes := s.mDisputes.map fun _ d => stale.foldl (fun d it => d.unVote it.2.mPeerID) d
    mPeerPositions := s.mPeerPositions.filter fun _ it => !it.isStale peerCutoff }

/-- Our own set, as the code dereferences it. -/
def ourSet (s : LedgerConsensus) (ours : LedgerProposal) : Except ConsensusFault SHAMap :=
  match s.acquired ours.mCurrentHash with
  | some set => return set
  | none => throw .nullSet

/-- The disputes on which our vote changes now. -/
def flips (s : LedgerConsensus) : List (TxID × DisputedTx) :=
  s.mDisputes.toList.filter fun it => (it.2.updateVote s.mClosePercent s.mProposing).1

/-- One changed vote, carried into a copy of our set. -/
def applyFlip (s : LedgerConsensus) (ourPosition : SHAMap) (it : TxID × DisputedTx) : SHAMap :=
  let d := (it.2.updateVote s.mClosePercent s.mProposing).2
  if d.getOurVote then ourPosition.addItem it.1 d.transaction else ourPosition.delItem it.1

/-- Our votes are updated, and whether there is consensus on the close time is noted. -/
def voted (s : LedgerConsensus) (agreed : Bool) : LedgerConsensus :=
  { s with
    mDisputes := s.mDisputes.map fun _ d => (d.updateVote s.mClosePercent s.mProposing).2
    mHaveCloseTimeConsensus := agreed }

def roundCloseTime (s : LedgerConsensus) (closeTime : UInt32) : UInt32 :=
  Skywell.roundCloseTime closeTime (UInt32.ofInt s.mCloseResolution)

def computePercent (size percent : Int) : Int :=
  let result := (size * percent + percent.tdiv 2).tdiv 100
  if result = 0 then 1 else result

/-- The close times of the peers' positions, and how many have each. -/
def closeTimes (s : LedgerConsensus) : ExtTreeMap UInt32 Int compare :=
  s.mPeerPositions.toList.foldl (fun times it =>
    times.alter (s.roundCloseTime it.2.mCloseTime) fun n => some (n.getD 0 + 1)) ∅

/-- The vote on the close time: whether there is consensus, and the time. -/
def closeTimeVote (s : LedgerConsensus) (ours : LedgerProposal) : Bool × UInt32 :=
  if s.mPeerPositions.isEmpty then (true, s.roundCloseTime ours.mCloseTime)
  else
    let participants : Int := s.mPeerPositions.size + if s.mProposing then 1 else 0
    let closeTimes :=
      if s.mProposing then
        s.closeTimes.alter (s.roundCloseTime ours.mCloseTime) fun n => some (n.getD 0 + 1)
      else s.closeTimes
    let threshVote := computePercent participants (neededWeight s.mClosePercent)
    let threshConsensus := computePercent participants AV_CT_CONSENSUS_PCT
    let (agreed, closeTime, _) := closeTimes.toList.foldl
      (fun (agreed, closeTime, threshVote) it =>
        if it.2 ≥ threshVote then (agreed || it.2 ≥ threshConsensus, it.1, it.2)
        else (agreed, closeTime, threshVote)) (false, 0, threshVote)
    if !agreed && closeTimes.getD 0 0 > threshConsensus then (true, 0) else (agreed, closeTime)

/-- A new position, if we may still take one. -/
def changeOurPosition (s : LedgerConsensus) (ours : LedgerProposal) (ourPosition : SHAMap)
    (closeTime : UInt32) (now : Int) : Except ConsensusFault LedgerConsensus :=
  match ours.changePosition (getHash ourPosition) closeTime now with
  | none => return s
  | some ours =>
    { s with mOurPosition := some ours }.mapCompleteInternal (getHash ourPosition)
      (some ourPosition) false

/-- Our set with all changed votes carried in, if there are any. -/
def changedSet (s : LedgerConsensus) (ours : LedgerProposal) :
    Except ConsensusFault (Option SHAMap) :=
  if s.flips.isEmpty then return none
  else (fun set => some (s.flips.foldl s.applyFlip set)) <$> s.ourSet ours

/-- `updateOurPositions` once the stale positions are gone. -/
def revisePosition (s : LedgerConsensus) (ours : LedgerProposal) (now : Int) :
    Except ConsensusFault LedgerConsensus := do
  let changed ← s.changedSet ours
  let (agreed, closeTime) := s.closeTimeVote ours
  match changed with
  | some ourPosition => (s.voted agreed).changeOurPosition ours ourPosition closeTime now
  | none =>
    let ourCutoff := now - PROPOSE_INTERVAL * second
    if closeTime ≠ s.roundCloseTime ours.mCloseTime ∨ ours.isStale ourCutoff then do
      let ourPosition ← s.ourSet ours
      (s.voted agreed).changeOurPosition ours ourPosition closeTime now
    else return s.voted agreed

def updateOurPositions (s : LedgerConsensus) (now : Int) :
    Except ConsensusFault LedgerConsensus :=
  let s := s.removeStale (now - PROPOSE_FRESHNESS * second)
  match s.mOurPosition with
  | none => throw .nullPosition
  | some ours => s.revisePosition ours now

/-- The positions that count, by peer. -/
def proposers (s : LedgerConsensus) : List (NodeID × LedgerProposal) :=
  s.mPeerPositions.toList.filter fun it => !it.2.isBowOut

/-- A peer's set that has not been compared with ours yet is compared. -/
def compareOnce (ours : LedgerProposal) (s : LedgerConsensus) (hash : TxSetHash) :
    Except ConsensusFault LedgerConsensus :=
  if s.mCompares.contains hash then return s
  else
    match s.acquired hash, s.acquired ours.mCurrentHash with
    | some m2, some m1 => (s.noteCompare hash).createDisputes m1 m2
    | _, _ => return s

def haveConsensus (s : LedgerConsensus) (forReal : Bool) (currentValidations : Int) :
    Except ConsensusFault (Bool × LedgerConsensus) :=
  match s.mOurPosition with
  | none => throw .nullPosition
  | some ours => do
    let agree : Int := s.proposers.countP fun it => it.2.mCurrentHash == ours.mCurrentHash
    let disagreeing := s.proposers.filter fun it => it.2.mCurrentHash != ours.mCurrentHash
    let disagree : Int := disagreeing.length
    let s ← (disagreeing.map fun it => it.2.mCurrentHash).foldlM (compareOnce ours) s
    let (result, mConsensusFail) := ContinuousLedgerTiming.haveConsensus s.mPreviousProposers
      (agree + disagree) agree currentValidations s.mPreviousMSeconds s.mCurrentMSeconds forReal
      s.mConsensusFail
    return (result, { s with mConsensusFail })

/-- What is asked of the rest of the node when the last closed ledger changes. -/
structure Network where
  getLedgerByHash : LedgerHash → Option LedgerInfo
  peekStoredProposals : List LedgerProposal := []
  /-- The validated ledgers close to a favored and a prior one, with their counts. -/
  getCurrentValidations : LedgerHash → LedgerHash → List (LedgerHash × Int) := fun _ _ => []
  now : Int := 0

/-- One stored proposal, if it is for the ledger we are on now. -/
def playback (s : LedgerConsensus) (proposal : LedgerProposal) : LedgerConsensus :=
  if proposal.hasSignature then
    let proposal := { proposal with mPreviousLedger := s.mPrevLedgerHash }
    if proposal.checkSign then (s.peerPosition proposal).2 else s
  else if proposal.mPreviousLedger = s.mPrevLedgerHash then (s.peerPosition proposal).2
  else s

def playbackProposals (s : LedgerConsensus) (stored : List LedgerProposal) : LedgerConsensus :=
  stored.foldl playback s

/-- We are out of sync: we stop proposing, and what we know of the peers is dropped. -/
def outOfSync (s : LedgerConsensus) (lclHash : LedgerHash) (now : Int) : LedgerConsensus :=
  { s with
    mPrevLedgerHash := lclHash
    mOurPosition :=
      if s.mHaveCorrectLCL && s.mProposing then s.mOurPosition.map fun p => p.bowOut now
      else s.mOurPosition
    mProposing := false
    mPeerPositions := ∅
    mDisputes := ∅
    mCloseTimes := ∅
    mDeadNodes := ∅ }

/-- The round when `lclHash` is the ledger that is wanted. -/
def wanting (s : LedgerConsensus) (lclHash : LedgerHash) (net : Network) : LedgerConsensus :=
  if s.mPrevLedgerHash ≠ lclHash then
    (s.outOfSync lclHash net.now).playbackProposals net.peekStoredProposals
  else s

/-- The wanted ledger has to be acquired. -/
def acquiring (s : LedgerConsensus) : LedgerConsensus :=
  { s with mAcquiringLedger := s.mPrevLedgerHash, mHaveCorrectLCL := false }

/-- The wanted ledger is there. -/
def onLedger (s : LedgerConsensus) (newLCL : LedgerInfo) (lclHash : LedgerHash)
    (mCloseResolution : Int) : LedgerConsensus :=
  { s with
    mPreviousLedger := newLCL
    mPrevLedgerHash := lclHash
    mHaveCorrectLCL := true
    mCloseResolution }

def handleLCL (s : LedgerConsensus) (lclHash : LedgerHash) (net : Network) :
    Except ConsensusFault LedgerConsensus :=
  let s := s.wanting lclHash net
  if s.mPreviousLedger.hash = s.mPrevLedgerHash then return s
  else
    match net.getLedgerByHash s.mPrevLedgerHash with
    | none => if s.mAcquiringLedger ≠ lclHash then return s.acquiring else return s
    | some newLCL =>
      match getNextLedgerTimeResolution newLCL.mCloseResolution newLCL.closeAgree
          (newLCL.mLedgerSeq + 1) with
      | none => throw .noResolution
      | some mCloseResolution => return s.onLedger newLCL lclHash mCloseResolution

/-- The ledger with the most validations; ours on a tie. -/
def netLedger (s : LedgerConsensus) (net : Network) : LedgerHash :=
  let priorLedger := if s.mHaveCorrectLCL then s.mPreviousLedger.parentHash else 0
  ((net.getCurrentValidations s.mPrevLedgerHash priorLedger).foldl
    (fun (netLgr, netLgrCount) it =>
      if it.2 > netLgrCount ∨ (it.2 = netLgrCount ∧ it.1 = s.mPrevLedgerHash) then it
      else (netLgr, netLgrCount)) (s.mPrevLedgerHash, (0 : Int))).1

def checkLCL (s : LedgerConsensus) (net : Network) : Except ConsensusFault LedgerConsensus :=
  let netLgr := s.netLedger net
  if netLgr ≠ s.mPrevLedgerHash then s.handleLCL netLgr net
  else if s.mPreviousLedger.hash ≠ s.mPrevLedgerHash then s.handleLCL netLgr net
  else return s

/-- What a round is constructed with. -/
structure Start where
  inbound : InboundTransactions := {}
  prevLCLHash : LedgerHash
  previousLedger : LedgerInfo
  closeTime : UInt32 := 0
  /-- The validation keys are set and no network ledger is needed. -/
  validating : Bool := false
  /-- The operating mode is `omFULL`. -/
  full : Bool := false
  previousProposers : Int := 0
  previousMSeconds : Int := 0

def create (c : Start) (net : Network) : Except ConsensusFault LedgerConsensus :=
  match getNextLedgerTimeResolution c.previousLedger.mCloseResolution c.previousLedger.closeAgree
      (c.previousLedger.mLedgerSeq + 1) with
  | none => throw .noResolution
  | some mCloseResolution =>
    let s : LedgerConsensus := {
      inbound := c.inbound
      mCloseTime := c.closeTime
      mPrevLedgerHash := c.prevLCLHash
      mPreviousLedger := c.previousLedger
      mProposing := c.validating && c.full
      mValidating := c.validating
      mHaveCorrectLCL := c.previousLedger.hash == c.prevLCLHash
      mCloseResolution
      mPreviousProposers := c.previousProposers
      mPreviousMSeconds := c.previousMSeconds }
    if s.mHaveCorrectLCL then return s else s.handleLCL c.prevLCLHash net

end

end LedgerConsensus

end Skywell
