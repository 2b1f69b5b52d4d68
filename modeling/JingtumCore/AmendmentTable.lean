import Mathlib.Tactic.Common
import Std.Data.ExtTreeMap

/-!
# The amendment table

`AmendmentTableImpl` keeps, for each amendment, the first and the last close time at
which it had a majority, and proposes those whose majority is old enough. The calls
that change the table are followed over whole runs, together with the rounds of votes
they have reported.
-/
namespace Skywell
open Std

/-- The status of all amendments requested in a given window. -/
structure AmendmentSet where
  mCloseTime : UInt32
  mTrustedValidations : Int := 0
  mVotes : ExtTreeMap Nat Int compare := ∅

namespace AmendmentSet

def addVoter (s : AmendmentSet) : AmendmentSet :=
  { s with mTrustedValidations := s.mTrustedValidations + 1 }

def addVote (s : AmendmentSet) (amendment : Nat) : AmendmentSet :=
  { s with mVotes := s.mVotes.insert amendment (s.mVotes.getD amendment 0 + 1) }

/-- The votes for an amendment; one that nobody mentions has none. -/
def votes (s : AmendmentSet) (amendment : Nat) : Int := s.mVotes.getD amendment 0

end AmendmentSet

/-- The fields of a validation that the table reads. -/
structure AmendmentVote where
  isTrusted : Bool
  sfAmendments : Option (List Nat) := none

structure AmendmentName where
  mId : Nat
  mHexString : String := ""
  mFriendlyName : String := ""
  mValid : Bool := true

structure AmendmentState where
  mVetoed : Bool := false
  mEnabled : Bool := false
  mSupported : Bool := false
  m_firstMajority : UInt32 := 0
  m_lastMajority : UInt32 := 0
  mFriendlyName : String := ""

/-- `features` holds the rows of the table `Features` in the wallet's database: the
first and the last majority time by amendment. -/
structure AmendmentTableImpl where
  m_amendmentMap : ExtTreeMap Nat AmendmentState compare := ∅
  m_majorityTime : Int
  mMajorityFraction : Int
  m_firstReport : UInt32 := 0
  m_lastReport : UInt32 := 0
  features : ExtTreeMap Nat (UInt32 × UInt32) compare := ∅

namespace AmendmentTableImpl
variable (t : AmendmentTableImpl)

def setMajorityTimesFromDBToState (state : AmendmentState) (amendmentHash : Nat) : AmendmentState :=
  match t.features[amendmentHash]? with
  | some (first, last) => { state with m_firstMajority := first, m_lastMajority := last }
  | none => state

def setMajorityTimesFromStateToDB (changedAmendments : List Nat) : AmendmentTableImpl :=
  let update features hash :=
    let state := t.m_amendmentMap.getD hash {}
    features.modify hash fun _ => (state.m_firstMajority, state.m_lastMajority)
  { t with features := changedAmendments.foldl update t.features }

/-- The state of an amendment, and the table in which it exists. -/
def getCreate (amendmentHash : Nat) : AmendmentState × AmendmentTableImpl :=
  match t.m_amendmentMap[amendmentHash]? with
  | some state => (state, t)
  | none =>
    let state := t.setMajorityTimesFromDBToState {} amendmentHash
    (state, { t with m_amendmentMap := t.m_amendmentMap.insert amendmentHash state })

def store (amendmentHash : Nat) (state : AmendmentState) : AmendmentTableImpl :=
  { t with m_amendmentMap := t.m_amendmentMap.insert amendmentHash state }

def addKnown (name : AmendmentName) : Except String AmendmentTableImpl :=
  if !name.mValid then
    throw ("addKnown was given an invalid hash (expected a hex number). Value was: " ++
      name.mHexString)
  else
    let (amendment, t) := t.getCreate name.mId
    let amendment := if !name.mFriendlyName.isEmpty then
        { amendment with mFriendlyName := name.mFriendlyName }
      else amendment
    return t.store name.mId { amendment with mVetoed := false, mSupported := true }

def veto (amendment : Nat) : Bool × AmendmentTableImpl :=
  let (s, t) := t.getCreate amendment
  if s.mVetoed then (false, t) else (true, t.store amendment { s with mVetoed := true })

def unVeto (amendment : Nat) : Bool × AmendmentTableImpl :=
  match t.m_amendmentMap[amendment]? with
  | none => (false, t)
  | some s =>
    if !s.mVetoed then (false, t) else (true, t.store amendment { s with mVetoed := false })

def enable (amendment : Nat) : Bool × AmendmentTableImpl :=
  let (s, t) := t.getCreate amendment
  if s.mEnabled then (false, t) else (true, t.store amendment { s with mEnabled := true })

def disable (amendment : Nat) : Bool × AmendmentTableImpl :=
  match t.m_amendmentMap[amendment]? with
  | none => (false, t)
  | some s =>
    if !s.mEnabled then (false, t) else (true, t.store amendment { s with mEnabled := false })

/-- The loops of `setEnabled` and `setSupported`: a mark on the given amendments only. -/
def setOnly (mark : Bool → AmendmentState → AmendmentState) (amendments : List Nat) :
    AmendmentTableImpl :=
  let cleared := t.m_amendmentMap.map fun _ => mark false
  { t with m_amendmentMap := amendments.foldl (fun m e => m.insert e (mark true (m.getD e {}))) cleared }

def setEnabled (amendments : List Nat) : AmendmentTableImpl :=
  t.setOnly (fun on state => { state with mEnabled := on }) amendments

def setSupported (amendments : List Nat) : AmendmentTableImpl :=
  t.setOnly (fun on state => { state with mSupported := on }) amendments

/-- The close time the caller passes is not looked at; the difference is taken in 32 bits. -/
def shouldEnable (_closeTime : UInt32) (fs : AmendmentState) : Bool :=
  if fs.mVetoed || fs.mEnabled || !fs.mSupported || fs.m_lastMajority != t.m_lastReport then false
  else (fs.m_lastMajority - fs.m_firstMajority).toNat > t.m_majorityTime

def getToEnable (closeTime : UInt32) : List Nat :=
  if t.m_lastReport ≠ 0 then
    (t.m_amendmentMap.toList.filter fun e => t.shouldEnable closeTime e.2).map Prod.fst
  else []

/-- The number of votes an amendment needs; the division truncates. -/
def threshold (set : AmendmentSet) : Int :=
  (set.mTrustedValidations * t.mMajorityFraction).tdiv 256

/-- What one entry of `mVotes` does to the state of its amendment, and whether its first
majority time has changed. -/
def judge (closeTime : UInt32) (threshold votes : Int) (state : AmendmentState) :
    AmendmentState × Bool :=
  if votes ≥ threshold then
    let state := { state with m_lastMajority := closeTime }
    if state.m_firstMajority = 0 then ({ state with m_firstMajority := closeTime }, true)
    else (state, false)
  else if state.m_firstMajority ≠ 0 then
    ({ state with m_firstMajority := 0, m_lastMajority := 0 }, true)
  else (state, false)

/-- One turn of the loop of `reportValidations`, which collects the changed amendments. -/
def judgeOne (closeTime : UInt32) (threshold : Int)
    (loop : ExtTreeMap Nat AmendmentState compare × List Nat) (e : Nat × Int) :
    ExtTreeMap Nat AmendmentState compare × List Nat :=
  let (state, different) := judge closeTime threshold e.2 (loop.1.getD e.1 {})
  (loop.1.insert e.1 state, if different then loop.2 ++ [e.1] else loop.2)

def reportValidations (set : AmendmentSet) : AmendmentTableImpl :=
  if set.mTrustedValidations = 0 then t
  else
    let (m, changedAmendments) :=
      set.mVotes.toList.foldl (judgeOne set.mCloseTime (t.threshold set)) (t.m_amendmentMap, [])
    let t := { t with
      m_amendmentMap := m
      m_firstReport := if t.m_firstReport = 0 then set.mCloseTime else t.m_firstReport
      m_lastReport := set.mCloseTime }
    t.setMajorityTimesFromStateToDB changedAmendments

/-- The votes of the trusted validations of one ledger. -/
def amendmentSet (parentCloseTime : UInt32) (valSet : List AmendmentVote) : AmendmentSet :=
  valSet.foldl (fun set val =>
    if val.isTrusted then
      match val.sfAmendments with
      | some amendments => amendments.foldl AmendmentSet.addVote set.addVoter
      | none => set.addVoter
    else set) ⟨parentCloseTime, 0, ∅⟩

/-- `doVoting`: the table, and the amendments for which a transaction is made. -/
def doVoting (parentCloseTime closeTime : UInt32) (valSet : List AmendmentVote) :
    AmendmentTableImpl × List Nat :=
  let t := t.reportValidations (amendmentSet parentCloseTime valSet)
  (t, t.getToEnable closeTime)

end AmendmentTableImpl
end Skywell
