import JingtumCore.LedgerFormats
import JingtumCore.MapCount

/-!
# Disputed transactions

`DisputedTx`: the votes of the other validators on one transaction, their
counts, and our own vote with the rule that moves it. The counts are plain
integers, as in the code, and are shown to be the numbers of recorded votes.
-/
namespace Skywell
open Std MapCount

/-- The 160-bit hash of a validator's public key. -/
abbrev NodeID := Nat

def AV_INIT_CONSENSUS_PCT : Int := 50

def AV_MID_CONSENSUS_TIME : Int := 50
def AV_MID_CONSENSUS_PCT : Int := 65

def AV_LATE_CONSENSUS_TIME : Int := 85
def AV_LATE_CONSENSUS_PCT : Int := 70

def AV_STUCK_CONSENSUS_TIME : Int := 200
def AV_STUCK_CONSENSUS_PCT : Int := 95

/-- The percentage that is needed at a time, by the cascade `updateVote` and
`updateOurPositions` share. -/
def neededWeight (percentTime : Int) : Int :=
  if percentTime < AV_MID_CONSENSUS_TIME then AV_INIT_CONSENSUS_PCT
  else if percentTime < AV_LATE_CONSENSUS_TIME then AV_MID_CONSENSUS_PCT
  else if percentTime < AV_STUCK_CONSENSUS_TIME then AV_LATE_CONSENSUS_PCT
  else AV_STUCK_CONSENSUS_PCT

theorem neededWeight_bounds (percentTime : Int) :
    50 ≤ neededWeight percentTime ∧ neededWeight percentTime ≤ 95 := by
  simp only [neededWeight, AV_STUCK_CONSENSUS_PCT]
  split_ifs <;> decide

structure DisputedTx where
  mTransactionID : TxID
  transaction : Blob
  mOurVote : Bool
  mYays : Int := 0
  mNays : Int := 0
  mVotes : ExtTreeMap NodeID Bool compare := ∅

namespace DisputedTx

def getOurVote (d : DisputedTx) : Bool := d.mOurVote

def setOurVote (d : DisputedTx) (o : Bool) : DisputedTx := { d with mOurVote := o }

def setVote (d : DisputedTx) (peer : NodeID) (votesYes : Bool) : DisputedTx :=
  match d.mVotes[peer]? with
  | none =>
    let mVotes := d.mVotes.insert peer votesYes
    if votesYes then { d with mVotes, mYays := d.mYays + 1 }
    else { d with mVotes, mNays := d.mNays + 1 }
  | some vote =>
    if votesYes && !vote then
      { d with mVotes := d.mVotes.insert peer true, mNays := d.mNays - 1, mYays := d.mYays + 1 }
    else if !votesYes && vote then
      { d with mVotes := d.mVotes.insert peer false, mNays := d.mNays + 1, mYays := d.mYays - 1 }
    else d

def unVote (d : DisputedTx) (peer : NodeID) : DisputedTx :=
  match d.mVotes[peer]? with
  | none => d
  | some true => { d with mVotes := d.mVotes.erase peer, mYays := d.mYays - 1 }
  | some false => { d with mVotes := d.mVotes.erase peer, mNays := d.mNays - 1 }

def newPosition (d : DisputedTx) (percentTime : Int) (proposing : Bool) : Bool :=
  if proposing then
    let weight := (d.mYays * 100 + (if d.mOurVote then 100 else 0)).tdiv (d.mNays + d.mYays + 1)
    weight > neededWeight percentTime
  else d.mYays > d.mNays

/-- Whether our vote changes, and the dispute afterwards. -/
def updateVote (d : DisputedTx) (percentTime : Int) (proposing : Bool) : Bool × DisputedTx :=
  if d.mOurVote && d.mNays == 0 then (false, d)
  else if !d.mOurVote && d.mYays == 0 then (false, d)
  else if d.newPosition percentTime proposing == d.mOurVote then (false, d)
  else (true, { d with mOurVote := d.newPosition percentTime proposing })

variable {d : DisputedTx}

@[simp] theorem setVote_id (p : NodeID) (b : Bool) :
    (d.setVote p b).mTransactionID = d.mTransactionID := by
  unfold setVote
  split <;> split_ifs <;> rfl

@[simp] theorem unVote_id (p : NodeID) : (d.unVote p).mTransactionID = d.mTransactionID := by
  unfold unVote
  split <;> rfl

@[simp] theorem setVote_ourVote (p : NodeID) (b : Bool) :
    (d.setVote p b).mOurVote = d.mOurVote := by
  unfold setVote
  split <;> split_ifs <;> rfl

@[simp] theorem unVote_ourVote (p : NodeID) : (d.unVote p).mOurVote = d.mOurVote := by
  unfold unVote
  split <;> rfl

theorem updateVote_frame (t : Int) (proposing : Bool) : (d.updateVote t proposing).2 =
    { d with mOurVote := (d.updateVote t proposing).2.mOurVote } := by
  unfold updateVote
  split_ifs <;> rfl

theorem updateVote_changed (t : Int) (proposing : Bool) :
    (d.updateVote t proposing).2.mOurVote = ((d.updateVote t proposing).1 ^^ d.mOurVote) := by
  unfold updateVote
  split_ifs with h1 h2 h3
  · simp
  · simp
  · simp
  · cases h : d.newPosition t proposing <;> cases h' : d.mOurVote <;> simp_all

theorem setVote_votes (p q : NodeID) (b : Bool) :
    (d.setVote p b).mVotes[q]? = if p = q then some b else d.mVotes[q]? := by
  unfold setVote
  split
  · split_ifs <;> simp_all [ExtTreeMap.getElem?_insert]
  · rename_i vote hp
    cases b <;> cases vote <;> simp only [Bool.not_true, Bool.not_false, Bool.and_true,
      Bool.and_false, if_true, if_false, ExtTreeMap.getElem?_insert,
      Bool.false_eq_true]
    all_goals
      by_cases hq : p = q
      · subst hq
        simp [hp]
      · simp [hq]

theorem unVote_votes (p q : NodeID) :
    (d.unVote p).mVotes[q]? = if p = q then none else d.mVotes[q]? := by
  unfold unVote
  split <;> split_ifs <;> simp_all [ExtTreeMap.getElem?_erase]

/-- The validators that are recorded with a vote. -/
def voters (d : DisputedTx) (vote : Bool) : Finset NodeID := having d.mVotes (· == vote)

@[simp] theorem mem_voters {p : NodeID} {vote : Bool} :
    p ∈ d.voters vote ↔ d.mVotes[p]? = some vote := by
  simp [voters]

theorem voters_setVote (p : NodeID) (b vote : Bool) :
    (d.setVote p b).voters vote =
      if b = vote then insert p (d.voters vote) else (d.voters vote).erase p := by
  ext q
  rw [mem_voters, setVote_votes]
  by_cases hq : p = q
  · by_cases hb : b = vote <;> simp [hq, hb]
  · by_cases hb : b = vote <;> simp [hq, hb, Ne.symm hq]

theorem voters_unVote (p : NodeID) (vote : Bool) :
    (d.unVote p).voters vote = (d.voters vote).erase p := by
  ext q
  rw [mem_voters, unVote_votes]
  by_cases hq : p = q
  · simp [hq]
  · simp [hq, Ne.symm hq]

/-- The count the code keeps for a vote. -/
def count (d : DisputedTx) (vote : Bool) : Int := if vote then d.mYays else d.mNays

theorem count_setVote (p : NodeID) (b vote : Bool) :
    (d.setVote p b).count vote =
      d.count vote - (if d.mVotes[p]? = some vote then 1 else 0) + if b = vote then 1 else 0 := by
  unfold setVote
  split
  · rename_i hp
    cases b <;> cases vote <;> simp [count, hp]
  · rename_i old hp
    cases b <;> cases old <;> cases vote <;> simp [count, hp]

theorem count_unVote (p : NodeID) (vote : Bool) :
    (d.unVote p).count vote = d.count vote - if d.mVotes[p]? = some vote then 1 else 0 := by
  unfold unVote
  split <;> rename_i hp <;> cases vote <;> simp [count, hp]

theorem card_erase (s : Finset NodeID) (p : NodeID) :
    ((s.erase p).card : Int) = s.card - if p ∈ s then 1 else 0 := by
  by_cases hp : p ∈ s
  · have := Finset.card_erase_add_one hp
    simp only [hp, if_true]
    omega
  · simp [hp]

theorem card_voters_setVote (p : NodeID) (b vote : Bool) :
    (((d.setVote p b).voters vote).card : Int) =
      (d.voters vote).card - (if d.mVotes[p]? = some vote then 1 else 0) +
        if b = vote then 1 else 0 := by
  simp only [voters_setVote, ← mem_voters]
  by_cases hb : b = vote
  · by_cases hp : p ∈ d.voters vote <;> simp [hb, hp]
  · simp [hb, card_erase]

theorem card_voters_unVote (p : NodeID) (vote : Bool) :
    (((d.unVote p).voters vote).card : Int) =
      (d.voters vote).card - if d.mVotes[p]? = some vote then 1 else 0 := by
  simp [voters_unVote, card_erase]

/-- The counts are the numbers of recorded votes. -/
def Counted (d : DisputedTx) : Prop := ∀ vote, d.count vote = (d.voters vote).card

theorem Counted.yays (h : d.Counted) : d.mYays = (d.voters true).card := h true

theorem Counted.nays (h : d.Counted) : d.mNays = (d.voters false).card := h false

theorem Counted.setVote (h : d.Counted) (p : NodeID) (b : Bool) : (d.setVote p b).Counted := by
  intro vote
  rw [count_setVote, card_voters_setVote, h]

theorem Counted.unVote (h : d.Counted) (p : NodeID) : (d.unVote p).Counted := by
  intro vote
  rw [count_unVote, card_voters_unVote, h]

theorem Counted.updateVote (h : d.Counted) (t : Int) (proposing : Bool) :
    (d.updateVote t proposing).2.Counted := by
  rw [updateVote_frame]
  exact h

theorem counted_new (id : TxID) (tx : Blob) (ourVote : Bool) :
    (DisputedTx.mk id tx ourVote 0 0 ∅).Counted := by
  intro vote
  cases vote <;> simp [count, voters, having_empty]

/-- What a dispute is once it has been made and votes have come and gone. -/
inductive Made : DisputedTx → Prop where
  | new (id : TxID) (tx : Blob) (ourVote : Bool) : Made ⟨id, tx, ourVote, 0, 0, ∅⟩
  | setVote {d : DisputedTx} (p : NodeID) (b : Bool) : Made d → Made (d.setVote p b)
  | unVote {d : DisputedTx} (p : NodeID) : Made d → Made (d.unVote p)
  | setOurVote {d : DisputedTx} (o : Bool) : Made d → Made (d.setOurVote o)
  | updateVote {d : DisputedTx} (t : Int) (proposing : Bool) :
      Made d → Made (d.updateVote t proposing).2

theorem Made.counted (h : d.Made) : d.Counted := by
  induction h with
  | new id tx ourVote => exact counted_new id tx ourVote
  | setVote p b _ ih => exact ih.setVote p b
  | unVote p _ ih => exact ih.unVote p
  | setOurVote o _ ih => exact ih
  | updateVote t proposing _ ih => exact ih.updateVote t proposing

theorem updateVote_proposing (yays : 0 ≤ d.mYays) (t : Int) :
    (d.updateVote t true).2.mOurVote = d.newPosition t true := by
  have hw := neededWeight_bounds t
  unfold updateVote
  split_ifs with h1 h2 h3
  · obtain ⟨hv, hn⟩ : d.mOurVote = true ∧ d.mNays = 0 := by simpa using h1
    have hall : d.mYays * 100 + 100 = 100 * (0 + d.mYays + 1) := by omega
    have : (d.mYays * 100 + 100).tdiv (0 + d.mYays + 1) = 100 := by
      rw [hall]
      exact Int.mul_tdiv_cancel _ (by omega)
    simp only [newPosition, hv, hn, if_true, this]
    simp
    omega
  · obtain ⟨hv, hy⟩ : d.mOurVote = false ∧ d.mYays = 0 := by simpa using h2
    simp [newPosition, hv, hy]
    omega
  · simpa using Eq.symm (by simpa using h3)
  · rfl

section Agreement
variable {nodes : Finset NodeID} {votes : NodeID → Bool} {i : NodeID}

theorem card_voters_of_others (hi : i ∈ nodes)
    (others : ∀ j, d.mVotes[j]? = if j ∈ nodes.erase i then some (votes j) else none) (vote : Bool) :
    ((d.voters vote).card : Int) + (if votes i = vote then 1 else 0) =
      (nodes.filter fun j => votes j = vote).card := by
  -- a node that has the votes of all other nodes counts those
  have voters : d.voters vote = (nodes.filter fun j => votes j = vote).erase i := by
    ext j
    rw [mem_voters, others]
    by_cases hi : j = i
    · simp [hi]
    · by_cases hj : j ∈ nodes <;> simp [hj]
  rw [voters, card_erase]
  simp [hi]

/-- The weight a proposing node computes is the share of yes votes among all
nodes, its own included. -/
theorem newPosition_of_others (counted : d.Counted) (hi : i ∈ nodes) (own : d.mOurVote = votes i)
    (others : ∀ j, d.mVotes[j]? = if j ∈ nodes.erase i then some (votes j) else none) (t : Int) :
    d.newPosition t true =
      decide (neededWeight t <
        ((nodes.filter fun j => votes j = true).card * 100 : Int).tdiv nodes.card) := by
  have hy := card_voters_of_others hi others true
  have hn := card_voters_of_others hi others false
  have hall : (nodes.filter fun j => votes j = true).card +
      (nodes.filter fun j => votes j = false).card = nodes.card := by
    simpa using Finset.card_filter_add_card_filter_not (s := nodes) fun j => votes j = true
  rw [← counted.yays] at hy
  rw [← counted.nays] at hn
  have hweight : d.mYays * 100 + (if d.mOurVote then 100 else 0) =
      (nodes.filter fun j => votes j = true).card * 100 := by
    rw [← hy, own]
    cases votes i <;> simp
    omega
  have htotal : d.mNays + d.mYays + 1 = nodes.card := by
    cases hv : votes i <;> simp [hv] at hy hn <;> omega
  simp [newPosition, hweight, htotal]

end Agreement

end DisputedTx

open DisputedTx

/-- Nodes that each know the votes of all the others move to one common vote,
and stay where they are if they agree already. -/
theorem updateVote_agreement (nodes : Finset NodeID) (votes : NodeID → Bool) (percentTime : Int)
    (d : NodeID → DisputedTx) (made : ∀ i ∈ nodes, (d i).Made)
    (own : ∀ i ∈ nodes, (d i).getOurVote = votes i)
    (others : ∀ i ∈ nodes, ∀ j,
      (d i).mVotes[j]? = if j ∈ nodes.erase i then some (votes j) else none) :
    (∃ vote, ∀ i ∈ nodes, ((d i).updateVote percentTime true).2.getOurVote = vote) ∧
      ∀ vote, (∀ i ∈ nodes, votes i = vote) →
        ∀ i ∈ nodes, ((d i).updateVote percentTime true).2.getOurVote = vote := by
  have result : ∀ i ∈ nodes, ((d i).updateVote percentTime true).2.getOurVote =
      decide (neededWeight percentTime <
        ((nodes.filter fun j => votes j = true).card * 100 : Int).tdiv nodes.card) := by
    intro i hi
    have counted := (made i hi).counted
    have hy := counted.yays
    rw [getOurVote, updateVote_proposing (by omega),
      newPosition_of_others counted hi (own i hi) (others i hi)]
  refine ⟨⟨_, result⟩, ?_⟩
  intro vote same i hi
  have hw := neededWeight_bounds percentTime
  have hpos : 0 < nodes.card := Finset.card_pos.2 ⟨i, hi⟩
  rw [result i hi]
  cases vote with
  | false =>
    rw [Finset.filter_false_of_mem fun j hj => by simp [same j hj]]
    simp
    omega
  | true =>
    rw [Finset.filter_true_of_mem same, Int.mul_comm, Int.mul_tdiv_cancel _ (by omega)]
    simp
    omega

/-- Two nodes that disagree, each with the other's vote recorded. -/
theorem updateVote_agreement_two :
    let d : NodeID → DisputedTx := fun i =>
      (DisputedTx.mk 9 [] (i == 1) 0 0 ∅).setVote (3 - i) (i == 2)
    ((d 1).updateVote 0 true).2.getOurVote = ((d 2).updateVote 0 true).2.getOurVote := by
  intro d
  have others : ∀ i ∈ ({1, 2} : Finset NodeID), ∀ j,
      (d i).mVotes[j]? = if j ∈ ({1, 2} : Finset NodeID).erase i then some (j == 1) else none := by
    intro i hi j
    obtain rfl | rfl : i = 1 ∨ i = 2 := by simpa using hi
    all_goals
      rw [setVote_votes]
      by_cases h1 : j = 1
      · simp [h1]
      · by_cases h2 : j = 2
        · simp [h2]
        · simp [h1, h2, Ne.symm h1, Ne.symm h2]
  obtain ⟨vote, h⟩ := (updateVote_agreement {1, 2} (· == 1) 0 d
    (fun i _ => .setVote _ _ (.new 9 [] _)) (by decide) others).1
  rw [h 1 (by decide), h 2 (by decide)]

end Skywell
