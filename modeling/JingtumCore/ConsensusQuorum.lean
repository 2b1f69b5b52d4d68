import JingtumCore.ConsensusRounds

/-!
# Quorums of two nodes overlap

What `haveConsensus` has counted when it returns true without failure, and why
two nodes that count the same proposers then agree on the set, unless most of
the proposers told them different positions.
-/
namespace Skywell
open Std MapCount

namespace LedgerConsensus

/-- The peers whose positions are counted. -/
def proposerSet (s : LedgerConsensus) : Finset NodeID :=
  having s.mPeerPositions fun p => !p.isBowOut

/-- The position of a proposer as the node `me` knows it. -/
def reported (s : LedgerConsensus) (me p : NodeID) : Option TxSetHash :=
  if p = me then s.ourHash else (s.mPeerPositions[p]?).map (·.mCurrentHash)

/-- The node `me` counts the proposers `nodes`: itself and its peers. -/
structure Counts (s : LedgerConsensus) (me : NodeID) (nodes : Finset NodeID) : Prop where
  notPeer : me ∉ s.proposerSet
  nodes : nodes = insert me s.proposerSet

variable {s s' : LedgerConsensus} {me : NodeID} {nodes : Finset NodeID}

theorem length_proposers : s.proposers.length = s.proposerSet.card := by
  rw [proposers, proposerSet, ← countP_toList, List.countP_eq_length_filter]

theorem Counts.card_nodes (h : s.Counts me nodes) : nodes.card = s.proposers.length + 1 := by
  rw [h.nodes, Finset.card_insert_of_notMem h.notPeer, length_proposers]

/-- Who is reported with our position: the peers that are counted as agreeing,
and ourselves. -/
theorem Counts.card_agree (h : s.Counts me nodes) {ours : LedgerProposal}
    (hours : s.mOurPosition = some ours) :
    (nodes.filter fun p => s.reported me p = s.ourHash).card =
      s.proposers.countP (fun it => it.2.mCurrentHash == ours.mCurrentHash) + 1 := by
  have hsplit : (nodes.filter fun p => s.reported me p = s.ourHash) =
      insert me (having s.mPeerPositions fun p =>
        p.mCurrentHash == ours.mCurrentHash && !p.isBowOut) := by
    ext p
    rw [h.nodes]
    by_cases hp : p = me
    · simp [hp, reported]
    · simp only [Finset.mem_filter, Finset.mem_insert, hp, reported, ourHash,
        hours, proposerSet, mem_having]
      cases s.mPeerPositions[p]? <;> simp [and_comm]
  have hself : me ∉ having s.mPeerPositions fun p =>
      p.mCurrentHash == ours.mCurrentHash && !p.isBowOut := by
    intro hmem
    obtain ⟨p, hp, hq⟩ := mem_having.1 hmem
    exact h.notPeer (mem_having.2 ⟨p, hp, by simpa using (Bool.and_eq_true_iff.1 hq).2⟩)
  rw [hsplit, Finset.card_insert_of_notMem hself, proposers, List.countP_filter, ← countP_toList]

theorem length_agree_disagree (h : TxSetHash) :
    s.proposers.countP (fun it => it.2.mCurrentHash == h) +
      (s.proposers.filter fun it => it.2.mCurrentHash != h).length = s.proposers.length := by
  have hsum := List.length_eq_countP_add_countP
    (fun it : NodeID × LedgerProposal => it.2.mCurrentHash == h) (l := s.proposers)
  have hne : s.proposers.countP (fun it => decide ¬(it.2.mCurrentHash == h) = true) =
      s.proposers.countP fun it => it.2.mCurrentHash != h :=
    List.countP_congr fun it _ => by simp
  rw [← List.countP_eq_length_filter, ← hne]
  exact hsum.symm

variable [SHAMapHash]

/-- More than four fifths of the proposers are reported with our position. -/
theorem Counts.quorum (h : s.Counts me nodes) {forReal : Bool} {v : Int}
    (hc : s.haveConsensus forReal v = .ok (true, s')) (hf : s'.mConsensusFail = false) :
    81 * nodes.card ≤ 100 * (nodes.filter fun p => s.reported me p = s.ourHash).card := by
  obtain ⟨ours, s1, hours, -, -, hr⟩ := haveConsensus_ok hc
  have htotal := length_agree_disagree (s := s) ours.mCurrentHash
  have hpct := ContinuousLedgerTiming.agree_of_haveConsensus (hf ▸ hr).symm
  rw [h.card_agree hours, h.card_nodes]
  have hpos : (0 : Int) < s.proposers.countP (fun it => it.2.mCurrentHash == ours.mCurrentHash) +
      (s.proposers.filter fun it => it.2.mCurrentHash != ours.mCurrentHash).length + 1 := by omega
  rw [Int.tdiv_eq_ediv_of_nonneg (by omega), ← Int.add_one_le_iff,
    Int.le_ediv_iff_mul_le hpos] at hpct
  omega

end LedgerConsensus

open LedgerConsensus

/-- Two nodes that count the same proposers and both see consensus on a set
agree on the set, or else more than three fifths of the proposers were reported
to them with different positions. -/
theorem consensus_quorums_overlap [SHAMapHash] (nodes : Finset NodeID) (A B : NodeID)
    (a b a' b' : LedgerConsensus) (ha : a.Counts A nodes) (hb : b.Counts B nodes)
    (forReal forReal' : Bool) (validations validations' : Int)
    (hca : a.haveConsensus forReal validations = .ok (true, a')) (hfa : a'.mConsensusFail = false)
    (hcb : b.haveConsensus forReal' validations' = .ok (true, b'))
    (hfb : b'.mConsensusFail = false) :
    (a.ourHash ≠ b.ourHash →
      3 * nodes.card < 5 * (nodes.filter fun p => a.reported A p ≠ b.reported B p).card) ∧
    ((∀ p ∈ nodes, a.reported A p = b.reported B p) → a.ourHash = b.ourHash) := by
  have qa := ha.quorum hca hfa
  have qb := hb.quorum hcb hfb
  have hpos := ha.card_nodes
  have overlap : a.ourHash ≠ b.ourHash →
      3 * nodes.card < 5 * (nodes.filter fun p => a.reported A p ≠ b.reported B p).card := by
    intro hne
    have hunion := Finset.card_union_add_card_inter
      (nodes.filter fun p => a.reported A p = a.ourHash)
      (nodes.filter fun p => b.reported B p = b.ourHash)
    have hsub : (nodes.filter fun p => a.reported A p = a.ourHash) ∪
        (nodes.filter fun p => b.reported B p = b.ourHash) ⊆ nodes :=
      Finset.union_subset (Finset.filter_subset _ _) (Finset.filter_subset _ _)
    -- who is with `A`'s set at `A` and with `B`'s set at `B` told them different positions
    have hinter : (nodes.filter fun p => a.reported A p = a.ourHash) ∩
        (nodes.filter fun p => b.reported B p = b.ourHash) ⊆
        nodes.filter fun p => a.reported A p ≠ b.reported B p := by
      intro p hp
      simp only [Finset.mem_inter, Finset.mem_filter] at hp ⊢
      obtain ⟨⟨hn, hpa⟩, -, hpb⟩ := hp
      exact ⟨hn, by rw [hpa, hpb]; exact hne⟩
    have h1 := Finset.card_le_card hsub
    have h2 := Finset.card_le_card hinter
    omega
  refine ⟨overlap, fun same => ?_⟩
  by_contra hne
  have := overlap hne
  rw [Finset.filter_false_of_mem fun p hp => by simpa using same p hp] at this
  simp at this

/-- A first position of a validator. -/
def firstPosition (peer : NodeID) (hash : TxSetHash) : LedgerProposal where
  mPreviousLedger := 0
  mCurrentHash := hash
  mCloseTime := 0
  mPeerID := peer
  mTime := 0

/-- A round that is three seconds old, with our position and one peer at a set. -/
def pairRound (me peer : NodeID) (hash : TxSetHash) : LedgerConsensus where
  inbound := {}
  mPrevLedgerHash := 0
  mPreviousLedger := { hash := 0 }
  mCurrentMSeconds := 3000
  mOurPosition := some (firstPosition me hash)
  mPeerPositions := .ofList [(peer, firstPosition peer hash)]

theorem pairRounds_agree : (pairRound 1 2 7).ourHash = (pairRound 2 1 7).ourHash := by
  let hash := SHAMap.coded
  exact (consensus_quorums_overlap {1, 2} 1 2 (pairRound 1 2 7) (pairRound 2 1 7) (pairRound 1 2 7)
    (pairRound 2 1 7) ⟨by decide +kernel, by decide +kernel⟩ ⟨by decide +kernel, by decide +kernel⟩
    true true 0 0 rfl rfl rfl rfl).2 (by decide +kernel)

end Skywell
