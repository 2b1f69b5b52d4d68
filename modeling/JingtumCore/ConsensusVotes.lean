import JingtumCore.ConsensusEvents

/-!
# The votes of the peers

A dispute records how the peers vote on its transaction. As long as no event
takes over a set that another peer has proposed already, the votes are those of
the peers' current positions in every state of a round.
-/
namespace Skywell
open Std ExceptFold

namespace LedgerConsensus

variable {s s' : LedgerConsensus}

/-- The votes of the peers at some positions are set, or taken back, one after the other. -/
theorem foldl_votes {f : DisputedTx → NodeID → DisputedTx} {vote : Option Bool}
    {d : DisputedTx} (which : LedgerProposal → Bool)
    (keyed : ∀ (p : NodeID) pos, s.mPeerPositions[p]? = some pos → pos.mPeerID = p)
    (step : ∀ d p q, (f d p).mVotes[q]? = if p = q then vote else d.mVotes[q]?) (q : NodeID) :
    ((s.mPeerPositions.toList.filter fun it => which it.2).foldl
        (fun d it => f d it.2.mPeerID) d).mVotes[q]? =
      s.mPeerPositions[q]?.elim d.mVotes[q]? fun pos =>
        if which pos then vote else d.mVotes[q]? := by
  rw [List.foldl_filter]
  refine MapFold.foldl_toList s.mPeerPositions q (·.mVotes[q]?)
    (fun pos old => if which pos then vote else old) (fun d it known => ?_) d
  split_ifs with hw hq
  · rw [step, keyed _ _ known, if_pos hq]
  · rw [step, keyed _ _ known, if_neg hq]
  all_goals rfl

/-- No votes on a dispute but of peers that have a position, and if none was skipped, those of
all peers whose sets we have. -/
structure Tracks (s : LedgerConsensus) (unskipped : Prop) (id : TxID) (d : DisputedTx) : Prop where
  votes : unskipped → ∀ p set, s.peerSet p = some set → d.mVotes[p]? = some (set.hasItem id)
  known : ∀ p : NodeID, s.mPeerPositions[p]? = none → d.mVotes[p]? = none
  counted : d.Counted

def VotesTrack (unskipped : Prop) (s : LedgerConsensus) : Prop :=
  ∀ (id : TxID) d, s.mDisputes[id]? = some d → s.Tracks unskipped id d

/-- A proposal brings its set from `InboundTransactions`, while another peer is at
that set and there are disputes. -/
def skipsVotes (s : LedgerConsensus) (pos : LedgerProposal) : Bool :=
  (s.acquired pos.mCurrentHash).isNone && (s.inbound.getSet pos.mCurrentHash true).1.isSome &&
    !s.mDisputes.isEmpty && (s.peersAt pos.mCurrentHash).any (· != pos.mPeerID)

variable {d : DisputedTx} {inbound : InboundTransactions} {set : SHAMap} {id : TxID}
  {unskipped : Prop}

theorem peerSet_eq_some {p : NodeID} : s.peerSet p = some set ↔
      ∃ pos, s.mPeerPositions[p]? = some pos ∧ s.acquired pos.mCurrentHash = some set :=
  Option.bind_eq_some_iff

theorem Tracks.of_votes {d' : DisputedTx} (h : s.Tracks unskipped id d)
    (votes : d'.mVotes = d.mVotes) (yays : d'.mYays = d.mYays) (nays : d'.mNays = d.mNays) : s.Tracks unskipped id d' := by
  refine ⟨by rw [votes]; exact h.votes, by rw [votes]; exact h.known, ?_⟩
  intro vote
  have := h.counted vote
  simpa [DisputedTx.count, DisputedTx.voters, votes, yays, nays] using this

/-- The peers stay, and we have no sets of theirs that we did not have. -/
theorem Tracks.mono (h : s.Tracks unskipped id d)
    (sets : ∀ p set, s'.peerSet p = some set → s.peerSet p = some set)
    (peers : ∀ p : NodeID, s'.mPeerPositions[p]? = none → s.mPeerPositions[p]? = none) :
    s'.Tracks unskipped id d :=
  ⟨fun all p set hp => h.votes all p set (sets p set hp), fun p hp => h.known p (peers p hp),
    h.counted⟩

namespace VotesTrack

theorem mono (h : s.VotesTrack unskipped) (disputes : s'.mDisputes = s.mDisputes)
    (sets : ∀ p set, s'.peerSet p = some set → s.peerSet p = some set)
    (peers : ∀ p : NodeID, s'.mPeerPositions[p]? = none → s.mPeerPositions[p]? = none) :
    s'.VotesTrack unskipped :=
  fun id d hd => (h id d (disputes ▸ hd)).mono sets peers

/-- Nothing but which sets we have has changed, and there are no more of them. -/
theorem of_acquired (h : s.VotesTrack unskipped) (disputes : s'.mDisputes = s.mDisputes)
    (peers : s'.mPeerPositions = s.mPeerPositions)
    (sets : ∀ hash set, s'.acquired hash = some set → s.acquired hash = some set) :
    s'.VotesTrack unskipped := by
  refine h.mono disputes ?_ fun p hp => peers ▸ hp
  intro p set hp
  obtain ⟨pos, hpos, hset⟩ := peerSet_eq_some.1 hp
  exact peerSet_eq_some.2 ⟨pos, peers ▸ hpos, sets _ _ hset⟩

theorem of_empty (h : s.mDisputes = ∅) : s.VotesTrack unskipped := by
  intro id d hd
  simp [h] at hd

/-- Changes of our own votes leave those of the peers alone. -/
theorem mapOurs (h : s.VotesTrack unskipped) {f : TxID → DisputedTx → DisputedTx}
    (hf : ∀ id d, (f id d).mVotes = d.mVotes ∧ (f id d).mYays = d.mYays ∧
      (f id d).mNays = d.mNays) :
    { s with mDisputes := s.mDisputes.map f }.VotesTrack unskipped := by
  intro id d hd
  obtain ⟨d0, h0, rfl⟩ := getElem?_mapDisputes hd
  obtain ⟨votes, yays, nays⟩ := hf id d0
  have := (h id d0 h0).of_votes votes yays nays
  exact { this with }

theorem disputed (h : s.VotesTrack unskipped) {ids : List TxID} (hd : Disputed s ids s') :
    s'.VotesTrack unskipped := by
  intro id d hid
  have : s.Tracks unskipped id d := by
    rcases hd.new id d hid with hold | ⟨tx, vote, -, rfl⟩
    · exact h id d hold
    · refine ⟨?_, ?_, ?_⟩
      · intro _ p set hp
        rw [peerVotes_votes, peerVote, hp]
        rfl
      · intro p hp
        simp [peerVotes_votes, peerVote, peerSet, hp]
      · exact peerVotes_keeps (fun d p b hd => hd.setVote p b) (DisputedTx.counted_new id tx vote)
  rw [hd.frame]
  exact { this with }

theorem bowsOut (h : s.VotesTrack unskipped) (p : NodeID) :
    (s.peerBowsOut p).VotesTrack unskipped := by
  intro id d hd
  obtain ⟨d0, h0, rfl⟩ := getElem?_mapDisputes hd
  have hpeers (q : NodeID) : (s.peerBowsOut p).mPeerPositions[q]? =
      if p = q then none else s.mPeerPositions[q]? := by
    simp [peerBowsOut, ExtTreeMap.getElem?_erase]
  refine ⟨?_, ?_, (h id d0 h0).counted.unVote p⟩
  · intro all q set hq
    obtain ⟨pos, hpos, hset⟩ := peerSet_eq_some.1 hq
    rw [hpeers] at hpos
    split_ifs at hpos with hne
    rw [DisputedTx.unVote_votes, if_neg hne]
    exact (h id d0 h0).votes all q set (peerSet_eq_some.2 ⟨pos, hpos, hset⟩)
  · intro q hq
    rw [DisputedTx.unVote_votes]
    split_ifs with hne
    · rfl
    · rw [hpeers, if_neg hne] at hq
      exact (h id d0 h0).known q hq

theorem getElem?_moved (pos : LedgerProposal) (q : NodeID) :
    (s.moved pos).mPeerPositions[q]? =
      if pos.mPeerID = q then some pos else s.mPeerPositions[q]? := by
  simp [moved, ExtTreeMap.getElem?_insert]

variable {pos : LedgerProposal} {hash : TxSetHash}

/-- A peer that moves to a set votes by it, if we have the set or have just taken it
over and there is no other peer at it. -/
theorem follow (h : s.VotesTrack unskipped) {t : LedgerConsensus}
    (disputes : t.mDisputes = s.mDisputes) (peers : t.mPeerPositions = s.mPeerPositions)
    (sets : unskipped → ∀ q m, q ≠ pos.mPeerID → t.peerSet q = some m → s.peerSet q = some m)
    (hset : t.acquired pos.mCurrentHash = some set) :
    ((t.moved pos).votesFollow pos.mPeerID set).VotesTrack unskipped := by
  intro id d hd
  obtain ⟨d0, h0, rfl⟩ := getElem?_mapDisputes hd
  have tracks := h id d0 (disputes ▸ h0)
  refine ⟨?_, ?_, tracks.counted.setVote _ _⟩
  · intro all q m hq
    obtain ⟨pos', hpos', hm⟩ := peerSet_eq_some.1 hq
    have hpos' := (getElem?_moved pos q).symm.trans hpos'
    have hm : t.acquired pos'.mCurrentHash = some m := hm
    rw [DisputedTx.setVote_votes]
    split_ifs at hpos' ⊢ with heq
    · cases hpos'
      rw [hset] at hm
      cases hm
      rfl
    · exact tracks.votes all q m (sets all q m (Ne.symm heq) (peerSet_eq_some.2 ⟨pos', hpos', hm⟩))
  · intro q hq
    have hq := (getElem?_moved pos q).symm.trans hq
    rw [DisputedTx.setVote_votes]
    split_ifs at hq ⊢
    exact tracks.known q (peers ▸ hq)

theorem movedAway (h : s.VotesTrack unskipped) (hset : s.acquired pos.mCurrentHash = none) :
    { s.moved pos with inbound }.VotesTrack unskipped := by
  refine h.mono rfl ?_ ?_
  · intro q set hq
    obtain ⟨pos', hpos', hset'⟩ := peerSet_eq_some.1 hq
    have hpos' := (getElem?_moved pos q).symm.trans hpos'
    have hset' : s.acquired pos'.mCurrentHash = some set := hset'
    split_ifs at hpos' with heq
    · cases hpos'
      simp [hset] at hset'
    · exact peerSet_eq_some.2 ⟨pos', hpos', hset'⟩
  · intro q hq
    have hq := (getElem?_moved pos q).symm.trans hq
    split_ifs at hq
    exact hq

theorem peerPosition_empty (h : s.mDisputes = ∅) :
    (s.peerPosition pos).2.mDisputes = ∅ := by
  have hmap (f : TxID → DisputedTx → DisputedTx) : s.mDisputes.map f = ∅ := by
    rw [h]
    rfl
  rcases peerPosition_cases s pos with heq | heq | ⟨-, mCloseTimes, heq⟩
  · rw [heq]
    exact h
  · rw [heq]
    exact hmap _
  · rw [heq]
    rcases takePosition_cases { s with mCloseTimes } pos with
      ⟨set, -, heq⟩ | ⟨set, -, -, heq⟩ | ⟨-, -, heq⟩
    all_goals rw [heq]
    · exact hmap _
    · exact hmap _
    · exact h

section
variable (h : s.VotesTrack unskipped)
include h

section
variable (keyed : ∀ (p : NodeID) pos, s.mPeerPositions[p]? = some pos → pos.mPeerID = p)
include keyed

theorem takePosition (ok : unskipped → s.skipsVotes pos = false) :
    (s.takePosition pos).VotesTrack unskipped := by
  rcases takePosition_cases s pos with ⟨set, hset, heq⟩ | ⟨set, hset, hget, heq⟩ | ⟨hset, -, heq⟩
  · rw [heq]
    exact h.follow rfl rfl (fun _ _ _ _ hq => hq) hset
  · rw [heq]
    -- nobody else is at the set, or there is nothing to vote on
    by_cases hd : s.mDisputes = ∅
    · refine .of_empty ?_
      show s.mDisputes.map _ = ∅
      rw [hd]
      rfl
    · apply h.follow (t := s.fetched pos.mCurrentHash set) rfl rfl
      · intro all q m hq hm
        obtain ⟨pos', hpos', hm⟩ := peerSet_eq_some.1 hm
        rw [fetched, acquired_insert (s := { s with inbound := _ })] at hm
        split_ifs at hm with hat
        · exfalso
          have : q ∈ s.peersAt pos.mCurrentHash := by
            simp only [peersAt, List.mem_map, List.mem_filter, beq_iff_eq]
            exact ⟨(q, pos'), ⟨ExtTreeMap.mem_toList_iff_getElem?_eq_some.2 hpos', hat.symm⟩,
              keyed q pos' hpos'⟩
          have : s.skipsVotes pos = true := by
            simp only [skipsVotes, hset, hget, Bool.and_eq_true]
            refine ⟨?_, List.any_eq_true.2 ⟨q, this, by simpa using hq⟩⟩
            simpa using hd
          simp [ok all] at this
        · exact peerSet_eq_some.2 ⟨pos', hpos', hm⟩
      · rw [fetched, acquired_insert (s := { s with inbound := _ }), if_pos rfl]
  · rw [heq]
    exact h.movedAway hset

theorem peerPosition (ok : unskipped → s.skipsVotes pos = false) :
    (s.peerPosition pos).2.VotesTrack unskipped := by
  rcases peerPosition_cases s pos with heq | heq | ⟨-, mCloseTimes, heq⟩
  all_goals rw [heq]
  · exact h
  · exact h.bowsOut pos.mPeerID
  · have : { s with mCloseTimes }.VotesTrack unskipped := h.of_acquired rfl rfl fun _ _ => id
    exact this.takePosition keyed ok

theorem removeStale (cutoff : Int) :
    (s.removeStale cutoff).VotesTrack unskipped := by
  have hpeers (q : NodeID) : (s.removeStale cutoff).mPeerPositions[q]? =
      (s.mPeerPositions[q]?).filter fun it => !it.isStale cutoff :=
    ExtTreeMap.getElem?_filter'
  intro id d hd
  obtain ⟨d0, h0, rfl⟩ := getElem?_mapDisputes hd
  have tracks := h id d0 h0
  refine ⟨?_, ?_, ?_⟩
  · intro all q set hq
    obtain ⟨pos, hpos, hset⟩ := peerSet_eq_some.1 hq
    rw [hpeers] at hpos
    obtain ⟨hpos, hfresh⟩ := Option.filter_eq_some_iff.1 hpos
    rw [foldl_votes (·.isStale cutoff) keyed fun _ => DisputedTx.unVote_votes, hpos, Option.elim_some,
      if_neg (by simpa using hfresh)]
    exact tracks.votes all q set (peerSet_eq_some.2 ⟨pos, hpos, hset⟩)
  · intro q hq
    rw [foldl_votes (·.isStale cutoff) keyed fun _ => DisputedTx.unVote_votes]
    rw [hpeers] at hq
    cases hpos : s.mPeerPositions[q]? with
    | none => exact tracks.known q hpos
    | some pos =>
      rw [hpos] at hq
      exact if_pos (by simpa using hq)
  · exact List.foldlRecOn _ _ tracks.counted
      fun d hd p _ => hd.unVote p.2.mPeerID

end

theorem voted (agreed : Bool) : (s.voted agreed).VotesTrack unskipped := by
  have := h.mapOurs (f := fun _ d => (d.updateVote s.mClosePercent s.mProposing).2)
    fun _ d => by
      rw [DisputedTx.updateVote_frame]
      exact ⟨rfl, rfl, rfl⟩
  exact this.of_acquired rfl rfl fun _ _ => id

variable [SHAMapHash]
open SHAMapHash

theorem compares {m1 m2 : SHAMap} (hc : s.Compares hash m1 m2 s') : s'.VotesTrack unskipped := by
  obtain ⟨ids, hd, -⟩ := createDisputes_spec hc
  have : (s.noteCompare hash).VotesTrack unskipped := h.of_acquired rfl rfl fun _ _ => id
  exact this.disputed hd

theorem recordSet (wf : s.WellFormed) (map : SHAMap) :
    (s.recordSet (getHash map) map).VotesTrack unskipped := by
  intro id d hd
  obtain ⟨d0, h0, rfl⟩ := getElem?_mapDisputes hd
  have tracks := h id d0 h0
  rw [wf.ids id d0 h0, peersAt, List.foldl_map]
  refine ⟨?_, ?_, ?_⟩
  · intro all q set hq
    obtain ⟨pos, hpos, hset⟩ := peerSet_eq_some.1 hq
    have hset : { s with mAcquired := s.mAcquired.insert (getHash map) (some map) }.acquired
      pos.mCurrentHash = some set := hset
    rw [acquired_insert] at hset
    have hpos : s.mPeerPositions[q]? = some pos := hpos
    rw [foldl_votes (·.mCurrentHash == getHash map) wf.keyed fun _ p q =>
      DisputedTx.setVote_votes p q _, hpos, Option.elim_some]
    split_ifs at hset with heq
    · cases hset
      exact if_pos (by simp [heq])
    · rw [if_neg (by simpa using Ne.symm heq)]
      exact tracks.votes all q set (peerSet_eq_some.2 ⟨pos, hpos, hset⟩)
  · intro q hq
    have hq : s.mPeerPositions[q]? = none := hq
    rw [foldl_votes (·.mCurrentHash == getHash map) wf.keyed fun _ p q =>
      DisputedTx.setVote_votes p q _, hq]
    exact tracks.known q hq
  · exact List.foldlRecOn _ _ tracks.counted
      fun d hd p _ => hd.setVote p.2.mPeerID _

omit [SHAMapHash] in
theorem beforeRecord : (s.beforeRecord hash inbound).VotesTrack unskipped := by
  refine h.of_acquired rfl rfl ?_
  intro hash' set hset
  rw [LedgerConsensus.beforeRecord, acquired_erase (s := { s with inbound })] at hset
  split_ifs at hset
  exact hset

theorem mapCompleteInternal (wf : s.WellFormed) {map : Option SHAMap} {acq : Bool}
    (hmap : ∀ m, map = some m → getHash m = hash) (hc : s.mapCompleteInternal hash map acq = .ok s') :
    s'.VotesTrack unskipped := by
  cases map with
  | none =>
    cases hc
    refine h.of_acquired rfl rfl ?_
    intro hash' set hset
    rw [acquired_insert] at hset
    split_ifs at hset
    exact hset
  | some map =>
    obtain rfl := hmap map rfl
    rcases mapCompleteInternal_cases hc with ⟨-, rfl⟩ | ⟨-, inbound, s1, hin, hcmp, rfl⟩
    · exact h
    · have wf1 : s1.WellFormed := by
        refine (wf.beforeRecord ?_).compareWithOurs hcmp
        rcases hin with rfl | rfl
        · exact wf.inbound
        · exact wf.inbound.giveSet map
      refine recordSet ?_ wf1 map
      rcases compareWithOurs_cases hcmp with rfl | ⟨ours, set, -, -, -, -, hc⟩
      · exact h.beforeRecord
      · exact h.beforeRecord.compares hc

theorem updateOurPositions (wf : s.WellFormed) (late : s.mState = .lcsESTABLISH) {now : Int}
    (hu : s.updateOurPositions now = .ok s') : s'.VotesTrack unskipped := by
  obtain ⟨t, ours, agreed, rfl, -, hcase⟩ := updateOurPositions_cases hu
  have hvoted := (h.removeStale wf.keyed (now - PROPOSE_FRESHNESS * second)).voted agreed
  have wfVoted := (wf.removeStale (now - PROPOSE_FRESHNESS * second)).voted agreed
  rcases hcase with ⟨-, rfl⟩ | ⟨set, ours', -, -, hhash, hmap⟩
  · exact hvoted
  · have : { (s.removeStale (now - PROPOSE_FRESHNESS * second)).voted agreed with
        mOurPosition := some ours' }.VotesTrack unskipped :=
      hvoted.of_acquired rfl rfl fun _ _ => id
    exact this.mapCompleteInternal (wfVoted.withPosition ours' late) (hash_of_some hhash.symm) hmap

theorem closeLedger (wf : s.WellFormed) {c : Closing} (hc : s.closeLedger c = .ok s') :
    s'.VotesTrack unskipped := by
  obtain ⟨s1, ours, hmap, -, -, hfold⟩ := takeInitialPosition_ok hc
  have hstart :
      { s with mState := .lcsESTABLISH, mCloseTime := c.mCloseTime }.VotesTrack unskipped :=
    h.of_acquired rfl rfl fun _ _ => id
  have h1 : s1.VotesTrack unskipped := hstart.mapCompleteInternal wf.closing (hash_of_some rfl) hmap
  have hopened : (s1.opened ours c.transactions.hasItem).VotesTrack unskipped := by
    have := h1.mapOurs (f := fun id d => d.setOurVote (c.transactions.hasItem id))
      fun _ _ => ⟨rfl, rfl, rfl⟩
    exact this.of_acquired rfl rfl fun _ _ => id
  exact compareInitial_keeps (fun s s' hash map hs _ hc => hs.compares hc) hfold hopened

theorem haveConsensus {forReal r : Bool} {v : Int} (hc : s.haveConsensus forReal v = .ok (r, s')) :
    s'.VotesTrack unskipped := by
  refine haveConsensus_keeps ?_ ?_ hc h
  · intro s s' ours hash m1 m2 h _ _ _ hc
    exact h.compares hc
  · intro s fail h
    exact h.of_acquired rfl rfl fun _ _ => id

end

theorem handleLCL (h : s.VotesTrack unskipped) {lclHash : LedgerHash} {net : Network}
    (hc : s.handleLCL lclHash net = .ok s') : s'.VotesTrack unskipped := by
  refine handleLCL_keeps ?_ ?_ ?_ hc h
  · intro _
    refine .of_empty (playbackProposals_keeps (P := fun s => s.mDisputes = ∅) ?_ _ rfl)
    intro s pos hs
    exact peerPosition_empty hs
  · intro s h
    exact h.of_acquired rfl rfl fun _ _ => id
  · intro s newLCL res h
    exact h.of_acquired rfl rfl fun _ _ => id

theorem leaveConsensus (h : s.VotesTrack unskipped) (now : Int) :
    (s.leaveConsensus now).VotesTrack unskipped := by
  unfold LedgerConsensus.leaveConsensus
  split_ifs
  · exact h.of_acquired rfl rfl fun _ _ => id
  · exact h

end VotesTrack

/-- An event that takes a set over and skips the votes of another peer at it. -/
def Event.skipsVotes : Event → LedgerConsensus → Bool
  | .peerPosition pos, s => s.skipsVotes pos
  | _, _ => false

variable [SHAMapHash]
open SHAMapHash

/-- Every event keeps the votes right, those of all peers unless it skips some. -/
theorem VotesTrack.run (h : s.VotesTrack unskipped) (wf : s.WellFormed) {e : Event}
    (possible : e.Possible s) (ok : unskipped → e.skipsVotes s = false) (hr : e.run s = .ok s') :
    s'.VotesTrack unskipped := by
  cases e with
  | peerPosition pos =>
    cases hr
    exact h.peerPosition wf.keyed ok
  | giveSet | clock | finish =>
    cases hr
    exact h.of_acquired rfl rfl fun _ _ => id
  | mapComplete hash map => exact h.mapCompleteInternal wf possible hr
  | closeLedger c => exact h.closeLedger wf hr
  | updateOurPositions now => exact h.updateOurPositions wf possible hr
  | haveConsensus forReal v =>
    obtain ⟨⟨r, s1⟩, hc, hr⟩ := bind_eq_ok.1 hr
    cases hr
    exact h.haveConsensus hc
  | checkLCL net =>
    rcases checkLCL_cases hr with rfl | hr
    · exact h
    · exact h.handleLCL hr
  | handleLCL lclHash net => exact h.handleLCL hr
  | leaveConsensus now =>
    cases hr
    exact h.leaveConsensus now

theorem VotesTrack.reachable {ok : Event → LedgerConsensus → Prop} (h : Reachable ok s)
    (safe : ∀ e s, ok e s → unskipped → e.skipsVotes s = false) : s.VotesTrack unskipped := by
  induction h with
  | create _ hc =>
    obtain ⟨s0, -, -, -, -, -, hd, -, hs⟩ := create_cases hc
    rcases hs with rfl | hs
    · exact .of_empty hd
    · exact (VotesTrack.of_empty hd).handleLCL hs
  | step e hs possible ok hr ih => exact ih.run hs.wellFormed possible (safe e _ ok) hr

end LedgerConsensus

open LedgerConsensus

/-- As long as no event skips the votes of a peer, the disputes of a round record
how the current positions of the peers vote, and nothing else. -/
theorem votes_track_positions [SHAMapHash] {s : LedgerConsensus}
    (h : Reachable (fun e s => e.skipsVotes s = false) s) {id : TxID} {d : DisputedTx}
    (hd : s.mDisputes[id]? = some d) :
    (∀ (p : NodeID) pos set, s.mPeerPositions[p]? = some pos →
      s.mAcquired[pos.mCurrentHash]? = some (some set) →
      d.mVotes[p]? = some (set.hasItem d.mTransactionID)) ∧
    (∀ p : NodeID, s.mPeerPositions[p]? = none → d.mVotes[p]? = none) ∧
    d.mYays = d.mVotes.toList.countP (fun v => v.2) ∧
    d.mNays = d.mVotes.toList.countP fun v => !v.2 := by
  obtain ⟨votes, known, counted⟩ :=
    (VotesTrack.reachable h fun _ _ ok _ => ok : s.VotesTrack True) id d hd
  refine ⟨?_, known, ?_, ?_⟩
  · intro p pos set hpos hset
    rw [h.wellFormed.ids id d hd]
    exact votes trivial p set (peerSet_eq_some.2 ⟨pos, hpos, acquired_eq_some.2 hset⟩)
  · rw [counted.yays, DisputedTx.voters, ← MapCount.countP_toList]
    simp
  · rw [counted.nays, DisputedTx.voters, ← MapCount.countP_toList]
    simp

/-- The vote of the peer that proposes a transaction we do not have. -/
theorem disputedRound_votes : ∃ (_ : SHAMapHash) (s : LedgerConsensus) (d : DisputedTx),
    s.mDisputes[7]? = some d ∧ d.mVotes[1]? = some true ∧
      d.mYays = d.mVotes.toList.countP fun v => v.2 := by
  let hash := SHAMap.coded
  have hvote : ((scenario (fun e s => e.skipsVotes s = false) sampleStart sampleNetwork disputedRound).bind
      fun s => s.mDisputes[7]?.bind fun d => d.mVotes[1]?) = some true := by
    decide +kernel
  obtain ⟨s, hs, hvote⟩ := Option.bind_eq_some_iff.1 hvote
  obtain ⟨d, hd, hvote⟩ := Option.bind_eq_some_iff.1 hvote
  have hr := reachable_of_scenario sampleStart_sound hs
  exact ⟨hash, s, d, hd, hvote, (votes_track_positions hr hd).2.2.1⟩

/-- Peer 2 proposes a set before we have it. Once the set is there, a proposal of
peer 3 takes it over, and the vote of peer 2 stays missing for good. -/
theorem overlooked_vote : ∃ (_ : SHAMapHash) (s : LedgerConsensus) (d : DisputedTx)
    (pos : LedgerProposal) (set : SHAMap), Reachable (fun _ _ => True) s ∧
      s.mDisputes[7]? = some d ∧ s.mPeerPositions[2]? = some pos ∧
      s.mAcquired[pos.mCurrentHash]? = some (some set) ∧ d.mVotes[2]? = none := by
  let hash := SHAMap.coded
  let set : SHAMap := .ofList [(7, []), (8, [])]
  let late : List Event := [.peerPosition (sampleProposal 2 set),
    .giveSet (SHAMapHash.getHash set) set, .peerPosition (sampleProposal 3 set),
    .mapComplete (SHAMapHash.getHash set) (some set)]
  have hmiss : ((scenario (fun _ _ => True) sampleStart sampleNetwork (disputedRound ++ late)).bind
      fun s => s.mDisputes[7]?.bind fun d => s.mPeerPositions[2]?.bind fun pos =>
        (s.mAcquired[pos.mCurrentHash]?.join).map fun _ => d.mVotes[2]?) = some none := by
    decide +kernel
  obtain ⟨s, hs, hmiss⟩ := Option.bind_eq_some_iff.1 hmiss
  obtain ⟨d, hd, hmiss⟩ := Option.bind_eq_some_iff.1 hmiss
  obtain ⟨pos, hpos, hmiss⟩ := Option.bind_eq_some_iff.1 hmiss
  obtain ⟨m, hm, hmiss⟩ := Option.map_eq_some_iff.1 hmiss
  have hr := reachable_of_scenario sampleStart_sound hs
  exact ⟨hash, s, d, pos, m, hr, hd, hpos, Option.join_eq_some_iff.1 hm, hmiss⟩

end Skywell
