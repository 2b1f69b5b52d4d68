import JingtumCore.LedgerConsensus
import JingtumCore.ExceptFold

/-!
# What the events of a round do

One lemma for each function of `LedgerConsensus` says what it changes. The
functions that loop have a rule instead: what each turn of the loop keeps, the
function keeps. The invariants of a round are derived from these.
-/
namespace Skywell
open Std ExceptFold

namespace LedgerConsensus

variable {s s' : LedgerConsensus} {id : TxID} {p : NodeID}

theorem acquired_eq_some {hash : TxSetHash} {set : SHAMap} :
    s.acquired hash = some set ↔ s.mAcquired[hash]? = some (some set) :=
  Option.join_eq_some_iff

theorem acquired_eq_none {hash : TxSetHash} :
    s.acquired hash = none ↔ s.mAcquired[hash]? = none ∨ s.mAcquired[hash]? = some none := by
  rw [acquired]
  rcases s.mAcquired[hash]? with _ | _ | set <;> simp

/-- Our position's set. -/
def ourHash (s : LedgerConsensus) : Option TxSetHash := s.mOurPosition.map (·.mCurrentHash)

/-- The set of a peer's current position, if we have it. -/
def peerSet (s : LedgerConsensus) (p : NodeID) : Option SHAMap :=
  (s.mPeerPositions[p]?).bind fun pos => s.acquired pos.mCurrentHash

/-- How a peer votes on a transaction, by the set of its current position. -/
def peerVote (s : LedgerConsensus) (p : NodeID) (id : TxID) : Option Bool :=
  (s.peerSet p).map fun set => set.hasItem id

theorem peerVotes_votes (d : DisputedTx) :
    (s.peerVotes id d).mVotes[p]? = (s.peerVote p id).or d.mVotes[p]? := by
  refine (MapFold.foldl_toList s.mPeerPositions p (·.mVotes[p]?) (fun pos old =>
    ((s.acquired pos.mCurrentHash).map fun set => set.hasItem id).or old) (fun d it _ => ?_) d).trans ?_
  · rw [votePeer]
    cases s.acquired it.2.mCurrentHash <;> simp [DisputedTx.setVote_votes]
  · rw [peerVote, peerSet]
    cases s.mPeerPositions[p]? <;> rfl

theorem peerVotes_keeps {P : DisputedTx → Prop} (keep : ∀ d p b, P d → P (d.setVote p b))
    {d : DisputedTx} (h : P d) : P (s.peerVotes id d) := by
  refine List.foldlRecOn _ _ h fun d hd it _ => ?_
  rw [votePeer]
  cases s.acquired it.2.mCurrentHash with
  | none => exact hd
  | some set => exact keep d _ _ hd

/-- `s'` differs from `s` in that disputes were added, about `ids` at least. -/
structure Disputed (s : LedgerConsensus) (ids : List TxID) (s' : LedgerConsensus) : Prop where
  frame : s' = { s with mDisputes := s'.mDisputes }
  old : ∀ (id : TxID) d, s.mDisputes[id]? = some d → s'.mDisputes[id]? = some d
  new : ∀ (id : TxID) d, s'.mDisputes[id]? = some d → s.mDisputes[id]? = some d ∨
    ∃ tx vote, s.ourVote id = .ok vote ∧ d = s.peerVotes id ⟨id, tx, vote, 0, 0, ∅⟩
  found : ∀ id ∈ ids, (s'.mDisputes[id]?).isSome

theorem Disputed.refl (s : LedgerConsensus) : Disputed s [] s :=
  ⟨rfl, fun _ _ h => h, fun _ _ h => .inl h, by simp⟩

theorem Disputed.trans {s1 s2 s3 : LedgerConsensus} {ids ids' : List TxID}
    (h : Disputed s1 ids s2) (h' : Disputed s2 ids' s3) : Disputed s1 (ids ++ ids') s3 := by
  obtain ⟨ds, rfl⟩ : ∃ ds, s2 = { s1 with mDisputes := ds } := ⟨_, h.frame⟩
  refine ⟨h'.frame, fun id d hd => h'.old id d (h.old id d hd), ?_, ?_⟩
  · intro id d hd
    rcases h'.new id d hd with hd | hd
    · exact h.new id d hd
    · exact .inr hd
  · intro id hid
    rcases List.mem_append.1 hid with hid | hid
    · obtain ⟨d, hd⟩ := Option.isSome_iff_exists.1 (h.found id hid)
      exact Option.isSome_iff_exists.2 ⟨d, h'.old id d hd⟩
    · exact h'.found id hid

theorem addDisputedTransaction_spec {tx : Blob}
    (h : s.addDisputedTransaction id tx = .ok s') : Disputed s [id] s' := by
  unfold addDisputedTransaction at h
  split_ifs at h with hc
  · cases h
    refine ⟨rfl, fun _ _ h => h, fun _ _ h => .inl h, ?_⟩
    simpa using hc
  · obtain ⟨vote, hv, h⟩ := bind_eq_ok.1 h
    cases h
    have hnone : s.mDisputes[id]? = none :=
      ExtTreeMap.getElem?_eq_none (by simpa using hc)
    refine ⟨rfl, ?_, ?_, by simp⟩
    · intro id' d hd
      have : id ≠ id' := by
        rintro rfl
        simp [hnone] at hd
      simpa [ExtTreeMap.getElem?_insert, this] using hd
    · intro id' d hd
      by_cases he : id = id'
      · subst he
        exact .inr ⟨tx, vote, hv, by simpa using hd.symm⟩
      · exact .inl (by simpa [ExtTreeMap.getElem?_insert, he] using hd)

theorem foldlM_addDifference_spec {l : List (TxID × Option Blob × Option Blob)}
    (real : ∀ pos ∈ l, pos.2 ≠ (none, none)) (h : l.foldlM addDifference s = .ok s') :
    Disputed s (l.map Prod.fst) s' := by
  induction l generalizing s with
  | nil =>
    cases h
    exact .refl _
  | cons pos l ih =>
    obtain ⟨s1, h1, h2⟩ := bind_eq_ok.1 h
    have first : Disputed s [pos.1] s1 := by
      have hreal := real pos List.mem_cons_self
      rcases pos with ⟨id, _ | tx, _ | tx'⟩
      · exact absurd rfl hreal
      all_goals exact addDisputedTransaction_spec h1
    exact first.trans (ih (fun pos h => real pos (List.mem_cons_of_mem _ h)) h2)

end LedgerConsensus

namespace SHAMap

variable {m1 m2 : SHAMap} {id : TxID}

theorem delta_real (pos) (h : pos ∈ m1.delta m2) : pos.2 ≠ (none, none) := by
  simp only [delta, List.mem_append, List.mem_map] at h
  rcases h with ⟨e, _, rfl⟩ | ⟨e, _, rfl⟩ <;> simp

theorem mem_delta (h : m1.hasItem id ≠ m2.hasItem id) : id ∈ (m1.delta m2).map Prod.fst := by
  simp only [delta, List.map_append, List.map_map, List.mem_append, List.mem_map,
    List.mem_filter]
  simp only [hasItem, ExtTreeMap.contains_eq_isSome_getElem?] at h ⊢
  cases h1 : m1[id]? with
  | none =>
    cases h2 : m2[id]? with
    | none => simp [h1, h2] at h
    | some tx => exact .inr ⟨(id, tx), by simp [h1, h2], rfl⟩
  | some tx =>
    cases h2 : m2[id]? with
    | none => exact .inl ⟨(id, tx), by simp [h1, h2], rfl⟩
    | some tx' => simp [h1, h2] at h

end SHAMap

namespace LedgerConsensus

variable {s s' : LedgerConsensus} {id : TxID} {m1 m2 : SHAMap}

/-- Our own position's set was reported invalid. -/
def OursInvalid (s : LedgerConsensus) : Prop :=
  ∃ ours, s.mOurPosition = some ours ∧ s.mAcquired[ours.mCurrentHash]? = some none

variable {acq : Bool} {map : SHAMap}

theorem ourVote_returns (h : ¬s.OursInvalid) : ∃ vote, s.ourVote id = .ok vote := by
  unfold ourVote
  cases hours : s.mOurPosition with
  | none => exact ⟨_, rfl⟩
  | some ours =>
    cases hset : s.mAcquired[ours.mCurrentHash]? with
    | none => simp [hset, pure, Except.pure]
    | some set =>
      cases set with
      | none => exact absurd ⟨ours, hours, hset⟩ h
      | some set => simp [hset, pure, Except.pure]

theorem addDisputedTransaction_returns (h : ¬s.OursInvalid) (id : TxID) (tx : Blob) :
    ∃ s', s.addDisputedTransaction id tx = .ok s' := by
  unfold addDisputedTransaction
  split_ifs
  · exact ⟨_, rfl⟩
  · obtain ⟨vote, hv⟩ : ∃ vote, s.ourVote id = .ok vote := ourVote_returns h
    exact ⟨_, bind_eq_ok.2 ⟨vote, hv, rfl⟩⟩

variable [SHAMapHash]
open SHAMapHash

/-- Two sets that one comparison goes through completely. -/
def Comparable (m1 m2 : SHAMap) : Prop := (m1.delta m2).length ≤ maxDifferences

theorem createDisputes_spec (h : s.createDisputes m1 m2 = .ok s') :
    ∃ ids, Disputed s ids s' ∧
      (Comparable m1 m2 → ∀ id, m1.hasItem id ≠ m2.hasItem id → id ∈ ids) := by
  unfold createDisputes at h
  split_ifs at h with heq
  · cases h
    refine ⟨[], .refl s, fun _ id hne => absurd ?_ hne⟩
    rw [injective heq]
  · refine ⟨_, foldlM_addDifference_spec (fun pos hpos => ?_) h, fun hc id hne => ?_⟩
    · exact SHAMap.delta_real pos (List.mem_of_mem_take hpos)
    · rw [SHAMap.differences, List.take_of_length_le hc]
      exact SHAMap.mem_delta hne

theorem createDisputes_returns (h : ¬s.OursInvalid) (m1 m2 : SHAMap) :
    ∃ s', s.createDisputes m1 m2 = .ok s' := by
  unfold createDisputes
  split_ifs
  · exact ⟨_, rfl⟩
  · refine foldlM_returns (P := fun s => ¬s.OursInvalid) (fun s pos _ hs => ?_) h
    have step (id tx) : ∃ s', s.addDisputedTransaction id tx = .ok s' ∧ ¬s'.OursInvalid := by
      obtain ⟨s', hs'⟩ := addDisputedTransaction_returns hs id tx
      refine ⟨s', hs', ?_⟩
      rw [(addDisputedTransaction_spec hs').frame]
      exact hs
    rcases pos with ⟨id, _ | tx, _ | tx'⟩
    · exact ⟨s, rfl, hs⟩
    · exact step id tx'
    · exact step id tx
    · exact step id tx

/-- A set is compared with our own, and the comparison is noted. -/
def Compares (s : LedgerConsensus) (hash : TxSetHash) (m1 m2 : SHAMap) (s' : LedgerConsensus) :
    Prop :=
  (s.noteCompare hash).createDisputes m1 m2 = .ok s'

variable {hash : TxSetHash}

theorem compareWithOurs_cases (h : s.compareWithOurs hash map = .ok s') :
    s' = s ∨ ∃ ours set, s.mOurPosition = some ours ∧ ours.isBowOut = false ∧
      hash ≠ ours.mCurrentHash ∧ s.acquired ours.mCurrentHash = some set ∧
      s.Compares hash set map s' := by
  unfold compareWithOurs at h
  cases hours : s.mOurPosition with
  | none =>
    rw [hours] at h
    cases h
    exact .inl rfl
  | some ours =>
    simp only [hours] at h
    split_ifs at h with hc
    · obtain ⟨hb, hne⟩ : ours.isBowOut = false ∧ hash ≠ ours.mCurrentHash := by simpa using hc
      cases hset : s.mAcquired[ours.mCurrentHash]? with
      | none =>
        rw [hset] at h
        cases h
        exact .inl rfl
      | some set =>
        cases set with
        | none =>
          rw [hset] at h
          cases h
        | some set =>
          rw [hset] at h
          exact .inr ⟨ours, set, rfl, hb, hne, acquired_eq_some.2 hset, h⟩
    · cases h
      exact .inl rfl

theorem compareWithOurs_returns (h : ¬s.OursInvalid) (hash : TxSetHash) (map : SHAMap) :
    ∃ s', s.compareWithOurs hash map = .ok s' := by
  unfold compareWithOurs
  cases hours : s.mOurPosition with
  | none => exact ⟨_, rfl⟩
  | some ours =>
    dsimp only
    split_ifs
    · cases hset : s.mAcquired[ours.mCurrentHash]? with
      | none => exact ⟨_, rfl⟩
      | some set =>
        cases set with
        | none => exact absurd ⟨ours, hours, hset⟩ h
        | some set => exact createDisputes_returns (s := s.noteCompare hash) h set map
    · exact ⟨_, rfl⟩

/-- A round when a new set is to be compared and is not recorded yet. -/
def beforeRecord (s : LedgerConsensus) (hash : TxSetHash) (inbound : InboundTransactions) :
    LedgerConsensus :=
  { s with mAcquired := s.mAcquired.erase hash, inbound }

theorem mapCompleteInternal_new (hnew : s.acquired hash = none) :
    s.mapCompleteInternal hash (some map) acq = (do
      let s1 ← (s.beforeRecord hash
        (if acq then s.inbound else s.inbound.giveSet hash map)).compareWithOurs hash map
      return s1.recordSet hash map) := by
  unfold mapCompleteInternal
  rcases acquired_eq_none.1 hnew with hit | hit <;> cases acq <;> simp only [hit] <;> rfl

theorem mapCompleteInternal_known {set : SHAMap} (hknown : s.acquired hash = some set) :
    s.mapCompleteInternal hash (some map) acq = .ok s := by
  simp only [mapCompleteInternal, acquired_eq_some.1 hknown]
  rfl

/-- A set that becomes complete is there already, or is new. -/
theorem mapCompleteInternal_cases (h : s.mapCompleteInternal hash (some map) acq = .ok s') :
    ((∃ set, s.acquired hash = some set) ∧ s' = s) ∨
    (s.acquired hash = none ∧ ∃ inbound s1,
      (inbound = s.inbound ∨ inbound = s.inbound.giveSet hash map) ∧
      (s.beforeRecord hash inbound).compareWithOurs hash map = .ok s1 ∧
      s' = s1.recordSet hash map) := by
  cases hset : s.acquired hash with
  | some set =>
    rw [mapCompleteInternal_known hset] at h
    cases h
    exact .inl ⟨⟨set, rfl⟩, rfl⟩
  | none =>
    rw [mapCompleteInternal_new hset] at h
    obtain ⟨s1, h1, h2⟩ := bind_eq_ok.1 h
    cases h2
    refine .inr ⟨rfl, _, s1, ?_, h1, rfl⟩
    cases acq <;> simp

theorem Compares.frame (h : s.Compares hash m1 m2 s') :
    s' = { s with mCompares := s.mCompares.insert hash, mDisputes := s'.mDisputes } := by
  obtain ⟨ids, hd, -⟩ := createDisputes_spec h
  exact hd.frame

/-- A set that becomes complete changes neither positions nor the state of the round. -/
theorem mapCompleteInternal_frame {map : Option SHAMap}
    (h : s.mapCompleteInternal hash map acq = .ok s') : ∃ inbound mAcquired mCompares mDisputes,
      s' = { s with inbound, mAcquired, mCompares, mDisputes } := by
  cases map with
  | none =>
    cases h
    exact ⟨_, _, _, _, rfl⟩
  | some map =>
    rcases mapCompleteInternal_cases h with ⟨-, rfl⟩ | ⟨-, inbound, s1, -, hcmp, rfl⟩
    · exact ⟨_, _, _, _, rfl⟩
    · rcases compareWithOurs_cases hcmp with rfl | ⟨ours, set, -, -, -, -, hc⟩
      · exact ⟨_, _, _, _, rfl⟩
      · rw [hc.frame]
        exact ⟨_, _, _, _, rfl⟩

end LedgerConsensus

namespace InboundTransactions
variable [SHAMapHash] {i : InboundTransactions}
open SHAMapHash

/-- The sets are kept under their hashes. -/
def Sound (i : InboundTransactions) : Prop :=
  ∀ (hash : TxSetHash) it set, i.m_map[hash]? = some it → it.mSet = some set → getHash set = hash

theorem Sound.insert (h : i.Sound) {hash : TxSetHash} {it : InboundTransactionSet}
    (own : ∀ set, it.mSet = some set → getHash set = hash) :
    Sound { i with m_map := i.m_map.insert hash it } := by
  intro hash' it' set hit hset
  simp only [ExtTreeMap.getElem?_insert, Std.compare_eq_iff_eq] at hit
  split_ifs at hit with heq
  · cases hit
    rw [own set hset, heq]
  · exact h hash' it' set hit hset

theorem Sound.getSet (h : i.Sound) (hash : TxSetHash) (acquire : Bool) :
    (i.getSet hash acquire).2.Sound ∧
      ∀ set, (i.getSet hash acquire).1 = some set → getHash set = hash := by
  unfold InboundTransactions.getSet
  cases hit : i.m_map[hash]? with
  | some it =>
    refine ⟨?_, fun set hset => h hash it set hit hset⟩
    cases acquire with
    | false => exact h
    | true => exact h.insert fun set hset => h hash it set hit hset
  | none =>
    dsimp only
    split_ifs
    · exact ⟨h, by simp⟩
    · exact ⟨h.insert (by simp), by simp⟩

theorem Sound.giveSet (h : i.Sound) (set : SHAMap) : (i.giveSet (getHash set) set).Sound := by
  refine h.insert fun set' hset => ?_
  cases hold : i.m_map[getHash set]? with
  | none =>
    have : set = set' := by simpa [ExtTreeMap.getD_eq_getD_getElem?, hold] using hset
    rw [this]
  | some it =>
    cases hs : it.mSet with
    | none =>
      have : set = set' := by simpa [ExtTreeMap.getD_eq_getD_getElem?, hold, hs] using hset
      rw [this]
    | some old =>
      have : old = set' := by simpa [ExtTreeMap.getD_eq_getD_getElem?, hold, hs] using hset
      subst this
      exact h _ it old hold hs

end InboundTransactions

namespace LedgerConsensus

variable {s s' : LedgerConsensus}

/-- A set is taken over from `InboundTransactions`. -/
def fetched (s : LedgerConsensus) (hash : TxSetHash) (set : SHAMap) : LedgerConsensus :=
  { s with
    inbound := (s.inbound.getSet hash true).2
    mAcquired := s.mAcquired.insert hash (some set) }

/-- A peer has a new position. -/
def moved (s : LedgerConsensus) (newPosition : LedgerProposal) : LedgerConsensus :=
  { s with mPeerPositions := s.mPeerPositions.insert newPosition.mPeerID newPosition }

variable {hash : TxSetHash} {set : SHAMap} {now : Int} {ours : LedgerProposal}
  {P : LedgerConsensus → Prop} {net : Network}
  {forReal r : Bool} {v : Int} {lclHash : LedgerHash} {initialSet : SHAMap}

/-- The set of a position that counts is there, can be taken over, or is missing. -/
theorem takePosition_cases (s : LedgerConsensus) (pos : LedgerProposal) :
    (∃ set, s.acquired pos.mCurrentHash = some set ∧
      s.takePosition pos = (s.moved pos).votesFollow pos.mPeerID set) ∨
    (∃ set, s.acquired pos.mCurrentHash = none ∧
      (s.inbound.getSet pos.mCurrentHash true).1 = some set ∧
      s.takePosition pos =
        ((s.moved pos).fetched pos.mCurrentHash set).votesFollow pos.mPeerID set) ∨
    (s.acquired pos.mCurrentHash = none ∧ (s.inbound.getSet pos.mCurrentHash true).1 = none ∧
      s.takePosition pos =
        { s.moved pos with inbound := (s.inbound.getSet pos.mCurrentHash true).2 }) := by
  rw [takePosition]
  cases hset : s.acquired pos.mCurrentHash with
  | some set => exact .inl ⟨set, rfl, by simp [getTransactionTree, moved, acquired_eq_some.1 hset]⟩
  | none =>
    right
    obtain ⟨found, inbound, hget⟩ : ∃ found inbound,
        s.inbound.getSet pos.mCurrentHash true = (found, inbound) := ⟨_, _, rfl⟩
    rw [hget]
    cases found with
    | some set =>
      refine .inl ⟨set, rfl, rfl, ?_⟩
      rcases acquired_eq_none.1 hset with hit | hit <;>
        simp [getTransactionTree, moved, fetched, hit, hget]
    | none =>
      refine .inr ⟨rfl, rfl, ?_⟩
      rcases acquired_eq_none.1 hset with hit | hit <;> simp [getTransactionTree, moved, hit, hget]

/-- A proposal is ignored, takes its peer out, or counts. -/
theorem peerPosition_cases (s : LedgerConsensus) (pos : LedgerProposal) :
    (s.peerPosition pos).2 = s ∨ (s.peerPosition pos).2 = s.peerBowsOut pos.mPeerID ∨
    (pos.isBowOut = false ∧ pos.mPeerID ∉ s.mDeadNodes ∧ ∀ old,
        s.mPeerPositions[pos.mPeerID]? = some old → old.mProposeSeq < pos.mProposeSeq) ∧
      ∃ mCloseTimes, (s.peerPosition pos).2 = { s with mCloseTimes }.takePosition pos := by
  unfold peerPosition
  dsimp only
  split_ifs with dead old h3 h4
  · exact .inl rfl
  · exact .inl rfl
  · refine .inr (.inr ⟨⟨?_, by simpa using dead, fun _ hold => by simpa [hold] using old⟩, _, rfl⟩)
    simp [LedgerProposal.isBowOut, h3, LedgerProposal.seqLeave]
  · exact .inr (.inl rfl)
  · refine .inr (.inr ⟨⟨?_, by simpa using dead, fun _ hold => by simpa [hold] using old⟩,
      s.mCloseTimes, rfl⟩)
    simpa [LedgerProposal.isBowOut] using h4

variable [SHAMapHash]
open SHAMapHash

/-- We have taken a position, and our votes on the disputes follow it. -/
def opened (s : LedgerConsensus) (ours : LedgerProposal) (vote : TxID → Bool) : LedgerConsensus :=
  { s with
    mOurPosition := some ours
    mDisputes := s.mDisputes.map fun id d => d.setOurVote (vote id) }

/-- The positions of all peers, each once. -/
def peerHashes (s : LedgerConsensus) : List TxSetHash :=
  (s.mPeerPositions.toList.map fun it => it.2.mCurrentHash).dedup

theorem takeInitialPosition_ok {c : Closing} (h : s.takeInitialPosition c = .ok s') :
    ∃ s1 ours, s.mapCompleteInternal (getHash (s.initialSet c)) (some (s.initialSet c)) false = .ok s1 ∧
      ours.mCurrentHash = getHash (s.initialSet c) ∧ ours.isBowOut = false ∧
      s1.peerHashes.foldlM (compareInitial (s.initialSet c))
        (s1.opened ours c.transactions.hasItem) = .ok s' := by
  obtain ⟨s1, h1, h2⟩ := bind_eq_ok.1 h
  exact ⟨s1, _, h1, rfl, rfl, h2⟩

theorem compareInitial_cases (h : s.compareInitial initialSet hash = .ok s') :
    (s.mAcquired[hash]? = none ∧ s' = s) ∨
      ∃ map, s.acquired hash = some map ∧ s.Compares (getHash map) initialSet map s' := by
  unfold compareInitial at h
  rcases hset : s.mAcquired[hash]? with _ | _ | map
  · rw [hset] at h
    cases h
    exact .inl ⟨rfl, rfl⟩
  · rw [hset] at h
    cases h
  · rw [hset] at h
    exact .inr ⟨map, acquired_eq_some.2 hset, h⟩

omit [SHAMapHash] in
theorem ourSet_eq_ok :
    s.ourSet ours = .ok set ↔ s.acquired ours.mCurrentHash = some set := by
  unfold ourSet
  cases s.acquired ours.mCurrentHash with
  | none => simp
  | some set' => simp [pure, Except.pure]

/-- Our set is changed by the votes that change and becomes our position, or
nothing but the votes is updated. -/
theorem revisePosition_ok (h : s.revisePosition ours now = .ok s') :
    ∃ agreed closeTime,
      (∃ set, s.acquired ours.mCurrentHash = some set ∧
        (s.voted agreed).changeOurPosition ours (s.flips.foldl s.applyFlip set) closeTime now =
          .ok s') ∨
      s.flips = [] ∧ s' = s.voted agreed := by
  obtain ⟨changed, hc, h⟩ := bind_eq_ok.1 h
  refine ⟨(s.closeTimeVote ours).1, (s.closeTimeVote ours).2, ?_⟩
  by_cases hflips : s.flips = []
  · rw [changedSet, hflips] at hc
    cases hc
    rw [hflips]
    dsimp only at h
    split_ifs at h
    · obtain ⟨set, hset, h⟩ := bind_eq_ok.1 h
      exact .inl ⟨set, ourSet_eq_ok.1 hset, h⟩
    · cases h
      exact .inr ⟨rfl, rfl⟩
  · rw [changedSet, if_neg (by simpa using hflips)] at hc
    obtain ⟨set, hset, rfl⟩ := map_eq_ok.1 hc
    exact .inl ⟨set, ourSet_eq_ok.1 hset, h⟩

/-- Our votes are updated without a new position, or become our position. -/
theorem updateOurPositions_cases (h : s.updateOurPositions now = .ok s') :
    ∃ t ours agreed, t = s.removeStale (now - PROPOSE_FRESHNESS * second) ∧
      s.mOurPosition = some ours ∧
      ((t.flips = [] ∨ ours.isBowOut = true) ∧ s' = t.voted agreed ∨
      ∃ set ours', ours.isBowOut = false ∧ t.acquired ours.mCurrentHash = some set ∧
        ours'.mCurrentHash = getHash (t.flips.foldl t.applyFlip set) ∧
        { t.voted agreed with mOurPosition := some ours' }.mapCompleteInternal ours'.mCurrentHash
          (some (t.flips.foldl t.applyFlip set)) false = .ok s') := by
  unfold updateOurPositions at h
  dsimp only at h
  have hframe : (s.removeStale (now - PROPOSE_FRESHNESS * second)).mOurPosition = s.mOurPosition :=
    rfl
  cases hours : s.mOurPosition with
  | none =>
    rw [hframe, hours] at h
    cases h
  | some ours =>
    rw [hframe, hours] at h
    obtain ⟨agreed, closeTime, hrev⟩ := revisePosition_ok h
    refine ⟨_, ours, agreed, rfl, rfl, ?_⟩
    rcases hrev with ⟨set, hset, hch⟩ | ⟨hflips, rfl⟩
    · unfold changeOurPosition LedgerProposal.changePosition at hch
      by_cases hb : ours.mProposeSeq = LedgerProposal.seqLeave
      · rw [if_pos hb] at hch
        cases hch
        exact .inl ⟨.inr (by simp [LedgerProposal.isBowOut, hb]), rfl⟩
      · rw [if_neg hb] at hch
        exact .inr ⟨set, _, by simp [LedgerProposal.isBowOut, hb], hset, rfl, hch⟩
    · exact .inl ⟨.inl hflips, rfl⟩

theorem compareInitial_keeps {l : List TxSetHash}
    (step : ∀ s s' hash map, P s → s.acquired hash = some map →
      s.Compares (getHash map) initialSet map s' → P s')
    (h : l.foldlM (compareInitial initialSet) s = .ok s') (hs : P s) : P s' := by
  refine foldlM_keeps (fun s hash s' _ hs hc => ?_) h hs
  rcases compareInitial_cases hc with ⟨-, rfl⟩ | ⟨map, hmap, hc⟩
  · exact hs
  · exact step s s' hash map hs hmap hc

/-- What a call of `haveConsensus` has done once it returns. -/
theorem haveConsensus_ok (h : s.haveConsensus forReal v = .ok (r, s')) :
    ∃ ours s1, s.mOurPosition = some ours ∧
      ((s.proposers.filter fun it => it.2.mCurrentHash != ours.mCurrentHash).map
        fun it => it.2.mCurrentHash).foldlM (compareOnce ours) s = .ok s1 ∧
      s' = { s1 with mConsensusFail := s'.mConsensusFail } ∧
      (r, s'.mConsensusFail) = ContinuousLedgerTiming.haveConsensus s1.mPreviousProposers
        (s.proposers.countP (fun it => it.2.mCurrentHash == ours.mCurrentHash) +
          (s.proposers.filter fun it => it.2.mCurrentHash != ours.mCurrentHash).length)
        (s.proposers.countP fun it => it.2.mCurrentHash == ours.mCurrentHash) v
        s1.mPreviousMSeconds s1.mCurrentMSeconds forReal s1.mConsensusFail := by
  unfold haveConsensus at h
  cases hours : s.mOurPosition with
  | none =>
    rw [hours] at h
    cases h
  | some ours =>
    rw [hours] at h
    obtain ⟨s1, hfold, h⟩ := bind_eq_ok.1 h
    cases h
    exact ⟨ours, s1, rfl, hfold, rfl, rfl⟩

/-- One of the peers' sets is compared if it has not been before. -/
theorem compareOnce_cases (h : s.compareOnce ours hash = .ok s') :
    (s' = s ∧ (s.mCompares.contains hash = true ∨ s.acquired hash = none ∨
      s.acquired ours.mCurrentHash = none)) ∨
    ∃ m1 m2, s.acquired ours.mCurrentHash = some m1 ∧ s.acquired hash = some m2 ∧
      s.Compares hash m1 m2 s' := by
  unfold compareOnce at h
  split_ifs at h with hc
  · cases h
    exact .inl ⟨rfl, .inl hc⟩
  · cases h2 : s.acquired hash with
    | none =>
      rw [h2] at h
      cases h
      exact .inl ⟨rfl, .inr (.inl rfl)⟩
    | some m2 =>
      cases h1 : s.acquired ours.mCurrentHash with
      | none =>
        rw [h2, h1] at h
        cases h
        exact .inl ⟨rfl, .inr (.inr rfl)⟩
      | some m1 =>
        rw [h2, h1] at h
        exact .inr ⟨m1, m2, rfl, rfl, h⟩

theorem haveConsensus_keeps (step : ∀ s s' ours hash m1 m2, P s → s.mOurPosition = some ours →
      s.acquired ours.mCurrentHash = some m1 → s.acquired hash = some m2 →
      s.Compares hash m1 m2 s' → P s')
    (fail : ∀ s mConsensusFail, P s → P { s with mConsensusFail })
    (h : s.haveConsensus forReal v = .ok (r, s')) (hs : P s) : P s' := by
  obtain ⟨ours, s1, hours, hfold, heq, -⟩ := haveConsensus_ok h
  have : P s1 ∧ s1.mOurPosition = some ours := by
    refine foldlM_keeps (P := fun s => P s ∧ s.mOurPosition = some ours) ?_ hfold ⟨hs, hours⟩
    rintro s hash s' - ⟨hs, hours⟩ hc
    rcases compareOnce_cases hc with ⟨rfl, -⟩ | ⟨m1, m2, h1, h2, hc⟩
    · exact ⟨hs, hours⟩
    · refine ⟨step s s' ours hash m1 m2 hs hours h1 h2 hc, ?_⟩
      rw [hc.frame]
      exact hours
  rw [heq]
  exact fail s1 _ this.1

section
omit [SHAMapHash]

theorem playback_cases (s : LedgerConsensus) (proposal : LedgerProposal) :
    s.playback proposal = s ∨ ∃ pos, s.playback proposal = (s.peerPosition pos).2 := by
  unfold playback
  dsimp only
  split_ifs
  · exact .inr ⟨_, rfl⟩
  · exact .inl rfl
  · exact .inr ⟨_, rfl⟩
  · exact .inl rfl

theorem playbackProposals_keeps
    (step : ∀ s pos, P s → P (s.peerPosition pos).2) (stored : List LedgerProposal) (h : P s) :
    P (s.playbackProposals stored) := by
  refine List.foldlRecOn _ _ h fun s hs proposal _ => ?_
  rcases playback_cases s proposal with heq | ⟨pos, heq⟩
  · rw [heq]
    exact hs
  · rw [heq]
    exact step s pos hs

/-- The proposals of peers change nothing but what is known of the peers. -/
theorem wanting_frame (s : LedgerConsensus) (lclHash : LedgerHash) (net : Network) :
    (s.wanting lclHash net).mPrevLedgerHash = lclHash ∧
    (s.wanting lclHash net).mPreviousLedger = s.mPreviousLedger ∧
    (s.wanting lclHash net).mAcquiringLedger = s.mAcquiringLedger ∧
    (s.wanting lclHash net).mHaveCorrectLCL = s.mHaveCorrectLCL := by
  unfold wanting
  split_ifs with h
  · refine playbackProposals_keeps (P := fun t => t.mPrevLedgerHash = lclHash ∧
      t.mPreviousLedger = s.mPreviousLedger ∧ t.mAcquiringLedger = s.mAcquiringLedger ∧
      t.mHaveCorrectLCL = s.mHaveCorrectLCL) (fun t pos kept => ?_) _ ⟨rfl, rfl, rfl, rfl⟩
    rcases peerPosition_cases t pos with h | h | ⟨-, mCloseTimes, h⟩
    · rwa [h]
    · rwa [h]
    · rw [h]
      rcases takePosition_cases { t with mCloseTimes } pos with
        ⟨set, -, h⟩ | ⟨set, -, -, h⟩ | ⟨-, -, h⟩ <;> rwa [h]
  · exact ⟨by simpa using h, rfl, rfl, rfl⟩

/-- The ledger that is wanted is the one we are on, is missing, or is there. -/
theorem handleLCL_cases (h : s.handleLCL lclHash net = .ok s') :
    (s.mPreviousLedger.hash = lclHash ∧ s' = s.wanting lclHash net) ∨
    s.mPreviousLedger.hash ≠ lclHash ∧
      ((net.getLedgerByHash lclHash = none ∧ s.mAcquiringLedger ≠ lclHash ∧
        s' = (s.wanting lclHash net).acquiring) ∨
      (net.getLedgerByHash lclHash = none ∧ s.mAcquiringLedger = lclHash ∧
        s' = s.wanting lclHash net) ∨
      ∃ newLCL mCloseResolution, net.getLedgerByHash lclHash = some newLCL ∧
        s' = (s.wanting lclHash net).onLedger newLCL lclHash mCloseResolution) := by
  obtain ⟨hhash, hprev, hacq, -⟩ := wanting_frame s lclHash net
  unfold handleLCL at h
  simp only [hprev, hhash, hacq] at h
  obtain ⟨hsame, ⟨⟩⟩ | ⟨hsame, h⟩ := ite_eq_iff.1 h
  · exact .inl ⟨hsame, rfl⟩
  · refine .inr ⟨hsame, ?_⟩
    cases hnew : net.getLedgerByHash lclHash with
    | none =>
      rw [hnew] at h
      by_cases hacq : s.mAcquiringLedger = lclHash
      · rw [if_neg (not_not.2 hacq)] at h
        cases h
        exact .inr (.inl ⟨rfl, hacq, rfl⟩)
      · rw [if_pos hacq] at h
        cases h
        exact .inl ⟨rfl, hacq, rfl⟩
    | some newLCL =>
      rw [hnew] at h
      dsimp only at h
      cases hres : ContinuousLedgerTiming.getNextLedgerTimeResolution newLCL.mCloseResolution
          newLCL.closeAgree (newLCL.mLedgerSeq + 1) with
      | none =>
        rw [hres] at h
        cases h
      | some res =>
        rw [hres] at h
        cases h
        exact .inr (.inr ⟨newLCL, res, rfl, rfl⟩)

theorem handleLCL_keeps (out : s.mPrevLedgerHash ≠ lclHash →
      P ((s.outOfSync lclHash net.now).playbackProposals net.peekStoredProposals))
    (acquiring : ∀ s, P s → P s.acquiring)
    (onLedger : ∀ s newLCL res, P s → P (s.onLedger newLCL lclHash res))
    (h : s.handleLCL lclHash net = .ok s') (hs : P s) : P s' := by
  have hwant : P (s.wanting lclHash net) := by
    unfold wanting
    split_ifs with hne
    · exact out hne
    · exact hs
  rcases handleLCL_cases h with ⟨-, rfl⟩ | ⟨-, ⟨-, -, rfl⟩ | ⟨-, -, rfl⟩ | ⟨newLCL, res, -, rfl⟩⟩
  · exact hwant
  · exact acquiring _ hwant
  · exact hwant
  · exact onLedger _ _ _ hwant

theorem checkLCL_cases (h : s.checkLCL net = .ok s') :
    s' = s ∨ s.handleLCL (s.netLedger net) net = .ok s' := by
  unfold checkLCL at h
  dsimp only at h
  split_ifs at h
  · exact .inr h
  · exact .inr h
  · cases h
    exact .inl rfl

/-- A round starts with nothing known, on its ledger or asking for it. -/
theorem create_cases {c : Start} (h : create c net = .ok s') :
    ∃ s : LedgerConsensus, s.inbound = c.inbound ∧ s.mState = .lcsPRE_CLOSE ∧
      s.mOurPosition = none ∧ s.mPeerPositions = ∅ ∧ s.mAcquired = ∅ ∧ s.mDisputes = ∅ ∧
      s.mCompares = ∅ ∧ (s' = s ∨ s.handleLCL c.prevLCLHash net = .ok s') := by
  unfold create at h
  cases hres : ContinuousLedgerTiming.getNextLedgerTimeResolution c.previousLedger.mCloseResolution
      c.previousLedger.closeAgree (c.previousLedger.mLedgerSeq + 1) with
  | none =>
    rw [hres] at h
    cases h
  | some res =>
    rw [hres] at h
    dsimp only at h
    split_ifs at h
    · cases h
      exact ⟨_, rfl, rfl, rfl, rfl, rfl, rfl, rfl, .inl rfl⟩
    · exact ⟨_, rfl, rfl, rfl, rfl, rfl, rfl, rfl, .inr h⟩

end

end LedgerConsensus

end Skywell
