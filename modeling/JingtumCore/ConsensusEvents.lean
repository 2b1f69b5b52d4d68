import JingtumCore.ConsensusRounds

/-!
# Runs of a consensus round

The events that drive a round, when the rest of the node can make them, and the
states they lead to. Every such state is well formed: positions are kept under
their peers, sets under their hashes, and there is nothing in dispute before we
have taken a position.
-/
namespace Skywell.LedgerConsensus
open Std ExceptFold

section
variable [SHAMapHash]
open SHAMapHash

inductive Event where
  | peerPosition (newPosition : LedgerProposal)
  /-- A set has been acquired, `getSet` returns it from now on. -/
  | giveSet (hash : TxSetHash) (set : SHAMap)
  | mapComplete (hash : TxSetHash) (map : Option SHAMap)
  | clock (mCurrentMSeconds mClosePercent : Int)
  | closeLedger (c : Closing)
  | updateOurPositions (now : Int)
  | haveConsensus (forReal : Bool) (currentValidations : Int)
  /-- There is consensus, and the set is being accepted. -/
  | finish
  | checkLCL (net : Network)
  | handleLCL (lclHash : LedgerHash) (net : Network)
  | leaveConsensus (now : Int)

namespace Event

def run : Event → LedgerConsensus → Except ConsensusFault LedgerConsensus
  | peerPosition newPosition, s => return (s.peerPosition newPosition).2
  | giveSet hash set, s => return { s with inbound := s.inbound.giveSet hash set }
  | mapComplete hash map, s => s.mapCompleteInternal hash map true
  | clock mCurrentMSeconds mClosePercent, s => return { s with mCurrentMSeconds, mClosePercent }
  | closeLedger c, s => s.closeLedger c
  | updateOurPositions now, s => s.updateOurPositions now
  | haveConsensus forReal v, s => do
    let (_, s) ← s.haveConsensus forReal v
    return s
  | finish, s => return { s with mState := .lcsFINISHED }
  | checkLCL net, s => s.checkLCL net
  | handleLCL lclHash net, s => s.handleLCL lclHash net
  | leaveConsensus now, s => return s.leaveConsensus now

/-- Sets come with their hashes, and the timer acts by the state of the round. -/
def Possible : Event → LedgerConsensus → Prop
  | giveSet hash set, _ => getHash set = hash
  | mapComplete hash map, _ => ∀ set, map = some set → getHash set = hash
  | closeLedger _, s => s.mState = .lcsPRE_CLOSE
  | updateOurPositions _, s => s.mState = .lcsESTABLISH
  | haveConsensus _ _, s => s.mState = .lcsESTABLISH
  | finish, s => s.mState = .lcsESTABLISH
  | _, _ => True

end Event

/-- The states of a round whose events all meet a condition. -/
inductive Reachable (ok : Event → LedgerConsensus → Prop) : LedgerConsensus → Prop
  | create {c : Start} {net : Network} {s : LedgerConsensus} :
      c.inbound.Sound → create c net = .ok s → Reachable ok s
  | step {s s' : LedgerConsensus} (e : Event) :
      Reachable ok s → e.Possible s → ok e s → e.run s = .ok s' → Reachable ok s'

theorem Reachable.mono {ok ok' : Event → LedgerConsensus → Prop} {s : LedgerConsensus}
    (h : Reachable ok s) (hok : ∀ e s, ok e s → ok' e s) : Reachable ok' s := by
  induction h with
  | create sound hc => exact .create sound hc
  | step e _ possible hmeets hr ih => exact .step e ih possible (hok _ _ hmeets) hr

instance (s : LedgerConsensus) : (e : Event) → Decidable (e.Possible s)
  | .giveSet hash set => inferInstanceAs (Decidable (getHash set = hash))
  | .mapComplete _ none => isTrue nofun
  | .mapComplete hash (some set) =>
    decidable_of_iff (getHash set = hash) ⟨fun h _ hset => Option.some.inj hset ▸ h, fun h => h set rfl⟩
  | .closeLedger _ => inferInstanceAs (Decidable (s.mState = _))
  | .updateOurPositions _ => inferInstanceAs (Decidable (s.mState = _))
  | .haveConsensus _ _ => inferInstanceAs (Decidable (s.mState = _))
  | .finish => inferInstanceAs (Decidable (s.mState = _))
  | .peerPosition _ => isTrue trivial
  | .clock _ _ => isTrue trivial
  | .checkLCL _ => isTrue trivial
  | .handleLCL _ _ => isTrue trivial
  | .leaveConsensus _ => isTrue trivial

section
variable (ok : Event → LedgerConsensus → Prop) [∀ e s, Decidable (ok e s)]

/-- One event, if it can happen and meets a condition. -/
def attempt (s : LedgerConsensus) (e : Event) : Option LedgerConsensus :=
  if e.Possible s ∧ ok e s then (e.run s).toOption else none

/-- A run of a round. -/
def scenario (c : Start) (net : Network) (events : List Event) : Option LedgerConsensus := do
  let s ← (create c net).toOption
  events.foldlM (attempt ok) s

variable {ok}

theorem Reachable.attempt {s s' : LedgerConsensus} {e : Event} (h : Reachable ok s)
    (he : attempt ok s e = some s') : Reachable ok s' := by
  unfold LedgerConsensus.attempt at he
  split_ifs at he with hok
  exact .step e h hok.1 hok.2 (toOption_eq_some.1 he)

theorem reachable_of_scenario {c : Start} {net : Network} {events : List Event}
    {s : LedgerConsensus} (sound : c.inbound.Sound) (hrun : scenario ok c net events = some s) :
    Reachable ok s := by
  obtain ⟨s0, h0, h⟩ := Option.bind_eq_some_iff.1 hrun
  have start : Reachable ok s0 := .create sound (toOption_eq_some.1 h0)
  clear hrun h0
  induction events generalizing s0 with
  | nil =>
    cases h
    exact start
  | cons e events ih =>
    obtain ⟨s1, h1, h⟩ := Option.bind_eq_some_iff.1 h
    exact ih s1 h (start.attempt h1)

end

end

variable {s s' : LedgerConsensus}
  {acq : Bool} {inbound : InboundTransactions} {pos : LedgerProposal} {net : Network}
  {set : Option SHAMap} {f : TxID → DisputedTx → DisputedTx}

theorem getElem?_mapDisputes {id : TxID} {d : DisputedTx} (h : (s.mDisputes.map f)[id]? = some d) :
    ∃ d0, s.mDisputes[id]? = some d0 ∧ d = f id d0 := by
  rw [ExtTreeMap.getElem?_map] at h
  obtain ⟨d0, h0, h⟩ := Option.map_eq_some_iff.1 h
  exact ⟨d0, h0, h.symm⟩

variable {hash hash' : TxSetHash}

theorem acquired_insert : { s with mAcquired := s.mAcquired.insert hash set }.acquired hash' =
      if hash = hash' then set else s.acquired hash' := by
  simp only [acquired, ExtTreeMap.getElem?_insert, LawfulEqCmp.compare_eq_iff_eq]
  split_ifs <;> simp

theorem acquired_erase :
    { s with mAcquired := s.mAcquired.erase hash }.acquired hash' =
      if hash = hash' then none else s.acquired hash' := by
  simp only [acquired, ExtTreeMap.getElem?_erase, LawfulEqCmp.compare_eq_iff_eq]
  split_ifs <;> simp

variable [SHAMapHash]
open SHAMapHash

theorem acquired_recordSet {map : SHAMap} :
    (s.recordSet hash map).acquired hash' =
      if hash = hash' then some map else s.acquired hash' :=
  acquired_insert

theorem hash_of_some {map : SHAMap} (h : getHash map = hash) (m : SHAMap)
    (hm : some map = some m) : getHash m = hash := by
  cases hm
  exact h

structure WellFormed (s : LedgerConsensus) : Prop where
  keyed : ∀ (p : NodeID) pos, s.mPeerPositions[p]? = some pos → pos.mPeerID = p
  active : ∀ (p : NodeID) pos, s.mPeerPositions[p]? = some pos → pos.isBowOut = false
  ids : ∀ (id : TxID) d, s.mDisputes[id]? = some d → d.mTransactionID = id
  hashes : ∀ hash set, s.acquired hash = some set → getHash set = hash
  inbound : s.inbound.Sound
  idle : s.mOurPosition = none → s.mDisputes = ∅ ∧ s.mCompares = ∅
  early : s.mState = .lcsPRE_CLOSE → s.mOurPosition = none

namespace WellFormed

variable {hash : TxSetHash} {map : SHAMap}

section
variable (h : s.WellFormed)
include h

theorem unique {set set' : SHAMap} (hset : s.acquired hash = some set) (hash' : getHash set' = hash) :
    set' = set :=
  injective (hash'.trans (h.hashes hash set hset).symm)

theorem disputed {ids : List TxID} (hd : Disputed s ids s') (ours : s.mOurPosition ≠ none) :
    s'.WellFormed := by
  have hids : ∀ (id : TxID) d, s'.mDisputes[id]? = some d → d.mTransactionID = id := by
    intro id d hid
    rcases hd.new id d hid with hold | ⟨tx, vote, -, rfl⟩
    · exact h.ids id d hold
    · exact peerVotes_keeps (P := fun d => d.mTransactionID = id)
        (fun d p b hd => by rw [DisputedTx.setVote_id, hd]) rfl
  rw [hd.frame]
  exact { h with ids := hids, idle := fun hn => absurd hn ours }

theorem mapDisputes (hf : ∀ id d, (f id d).mTransactionID = d.mTransactionID) :
    { s with mDisputes := s.mDisputes.map f }.WellFormed := by
  refine { h with ids := ?_, idle := ?_ }
  · intro id d hid
    obtain ⟨d0, h0, rfl⟩ := getElem?_mapDisputes hid
    rw [hf]
    exact h.ids id d0 h0
  · intro hn
    obtain ⟨hempty, hcompares⟩ := h.idle hn
    refine ⟨?_, hcompares⟩
    rw [hempty]
    rfl

theorem compares {m1 m2 : SHAMap} (ours : s.mOurPosition ≠ none) (hc : s.Compares hash m1 m2 s') :
    s'.WellFormed := by
  obtain ⟨ids, hd, -⟩ := createDisputes_spec hc
  have hnote : (s.noteCompare hash).WellFormed :=
    { h with idle := fun hn => absurd hn ours }
  exact hnote.disputed hd ours

theorem compareWithOurs (hc : s.compareWithOurs hash map = .ok s') : s'.WellFormed := by
  rcases compareWithOurs_cases hc with rfl | ⟨ours, set, hours, -, -, -, hc⟩
  · exact h
  · exact h.compares (by simp [hours]) hc

theorem beforeRecord (sound : inbound.Sound) : (s.beforeRecord hash inbound).WellFormed := by
  refine { h with hashes := ?_, inbound := sound }
  intro hash' set hset
  rw [LedgerConsensus.beforeRecord, acquired_erase (s := { s with inbound })] at hset
  split_ifs at hset
  exact h.hashes hash' set hset

theorem insertSet (hset : ∀ m, set = some m → getHash m = hash) :
    { s with mAcquired := s.mAcquired.insert hash set }.WellFormed := by
  refine { h with hashes := ?_ }
  intro hash' m hm
  rw [acquired_insert] at hm
  split_ifs at hm with heq
  · subst heq
    exact hset m hm
  · exact h.hashes hash' m hm

theorem recordSet (hmap : getHash map = hash) : (s.recordSet hash map).WellFormed := by
  have hset : { s with mAcquired := s.mAcquired.insert hash (some map) }.WellFormed :=
    h.insertSet (hash_of_some hmap)
  exact hset.mapDisputes fun _ _ => MapFold.foldl_keeps DisputedTx.mTransactionID
    (fun _ _ _ => DisputedTx.setVote_id _ _) _

theorem mapCompleteInternal {map : Option SHAMap} (hmap : ∀ m, map = some m → getHash m = hash)
    (hc : s.mapCompleteInternal hash map acq = .ok s') : s'.WellFormed := by
  cases map with
  | none =>
    cases hc
    exact h.insertSet (by simp)
  | some map =>
    have hm := hmap map rfl
    rcases mapCompleteInternal_cases hc with ⟨-, rfl⟩ | ⟨-, inbound, s1, hin, hcmp, rfl⟩
    · exact h
    · have sound : inbound.Sound := by
        rcases hin with rfl | rfl
        · exact h.inbound
        · rw [← hm]
          exact h.inbound.giveSet map
      exact ((h.beforeRecord sound).compareWithOurs hcmp).recordSet hm

/-- Before we have a position a set is recorded, and there is nothing to compare it with. -/
theorem mapCompleteInternal_idle (hnone : s.mOurPosition = none)
    (hc : s.mapCompleteInternal (getHash map) (some map) acq = .ok s') :
    s'.acquired (getHash map) = some map ∧ s'.mDisputes = ∅ ∧ s'.mCompares = ∅ := by
  obtain ⟨hd, hcmp⟩ := h.idle hnone
  rcases mapCompleteInternal_cases hc with ⟨⟨set, hset⟩, rfl⟩ | ⟨-, inbound, s1, -, hcw, rfl⟩
  · refine ⟨?_, hd, hcmp⟩
    rw [hset, h.unique hset rfl]
  · rcases compareWithOurs_cases hcw with rfl | ⟨ours, set, hours, -⟩
    · refine ⟨?_, ?_, hcmp⟩
      · rw [acquired_recordSet, if_pos rfl]
      · show s.mDisputes.map _ = ∅
        rw [hd]
        rfl
    · have : none = some ours := hnone.symm.trans hours
      cases this

theorem moved (hb : pos.isBowOut = false) : (s.moved pos).WellFormed := by
  have hpeers : ∀ (p : NodeID) pos', (s.moved pos).mPeerPositions[p]? = some pos' →
      (p = pos.mPeerID ∧ pos' = pos) ∨ s.mPeerPositions[p]? = some pos' := by
    intro p pos' hp
    rw [LedgerConsensus.moved, ExtTreeMap.getElem?_insert] at hp
    split_ifs at hp with heq
    · exact .inl ⟨(LawfulEqCmp.eq_of_compare heq).symm, (Option.some.inj hp).symm⟩
    · exact .inr hp
  refine { h with keyed := ?_, active := ?_ }
  · intro p pos' hp
    rcases hpeers p pos' hp with ⟨rfl, rfl⟩ | hp
    · rfl
    · exact h.keyed p pos' hp
  · intro p pos' hp
    rcases hpeers p pos' hp with ⟨rfl, rfl⟩ | hp
    · exact hb
    · exact h.active p pos' hp

theorem votesFollow (p : NodeID) (set : SHAMap) : (s.votesFollow p set).WellFormed :=
  h.mapDisputes fun _ _ => DisputedTx.setVote_id _ _

theorem withInbound (sound : inbound.Sound) : { s with inbound }.WellFormed :=
  { h with inbound := sound }

theorem takePosition (hb : pos.isBowOut = false) : (s.takePosition pos).WellFormed := by
  obtain ⟨sound, hget⟩ := h.inbound.getSet pos.mCurrentHash true
  have hmoved := h.moved hb
  rcases takePosition_cases s pos with ⟨set, -, heq⟩ | ⟨set, -, hset, heq⟩ | ⟨-, -, heq⟩
  · rw [heq]
    exact hmoved.votesFollow _ _
  · rw [heq]
    refine WellFormed.votesFollow ?_ _ _
    exact (hmoved.withInbound sound).insertSet (hash_of_some (hget set hset))
  · rw [heq]
    exact hmoved.withInbound sound

theorem fewerPeers {m : ExtTreeMap NodeID LedgerProposal compare}
    (fewer : ∀ (q : NodeID) pos, m[q]? = some pos → s.mPeerPositions[q]? = some pos) :
    { s with mPeerPositions := m }.WellFormed :=
  { h with
    keyed := fun q pos hq => h.keyed q pos (fewer q pos hq)
    active := fun q pos hq => h.active q pos (fewer q pos hq) }

theorem peerPosition (pos : LedgerProposal) : (s.peerPosition pos).2.WellFormed := by
  rcases peerPosition_cases s pos with heq | heq | ⟨⟨hb, -⟩, mCloseTimes, heq⟩
  · rw [heq]
    exact h
  · rw [heq]
    have hvotes := h.mapDisputes (f := fun _ d => d.unVote pos.mPeerID)
      fun _ d => DisputedTx.unVote_id _
    have := hvotes.fewerPeers (m := s.mPeerPositions.erase pos.mPeerID) fun q _ hq => by
      rw [ExtTreeMap.getElem?_erase] at hq
      split_ifs at hq
      exact hq
    exact { this with }
  · rw [heq]
    have : { s with mCloseTimes }.WellFormed := { h with }
    exact this.takePosition hb

theorem removeStale (cutoff : Int) : (s.removeStale cutoff).WellFormed := by
  have hvotes := h.mapDisputes (f := fun _ d =>
    (s.mPeerPositions.toList.filter fun it => it.2.isStale cutoff).foldl
      (fun d it => d.unVote it.2.mPeerID) d) fun _ _ =>
    MapFold.foldl_keeps DisputedTx.mTransactionID (fun _ _ _ => DisputedTx.unVote_id _) _
  refine hvotes.fewerPeers fun q pos hq => ?_
  rw [ExtTreeMap.getElem?_filter'] at hq
  exact Option.eq_some_of_filter_eq_some hq

theorem voted (agreed : Bool) : (s.voted agreed).WellFormed := by
  have hvotes := h.mapDisputes (f := fun _ d => (d.updateVote s.mClosePercent s.mProposing).2)
    fun _ d => by rw [DisputedTx.updateVote_frame]
  exact { hvotes with }

theorem withPosition (ours : LedgerProposal) (late : s.mState = .lcsESTABLISH) :
    { s with mOurPosition := some ours }.WellFormed :=
  { h with idle := nofun, early := fun hs => nomatch late.symm.trans hs }

theorem updateOurPositions (late : s.mState = .lcsESTABLISH) {now : Int}
    (hu : s.updateOurPositions now = .ok s') : s'.WellFormed := by
  obtain ⟨t, ours, agreed, rfl, -, hcase⟩ := updateOurPositions_cases hu
  have hvoted := (h.removeStale (now - PROPOSE_FRESHNESS * second)).voted agreed
  rcases hcase with ⟨-, rfl⟩ | ⟨set, ours', -, -, hhash, hmap⟩
  · exact hvoted
  · exact (hvoted.withPosition ours' late).mapCompleteInternal (hash_of_some hhash.symm) hmap

theorem opened (ours : LedgerProposal) (vote : TxID → Bool) (late : s.mState = .lcsESTABLISH) :
    (s.opened ours vote).WellFormed :=
  (h.mapDisputes (f := fun id d => d.setOurVote (vote id)) fun _ _ => rfl).withPosition ours late

theorem closing {mCloseTime : UInt32} : { s with mState := .lcsESTABLISH, mCloseTime }.WellFormed :=
  { h with early := nofun }

theorem closeLedger {c : Closing} (hc : s.closeLedger c = .ok s') : s'.WellFormed := by
  obtain ⟨s1, ours, hmap, -, -, hfold⟩ := takeInitialPosition_ok hc
  have h1 : s1.WellFormed := h.closing.mapCompleteInternal (hash_of_some rfl) hmap
  have late : s1.mState = .lcsESTABLISH := by
    obtain ⟨_, _, _, _, rfl⟩ := mapCompleteInternal_frame hmap
    rfl
  have hopened : (s1.opened ours c.transactions.hasItem).mOurPosition ≠ none := by
    simp [LedgerConsensus.opened]
  refine (compareInitial_keeps (P := fun s => s.WellFormed ∧ s.mOurPosition ≠ none) ?_ hfold
    ⟨h1.opened ours _ late, hopened⟩).1
  rintro s s' hash map ⟨h, hours⟩ - hcmp
  refine ⟨h.compares hours hcmp, ?_⟩
  rw [hcmp.frame]
  exact hours

theorem haveConsensus {forReal r : Bool} {v : Int} (hc : s.haveConsensus forReal v = .ok (r, s')) :
    s'.WellFormed := by
  refine haveConsensus_keeps ?_ ?_ hc h
  · intro s s' ours hash m1 m2 h hours _ _ hc
    exact h.compares (by simp [hours]) hc
  · intro s fail h
    exact { h with }

theorem outOfSync (lclHash : LedgerHash) (now : Int) : (s.outOfSync lclHash now).WellFormed := by
  have hnone : (s.outOfSync lclHash now).mOurPosition = none ↔ s.mOurPosition = none := by
    unfold LedgerConsensus.outOfSync
    split_ifs <;> simp
  refine ⟨by simp [LedgerConsensus.outOfSync], by simp [LedgerConsensus.outOfSync],
    by simp [LedgerConsensus.outOfSync], h.hashes, h.inbound, ?_, ?_⟩
  · intro hn
    exact ⟨rfl, (h.idle (hnone.1 hn)).2⟩
  · intro hs
    exact hnone.2 (h.early hs)

theorem handleLCL {lclHash : LedgerHash} (hc : s.handleLCL lclHash net = .ok s') :
    s'.WellFormed := by
  refine handleLCL_keeps ?_ ?_ ?_ hc h
  · intro _
    exact playbackProposals_keeps (fun s pos hs => hs.peerPosition pos) _ (h.outOfSync _ _)
  · intro s h
    exact { h with }
  · intro s newLCL res h
    exact { h with }

theorem leaveConsensus (now : Int) : (s.leaveConsensus now).WellFormed := by
  unfold LedgerConsensus.leaveConsensus
  split_ifs
  · exact { h with
      idle := fun hn => h.idle (Option.map_eq_none_iff.1 hn)
      early := fun hs => Option.map_eq_none_iff.2 (h.early hs) }
  · exact h

end

theorem create {c : Start} (sound : c.inbound.Sound) (hc : LedgerConsensus.create c net = .ok s') :
    s'.WellFormed := by
  obtain ⟨s, hin, -, hours, hpeers, hacq, hd, hcmp, hs⟩ := create_cases hc
  have h : s.WellFormed := by
    refine ⟨by simp [hpeers], by simp [hpeers], by simp [hd], ?_, hin ▸ sound,
      fun _ => ⟨hd, hcmp⟩, fun _ => hours⟩
    simp [acquired, hacq]
  rcases hs with rfl | hs
  · exact h
  · exact h.handleLCL hs

theorem run (h : s.WellFormed) {e : Event} (possible : e.Possible s) (hr : e.run s = .ok s') :
    s'.WellFormed := by
  cases e with
  | peerPosition pos =>
    cases hr
    exact h.peerPosition pos
  | giveSet hash set =>
    cases hr
    cases possible
    exact h.withInbound (h.inbound.giveSet set)
  | mapComplete hash map => exact h.mapCompleteInternal possible hr
  | clock t percent =>
    cases hr
    exact { h with }
  | closeLedger c => exact h.closeLedger hr
  | updateOurPositions now => exact h.updateOurPositions possible hr
  | haveConsensus forReal v =>
    obtain ⟨⟨r, s1⟩, hc, hr⟩ := bind_eq_ok.1 hr
    cases hr
    exact h.haveConsensus hc
  | finish =>
    cases hr
    exact { h with early := nofun }
  | checkLCL net =>
    rcases checkLCL_cases hr with rfl | hr
    · exact h
    · exact h.handleLCL hr
  | handleLCL lclHash net => exact h.handleLCL hr
  | leaveConsensus now =>
    cases hr
    exact h.leaveConsensus now

end WellFormed

theorem Reachable.wellFormed {ok : Event → LedgerConsensus → Prop} (h : Reachable ok s) :
    s.WellFormed := by
  induction h with
  | create sound hc => exact .create sound hc
  | step e _ possible _ hr ih => exact ih.run possible hr

/-- A round that starts on ledger 1. -/
def sampleStart : Start where
  prevLCLHash := 1
  previousLedger := { hash := 1 }
  validating := true
  full := true

theorem sampleStart_sound : sampleStart.inbound.Sound := by
  simp [InboundTransactions.Sound, sampleStart]

def sampleNetwork : Network where
  getLedgerByHash h := some { hash := h }

omit [SHAMapHash] in
/-- Our own position is the empty set. -/
def sampleClosing : Closing where
  parentHash := 1
  transactions := ∅
  doVoting := id
  RUN_STANDALONE := false
  mCloseTime := 0
  now := 0

def sampleProposal (p : NodeID) (set : SHAMap) : LedgerProposal where
  mPreviousLedger := 1
  mCurrentHash := getHash set
  mCloseTime := 0
  mPeerID := p
  mTime := 0

/-- A peer proposes a transaction we do not have. -/
def disputedRound : List Event :=
  let set : SHAMap := .ofList [(7, [])]
  [.closeLedger sampleClosing, .peerPosition (sampleProposal 1 set),
    .mapComplete (getHash set) (some set)]

end Skywell.LedgerConsensus
