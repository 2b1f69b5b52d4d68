import JingtumCore.ConsensusVotes

/-!
# The positions of a peer over time

`peerPosition` compares a proposal with the position that is stored. Once `updateOurPositions`
has removed a stale position, an older one can come back. A peer that has bowed out stays silent
until the previous ledger changes.
-/
namespace Skywell.LedgerConsensus
open Std

abbrev positionOf (s : LedgerConsensus) (peer : NodeID) : Option LedgerProposal :=
  s.mPeerPositions[peer]?

section
variable [SHAMapHash]

/-- The calls between two changes of the previous ledger that touch the positions of peers. -/
inductive Call (s : LedgerConsensus) : LedgerConsensus → Prop
  | peerPosition (newPosition : LedgerProposal) : Call s (s.peerPosition newPosition).2
  | updateOurPositions {t : LedgerConsensus} {now : Int} : s.updateOurPositions now = .ok t → Call s t

/-- A run of the calls, with the numbers of the positions it has stored for a peer, the newest
first, each with whether it replaced a position. -/
inductive Stores (peer : NodeID) (s₀ : LedgerConsensus) :
    LedgerConsensus → List (UInt32 × Bool) → Prop
  | start : Stores peer s₀ s₀ ((s₀.positionOf peer).map (·.mProposeSeq, false)).toList
  | keep {s s' h} : Stores peer s₀ s h → Call s s' →
      s'.positionOf peer = s.positionOf peer ∨ s'.positionOf peer = none → Stores peer s₀ s' h
  | store {s s' h pos} : Stores peer s₀ s h → Call s s' →
      s'.positionOf peer = some pos → s.positionOf peer ≠ some pos →
      Stores peer s₀ s' ((pos.mProposeSeq, (s.positionOf peer).isSome) :: h)

/-- A position that replaced none has a number above all before it. -/
def Fresh : List (UInt32 × Bool) → Prop
  | [] => True
  | (n, replaced) :: h => (replaced = false → ∀ m ∈ h, m.1 < n) ∧ Fresh h

variable {s₀ s s' : LedgerConsensus} {peer : NodeID} {pos : LedgerProposal}
  {h : List (UInt32 × Bool)}

/-- A position is only replaced by a newer one, and a peer that bowed out gets none. -/
theorem Call.position (call : Call s s') (peer : NodeID) :
    (peer ∈ s.mDeadNodes → peer ∈ s'.mDeadNodes) ∧
    (s'.positionOf peer = s.positionOf peer ∨ s'.positionOf peer = none ∨
      peer ∉ s.mDeadNodes ∧ ∃ pos, s'.positionOf peer = some pos ∧
        ∀ old, s.positionOf peer = some old → old.mProposeSeq < pos.mProposeSeq) := by
  cases call with
  | updateOurPositions ran =>
    obtain ⟨t, ours, agreed, rfl, -, cases_⟩ := updateOurPositions_cases ran
    have kept : ∃ stale, s'.mDeadNodes = s.mDeadNodes ∧
        s'.mPeerPositions = s.mPeerPositions.filter fun _ it => !it.isStale stale := by
      rcases cases_ with ⟨-, rfl⟩ | ⟨set, ours', -, -, -, map⟩
      · exact ⟨_, rfl, rfl⟩
      · obtain ⟨_, _, _, _, rfl⟩ := mapCompleteInternal_frame map
        exact ⟨_, rfl, rfl⟩
    obtain ⟨stale, dead, positions⟩ := kept
    rw [dead, positionOf, positions, ExtTreeMap.getElem?_filter', positionOf]
    refine ⟨id, ?_⟩
    cases s.mPeerPositions[peer]? with
    | none => exact .inl rfl
    | some old => by_cases isStale : old.isStale stale <;> simp
  | peerPosition pos =>
    rcases peerPosition_cases s pos with same | left | ⟨⟨-, alive, newer⟩, mCloseTimes, taken⟩
    · rw [same]
      exact ⟨id, .inl rfl⟩
    · rw [left, positionOf, peerBowsOut, ExtTreeMap.getElem?_erase]
      refine ⟨fun dead => ExtTreeSet.mem_insert.2 (.inr dead), ?_⟩
      split_ifs
      · exact .inr (.inl rfl)
      · exact .inl rfl
    · have kept : (s.peerPosition pos).2.mDeadNodes = s.mDeadNodes ∧
          (s.peerPosition pos).2.mPeerPositions = s.mPeerPositions.insert pos.mPeerID pos := by
        rw [taken]
        rcases takePosition_cases { s with mCloseTimes } pos with
          ⟨set, -, taken⟩ | ⟨set, -, -, taken⟩ | ⟨-, -, taken⟩ <;> rw [taken] <;> exact ⟨rfl, rfl⟩
      rw [kept.1, positionOf, kept.2, ExtTreeMap.getElem?_insert]
      refine ⟨id, ?_⟩
      split_ifs with own
      · rw [Std.compare_eq_iff_eq] at own
        exact .inr (.inr ⟨own ▸ alive, pos, rfl, own ▸ newer⟩)
      · exact .inl rfl

/-- What a call stores, when it stores something new. -/
theorem Call.stored (call : Call s s') (now : s'.positionOf peer = some pos)
    (new : s.positionOf peer ≠ some pos) : peer ∉ s.mDeadNodes ∧
      ∀ old, s.positionOf peer = some old → old.mProposeSeq < pos.mProposeSeq := by
  rcases (call.position peer).2 with same | gone | ⟨alive, pos', now', newer⟩
  · exact absurd (same.symm.trans now) new
  · rw [now] at gone
    cases gone
  · rw [now] at now'
    cases now'
    exact ⟨alive, newer⟩

theorem Stores.pairwise (run : Stores peer s₀ s h) :
    ((h.map (·.1)).Pairwise (· > ·) ↔ Fresh h) ∧
    ∀ pos, s.positionOf peer = some pos → ∃ older, h.map (·.1) = pos.mProposeSeq :: older := by
  induction run with
  | start => cases s₀.positionOf peer <;> simp [Fresh]
  | keep run call same ih =>
    refine ⟨ih.1, fun pos now => ih.2 pos ?_⟩
    rcases same with same | gone
    · rw [← same, now]
    · rw [now] at gone
      cases gone
  | @store s s' h pos run call now new ih =>
    refine ⟨?_, fun _ now' => ⟨h.map (·.1), ?_⟩⟩
    rotate_left
    · rw [List.map_cons, Option.some.inj (now.symm.trans now')]
    rw [List.map_cons, List.pairwise_cons, ih.1, List.forall_mem_map]
    refine and_congr_left fun fresh => ⟨fun newer _ => newer, fun newer => ?_⟩
    cases before : s.positionOf peer with
    | none => exact newer (by rw [before]; rfl)
    | some old =>
      obtain ⟨older, numbers⟩ := ih.2 old before
      have sorted := ih.1.2 fresh
      have lt := (call.stored now new).2 old before
      rw [← List.forall_mem_map, numbers]
      rw [numbers] at sorted
      exact List.forall_mem_cons.2 ⟨lt, fun n member =>
        UInt32.lt_trans ((List.pairwise_cons.1 sorted).1 n member) lt⟩

theorem Stores.dead {t : LedgerConsensus} (run : Stores peer (t.peerBowsOut peer) s h) :
    peer ∈ s.mDeadNodes ∧ s.positionOf peer = none ∧ h = [] := by
  have gone : (t.peerBowsOut peer).positionOf peer = none := by
    simp [peerBowsOut]
  induction run with
  | start => exact ⟨ExtTreeSet.mem_insert_self, gone, by rw [gone]; rfl⟩
  | keep run call same ih =>
    obtain ⟨dead, none, numbers⟩ := ih
    exact ⟨(call.position peer).1 dead, by rcases same with h | h <;> simp [h, none], numbers⟩
  | store run call now new ih => exact absurd ih.1 (call.stored now new).1

/-- The numbers of a peer's positions increase exactly if no position that finds none stored has
a number that was there before, and a peer that bowed out gets no position. -/
theorem stored_increasing_iff (run : Stores peer s₀ s h) :
    ((h.map (·.1)).Pairwise (· > ·) ↔ Fresh h) ∧
    ∀ t : LedgerConsensus, s₀ = t.peerBowsOut peer → s.positionOf peer = none ∧ h = [] := by
  refine ⟨run.pairwise.1, ?_⟩
  rintro t rfl
  exact run.dead.2

end

/-- A round in which we have just taken a position, and proposals of one peer. -/
def sampleRound : LedgerConsensus where
  inbound := {}
  mPrevLedgerHash := 1
  mPreviousLedger := { hash := 1 }
  mOurPosition := some
    { mPreviousLedger := 1, mCurrentHash := 0, mCloseTime := 0, mTime := 30 * second }

def samplePosition (mProposeSeq : UInt32) : LedgerProposal :=
  { mPreviousLedger := 1, mCurrentHash := 0, mCloseTime := 0, mTime := 0, mPeerID := 1, mProposeSeq }

theorem stores_one [SHAMapHash] :
    Stores 1 sampleRound (sampleRound.peerPosition (samplePosition 2)).2 [(2, false)] := by
  have now : (sampleRound.peerPosition (samplePosition 2)).2.positionOf 1 =
      some (samplePosition 2) := by
    rfl
  exact Stores.store .start (.peerPosition _) now nofun

/-- The number of the position that is stored after the one with number 2 has turned stale. -/
def storedAgain [SHAMapHash] (n : UInt32) : Option (Bool × Option UInt32) :=
  ((sampleRound.peerPosition (samplePosition 2)).2.updateOurPositions (30 * second)).toOption.map
    fun s => ((s.positionOf 1).isNone,
      ((s.peerPosition (samplePosition n)).2.positionOf 1).map (·.mProposeSeq))

theorem stores_again [SHAMapHash] {n : UInt32} (removed : storedAgain n = some (true, some n)) :
    ∃ s, Stores 1 sampleRound s [(n, false), (2, false)] := by
  obtain ⟨s, ran, removed⟩ := Option.map_eq_some_iff.1 removed
  obtain ⟨gone, back⟩ := Prod.mk.inj removed
  obtain ⟨pos, now, number⟩ := Option.map_eq_some_iff.1 back
  rw [Option.isNone_iff_eq_none] at gone
  have kept := stores_one.keep (.updateOurPositions (ExceptFold.toOption_eq_some.1 ran)) (.inr gone)
  have stored := kept.store (.peerPosition _) now (by rw [gone]; nofun)
  rw [number, gone] at stored
  exact ⟨_, stored⟩

theorem stored_increasing_two : (∃ (_ : SHAMapHash) (s : LedgerConsensus),
    Stores 1 sampleRound s [(3, false), (2, false)]) ∧
    ([3, 2] : List UInt32).Pairwise (· > ·) := by
  let hash := SHAMap.coded
  obtain ⟨s, run⟩ := stores_again (n := 3) (by decide +kernel)
  exact ⟨⟨hash, s, run⟩, (stored_increasing_iff run).1.2 (by simp [Fresh])⟩

/-- The peer's second position turns stale, and its first one is stored after it. -/
theorem older_position_stored : (∃ (_ : SHAMapHash) (s : LedgerConsensus),
    Stores 1 sampleRound s [(1, false), (2, false)]) ∧
    ¬ ([1, 2] : List UInt32).Pairwise (· > ·) := by
  let hash := SHAMap.coded
  exact ⟨⟨hash, stores_again (by decide +kernel)⟩, by decide⟩

section
variable {s s' : LedgerConsensus}

/-- No peer that has bowed out has a position. -/
def Silent (s : LedgerConsensus) : Prop := ∀ peer ∈ s.mDeadNodes, s.positionOf peer = none

theorem Silent.peerPosition (silent : s.Silent) (pos : LedgerProposal) :
    (s.peerPosition pos).2.Silent := by
  rcases peerPosition_cases s pos with same | left | ⟨⟨-, alive, -⟩, mCloseTimes, taken⟩
  · rw [same]
    exact silent
  · rw [left]
    intro peer dead
    rw [positionOf, peerBowsOut, ExtTreeMap.getElem?_erase]
    split_ifs with own
    · rfl
    · exact silent peer ((ExtTreeSet.mem_insert.1 dead).resolve_left own)
  · -- the proposal of a dead node would not have been taken
    rw [taken]
    have moved : ({ s with mCloseTimes }.moved pos).Silent := by
      intro peer dead
      rw [positionOf, LedgerConsensus.moved, ExtTreeMap.getElem?_insert, if_neg]
      · exact silent peer dead
      · intro own
        cases Std.compare_eq_iff_eq.1 own
        exact alive dead
    rcases takePosition_cases { s with mCloseTimes } pos with
      ⟨set, -, taken⟩ | ⟨set, -, -, taken⟩ | ⟨-, -, taken⟩ <;> rw [taken] <;> exact moved

theorem Silent.handleLCL {lclHash : LedgerHash} {net : Network} (silent : s.Silent)
    (ran : s.handleLCL lclHash net = .ok s') : s'.Silent := by
  -- another ledger clears the positions and the dead nodes before proposals are played back
  refine handleLCL_keeps (fun _ => ?_) (fun _ h => h) (fun _ _ _ h => h) ran silent
  apply playbackProposals_keeps fun s pos h => h.peerPosition pos
  exact fun peer _ => by simp [outOfSync]

variable [SHAMapHash]

theorem Silent.run {e : Event} (silent : s.Silent) (ran : e.run s = .ok s') : s'.Silent := by
  cases e with
  | peerPosition pos =>
    cases ran
    exact silent.peerPosition pos
  | giveSet | clock | finish =>
    cases ran
    exact silent
  | mapComplete hash map =>
    obtain ⟨_, _, _, _, rfl⟩ := mapCompleteInternal_frame ran
    exact silent
  | closeLedger c =>
    obtain ⟨_, ours, map, -, -, compared⟩ := takeInitialPosition_ok ran
    obtain ⟨_, _, _, _, rfl⟩ := mapCompleteInternal_frame map
    refine compareInitial_keeps (fun s s' _ _ h _ compares => ?_) compared silent
    rw [compares.frame]
    exact h
  | updateOurPositions now =>
    obtain ⟨_, ours, agreed, rfl, -, took⟩ := updateOurPositions_cases ran
    have fewer : ((s.removeStale (now - PROPOSE_FRESHNESS * second)).voted agreed).Silent := by
      intro peer dead
      have gone : s.mPeerPositions[peer]? = none := silent peer dead
      rw [positionOf, voted, removeStale, ExtTreeMap.getElem?_filter', gone]
      rfl
    rcases took with ⟨-, rfl⟩ | ⟨set, ours', -, -, -, map⟩
    · exact fewer
    · obtain ⟨_, _, _, _, rfl⟩ := mapCompleteInternal_frame map
      exact fewer
  | haveConsensus forReal v =>
    obtain ⟨⟨r, _⟩, have_, ran⟩ := ExceptFold.bind_eq_ok.1 ran
    cases ran
    refine haveConsensus_keeps (fun s s' _ _ _ _ h _ _ _ compares => ?_) (fun _ _ h => h) have_
      silent
    rw [compares.frame]
    exact h
  | checkLCL net =>
    rcases checkLCL_cases ran with rfl | ran
    · exact silent
    · exact silent.handleLCL ran
  | handleLCL lclHash net => exact silent.handleLCL ran
  | leaveConsensus now =>
    cases ran
    rw [leaveConsensus]
    split_ifs <;> exact silent

theorem Reachable.silent {ok : Event → LedgerConsensus → Prop} (h : Reachable ok s) :
    s.Silent := by
  induction h with
  | create _ made =>
    obtain ⟨s, -, -, -, none, -, -, -, started⟩ := create_cases made
    have start : s.Silent := fun peer _ => by simp [positionOf, none]
    rcases started with rfl | started
    · exact start
    · exact start.handleLCL started
  | step e _ _ _ ran silent => exact silent.run ran

/-- Whatever happens in a round, it stays well formed, and a peer that has bowed out has no
position and no vote on a dispute. -/
theorem bowedOut_silent : ∀ ok s, Reachable ok s → s.WellFormed ∧ s.Silent ∧
    ∀ peer ∈ s.mDeadNodes, ∀ (id : TxID) d, s.mDisputes[id]? = some d → d.mVotes[peer]? = none := by
  intro ok s h
  refine ⟨h.wellFormed, h.silent, fun peer dead id d dispute => ?_⟩
  have tracks : s.VotesTrack False := VotesTrack.reachable h fun _ _ _ => False.elim
  exact (tracks id d dispute).known peer (h.silent peer dead)

end

/-- The peer that has brought the disputed transaction bows out. -/
theorem disputedRound_silent : ∃ (_ : SHAMapHash) (s : LedgerConsensus) (d : DisputedTx),
    1 ∈ s.mDeadNodes ∧ s.positionOf 1 = none ∧ s.mDisputes[7]? = some d ∧ d.mVotes[1]? = none := by
  let hash := SHAMap.coded
  let leave := { sampleProposal 1 ∅ with mProposeSeq := LedgerProposal.seqLeave }
  have left : ((scenario (fun e s => e.skipsVotes s = false) sampleStart sampleNetwork
      (disputedRound ++ [.peerPosition leave])).bind fun s =>
        s.mDisputes[7]?.map fun _ => s.mDeadNodes.contains 1) = some true := by
    decide +kernel
  obtain ⟨s, ran, left⟩ := Option.bind_eq_some_iff.1 left
  obtain ⟨d, dispute, dead⟩ := Option.map_eq_some_iff.1 left
  have h := reachable_of_scenario sampleStart_sound ran
  obtain ⟨-, silent, unvoted⟩ := bowedOut_silent _ s h
  exact ⟨hash, s, d, dead, silent 1 dead, dispute, unvoted 1 dead 7 d dispute⟩

end Skywell.LedgerConsensus
