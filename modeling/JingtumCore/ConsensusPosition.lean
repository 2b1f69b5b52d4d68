import JingtumCore.ConsensusEvents
import JingtumCore.STTx

/-!
# Our own position

What holds of our own set, the disputes and the sets that were compared with it
along a whole round. `Own.Rule` lists what a property has to survive; with it
the property, and that we have our own set at all, hold in every state. The
first use is that our votes on the disputes describe our position.
-/
namespace Skywell
open Std ExceptFold

namespace LedgerConsensus

variable {s s' : LedgerConsensus}

/-- The set of our own position, if we have it. -/
def ownSet (s : LedgerConsensus) : Option SHAMap := s.ourHash.bind s.acquired

/-- A property of our set, the disputes and the hashes of the sets that were compared. -/
abbrev OwnProperty :=
  SHAMap → ExtTreeMap TxID DisputedTx compare → ExtTreeSet TxSetHash compare → Prop

/-- We have no position yet, or have its set and the property holds. -/
def Own (Q : OwnProperty) (s : LedgerConsensus) : Prop :=
  s.ourHash = none ∨ ∃ set, s.ownSet = some set ∧ Q set s.mDisputes s.mCompares

/-- `updateOurPositions` finds votes to change, and may not take a new position. -/
def refusesFlips (s : LedgerConsensus) (now : Int) : Bool :=
  s.mOurPosition.any (·.isBowOut) &&
    !(s.removeStale (now - PROPOSE_FRESHNESS * second)).flips.isEmpty

namespace Event
variable [SHAMapHash]

/-- Our own set is reported invalid. -/
def voidsOurs : Event → LedgerConsensus → Bool
  | mapComplete hash none, s => s.ourHash == some hash
  | _, _ => false

/-- The round goes to another last closed ledger. -/
def switches : Event → LedgerConsensus → Bool
  | checkLCL net, s => s.netLedger net != s.mPrevLedgerHash
  | handleLCL lclHash _, s => lclHash != s.mPrevLedgerHash
  | _, _ => false

/-- Our votes change and our position does not. -/
def refusesFlips : Event → LedgerConsensus → Bool
  | updateOurPositions now, s => s.refusesFlips now
  | _, _ => false

/-- Our own set; the one we are about to propose when the ledger closes. -/
def ownSet : Event → LedgerConsensus → Option SHAMap
  | closeLedger c, s => some (s.initialSet c)
  | _, s => s.ownSet

end Event

variable [SHAMapHash]
open SHAMapHash

/-- What a property has to survive in the runs whose events are `ok`. -/
structure Own.Rule (Q : OwnProperty) (ok : Event → LedgerConsensus → Prop) : Prop where
  valid : ∀ e s, ok e s → e.voidsOurs s = false
  start : ∀ set, Q set ∅ ∅
  /-- The votes of the peers change. -/
  votes : ∀ set ds cs f, (∀ id d, (f id d).mOurVote = d.mOurVote) → Q set ds cs →
    Q set (ds.map f) cs
  /-- Our set is compared with another one. -/
  compare : ∀ e s0 (s s' : LedgerConsensus) set m, ok e s0 → e.ownSet s0 = some set → s.ownSet = some set →
    Q set s.mDisputes s.mCompares → s.Compares (getHash m) set m s' →
    Q set s'.mDisputes s'.mCompares
  /-- Our votes change, and our set with them. -/
  revise : ∀ (s : LedgerConsensus) set, Q set s.mDisputes s.mCompares →
    Q (s.flips.foldl s.applyFlip set)
      (s.mDisputes.map fun _ d => (d.updateVote s.mClosePercent s.mProposing).2) s.mCompares
  /-- Our votes change, and our set does not. -/
  refuse : ∀ now (s s0 : LedgerConsensus) set, ok (.updateOurPositions now) s0 →
    s0.refusesFlips now = true →
    Q set s.mDisputes s.mCompares →
    Q set (s.mDisputes.map fun _ d => (d.updateVote s.mClosePercent s.mProposing).2) s.mCompares
  /-- The disputes are dropped. -/
  switch : ∀ e (s : LedgerConsensus) set, ok e s → e.switches s = true →
    Q set s.mDisputes s.mCompares → Q set ∅ s.mCompares

namespace Own

variable {Q : OwnProperty} {ok : Event → LedgerConsensus → Prop} {set : SHAMap} {hash : TxSetHash}

section
omit [SHAMapHash]

theorem ownSet_eq_some :
    s.ownSet = some set ↔ ∃ hash, s.ourHash = some hash ∧ s.acquired hash = some set :=
  Option.bind_eq_some_iff

/-- Our position stays, sets are added at most, and the property is kept. -/
theorem of_same (h : Own Q s) (ours : s'.ourHash = s.ourHash)
    (sets : ∀ hash set, s.acquired hash = some set → s'.acquired hash = some set)
    (property : ∀ set, Q set s.mDisputes s.mCompares → Q set s'.mDisputes s'.mCompares) :
    Own Q s' := by
  rcases h with hnone | ⟨set, hset, hq⟩
  · exact .inl (ours.trans hnone)
  · obtain ⟨hash, hours, hset⟩ := ownSet_eq_some.1 hset
    exact .inr ⟨set, ownSet_eq_some.2 ⟨hash, ours.trans hours, sets hash set hset⟩,
      property set hq⟩

theorem property (h : Own Q s) (hown : s.ownSet = some set) :
    Q set s.mDisputes s.mCompares := by
  rcases h with hnone | ⟨set', hset', hq⟩
  · simp [ownSet, hnone] at hown
  · rw [hown] at hset'
    cases hset'
    exact hq

theorem ownSet_of_position {ours : LedgerProposal}
    (hours : s.mOurPosition = some ours) (hset : s.acquired ours.mCurrentHash = some set) :
    s.ownSet = some set :=
  ownSet_eq_some.2 ⟨_, by rw [ourHash, hours]; rfl, hset⟩

theorem acquired_insert_new {hash' : TxSetHash} {set : Option SHAMap} {m : SHAMap}
    (hnew : s.acquired hash = none) (h : s.acquired hash' = some m) :
    { s with mAcquired := s.mAcquired.insert hash set }.acquired hash' = some m := by
  rw [acquired_insert, if_neg]
  · exact h
  · rintro rfl
    simp [hnew] at h

end

section
variable (rule : Rule Q ok)
include rule

theorem takePosition (h : Own Q s) (pos : LedgerProposal) : Own Q (s.takePosition pos) := by
  rcases takePosition_cases s pos with ⟨set, -, heq⟩ | ⟨set, hnew, -, heq⟩ | ⟨-, -, heq⟩
  all_goals rw [heq]
  · exact h.of_same rfl (fun _ _ => id) fun set hq =>
      rule.votes set _ _ _ (fun _ _ => DisputedTx.setVote_ourVote _ _) hq
  · refine h.of_same rfl ?_ fun set hq =>
      rule.votes set _ _ _ (fun _ _ => DisputedTx.setVote_ourVote _ _) hq
    intro hash m hm
    exact acquired_insert_new hnew hm
  · exact h

theorem peerPosition (h : Own Q s) (pos : LedgerProposal) : Own Q (s.peerPosition pos).2 := by
  rcases peerPosition_cases s pos with heq | heq | ⟨-, mCloseTimes, heq⟩
  all_goals rw [heq]
  · exact h
  · exact h.of_same rfl (fun _ _ => id) fun set hq =>
      rule.votes set _ _ _ (fun _ _ => DisputedTx.unVote_ourVote _) hq
  · have : Own Q { s with mCloseTimes } := h
    exact this.takePosition rule pos

/-- A comparison with our set, in an event that the rule covers. -/
theorem compares {e : Event} {s0 : LedgerConsensus} (hok : ok e s0) {m : SHAMap}
    (hset : e.ownSet s0 = some set) (hown : s.ownSet = some set)
    (hq : Q set s.mDisputes s.mCompares) (hc : s.Compares (getHash m) set m s') :
    s'.ownSet = some set ∧ Q set s'.mDisputes s'.mCompares := by
  refine ⟨?_, rule.compare e s0 s s' set m hok hset hown hq hc⟩
  rw [hc.frame]
  exact hown

theorem Rule.recorded {map : SHAMap} (hq : Q set s.mDisputes s.mCompares) :
    Q set (s.recordSet hash map).mDisputes (s.recordSet hash map).mCompares :=
  rule.votes set _ _ _ (fun _ _ =>
    MapFold.foldl_keeps DisputedTx.mOurVote (fun _ _ _ => DisputedTx.setVote_ourVote _ _) _) hq

theorem recordSet (h : Own Q s) (hnew : s.acquired hash = none) (map : SHAMap) :
    Own Q (s.recordSet hash map) := by
  refine h.of_same rfl ?_ ?_
  · intro hash' m hm
    exact acquired_insert_new hnew hm
  · intro set hq
    exact rule.recorded hq

theorem mapComplete (h : Own Q s) {map : Option SHAMap}
    (hmap : ∀ m, map = some m → getHash m = hash) (hok : ok (.mapComplete hash map) s)
    (hc : s.mapCompleteInternal hash map true = .ok s') : Own Q s' := by
  cases map with
  | none =>
    cases hc
    rcases h with hnone | ⟨set, hset, hq⟩
    · exact .inl hnone
    · obtain ⟨hash', hours, hset⟩ := ownSet_eq_some.1 hset
      refine .inr ⟨set, ownSet_eq_some.2 ⟨hash', hours, ?_⟩, hq⟩
      rw [acquired_insert, if_neg]
      · exact hset
      · rintro rfl
        have : Event.voidsOurs (.mapComplete hash none) s = false := rule.valid _ _ hok
        simp [Event.voidsOurs, hours] at this
  | some map =>
    obtain rfl := hmap map rfl
    rcases mapCompleteInternal_cases hc with ⟨-, rfl⟩ | ⟨hnew, inbound, s1, -, hcmp, rfl⟩
    · exact h
    · have hnew' : (s.beforeRecord (getHash map) inbound).acquired (getHash map) = none := by
        rw [beforeRecord, acquired_erase (s := { s with inbound }), if_pos rfl]
      have hbefore : Own Q (s.beforeRecord (getHash map) inbound) := by
        refine h.of_same rfl ?_ fun _ => id
        intro hash m hm
        rw [beforeRecord, acquired_erase (s := { s with inbound }), if_neg]
        · exact hm
        · rintro rfl
          simp [hnew] at hm
      rcases compareWithOurs_cases hcmp with rfl | ⟨ours, set, hours, -, -, hset, hc⟩
      · exact hbefore.recordSet rule hnew' map
      · have hown := ownSet_of_position hours hset
        have hown0 : s.ownSet = some set := by
          obtain ⟨hash, hours', hset'⟩ := ownSet_eq_some.1 hown
          rw [beforeRecord, acquired_erase (s := { s with inbound })] at hset'
          split_ifs at hset'
          exact ownSet_eq_some.2 ⟨hash, hours', hset'⟩
        have := hbefore.property hown
        obtain ⟨hown', hq⟩ := compares rule hok hown0 hown this hc
        refine recordSet rule (.inr ⟨set, hown', hq⟩) ?_ map
        rw [hc.frame]
        exact hnew'

/-- Our own new set is recorded. -/
theorem adopt (wf : s.WellFormed) {ours : LedgerProposal} {acq : Bool}
    (hours : s.mOurPosition = some ours) (hset : getHash set = ours.mCurrentHash)
    (hq : Q set s.mDisputes s.mCompares)
    (hc : s.mapCompleteInternal ours.mCurrentHash (some set) acq = .ok s') :
    s'.ownSet = some set ∧ Q set s'.mDisputes s'.mCompares := by
  rcases mapCompleteInternal_cases hc with ⟨⟨set', hset'⟩, rfl⟩ | ⟨-, inbound, s1, -, hcmp, rfl⟩
  · refine ⟨ownSet_of_position hours ?_, hq⟩
    rw [hset', wf.unique hset' hset]
  · -- it is recorded without a comparison
    obtain rfl : s1 = s.beforeRecord ours.mCurrentHash inbound := by
      rcases compareWithOurs_cases hcmp with same | ⟨ours', set, hours', -, hne, -⟩
      · exact same
      · cases hours.symm.trans hours'
        exact absurd rfl hne
    constructor
    · have hrecorded : ((s.beforeRecord ours.mCurrentHash inbound).recordSet ours.mCurrentHash
          set).acquired ours.mCurrentHash = some set := by
        rw [acquired_recordSet, if_pos rfl]
      exact ownSet_of_position hours hrecorded
    · exact rule.recorded hq

theorem removeStale (h : Own Q s) (cutoff : Int) : Own Q (s.removeStale cutoff) := by
  refine h.of_same rfl (fun _ _ => id) fun set hq => rule.votes set _ _ _ (fun _ _ => ?_) hq
  exact MapFold.foldl_keeps DisputedTx.mOurVote (fun _ _ _ => DisputedTx.unVote_ourVote _) _

theorem updateOurPositions (h : Own Q s) (wf : s.WellFormed) (late : s.mState = .lcsESTABLISH)
    {now : Int} (hok : ok (.updateOurPositions now) s) (hu : s.updateOurPositions now = .ok s') :
    Own Q s' := by
  obtain ⟨t, ours, agreed, rfl, hours, hcase⟩ := updateOurPositions_cases hu
  have hstale := h.removeStale rule (now - PROPOSE_FRESHNESS * second)
  have wfVoted := (wf.removeStale (now - PROPOSE_FRESHNESS * second)).voted agreed
  rcases hcase with ⟨hwhy, rfl⟩ | ⟨set, ours', -, hset, hhash, hmap⟩
  · refine hstale.of_same rfl (fun _ _ => id) fun set hq => ?_
    by_cases hflips : (s.removeStale (now - PROPOSE_FRESHNESS * second)).flips = []
    · have := rule.revise _ set hq
      rw [hflips] at this
      exact this
    · have hb : ours.isBowOut = true := hwhy.resolve_left hflips
      refine rule.refuse now _ s set hok ?_ hq
      simpa [refusesFlips, hours, hb] using hflips
  · have hq := rule.revise _ set (hstale.property (ownSet_of_position hours hset))
    exact .inr ⟨_, adopt rule (wfVoted.withPosition ours' late) rfl hhash.symm hq hmap⟩

theorem closeLedger (wf : s.WellFormed) (early : s.mState = .lcsPRE_CLOSE) {c : Closing}
    (hok : ok (.closeLedger c) s) (hc : s.closeLedger c = .ok s') : Own Q s' := by
  obtain ⟨s1, ours, hmap, hhash, -, hfold⟩ := takeInitialPosition_ok hc
  obtain ⟨hset, hd, hcmp⟩ := wf.closing.mapCompleteInternal_idle (wf.early early) hmap
  have hown : (s1.opened ours c.transactions.hasItem).ownSet = some (s.initialSet c) :=
    ownSet_of_position rfl (hhash ▸ hset)
  have hq : Q (s.initialSet c) (s1.opened ours c.transactions.hasItem).mDisputes
      (s1.opened ours c.transactions.hasItem).mCompares := by
    have hempty : (s1.opened ours c.transactions.hasItem).mDisputes = ∅ := by
      show s1.mDisputes.map _ = ∅
      rw [hd]
      rfl
    rw [hempty, show (s1.opened ours c.transactions.hasItem).mCompares = ∅ from hcmp]
    exact rule.start _
  refine .inr ⟨s.initialSet c, compareInitial_keeps (P := fun t =>
    t.ownSet = some (s.initialSet c) ∧ Q (s.initialSet c) t.mDisputes t.mCompares) ?_ hfold
    ⟨hown, hq⟩⟩
  rintro t t' hash map ⟨hown, hq⟩ - hc
  exact compares rule hok rfl hown hq hc

theorem haveConsensus (h : Own Q s) (wf : s.WellFormed) {forReal r : Bool} {v : Int}
    (hok : ok (.haveConsensus forReal v) s) (hc : s.haveConsensus forReal v = .ok (r, s')) :
    Own Q s' := by
  refine (haveConsensus_keeps (P := fun t => t.ownSet = s.ownSet ∧ Own Q t ∧ t.WellFormed)
    ?_ ?_ hc ⟨rfl, h, wf⟩).2.1
  · rintro t t' ours hash m1 m2 ⟨hsame, h, wf⟩ hours h1 h2 hc
    obtain rfl := wf.hashes hash m2 h2
    have hown := ownSet_of_position hours h1
    obtain ⟨hown', hq⟩ := compares rule hok (hsame.symm.trans hown) hown (h.property hown) hc
    exact ⟨hown'.trans (hsame.symm.trans hown).symm, .inr ⟨m1, hown', hq⟩,
      wf.compares (by simp [hours]) hc⟩
  · rintro t fail ⟨hsame, h, wf⟩
    exact ⟨hsame, h, { wf with }⟩

theorem handleLCL (h : Own Q s) {lclHash : LedgerHash} {net : Network}
    (switch : s.mPrevLedgerHash ≠ lclHash → ∀ set, Q set s.mDisputes s.mCompares →
      Q set ∅ s.mCompares) (hc : s.handleLCL lclHash net = .ok s') : Own Q s' := by
  refine handleLCL_keeps ?_ ?_ ?_ hc h
  · intro hne
    have hout : Own Q (s.outOfSync lclHash net.now) := by
      refine h.of_same ?_ (fun _ _ => id) (switch hne)
      unfold LedgerConsensus.outOfSync ourHash
      split_ifs
      · cases s.mOurPosition <;> rfl
      · rfl
    exact playbackProposals_keeps (fun t pos ht => ht.peerPosition rule pos) _ hout
  · intro t h
    exact h
  · intro t newLCL res h
    exact h

end

omit [SHAMapHash] in
theorem leaveConsensus (h : Own Q s) (now : Int) : Own Q (s.leaveConsensus now) := by
  unfold LedgerConsensus.leaveConsensus
  split_ifs
  · refine h.of_same ?_ (fun _ _ => id) fun _ => id
    unfold ourHash
    cases s.mOurPosition with
    | none => rfl
    | some ours =>
      simp only [Option.map_some]
      split_ifs <;> rfl
  · exact h

theorem run (rule : Rule Q ok) (h : Own Q s) (wf : s.WellFormed) {e : Event}
    (possible : e.Possible s) (hok : ok e s) (hr : e.run s = .ok s') : Own Q s' := by
  cases e with
  | peerPosition pos =>
    cases hr
    exact h.peerPosition rule pos
  | giveSet | clock | finish =>
    cases hr
    exact h
  | mapComplete hash map => exact h.mapComplete rule possible hok hr
  | closeLedger c => exact closeLedger rule wf possible hok hr
  | updateOurPositions now => exact h.updateOurPositions rule wf possible hok hr
  | haveConsensus forReal v =>
    obtain ⟨⟨r, s1⟩, hc, hr⟩ := bind_eq_ok.1 hr
    cases hr
    exact h.haveConsensus rule wf hok hc
  | checkLCL net =>
    rcases checkLCL_cases hr with rfl | hr
    · exact h
    · exact h.handleLCL rule (fun hne set hq => rule.switch _ s set hok (bne_iff_ne.2 (Ne.symm hne)) hq) hr
  | handleLCL lclHash net =>
    exact h.handleLCL rule (fun hne set hq => rule.switch _ s set hok (bne_iff_ne.2 (Ne.symm hne)) hq) hr
  | leaveConsensus now =>
    cases hr
    exact h.leaveConsensus now

theorem reachable (rule : Rule Q ok) (h : Reachable ok s) : Own Q s := by
  induction h with
  | create _ hc =>
    obtain ⟨s0, -, -, hours, -, -, hd, hcmp, hs⟩ := create_cases hc
    have h0 : Own Q s0 := .inl (by rw [ourHash, hours]; rfl)
    rcases hs with rfl | hs
    · exact h0
    · refine h0.handleLCL rule (fun _ set _ => ?_) hs
      rw [hcmp]
      exact rule.start set
  | step e hs possible hok hr ih => exact ih.run rule hs.wellFormed possible hok hr

end Own

section
omit [SHAMapHash]

variable {id : TxID}

theorem hasItem_applyFlip (set : SHAMap) (it : TxID × DisputedTx) (id : TxID) :
    (s.applyFlip set it).hasItem id =
      if it.1 = id then (it.2.updateVote s.mClosePercent s.mProposing).2.mOurVote
      else set.hasItem id := by
  unfold applyFlip DisputedTx.getOurVote
  dsimp only
  split_ifs with hv hid hid
  · simp [SHAMap.hasItem, SHAMap.addItem, hid, hv]
  · simp [SHAMap.hasItem, SHAMap.addItem, hid]
  · simp [SHAMap.hasItem, SHAMap.delItem, hid, hv]
  · simp [SHAMap.hasItem, SHAMap.delItem, hid]

/-- Where a vote is carried in, the set has the transaction if the vote is for it. -/
theorem hasItem_foldl_applyFlip (set : SHAMap) (id : TxID) :
    (s.flips.foldl s.applyFlip set).hasItem id = s.mDisputes[id]?.elim (set.hasItem id) fun d =>
      if (d.updateVote s.mClosePercent s.mProposing).1 = true then
        (d.updateVote s.mClosePercent s.mProposing).2.mOurVote
      else set.hasItem id := by
  rw [flips, List.foldl_filter]
  refine MapFold.foldl_toList s.mDisputes id (·.hasItem id) (fun d had =>
    if (d.updateVote s.mClosePercent s.mProposing).1 = true then
      (d.updateVote s.mClosePercent s.mProposing).2.mOurVote
    else had) (fun set it _ => ?_) set
  split_ifs with hflip hid
  · rw [hasItem_applyFlip, if_pos hid]
  · rw [hasItem_applyFlip, if_neg hid]
  all_goals rfl

theorem ourVote_own {set : SHAMap} (hown : s.ownSet = some set) (id : TxID) :
    s.ourVote id = .ok (set.hasItem id) := by
  unfold ownSet ourHash at hown
  cases hours : s.mOurPosition with
  | none => simp [hours] at hown
  | some ours =>
    have hset : s.mAcquired[ours.mCurrentHash]? = some (some set) :=
      acquired_eq_some.1 (by simpa [hours] using hown)
    simp only [ourVote, hours, hset]
    rfl

end

/-- Our votes on the disputes are what our set says. -/
def Described : OwnProperty := fun set ds _ =>
  ∀ (id : TxID) d, ds[id]? = some d → d.mOurVote = set.hasItem id

theorem Described.rule :
    Own.Rule Described fun e s => e.voidsOurs s = false ∧ e.refusesFlips s = false where
  valid _ _ hok := hok.1
  start set id d hd := by simp at hd
  votes set ds cs f hf h id d hd := by
    rw [ExtTreeMap.getElem?_map] at hd
    obtain ⟨d0, h0, rfl⟩ := Option.map_eq_some_iff.1 hd
    rw [hf]
    exact h id d0 h0
  compare e s0 s s' set m _ _ hown h hc id d hd := by
    obtain ⟨ids, hdisp, -⟩ := createDisputes_spec hc
    rcases hdisp.new id d hd with hold | ⟨tx, vote, hvote, rfl⟩
    · exact h id d hold
    · rw [ourVote_own (s := s.noteCompare (getHash m)) hown] at hvote
      cases hvote
      exact peerVotes_keeps (P := fun d => d.mOurVote = set.hasItem id)
        (fun d p b hd => by rw [DisputedTx.setVote_ourVote, hd]) rfl
  revise s set h id d hd := by
    rw [ExtTreeMap.getElem?_map] at hd
    obtain ⟨d0, h0, rfl⟩ := Option.map_eq_some_iff.1 hd
    rw [hasItem_foldl_applyFlip, h0, Option.elim_some]
    split_ifs with hflip
    · rfl
    · rw [DisputedTx.updateVote_changed, Bool.eq_false_iff.2 hflip, Bool.false_xor, h id d0 h0]
  refuse now s s0 set hok hrefuse := absurd hrefuse (Bool.eq_false_iff.1 hok.2)
  switch e s set _ _ _ id d hd := by simp at hd

/-- The transactions `accept` adds to those it retries on the new open ledger:
the disputed ones we voted against, if they can be read. -/
def resubmitted (parse : Blob → Option STTx) (s : LedgerConsensus) : List STTx :=
  s.mDisputes.toList.filterMap fun it => if !it.2.getOurVote then parse it.2.transaction else none

omit [SHAMapHash] in
theorem mem_resubmitted {parse : Blob → Option STTx} {txn : STTx} :
    txn ∈ s.resubmitted parse ↔ ∃ (id : TxID) (d : DisputedTx), s.mDisputes[id]? = some d ∧
      d.getOurVote = false ∧ parse d.transaction = some txn := by
  simp [resubmitted]

end LedgerConsensus

open LedgerConsensus

/-- As long as our own set is not reported invalid and no vote changes after we
have bowed out, our votes are what our set says in every state of a round, and
the disputed transactions that are resubmitted are those our set does not have. -/
theorem our_votes_describe_position [SHAMapHash] {s : LedgerConsensus}
    (h : Reachable (fun e s => e.voidsOurs s = false ∧ e.refusesFlips s = false) s) {ours : LedgerProposal}
    (hours : s.mOurPosition = some ours) :
    ∃ set, s.mAcquired[ours.mCurrentHash]? = some (some set) ∧
      SHAMapHash.getHash set = ours.mCurrentHash ∧
      (∀ (id : TxID) d, s.mDisputes[id]? = some d →
        (d.getOurVote = true ↔ set.hasItem d.mTransactionID = true)) ∧
      ∀ parse txn, txn ∈ s.resubmitted parse ↔ ∃ (id : TxID) (d : DisputedTx),
        s.mDisputes[id]? = some d ∧ set.hasItem id = false ∧ parse d.transaction = some txn := by
  rcases Own.reachable Described.rule h with hnone | ⟨set, hown, hvotes⟩
  · simp [ourHash, hours] at hnone
  · obtain ⟨hash, hhash, hset⟩ := Own.ownSet_eq_some.1 hown
    obtain rfl : ours.mCurrentHash = hash := by simpa [ourHash, hours] using hhash
    refine ⟨set, acquired_eq_some.1 hset, h.wellFormed.hashes _ _ hset, ?_, ?_⟩
    · intro id d hd
      rw [DisputedTx.getOurVote, h.wellFormed.ids id d hd, hvotes id d hd]
    · intro parse txn
      rw [mem_resubmitted]
      constructor
      · rintro ⟨id, d, hd, hv, hp⟩
        exact ⟨id, d, hd, (hvotes id d hd).symm.trans hv, hp⟩
      · rintro ⟨id, d, hd, hv, hp⟩
        exact ⟨id, d, hd, (hvotes id d hd).trans hv, hp⟩

/-- A peer proposes a transaction we do not have, and our vote is against it. -/
theorem disputedRound_ourVote : ∃ (_ : SHAMapHash) (s : LedgerConsensus) (d : DisputedTx)
    (ours : LedgerProposal) (set : SHAMap), s.mOurPosition = some ours ∧
      s.mAcquired[ours.mCurrentHash]? = some (some set) ∧ s.mDisputes[7]? = some d ∧
      (d.getOurVote = true ↔ set.hasItem d.mTransactionID = true) := by
  let hash := SHAMap.coded
  have hvote : ((scenario (fun e s => e.voidsOurs s = false ∧ e.refusesFlips s = false) sampleStart
      sampleNetwork disputedRound).bind fun s => s.mDisputes[7]?.bind fun _ =>
        s.mOurPosition.map fun _ => ()) = some () := by
    decide +kernel
  obtain ⟨s, hs, hvote⟩ := Option.bind_eq_some_iff.1 hvote
  obtain ⟨d, hd, hvote⟩ := Option.bind_eq_some_iff.1 hvote
  obtain ⟨ours, hours, -⟩ := Option.map_eq_some_iff.1 hvote
  have hr := reachable_of_scenario sampleStart_sound hs
  obtain ⟨set, hset, -, hvotes, -⟩ := our_votes_describe_position hr hours
  exact ⟨hash, s, d, ours, set, hours, hset, hd, hvotes 7 d hd⟩

/-- We bow out while a peer's transaction is in dispute, and then vote for it. Our
position stays, so that the transaction is neither in our set nor resubmitted. -/
theorem vote_after_bowOut : ∃ (_ : SHAMapHash) (s : LedgerConsensus) (d : DisputedTx)
    (ours : LedgerProposal) (set : SHAMap), Reachable (fun _ _ => True) s ∧
      s.mOurPosition = some ours ∧ s.mAcquired[ours.mCurrentHash]? = some (some set) ∧
      s.mDisputes[7]? = some d ∧ d.getOurVote = true ∧ set.hasItem 7 = false ∧
      ∀ parse, s.resubmitted parse = [] := by
  let hash := SHAMap.coded
  have hvote : ((scenario (fun _ _ => True) sampleStart sampleNetwork
      (disputedRound ++ [.leaveConsensus 0, .updateOurPositions 0])).bind fun s =>
        s.mDisputes[7]?.bind fun d => s.mOurPosition.bind fun ours =>
          (s.mAcquired[ours.mCurrentHash]?.join).map fun set =>
            (d.getOurVote, set.hasItem 7, s.mDisputes.toList.all fun it => it.2.getOurVote)) =
      some (true, false, true) := by
    decide +kernel
  obtain ⟨s, hs, hvote⟩ := Option.bind_eq_some_iff.1 hvote
  obtain ⟨d, hd, hvote⟩ := Option.bind_eq_some_iff.1 hvote
  obtain ⟨ours, hours, hvote⟩ := Option.bind_eq_some_iff.1 hvote
  obtain ⟨set, hset, hvote⟩ := Option.map_eq_some_iff.1 hvote
  simp only [Prod.mk.injEq, List.all_eq_true] at hvote
  obtain ⟨hyes, hno, hall⟩ := hvote
  have hr := reachable_of_scenario sampleStart_sound hs
  refine ⟨hash, s, d, ours, set, hr, hours, Option.join_eq_some_iff.1 hset, hd, hyes, hno, ?_⟩
  intro parse
  refine List.filterMap_eq_nil_iff.2 fun it hit => ?_
  simp [hall it hit]

end Skywell
