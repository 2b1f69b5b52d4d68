import JingtumCore.ConsensusPosition

/-!
# Disputes are complete

Every transaction that is in exactly one of our set and a peer's set is in
dispute once `haveConsensus` has returned. The code compares two sets once; the
comparison stays valid as our set moves, because only disputed transactions
move, but not when the disputes are dropped or when a comparison was cut off.
-/
namespace Skywell
open Std ExceptFold

namespace LedgerConsensus

variable {s s' : LedgerConsensus}

section
variable [SHAMapHash]
open SHAMapHash

namespace Event

/-- Disputes are dropped with the last closed ledger. -/
def dropsDisputes (e : Event) (s : LedgerConsensus) : Bool :=
  e.switches s && !s.mDisputes.isEmpty

/-- A set differs from ours in more transactions than one comparison finds. -/
def farFrom (set : SHAMap) (e : Event) (s : LedgerConsensus) : Bool :=
  (e.ownSet s).any fun own => maxDifferences < (own.delta set).length

/-- The ledger closes while a peer's position is a set that was reported invalid
and is not our own. -/
def meetsInvalid : Event → LedgerConsensus → Bool
  | closeLedger c, s => s.peerHashes.any fun hash =>
      (s.mAcquired[hash]?).any Option.isNone && hash != getHash (s.initialSet c)
  | _, _ => false

end Event

/-- Where a set that was compared differs from ours, there is a dispute. -/
def Covered (m : SHAMap) : OwnProperty := fun set ds cs =>
  getHash m ∈ cs → ∀ id, set.hasItem id ≠ m.hasItem id → (ds[id]?).isSome

variable {acq forReal r : Bool} {v : Int} {ours : LedgerProposal} {set : SHAMap} {hash : TxSetHash}

theorem Covered.mapDisputes {m : SHAMap} {ds : ExtTreeMap TxID DisputedTx compare}
    {cs : ExtTreeSet TxSetHash compare} (h : Covered m set ds cs)
    (f : TxID → DisputedTx → DisputedTx) : Covered m set (ds.map f) cs := by
  intro hm id hne
  simpa using h hm id hne

theorem Covered.rule (m : SHAMap) :
    Own.Rule (Covered m) fun e s =>
      e.voidsOurs s = false ∧ e.dropsDisputes s = false ∧ e.farFrom m s = false where
  valid _ _ hok := hok.1
  start set hm := by simp at hm
  votes set ds cs f _ h := h.mapDisputes f
  compare e s0 s s' set m' hok hset hown h hc := by
    intro hm id hne
    obtain ⟨ids, hd, hids⟩ := createDisputes_spec hc
    have hcs : s'.mCompares = s.mCompares.insert (getHash m') := by
      rw [hc.frame]
    rw [hcs, ExtTreeSet.mem_insert] at hm
    rcases hm with heq | hold
    · have heq : m' = m := injective (LawfulEqCmp.eq_of_compare heq)
      subst heq
      have hnear : Comparable set m' := by
        have := hok.2.2
        simp only [Event.farFrom, hset, Option.any_some, decide_eq_false_iff_not] at this
        exact Nat.not_lt.1 this
      exact hd.found id (hids hnear id hne)
    · obtain ⟨d, hdis⟩ := Option.isSome_iff_exists.1 (h hold id hne)
      exact Option.isSome_iff_exists.2 ⟨d, hd.old id d hdis⟩
  revise s set h := by
    intro hm id hne
    -- our set moves at disputed transactions only
    cases hd : s.mDisputes[id]? with
    | some d => simp [hd]
    | none =>
      rw [hasItem_foldl_applyFlip, hd] at hne
      simpa using h hm id hne
  refuse now s s0 set _ _ h := h.mapDisputes _
  switch e s set hok hsw h := by
    have hempty : s.mDisputes = ∅ := by
      have := hok.2.1
      simp only [Event.dropsDisputes, hsw, Bool.true_and, Bool.not_eq_false'] at this
      exact ExtTreeMap.isEmpty_iff.1 this
    rwa [hempty] at h

theorem haveConsensus_frame (h : s.haveConsensus forReal v = .ok (r, s')) :
    s'.mPeerPositions = s.mPeerPositions ∧ s'.mAcquired = s.mAcquired ∧
      s'.mOurPosition = s.mOurPosition := by
  refine haveConsensus_keeps (P := fun t => t.mPeerPositions = s.mPeerPositions ∧
    t.mAcquired = s.mAcquired ∧ t.mOurPosition = s.mOurPosition) ?_ ?_ h ⟨rfl, rfl, rfl⟩
  · intro t t' ours hash m1 m2 ht _ _ _ hc
    rw [hc.frame]
    exact ht
  · intro t fail ht
    exact ht

/-- Each set of a peer that is not at ours has been compared, if we have both. -/
theorem haveConsensus_compares (wf : s.WellFormed) (h : s.haveConsensus forReal v = .ok (r, s'))
    {p : NodeID} {pos : LedgerProposal} (hpos : s.mPeerPositions[p]? = some pos)
    (hours : s.mOurPosition = some ours) (hne : pos.mCurrentHash ≠ ours.mCurrentHash)
    (hset : s.acquired pos.mCurrentHash ≠ none) (hown : s.acquired ours.mCurrentHash ≠ none) :
    pos.mCurrentHash ∈ s'.mCompares := by
  obtain ⟨ours', s1, hours', hfold, heq, -⟩ := haveConsensus_ok h
  obtain rfl : ours = ours' := Option.some.inj (hours.symm.trans hours')
  have hmem : pos.mCurrentHash ∈ (s.proposers.filter fun it =>
      it.2.mCurrentHash != ours.mCurrentHash).map fun it => it.2.mCurrentHash := by
    refine List.mem_map.2 ⟨(p, pos), List.mem_filter.2 ⟨List.mem_filter.2 ⟨?_, ?_⟩, ?_⟩, rfl⟩
    · exact ExtTreeMap.mem_toList_iff_getElem?_eq_some.2 hpos
    · simp [wf.active p pos hpos]
    · simpa using hne
  have hmarks : ∀ hash ∈ (s.proposers.filter fun it =>
      it.2.mCurrentHash != ours.mCurrentHash).map (fun it => it.2.mCurrentHash),
      hash ∈ s1.mCompares ∨ s1.acquired hash = none ∨ s1.acquired ours.mCurrentHash = none := by
    refine foldlM_marks (Q := fun hash t => hash ∈ t.mCompares ∨ t.acquired hash = none ∨
      t.acquired ours.mCurrentHash = none) ?_ ?_ hfold
    · intro t hash t' hc
      rcases compareOnce_cases hc with ⟨rfl, hwhy⟩ | ⟨m1, m2, -, -, hc⟩
      · rwa [ExtTreeSet.contains_iff_mem] at hwhy
      · rw [hc.frame]
        exact .inl ExtTreeSet.mem_insert_self
    · intro t hash hash' t' ht hc
      rcases compareOnce_cases hc with ⟨rfl, -⟩ | ⟨m1, m2, -, -, hc⟩
      · exact ht
      · rw [hc.frame]
        rcases ht with hin | hnone
        · exact .inl (ExtTreeSet.mem_insert.2 (.inr hin))
        · exact .inr hnone
  obtain ⟨-, hacq, -⟩ := haveConsensus_frame h
  have hacq1 (hash : TxSetHash) : s1.acquired hash = s.acquired hash := by
    rw [heq] at hacq
    exact congrArg (fun m : ExtTreeMap TxSetHash (Option SHAMap) compare => (m[hash]?).join) hacq
  rw [heq]
  rcases hmarks _ hmem with hin | hnone | hnone
  · exact hin
  · exact absurd ((hacq1 _).symm.trans hnone) hset
  · exact absurd ((hacq1 _).symm.trans hnone) hown

/-- Our own set is not recorded as invalid, unless it is about to be recorded anew. -/
theorem mapCompleteInternal_returns {map : Option SHAMap}
    (valid : ∀ ours, s.mOurPosition = some ours → s.mAcquired[ours.mCurrentHash]? = some none →
      ours.mCurrentHash = hash) : ∃ s', s.mapCompleteInternal hash map acq = .ok s' := by
  cases map with
  | none => exact ⟨_, rfl⟩
  | some map =>
    cases hset : s.acquired hash with
    | some set => exact ⟨s, mapCompleteInternal_known hset⟩
    | none =>
      rw [mapCompleteInternal_new hset]
      have hbefore : ¬(s.beforeRecord hash
          (if acq then s.inbound else s.inbound.giveSet hash map)).OursInvalid := by
        rintro ⟨ours, hours, hinv⟩
        simp only [beforeRecord, ExtTreeMap.getElem?_erase] at hinv
        split_ifs at hinv with heq
        exact heq (by rw [valid ours hours hinv]; exact ReflCmp.compare_self)
      obtain ⟨s1, h1⟩ := compareWithOurs_returns hbefore hash map
      exact ⟨_, bind_eq_ok.2 ⟨s1, h1, rfl⟩⟩

theorem mapCompleteInternal_others {hash' : TxSetHash} {map : SHAMap}
    (h : s.mapCompleteInternal hash (some map) acq = .ok s') (hne : hash ≠ hash') :
    s'.mAcquired[hash']? = s.mAcquired[hash']? := by
  rcases mapCompleteInternal_cases h with ⟨-, rfl⟩ | ⟨-, inbound, s1, -, hcmp, rfl⟩
  · rfl
  · have hsame : s1.mAcquired = s.mAcquired.erase hash := by
      rcases compareWithOurs_cases hcmp with rfl | ⟨ours, set, -, -, -, -, hc⟩
      · rfl
      · rw [hc.frame]
        rfl
    show (s1.mAcquired.insert hash (some map))[hash']? = _
    simp [hsame, ExtTreeMap.getElem?_insert, ExtTreeMap.getElem?_erase, hne]

/-- We have our own set, if we have a position. -/
def Held (s : LedgerConsensus) : Prop := Own (fun _ _ _ => True) s

omit [SHAMapHash] in
theorem Held.valid (h : s.Held) : ¬s.OursInvalid := by
  rintro ⟨ours, hours, hinv⟩
  rcases h with hnone | ⟨set, hown, -⟩
  · simp [ourHash, hours] at hnone
  · obtain ⟨hash, hhash, hset⟩ := Own.ownSet_eq_some.1 hown
    obtain rfl : ours.mCurrentHash = hash := by simpa [ourHash, hours] using hhash
    simp [acquired, hinv] at hset

theorem Held.reachable (h : Reachable (fun e s => e.voidsOurs s = false) s) : s.Held := by
  refine Own.reachable ⟨?_, ?_, ?_, ?_, ?_, ?_, ?_⟩ h
  · exact fun e s hok => hok
  all_goals intros; trivial

theorem compares_returns (h : ¬s.OursInvalid) (hash : TxSetHash) (m1 m2 : SHAMap) :
    ∃ s', s.Compares hash m1 m2 s' ∧ ¬s'.OursInvalid ∧ s'.mAcquired = s.mAcquired := by
  obtain ⟨s', hc⟩ := createDisputes_returns (s := s.noteCompare hash) h m1 m2
  have hc : s.Compares hash m1 m2 s' := hc
  refine ⟨s', hc, ?_, ?_⟩
  · rw [hc.frame]
    exact h
  · rw [hc.frame]

theorem closeLedger_returns (wf : s.WellFormed) (early : s.mState = .lcsPRE_CLOSE) {c : Closing}
    (valid : Event.meetsInvalid (.closeLedger c) s = false) :
    ∃ s', s.closeLedger c = .ok s' := by
  have hnone := wf.early early
  let start : LedgerConsensus := { s with mState := .lcsESTABLISH, mCloseTime := c.mCloseTime }
  obtain ⟨s1, hmap⟩ : ∃ s1, start.mapCompleteInternal (getHash (s.initialSet c))
      (some (s.initialSet c)) false = .ok s1 :=
    mapCompleteInternal_returns fun ours hours => by
      have : none = some ours := hnone.symm.trans hours
      cases this
  obtain ⟨hset, -, -⟩ := wf.closing.mapCompleteInternal_idle hnone hmap
  have hpeers : s1.peerHashes = s.peerHashes := by
    obtain ⟨_, _, _, _, rfl⟩ := mapCompleteInternal_frame hmap
    rfl
  have hknown : ∀ hash ∈ s1.peerHashes, s1.mAcquired[hash]? ≠ some none := by
    intro hash hhash hinv
    by_cases heq : getHash (s.initialSet c) = hash
    · rw [heq] at hset
      simp [acquired, hinv] at hset
    · rw [mapCompleteInternal_others hmap heq] at hinv
      have hinv : s.mAcquired[hash]? = some none := hinv
      have : Event.meetsInvalid (.closeLedger c) s = true := by
        refine List.any_eq_true.2 ⟨hash, hpeers ▸ hhash, ?_⟩
        simpa [hinv] using Ne.symm heq
      simp [valid] at this
  have hstep : ∀ (t : LedgerConsensus) hash, hash ∈ s1.peerHashes →
      ¬t.OursInvalid ∧ t.mAcquired = s1.mAcquired →
      ∃ t', t.compareInitial (s.initialSet c) hash = .ok t' ∧
        ¬t'.OursInvalid ∧ t'.mAcquired = s1.mAcquired := by
    rintro t hash hhash ⟨hvalid, hacq⟩
    unfold compareInitial
    rcases hit : t.mAcquired[hash]? with _ | _ | map
    · exact ⟨t, rfl, hvalid, hacq⟩
    · rw [hacq] at hit
      exact absurd hit (hknown hash hhash)
    · obtain ⟨t', hc, hvalid', hacq'⟩ := compares_returns hvalid (getHash map) (s.initialSet c) map
      exact ⟨t', hc, hvalid', hacq'.trans hacq⟩
  let ours : LedgerProposal := {
    mPreviousLedger := c.parentHash
    mCurrentHash := getHash (s.initialSet c)
    mCloseTime := s1.mCloseTime
    mTime := c.now }
  have hvalid : ¬(s1.opened ours c.transactions.hasItem).OursInvalid := by
    rintro ⟨ours', hours', hinv⟩
    cases hours'
    have hinv : s1.mAcquired[getHash (s.initialSet c)]? = some none := hinv
    simp [acquired, hinv] at hset
  obtain ⟨s', hfold⟩ := foldlM_returns (P := fun t : LedgerConsensus => ¬t.OursInvalid ∧
    t.mAcquired = s1.mAcquired) (fun t hash hhash ht => hstep t hash hhash ht)
    ⟨hvalid, rfl⟩
  exact ⟨s', bind_eq_ok.2 ⟨s1, hmap, hfold⟩⟩

theorem haveConsensus_safe (h : s.Held) (forReal : Bool) (v : Int) :
    s.haveConsensus forReal v ≠ .error .nullSet := by
  unfold haveConsensus
  cases hours : s.mOurPosition with
  | none => simp [throw, throwThe, MonadExceptOf.throw]
  | some ours =>
    have hstep (t : LedgerConsensus) (hash : TxSetHash) (ht : ¬t.OursInvalid) :
        ∃ t', t.compareOnce ours hash = .ok t' ∧ ¬t'.OursInvalid := by
      unfold compareOnce
      split_ifs
      · exact ⟨t, rfl, ht⟩
      · cases t.acquired hash with
        | none => exact ⟨t, rfl, ht⟩
        | some m2 =>
          cases t.acquired ours.mCurrentHash with
          | none => exact ⟨t, rfl, ht⟩
          | some m1 =>
            obtain ⟨t', hc, hvalid, -⟩ := compares_returns ht hash m1 m2
            exact ⟨t', hc, hvalid⟩
    obtain ⟨s1, hfold⟩ := foldlM_returns
      (l := (s.proposers.filter fun it => it.2.mCurrentHash != ours.mCurrentHash).map
        fun it => it.2.mCurrentHash) (fun t hash _ ht => hstep t hash ht) h.valid
    dsimp only
    rw [hfold]
    nofun

/-- Our own new set is recorded without a comparison, so that nothing can fail. -/
theorem changeOurPosition_returns {closeTime : UInt32} {now : Int} :
    ∃ s', s.changeOurPosition ours set closeTime now = .ok s' := by
  unfold changeOurPosition LedgerProposal.changePosition
  split_ifs
  · exact ⟨s, rfl⟩
  · exact mapCompleteInternal_returns fun ours' hours' _ => by
      cases hours'
      rfl

theorem revisePosition_returns (now : Int) (hset : s.ourSet ours = .ok set) :
    ∃ s', s.revisePosition ours now = .ok s' := by
  obtain ⟨changed, hch⟩ : ∃ changed, s.changedSet ours = .ok changed := by
    unfold changedSet
    rw [hset]
    split_ifs
    · exact ⟨_, rfl⟩
    · exact ⟨_, rfl⟩
  unfold revisePosition
  rw [hch]
  cases changed with
  | some set' => exact changeOurPosition_returns
  | none =>
    dsimp only
    split_ifs
    · rw [hset]
      exact changeOurPosition_returns
    · exact ⟨_, rfl⟩

theorem updateOurPositions_safe (h : s.Held) (now : Int) :
    s.updateOurPositions now ≠ .error .nullSet := by
  unfold updateOurPositions
  dsimp only
  rcases h with hnone | ⟨set, hown, -⟩
  · have hnone : s.mOurPosition = none := Option.map_eq_none_iff.1 hnone
    rw [show (s.removeStale (now - PROPOSE_FRESHNESS * second)).mOurPosition = none from hnone]
    nofun
  · obtain ⟨hash, hhash, hset⟩ := Own.ownSet_eq_some.1 hown
    obtain ⟨ours, hours, rfl⟩ := Option.map_eq_some_iff.1 hhash
    rw [show (s.removeStale (now - PROPOSE_FRESHNESS * second)).mOurPosition = some ours from hours]
    have hset : (s.removeStale (now - PROPOSE_FRESHNESS * second)).ourSet ours = .ok set :=
      ourSet_eq_ok.2 hset
    obtain ⟨s', hs'⟩ := revisePosition_returns now hset
    dsimp only
    rw [hs']
    nofun

omit [SHAMapHash] in
theorem handleLCL_safe (lclHash : LedgerHash) (net : Network) :
    s.handleLCL lclHash net ≠ .error .nullSet := by
  unfold handleLCL
  by_cases hsame : (s.wanting lclHash net).mPreviousLedger.hash =
      (s.wanting lclHash net).mPrevLedgerHash
  · rw [if_pos hsame]
    nofun
  · rw [if_neg hsame]
    cases net.getLedgerByHash (s.wanting lclHash net).mPrevLedgerHash with
    | none =>
      split_ifs <;> nofun
    | some newLCL =>
      dsimp only
      split <;> nofun

/-- No event dereferences a null set, if the ledger does not close on an invalid one. -/
theorem run_safe (h : s.Held) (wf : s.WellFormed) {e : Event} (possible : e.Possible s)
    (valid : e.meetsInvalid s = false) : e.run s ≠ .error .nullSet := by
  cases e with
  | mapComplete hash map =>
    obtain ⟨s', hs'⟩ : ∃ s', s.mapCompleteInternal hash map true = .ok s' :=
      mapCompleteInternal_returns fun ours hours hinv => absurd ⟨ours, hours, hinv⟩ h.valid
    rw [Event.run, hs']
    nofun
  | closeLedger c =>
    obtain ⟨s', hs'⟩ := closeLedger_returns wf possible valid
    rw [Event.run, hs']
    nofun
  | updateOurPositions now => exact updateOurPositions_safe h now
  | haveConsensus forReal v =>
    have hsafe := haveConsensus_safe h forReal v
    rw [Event.run]
    cases hc : s.haveConsensus forReal v with
    | ok r => nofun
    | error fault =>
      rintro ⟨⟩
      exact hsafe hc
  | checkLCL net =>
    unfold Event.run checkLCL
    dsimp only
    split_ifs
    · exact handleLCL_safe _ net
    · exact handleLCL_safe _ net
    · nofun
  | handleLCL lclHash net => exact handleLCL_safe lclHash net
  | peerPosition | giveSet | clock | finish | leaveConsensus => nofun

end

end LedgerConsensus

open LedgerConsensus

/-- As long as our own set is not reported invalid, no disputes are dropped and a
peer's set is never too far from ours, each of its differences from ours is in
dispute once `haveConsensus` has returned. As long as our own set is not reported
invalid and the ledger does not close while a peer is at an invalid set, no event
dereferences a null set. -/
theorem disputes_complete [SHAMapHash] :
    (∀ (s s' : LedgerConsensus) (set : SHAMap) (forReal r : Bool) (v : Int),
      Reachable (fun e s =>
        e.voidsOurs s = false ∧ e.dropsDisputes s = false ∧ e.farFrom set s = false) s →
      s.mState = .lcsESTABLISH → Event.farFrom set (.haveConsensus forReal v) s = false →
      s.haveConsensus forReal v = .ok (r, s') →
      ∀ (p : NodeID) pos ours own, s'.mPeerPositions[p]? = some pos →
        s'.mAcquired[pos.mCurrentHash]? = some (some set) → s'.mOurPosition = some ours →
        s'.mAcquired[ours.mCurrentHash]? = some (some own) →
        ∀ id : TxID, own.hasItem id ≠ set.hasItem id → id ∈ s'.mDisputes) ∧
    ∀ (s : LedgerConsensus) (e : Event), Reachable (fun e s => e.voidsOurs s = false) s →
      e.Possible s → e.meetsInvalid s = false → e.run s ≠ .error .nullSet := by
  constructor
  · intro s s' set forReal r v h state near hc p pos ours own hpos hset hours hown id hne
    have hstep : Reachable _ s' := .step (.haveConsensus forReal v) h state ⟨rfl, rfl, near⟩
      (bind_eq_ok.2 ⟨(r, s'), hc, rfl⟩)
    have hset' := acquired_eq_some.2 hset
    have hown' := acquired_eq_some.2 hown
    have hdis := (Own.reachable (Covered.rule set) hstep).property
      (Own.ownSet_of_position hours hown')
    rw [ExtTreeMap.mem_iff_isSome_getElem?]
    refine hdis ?_ id hne
    rw [hstep.wellFormed.hashes _ _ hset']
    obtain ⟨hp, ha, ho⟩ := haveConsensus_frame hc
    apply haveConsensus_compares h.wellFormed hc (hp ▸ hpos) (ho ▸ hours)
    · intro heq
      rw [heq, hown] at hset
      cases hset
      exact hne rfl
    · simp [acquired, ← ha, hset]
    · simp [acquired, ← ha, hown]
  · intro s e h possible valid
    exact run_safe (Held.reachable h) h.wellFormed possible valid

/-- The transaction of a peer's proposal, which we do not have, is in dispute. -/
theorem disputedRound_complete : ∃ (_ : SHAMapHash) (s s' : LedgerConsensus) (r : Bool)
    (pos ours : LedgerProposal) (set own : SHAMap), s.haveConsensus true 0 = .ok (r, s') ∧
      s'.mPeerPositions[1]? = some pos ∧ s'.mAcquired[pos.mCurrentHash]? = some (some set) ∧
      s'.mOurPosition = some ours ∧ s'.mAcquired[ours.mCurrentHash]? = some (some own) ∧
      own.hasItem 7 ≠ set.hasItem 7 ∧ 7 ∈ s'.mDisputes ∧
      Event.run (.updateOurPositions 0) s ≠ .error .nullSet := by
  let hash := SHAMap.coded
  let set : SHAMap := .ofList [(7, [])]
  have hround : ((scenario (fun e s => e.voidsOurs s = false ∧ e.dropsDisputes s = false ∧
      e.farFrom set s = false) sampleStart sampleNetwork disputedRound).bind fun s =>
        (s.haveConsensus true 0).toOption.bind fun r => r.2.mPeerPositions[1]?.bind fun pos =>
          (r.2.mAcquired[pos.mCurrentHash]?.join).bind fun set' => r.2.mOurPosition.bind fun ours =>
            (r.2.mAcquired[ours.mCurrentHash]?.join).map fun own =>
              (own.toList, set'.toList, s.mState, Event.farFrom set (.haveConsensus true 0) s)) =
      some ([], [(7, [])], .lcsESTABLISH, false) := by
    decide +kernel
  obtain ⟨s, hs, hround⟩ := Option.bind_eq_some_iff.1 hround
  obtain ⟨⟨r, s'⟩, hc, hround⟩ := Option.bind_eq_some_iff.1 hround
  obtain ⟨pos, hpos, hround⟩ := Option.bind_eq_some_iff.1 hround
  obtain ⟨set', hset, hround⟩ := Option.bind_eq_some_iff.1 hround
  obtain ⟨ours, hours, hround⟩ := Option.bind_eq_some_iff.1 hround
  obtain ⟨own, hown, hround⟩ := Option.map_eq_some_iff.1 hround
  simp only [Prod.mk.injEq] at hround
  obtain ⟨hempty, hitems, hstate, hnear⟩ := hround
  obtain rfl : set' = set := ExtTreeMap.toList_inj.1 (hitems.trans (by decide +kernel))
  obtain rfl : own = ∅ := ExtTreeMap.toList_inj.1 (hempty.trans (by decide +kernel))
  have hreach := reachable_of_scenario sampleStart_sound hs
  have hne : SHAMap.hasItem (∅ : SHAMap) 7 ≠ set.hasItem 7 := by decide +kernel
  have hc := toOption_eq_some.1 hc
  have hset := Option.join_eq_some_iff.1 hset
  have hown := Option.join_eq_some_iff.1 hown
  refine ⟨hash, s, s', r, pos, ours, set, ∅, hc, hpos, hset, hours, hown, hne, ?_, ?_⟩
  · exact disputes_complete.1 s s' set true r 0 hreach hstate hnear hc 1 pos ours ∅ hpos hset
      hours hown 7 hne
  · exact disputes_complete.2 s (.updateOurPositions 0) (hreach.mono fun _ _ h => h.1) hstate rfl

/-- A peer's transaction is in dispute when the last closed ledger changes. The peer
proposes it again, and it is not in dispute any more. In another round a peer is at
an invalid set when the ledger closes. -/
theorem dispute_forgotten : ∃ _ : SHAMapHash,
    (∃ (s s' : LedgerConsensus) (r : Bool) (pos ours : LedgerProposal) (set own : SHAMap),
      Reachable (fun _ _ => True) s ∧ s.mState = .lcsESTABLISH ∧
      s.haveConsensus true 0 = .ok (r, s') ∧ s'.mPeerPositions[1]? = some pos ∧
        s'.mAcquired[pos.mCurrentHash]? = some (some set) ∧
      s'.mOurPosition = some ours ∧ s'.mAcquired[ours.mCurrentHash]? = some (some own) ∧
      (own.delta set).length < maxDifferences ∧ own.hasItem 7 ≠ set.hasItem 7 ∧
      7 ∉ s'.mDisputes) ∧
    ∃ (s : LedgerConsensus) (e : Event), Reachable (fun _ _ => True) s ∧ e.Possible s ∧
      e.run s = .error .nullSet := by
  let hash := SHAMap.coded
  let set : SHAMap := .ofList [(7, [])]
  refine ⟨hash, ?_, ?_⟩
  · have hlost : ((scenario (fun _ _ => True) sampleStart sampleNetwork (disputedRound ++
        [.handleLCL 2 sampleNetwork, .peerPosition (sampleProposal 1 set)])).bind fun s =>
          (s.haveConsensus true 0).toOption.bind fun r => r.2.mPeerPositions[1]?.bind fun pos =>
            (r.2.mAcquired[pos.mCurrentHash]?.join).bind fun set => r.2.mOurPosition.bind fun ours =>
              (r.2.mAcquired[ours.mCurrentHash]?.join).map fun own =>
                ((own.delta set).length, own.hasItem 7, set.hasItem 7, r.2.mDisputes.contains 7,
                  s.mState)) =
        some (1, false, true, false, .lcsESTABLISH) := by
      decide +kernel
    obtain ⟨s, hs, hlost⟩ := Option.bind_eq_some_iff.1 hlost
    obtain ⟨⟨r, s'⟩, hc, hlost⟩ := Option.bind_eq_some_iff.1 hlost
    obtain ⟨pos, hpos, hlost⟩ := Option.bind_eq_some_iff.1 hlost
    obtain ⟨set, hset, hlost⟩ := Option.bind_eq_some_iff.1 hlost
    obtain ⟨ours, hours, hlost⟩ := Option.bind_eq_some_iff.1 hlost
    obtain ⟨own, hown, hlost⟩ := Option.map_eq_some_iff.1 hlost
    simp only [Prod.mk.injEq] at hlost
    obtain ⟨hlen, hno, hyes, hgone, hstate⟩ := hlost
    refine ⟨s, s', r, pos, ours, set, own, reachable_of_scenario sampleStart_sound hs,
      hstate, toOption_eq_some.1 hc, hpos, Option.join_eq_some_iff.1 hset, hours,
      Option.join_eq_some_iff.1 hown, by simp [hlen, maxDifferences], by simp [hno, hyes], ?_⟩
    intro hmem
    rw [ExtTreeMap.contains_iff_mem.2 hmem] at hgone
    cases hgone
  · have hnull : ((scenario (fun _ _ => True) sampleStart sampleNetwork
        [.peerPosition (sampleProposal 1 set), .mapComplete (SHAMapHash.getHash set) none]).bind
          fun s => match s.closeLedger sampleClosing with
            | .error fault => some (s.mState, fault)
            | .ok _ => none) = some (.lcsPRE_CLOSE, .nullSet) := by
      decide +kernel
    obtain ⟨s, hs, hnull⟩ := Option.bind_eq_some_iff.1 hnull
    refine ⟨s, .closeLedger sampleClosing, reachable_of_scenario sampleStart_sound hs, ?_⟩
    cases hc : s.closeLedger sampleClosing with
    | ok t => simp [hc] at hnull
    | error fault =>
      obtain ⟨hstate, rfl⟩ : s.mState = .lcsPRE_CLOSE ∧ fault = .nullSet := by
        simpa [hc] using hnull
      exact ⟨hstate, hc⟩

end Skywell
