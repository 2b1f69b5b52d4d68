import JingtumCore.AmendmentTable
import JingtumCore.ExceptFold
import Mathlib.Data.UInt

/-!
# Majorities of amendments

A run of the amendment table, the rounds of votes it has reported, and what the two
times kept for an amendment say about those rounds. The times are faithful as long as
no round passes over an amendment that has a majority: such a round does not mention
the amendment, and its first majority time stays.
-/
namespace Skywell.AmendmentTableImpl
open Std
variable {t t' : AmendmentTableImpl} {a b : Nat} {set : AmendmentSet} {rounds : List AmendmentSet}

def state (t : AmendmentTableImpl) (a : Nat) : AmendmentState := t.m_amendmentMap.getD a {}

/-- The first and the last majority time of an amendment. -/
def times (t : AmendmentTableImpl) (a : Nat) : UInt32 × UInt32 :=
  ((t.state a).m_firstMajority, (t.state a).m_lastMajority)

/-- The database has no times for amendments that are not in the table. -/
def Loaded (t : AmendmentTableImpl) : Prop :=
  ∀ a : Nat, t.m_amendmentMap[a]? = none → ∀ row, t.features[a]? = some row → row = (0, 0)

/-- Neither the table nor the database has majority times. -/
def NoMajorities (t : AmendmentTableImpl) : Prop :=
  (∀ a, t.times a = (0, 0)) ∧ t.Loaded

variable {s : AmendmentState} {since : UInt32}

theorem state_eq : t.state a = t.m_amendmentMap[a]?.getD {} := ExtTreeMap.getD_eq_getD_getElem?

theorem state_of_getElem? (found : t.m_amendmentMap[a]? = some s) : t.state a = s := by
  rw [state_eq, found]
  rfl

/-- The calls besides `doVoting` that change the table. -/
inductive Setting where
  | addKnown (name : AmendmentName)
  | veto (amendment : Nat)
  | unVeto (amendment : Nat)
  | enable (amendment : Nat)
  | disable (amendment : Nat)
  | setEnabled (amendments : List Nat)
  | setSupported (amendments : List Nat)
  | getJson (amendment : Nat)

/-- The table after such a call; `addKnown` may throw. -/
def adjust (t : AmendmentTableImpl) : Setting → AmendmentTableImpl
  | .addKnown name => (t.addKnown name).toOption.getD t
  | .veto amendment => (t.veto amendment).2
  | .unVeto amendment => (t.unVeto amendment).2
  | .enable amendment => (t.enable amendment).2
  | .disable amendment => (t.disable amendment).2
  | .setEnabled amendments => t.setEnabled amendments
  | .setSupported amendments => t.setSupported amendments
  | .getJson amendment => (t.getCreate amendment).2

/-- Only marks and names differ. -/
structure SameTimes (t t' : AmendmentTableImpl) : Prop where
  majorityTime : t'.m_majorityTime = t.m_majorityTime
  fraction : t'.mMajorityFraction = t.mMajorityFraction
  lastReport : t'.m_lastReport = t.m_lastReport
  times : ∀ a, t'.times a = t.times a
  loaded : t'.Loaded

theorem SameTimes.refl (loaded : t.Loaded) : SameTimes t t := ⟨rfl, rfl, rfl, fun _ => rfl, loaded⟩

theorem SameTimes.trans {t'' : AmendmentTableImpl} (h : SameTimes t t') (h' : SameTimes t' t'') :
    SameTimes t t'' :=
  ⟨h'.majorityTime.trans h.majorityTime, h'.fraction.trans h.fraction,
    h'.lastReport.trans h.lastReport, fun a => (h'.times a).trans (h.times a), h'.loaded⟩

theorem state_store : (t.store b s).state a = if b = a then s else t.state a := by
  rw [state, store, ExtTreeMap.getD_insert]
  simp [state]

section
variable (loaded : t.Loaded)
include loaded

theorem store_same (same : (s.m_firstMajority, s.m_lastMajority) = t.times a) :
    SameTimes t (t.store a s) := by
  refine ⟨rfl, rfl, rfl, fun b => ?_, fun b absent row => ?_⟩
  · rw [AmendmentTableImpl.times, state_store]
    split_ifs with here
    · rw [← here, same]
    · rfl
  · rw [store, ExtTreeMap.getElem?_insert] at absent
    split_ifs at absent
    exact loaded b absent row

theorem getCreate_same (a : Nat) : SameTimes t (t.getCreate a).2 ∧
      (((t.getCreate a).1.m_firstMajority, (t.getCreate a).1.m_lastMajority) = t.times a) := by
  rw [getCreate]
  cases found : t.m_amendmentMap[a]? with
  | some s =>
    refine ⟨.refl loaded, ?_⟩
    rw [AmendmentTableImpl.times, state_of_getElem? found]
  | none =>
    have fresh : t.times a = (0, 0) := by
      rw [AmendmentTableImpl.times, state_eq, found]
      rfl
    have same : ((t.setMajorityTimesFromDBToState {} a).m_firstMajority,
        (t.setMajorityTimesFromDBToState {} a).m_lastMajority) = t.times a := by
      rw [fresh, setMajorityTimesFromDBToState]
      cases row : t.features[a]? with
      | none => rfl
      | some r =>
        rw [loaded a found r row]
    exact ⟨store_same loaded same, same⟩

theorem mark_same (a : Nat) (same : (s.m_firstMajority, s.m_lastMajority) =
      ((t.getCreate a).1.m_firstMajority, (t.getCreate a).1.m_lastMajority)) :
    SameTimes t ((t.getCreate a).2.store a s) := by
  obtain ⟨created, times⟩ := getCreate_same loaded a
  exact created.trans (store_same created.loaded (same.trans (times.trans (created.times a).symm)))

theorem store_found {s' : AmendmentState} (found : t.m_amendmentMap[a]? = some s)
    (same : (s'.m_firstMajority, s'.m_lastMajority) = (s.m_firstMajority, s.m_lastMajority)) :
    SameTimes t (t.store a s') := by
  apply store_same loaded
  rw [same, AmendmentTableImpl.times, state_of_getElem? found]

theorem setOnly_same {mark : Bool → AmendmentState → AmendmentState}
    (same : ∀ on s, ((mark on s).m_firstMajority, (mark on s).m_lastMajority) =
      (s.m_firstMajority, s.m_lastMajority)) (amendments : List Nat) :
    SameTimes t (t.setOnly mark amendments) := by
  -- the table whose map is the one of the loop, from the first pass on
  have loop (l : List Nat) (t' : AmendmentTableImpl) (h : SameTimes t t') :
      let m := l.foldl (fun m e => m.insert e (mark true (m.getD e {}))) t'.m_amendmentMap
      SameTimes t { t' with m_amendmentMap := m } := by
    induction l generalizing t' with
    | nil => exact h
    | cons e l ih =>
      refine ih (t'.store e (mark true (t'.state e))) (h.trans (store_same h.loaded ?_))
      exact same true (t'.state e)
  refine loop amendments { t with m_amendmentMap := t.m_amendmentMap.map fun _ => mark false } ?_
  refine ⟨rfl, rfl, rfl, fun b => ?_, fun b absent row => ?_⟩
  · rw [AmendmentTableImpl.times, AmendmentTableImpl.times, state_eq, state_eq,
      ExtTreeMap.getElem?_map]
    cases t.m_amendmentMap[b]? with
    | none => rfl
    | some s => exact same false s
  · rw [ExtTreeMap.getElem?_map, Option.map_eq_none_iff] at absent
    exact loaded b absent row

theorem adjust_same (call : Setting) : SameTimes t (t.adjust call) := by
  cases call with
  | addKnown name =>
    rw [adjust, addKnown]
    cases name.mValid with
    | false => exact .refl loaded
    | true =>
      apply mark_same loaded name.mId
      split_ifs <;> rfl
  | veto amendment | enable amendment =>
    simp only [adjust, veto, enable]
    split_ifs
    · exact (getCreate_same loaded amendment).1
    · exact mark_same loaded amendment rfl
  | unVeto amendment | disable amendment =>
    simp only [adjust, unVeto, disable]
    split
    · exact .refl loaded
    · next s found =>
      split_ifs
      · exact .refl loaded
      · exact store_found loaded found rfl
  | setEnabled amendments =>
    rw [adjust]
    refine setOnly_same loaded ?_ amendments
    intro on s
    rfl
  | setSupported amendments =>
    rw [adjust]
    refine setOnly_same loaded ?_ amendments
    intro on s
    rfl
  | getJson amendment => exact (getCreate_same loaded amendment).1

end

section
variable (closeTime : UInt32) (threshold : Int) {votes : List (Nat × Int)}
  (loop : ExtTreeMap Nat AmendmentState compare × List Nat)

/-- An amendment that is mentioned is judged once, and the others are left alone. -/
theorem foldl_judgeOne_get (votes : ExtTreeMap Nat Int compare) (a : Nat) :
    (votes.toList.foldl (judgeOne closeTime threshold) loop).1[a]? =
      votes[a]?.elim loop.1[a]? fun n =>
        some (judge closeTime threshold n (loop.1[a]?.getD {})).1 := by
  refine MapFold.foldl_toList votes a (·.1[a]?)
    (fun n old => some (judge closeTime threshold n (old.getD {})).1) (fun loop e _ => ?_) loop
  rw [judgeOne, ExtTreeMap.getElem?_insert, ExtTreeMap.getD_eq_getD_getElem?]
  simp only [LawfulEqCmp.compare_eq_iff_eq]
  split
  · next here => rw [here]
  · rfl

theorem mem_foldl_judgeOne (changed : b ∈ (votes.foldl (judgeOne closeTime threshold) loop).2) :
    b ∈ loop.2 ∨ b ∈ votes.map Prod.fst := by
  induction votes generalizing loop with
  | nil => exact .inl changed
  | cons e votes ih =>
    rcases ih _ changed with before | later
    · rw [judgeOne] at before
      dsimp only at before
      split_ifs at before
      · rcases List.mem_append.1 before with before | here
        · exact .inl before
        · rw [List.mem_singleton] at here
          exact .inr (by simp [here])
      · exact .inl before
    · exact .inr (List.mem_cons_of_mem _ later)

end

theorem features_setMajorityTimesFromStateToDB {changed : List Nat} (other : a ∉ changed) :
    (t.setMajorityTimesFromStateToDB changed).features[a]? = t.features[a]? := by
  rw [setMajorityTimesFromStateToDB]
  generalize t.features = features
  induction changed generalizing features with
  | nil => rfl
  | cons c changed ih =>
    rw [List.mem_cons, not_or] at other
    rw [List.foldl_cons, ih other.2, ExtTreeMap.getElem?_modify]
    exact if_neg fun same => other.1 (LawfulEqCmp.compare_eq_iff_eq.1 same).symm

theorem not_mem_votes (absent : set.mVotes[a]? = none) : a ∉ set.mVotes.toList.map Prod.fst := by
  intro keys
  obtain ⟨⟨b, n⟩, member, rfl⟩ := List.mem_map.1 keys
  cases (ExtTreeMap.mem_toList_iff_getElem?_eq_some.1 member).symm.trans absent

/-- What a round with trusted validations does to the table. -/
theorem reportValidations_spec (loaded : t.Loaded) (some_ : set.mTrustedValidations ≠ 0) :
    (t.reportValidations set).m_majorityTime = t.m_majorityTime ∧
      (t.reportValidations set).mMajorityFraction = t.mMajorityFraction ∧
      (t.reportValidations set).m_lastReport = set.mCloseTime ∧
      (t.reportValidations set).Loaded ∧
      ∀ a, (t.reportValidations set).state a = match set.mVotes[a]? with
        | some n => (judge set.mCloseTime (t.threshold set) n (t.state a)).1
        | none => t.state a := by
  have each (a : Nat) := foldl_judgeOne_get set.mCloseTime (t.threshold set)
    (t.m_amendmentMap, []) set.mVotes a
  rw [reportValidations, if_neg some_]
  refine ⟨rfl, rfl, rfl, fun a absent row found => ?_, fun a => ?_⟩
  · replace absent := (each a).symm.trans absent
    cases votes : set.mVotes[a]? with
    | some n =>
      rw [votes] at absent
      cases absent
    | none =>
      rw [votes] at absent
      refine loaded a absent row
        (found.symm.trans (features_setMajorityTimesFromStateToDB fun changed => ?_)).symm
      rcases mem_foldl_judgeOne _ _ _ changed with before | member
      · cases before
      · exact not_mem_votes votes member
  · rw [state_eq, state_eq]
    apply (congrArg (Option.getD · {}) (each a)).trans
    cases set.mVotes[a]? <;> rfl

theorem amendmentSet_closeTime (parentCloseTime : UInt32) (valSet : List AmendmentVote) :
    (amendmentSet parentCloseTime valSet).mCloseTime = parentCloseTime := by
  refine MapFold.foldl_keeps AmendmentSet.mCloseTime (fun set val _ => ?_) _
  split_ifs
  · cases val.sfAmendments with
    | none => rfl
    | some amendments =>
      exact MapFold.foldl_keeps (f := AmendmentSet.addVote) (·.mCloseTime) (fun _ _ _ => rfl) _
  · rfl

/-- The round passes over an amendment that has a majority: there are trusted validations and
votes are needed, and nobody votes for it. -/
def PassesOver (t : AmendmentTableImpl) (set : AmendmentSet) (a : Nat) : Prop :=
  set.mTrustedValidations ≠ 0 ∧ set.votes a = 0 ∧ 0 < t.threshold set ∧ (t.times a).1 ≠ 0

/-- A run of the table from one without majority times, with the rounds of votes it was given, the
latest first. The close times increase, and each round meets a condition on the table before it. -/
inductive VotingRun (fits : AmendmentTableImpl → AmendmentSet → Prop) :
    AmendmentTableImpl → List AmendmentSet → Prop
  | start {t : AmendmentTableImpl} (none : t.NoMajorities) : VotingRun fits t []
  | voting {t : AmendmentTableImpl} {rounds : List AmendmentSet} (run : VotingRun fits t rounds)
      (parentCloseTime closeTime : UInt32) (valSet : List AmendmentVote)
      (later : ∀ set ∈ rounds, set.mCloseTime < parentCloseTime)
      (fit : fits t (amendmentSet parentCloseTime valSet)) :
      VotingRun fits (t.doVoting parentCloseTime closeTime valSet).1
        (amendmentSet parentCloseTime valSet :: rounds)
  | setting {t : AmendmentTableImpl} {rounds : List AmendmentSet} (run : VotingRun fits t rounds)
      (call : Setting) : VotingRun fits (t.adjust call) rounds

/-- In every round from a time on the amendment had enough votes. -/
def MajoritySince (t : AmendmentTableImpl) (a : Nat) (since : UInt32) (rounds : List AmendmentSet) :
    Prop :=
  ∀ set ∈ rounds, 0 < set.mTrustedValidations → since ≤ set.mCloseTime →
    t.threshold set ≤ set.votes a

/-- The two times of an amendment tell when it had a majority. -/
structure Faithful (t : AmendmentTableImpl) (a : Nat) (rounds : List AmendmentSet) : Prop where
  loaded : t.Loaded
  none : (t.times a).1 = 0 → (t.times a).2 = 0
  first : (t.times a).1 ≠ 0 → t.MajoritySince a (t.times a).1 rounds
  order : (t.times a).1 ≤ (t.times a).2
  last : (t.times a).2 ≠ 0 → ∃ set ∈ rounds, set.mCloseTime = (t.times a).2

theorem faithful_of_times {first last : UInt32} (same : t.times a = (first, last))
    (loaded : t.Loaded) (none : first = 0 → last = 0)
    (since : first ≠ 0 → t.MajoritySince a first rounds) (order : first ≤ last)
    (reported : last ≠ 0 → ∃ set ∈ rounds, set.mCloseTime = last) : t.Faithful a rounds := by
  refine ⟨loaded, ?_, ?_, ?_, ?_⟩ <;> rw [same]
  · exact none
  · exact since
  · exact order
  · exact reported

theorem faithful_of_no_times (same : t.times a = (0, 0)) (loaded : t.Loaded) :
    t.Faithful a rounds :=
  faithful_of_times same loaded (fun _ => rfl) (fun first => absurd rfl first) (UInt32.le_refl 0)
    fun last => absurd rfl last

theorem MajoritySince.congr (fraction : t'.mMajorityFraction = t.mMajorityFraction)
    (h : t.MajoritySince a since rounds) : t'.MajoritySince a since rounds := by
  intro set member trusted from_
  rw [threshold, fraction]
  exact h set member trusted from_

theorem Faithful.adjust (h : t.Faithful a rounds) (call : Setting) :
    (t.adjust call).Faithful a rounds := by
  have same := adjust_same h.loaded call
  exact faithful_of_times (same.times a) same.loaded h.none
    (fun first => (h.first first).congr same.fraction) h.order h.last

theorem Faithful.last_lt (h : t.Faithful a rounds) {time : UInt32}
    (later : ∀ s ∈ rounds, s.mCloseTime < time) (some_ : (t.times a).1 ≠ 0) :
    (t.times a).1 < time := by
  have order := h.order
  have last : (t.times a).2 ≠ 0 := by
    intro zero
    rw [zero] at order
    exact some_ (UInt32.le_zero_iff.1 order)
  obtain ⟨s, member, same⟩ := h.last last
  exact lt_of_le_of_lt order (same ▸ later s member)

theorem MajoritySince.cons (h : t.MajoritySince a since rounds)
    (enough : 0 < set.mTrustedValidations → t.threshold set ≤ set.votes a) :
    t.MajoritySince a since (set :: rounds) := by
  intro s member trusted from_
  rcases List.mem_cons.1 member with rfl | before
  · exact enough trusted
  · exact h s before trusted from_

/-- One round keeps the times faithful, unless it passes over the amendment. -/
theorem Faithful.report (h : t.Faithful a rounds)
    (later : ∀ s ∈ rounds, s.mCloseTime < set.mCloseTime) (heard : ¬t.PassesOver set a) :
    (t.reportValidations set).Faithful a (set :: rounds) := by
  have reported (last : (t.times a).2 ≠ 0) : ∃ s ∈ set :: rounds, s.mCloseTime = (t.times a).2 := by
    obtain ⟨s, member, time⟩ := h.last last
    exact ⟨s, List.mem_cons_of_mem _ member, time⟩
  by_cases some_ : set.mTrustedValidations = 0
  · have same : t.reportValidations set = t := if_pos some_
    rw [same]
    refine ⟨h.loaded, h.none, fun first => (h.first first).cons fun trusted => ?_, h.order, reported⟩
    omega
  obtain ⟨-, fraction, -, loaded, states⟩ := reportValidations_spec h.loaded some_
  have state := states a
  have times : (t.reportValidations set).times a =
      (((t.reportValidations set).state a).m_firstMajority,
        ((t.reportValidations set).state a).m_lastMajority) := rfl
  have votes : set.votes a = set.mVotes[a]?.getD 0 := ExtTreeMap.getD_eq_getD_getElem?
  cases mentioned : set.mVotes[a]? with
  | none =>
    -- nobody votes for the amendment, and its times stay
    rw [mentioned] at state votes
    have same : (t.reportValidations set).times a = t.times a := by
      rw [times, state]
      rfl
    refine faithful_of_times same loaded h.none (fun first => ?_) h.order reported
    refine ((h.first first).cons fun _ => ?_).congr fraction
    by_contra needed
    refine heard ⟨some_, votes, ?_, first⟩
    rw [votes] at needed
    exact Int.not_le.1 needed
  | some n =>
    rw [mentioned] at state votes
    dsimp only at state
    have ended : ∃ s ∈ set :: rounds, s.mCloseTime = set.mCloseTime := ⟨set, List.mem_cons_self, rfl⟩
    by_cases enough : n ≥ t.threshold set
    · rw [judge, if_pos enough] at state
      have here : 0 < set.mTrustedValidations → t.threshold set ≤ set.votes a := by
        intro _
        rw [votes]
        exact enough
      by_cases first : (t.times a).1 = 0
      · -- the majority begins with this round
        rw [if_pos (show (t.state a).m_firstMajority = 0 from first)] at state
        have same : (t.reportValidations set).times a = (set.mCloseTime, set.mCloseTime) := by
          rw [times, state]
        have since : t.MajoritySince a set.mCloseTime rounds := by
          intro s before _ from_
          exact absurd (later s before) (UInt32.not_lt.2 from_)
        exact faithful_of_times same loaded id (fun _ => (since.cons here).congr fraction)
          (UInt32.le_refl _) fun _ => ended
      · -- the majority goes on
        rw [if_neg (show ¬(t.state a).m_firstMajority = 0 from first)] at state
        have same : (t.reportValidations set).times a = ((t.times a).1, set.mCloseTime) := by
          rw [times, state]
          rfl
        exact faithful_of_times same loaded (fun zero => absurd zero first)
          (fun _ => ((h.first first).cons here).congr fraction)
          (UInt32.le_of_lt (h.last_lt later first)) fun _ => ended
    · -- the majority is lost, if there was one
      rw [judge] at state
      have same : (t.reportValidations set).times a = (0, 0) := by
        rw [times, state]
        split_ifs with first
        · rfl
        · have zero : (t.times a).1 = 0 := not_not.1 first
          exact Prod.ext zero (h.none zero)
      exact faithful_of_no_times same loaded

/-- The times are faithful in every run in which no round passes over the amendment. -/
theorem VotingRun.faithful (run : VotingRun (fun t set => ¬t.PassesOver set a) t rounds) :
    t.Faithful a rounds := by
  induction run with
  | start none => exact faithful_of_no_times (none.1 _) none.2
  | voting run parentCloseTime closeTime valSet later fit ih =>
    have time : (amendmentSet parentCloseTime valSet).mCloseTime = parentCloseTime :=
      amendmentSet_closeTime parentCloseTime valSet
    exact ih.report (by rwa [time]) fit
  | setting run call ih => exact ih.adjust call

theorem VotingRun.ordered {fits : AmendmentTableImpl → AmendmentSet → Prop}
    (run : VotingRun fits t rounds) :
    rounds.Pairwise fun later set => set.mCloseTime < later.mCloseTime := by
  induction run with
  | start none => exact .nil
  | voting run parentCloseTime closeTime valSet later fit ih =>
    refine List.pairwise_cons.2 ⟨fun set before => ?_, ih⟩
    rw [amendmentSet_closeTime]
    exact later set before
  | setting run call ih => exact ih

theorem mem_getToEnable {closeTime : UInt32} : a ∈ t.getToEnable closeTime ↔
    t.m_lastReport ≠ 0 ∧ ∃ fs, t.m_amendmentMap[a]? = some fs ∧ t.shouldEnable closeTime fs = true := by
  rw [getToEnable]
  split_ifs with reported
  · simp only [List.mem_map, List.mem_filter, Prod.exists, exists_and_right, exists_eq_right,
      ExtTreeMap.mem_toList_iff_getElem?_eq_some, ne_eq, reported, not_false_eq_true, true_and]
  · simp [not_not.1 reported]

/-- Where no round has passed over the amendment while it had a majority, an amendment that is
proposed has had a majority for longer than the majority time. -/
theorem VotingRun.majority_continuous {latest : AmendmentSet} {closeTime : UInt32}
    (run : VotingRun (fun t set => ¬t.PassesOver set a) t (latest :: rounds))
    (proposed : a ∈ t.getToEnable closeTime) :
    ∃ since : UInt32, (latest.mCloseTime.toNat : Int) - since.toNat > t.m_majorityTime ∧
      ∀ set ∈ latest :: rounds, 0 < set.mTrustedValidations → since ≤ set.mCloseTime →
        set.mCloseTime ≤ latest.mCloseTime → t.threshold set ≤ set.votes a := by
  obtain ⟨reported, fs, found, should⟩ := mem_getToEnable.1 proposed
  have faithful := run.faithful
  have times : t.times a = (fs.m_firstMajority, fs.m_lastMajority) := by
    rw [AmendmentTableImpl.times, state_of_getElem? found]
  rw [shouldEnable] at should
  split_ifs at should with marks
  have aged := of_decide_eq_true should
  have current : fs.m_lastMajority = t.m_lastReport := by
    simp only [Bool.or_eq_true, not_or, bne_iff_ne, not_not] at marks
    exact marks.2
  have last : (t.times a).2 ≠ 0 := by
    rw [times]
    exact current ▸ reported
  have first : (t.times a).1 ≠ 0 := fun zero => last (faithful.none zero)
  obtain ⟨set, member, time⟩ := faithful.last last
  have bound : fs.m_lastMajority ≤ latest.mCloseTime := by
    rw [times] at time
    dsimp only at time
    rw [← time]
    rcases List.mem_cons.1 member with rfl | before
    · exact UInt32.le_refl _
    · exact UInt32.le_of_lt ((List.pairwise_cons.1 run.ordered).1 set before)
  have order := faithful.order
  have majority := faithful.first first
  rw [times] at order majority
  dsimp only at order majority
  refine ⟨fs.m_firstMajority, ?_, fun set member trusted from_ _ => majority set member trusted from_⟩
  rw [UInt32.toNat_sub_of_le _ _ order] at aged
  rw [UInt32.le_iff_toNat_le] at bound order
  omega

theorem noMajorities_empty (majorityTime fraction : Int) :
    NoMajorities { m_majorityTime := majorityTime, mMajorityFraction := fraction } := by
  refine ⟨fun a => ?_, fun a _ row found => ?_⟩
  · rw [AmendmentTableImpl.times, state, ExtTreeMap.getD_empty]
  · cases found

/-- A table that supports amendment 9, needs four fifths of the votes and waits ten seconds. -/
def supporting : AmendmentTableImpl :=
  adjust { m_majorityTime := 10, mMajorityFraction := 204 } (.addKnown { mId := 9 })

/-- Two trusted validations that vote for amendment 9. -/
def bothVote : List AmendmentVote := [⟨true, some [9]⟩, ⟨true, some [9]⟩]

/-- Two trusted validations that vote for nothing. -/
def neitherVotes : List AmendmentVote := [⟨true, none⟩, ⟨true, none⟩]

/-- At time 10 nobody votes for the amendment, and at time 12 it is proposed because of the majority
at time 1. -/
theorem majority_interrupted : ∃ (t : AmendmentTableImpl) (latest : AmendmentSet)
    (rounds : List AmendmentSet), VotingRun (fun _ _ => True) t (latest :: rounds) ∧
      9 ∈ t.getToEnable 0 ∧
      ¬∃ since : UInt32, (latest.mCloseTime.toNat : Int) - since.toNat > t.m_majorityTime ∧
        ∀ set ∈ latest :: rounds, 0 < set.mTrustedValidations → since ≤ set.mCloseTime →
          set.mCloseTime ≤ latest.mCloseTime → t.threshold set ≤ set.votes 9 := by
  have run0 : VotingRun (fun _ _ => True) supporting [] :=
    .setting (.start (noMajorities_empty 10 204)) _
  have run1 := run0.voting 1 0 bothVote (fun _ none => absurd none List.not_mem_nil) trivial
  have run2 := run1.voting 10 0 neitherVotes (by decide +kernel) trivial
  have run3 := run2.voting 12 0 bothVote (by decide +kernel) trivial
  refine ⟨_, _, _, run3, by decide +kernel, ?_⟩
  rintro ⟨since, aged, majority⟩
  have early : since ≤ 10 := by
    have latest : (amendmentSet 12 bothVote).mCloseTime.toNat = 12 := by decide +kernel
    change _ > 10 at aged
    change since.toNat ≤ 10
    omega
  have silent := majority (amendmentSet 10 neitherVotes) (by simp) (by decide +kernel)
    (by rw [amendmentSet_closeTime]; exact early) (by decide +kernel)
  exact absurd silent (by decide +kernel)

theorem majority_continuous_two_rounds : ∃ (t : AmendmentTableImpl) (since : UInt32),
    9 ∈ t.getToEnable 0 ∧ (12 : Int) - since.toNat > t.m_majorityTime ∧ since ≤ 1 := by
  have run0 : VotingRun (fun t set => ¬t.PassesOver set 9) supporting [] :=
    .setting (.start (noMajorities_empty 10 204)) _
  have run1 := run0.voting 1 0 bothVote (fun _ none => absurd none List.not_mem_nil)
    (by rintro ⟨-, -, -, first⟩; exact first (by decide +kernel))
  have run2 := run1.voting 12 0 bothVote (by decide +kernel)
    (by rintro ⟨-, none, -⟩; exact absurd none (by decide +kernel))
  have proposed : 9 ∈ ((supporting.doVoting 1 0 bothVote).1.doVoting 12 0 bothVote).1.getToEnable 0 := by
    decide +kernel
  obtain ⟨since, aged, -⟩ := run2.majority_continuous proposed
  have latest : (amendmentSet 12 bothVote).mCloseTime.toNat = 12 := by decide +kernel
  refine ⟨_, since, proposed, aged, ?_⟩
  change _ > 10 at aged
  change since.toNat ≤ 1
  omega

end Skywell.AmendmentTableImpl
