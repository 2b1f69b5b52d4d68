import JingtumCore.LedgerConsensus

/-!
# The vote on the close time

`updateOurPositions` picks a close time from those of the peers' positions and our own. Nodes
that count the same times and find consensus pick the same one.
-/
namespace Skywell.LedgerConsensus
open Std

/-- How often each time occurs. -/
def tally (times : List UInt32) : ExtTreeMap UInt32 Int compare :=
  times.foldl (fun counts t => counts.alter t fun n => some (n.getD 0 + 1)) ∅

theorem getElem?_tally (times : List UInt32) (t : UInt32) :
    (tally times)[t]? = if times.count t = 0 then none else some (times.count t : Int) := by
  induction times using List.reverseRecOn with
  | nil => simp [tally]
  | append_singleton times u ih =>
    rw [tally, List.foldl_append]
    change ((tally times).alter u _)[t]? = _
    rw [ExtTreeMap.getElem?_alter]
    by_cases same : u = t
    · subst same
      by_cases none : times.count u = 0 <;> simp [ih, none]
    · simp [ih, same]

theorem tally_perm {times times' : List UInt32} (same : times.Perm times') :
    tally times = tally times' := by
  refine ExtTreeMap.ext_getElem? fun t => ?_
  rw [getElem?_tally, getElem?_tally, same.count_eq]

variable {items : List (UInt32 × Int)} {x y : UInt32 × Int}

/-- The largest of the most frequent times, and how often it occurs. -/
def Leads (items : List (UInt32 × Int)) (x : UInt32 × Int) : Prop :=
  x ∈ items ∧ ∀ y ∈ items, y.2 ≤ x.2 ∧ (y.2 = x.2 → y.1 ≤ x.1)

theorem Leads.unique (hx : Leads items x) (hy : Leads items y) : x.1 = y.1 := by
  have same : x.2 = y.2 := Int.le_antisymm (hy.2 x hx.1).1 (hx.2 y hy.1).1
  exact UInt32.le_antisymm ((hy.2 x hx.1).2 same) ((hx.2 y hy.1).2 same.symm)

/-- One step of the scan of the times. -/
def scanStep (threshConsensus : Int) (r : Bool × UInt32 × Int) (it : UInt32 × Int) :
    Bool × UInt32 × Int :=
  if it.2 ≥ r.2.2 then (r.1 || it.2 ≥ threshConsensus, it.1, it.2) else r

theorem scan_leads (sorted : items.Pairwise fun x y => x.1 < y.1) (threshConsensus : Int)
    (start : Bool × UInt32 × Int) :
    let r := items.foldl (scanStep threshConsensus) start
    (r = start ∧ ∀ x ∈ items, x.2 < start.2.2) ∨ start.2.2 ≤ r.2.2 ∧ Leads items r.2 := by
  induction items generalizing start with
  | nil => exact .inl ⟨rfl, nofun⟩
  | cons x rest ih =>
    obtain ⟨first, sorted⟩ := List.pairwise_cons.1 sorted
    rw [List.foldl_cons, scanStep]
    dsimp only
    rw [Leads, List.forall_mem_cons, List.forall_mem_cons]
    split_ifs with reached
    · refine .inr ?_
      obtain ⟨stays, fewer⟩ | ⟨more, member, most⟩ := ih sorted (_, x.1, x.2)
      · rw [stays]
        exact ⟨reached, .head _, ⟨le_rfl, fun _ => UInt32.le_rfl⟩, fun y hy =>
          ⟨(fewer y hy).le, fun same => absurd same (fewer y hy).ne⟩⟩
      · exact ⟨reached.trans more, .tail _ member,
          ⟨more, fun _ => UInt32.le_of_lt (first _ member)⟩, most⟩
    · obtain ⟨stays, fewer⟩ | ⟨more, member, most⟩ := ih sorted start
      · exact .inl ⟨stays, Int.not_le.1 reached, fewer⟩
      · exact .inr ⟨more, .tail _ member, ⟨by omega, fun same => by omega⟩, most⟩

theorem leads_of_count {times : List UInt32} {t : UInt32}
    (many : computePercent times.length AV_CT_CONSENSUS_PCT < times.count t) :
    Leads (tally times).toList (t, times.count t) := by
  have most : times.length < 2 * times.count t := by
    rw [computePercent] at many
    have percent : (times.length * AV_CT_CONSENSUS_PCT + AV_CT_CONSENSUS_PCT.tdiv 2).tdiv 100 =
        (times.length * 75 + 37 : Int) / 100 :=
      Int.tdiv_eq_ediv_of_nonneg (a := times.length * 75 + 37) (by omega)
    split_ifs at many <;> omega
  have count {x : UInt32 × Int} (member : x ∈ (tally times).toList) : x.2 = times.count x.1 := by
    have found := ExtTreeMap.mem_toList_iff_getElem?_eq_some.1 member
    rw [getElem?_tally] at found
    split_ifs at found
    exact (Option.some.inj found).symm
  refine ⟨?_, fun x member => ?_⟩
  · rw [ExtTreeMap.mem_toList_iff_getElem?_eq_some, getElem?_tally, if_neg (by omega)]
  · rw [count member]
    by_cases same : x.1 = t
    · rw [same]
      exact ⟨le_rfl, fun _ => UInt32.le_rfl⟩
    · have others : times.count x.1 ≤ times.countP fun y => ¬ (y == t) = true :=
        List.countP_mono_left fun y _ h => by
          rw [eq_of_beq h]
          simpa using same
      have whole := times.length_eq_countP_add_countP (· == t)
      change times.length = times.count t + _ at whole
      exact ⟨by omega, fun equal => by omega⟩

/-- A node proposes, and counts a list of times, its own included. -/
structure CountsTimes (s : LedgerConsensus) (ours : LedgerProposal) (resolution : Int)
    (times : List UInt32) : Prop where
  proposing : s.mProposing = true
  resolution : s.mCloseResolution = resolution
  times : ((s.mPeerPositions.toList.map fun it => it.2.mCloseTime) ++ [ours.mCloseTime]).Perm times

variable {s s' : LedgerConsensus} {ours ours' : LedgerProposal} {resolution : Int}
  {times : List UInt32}

/-- The vote is a scan of how often each time occurs. -/
theorem CountsTimes.vote (c : CountsTimes s ours resolution times) (two : 2 ≤ times.length) :
    let rounded := times.map (Skywell.roundCloseTime · (.ofInt resolution))
    let threshConsensus := computePercent rounded.length AV_CT_CONSENSUS_PCT
    let scan := (tally rounded).toList.foldl (scanStep threshConsensus)
      (false, 0, computePercent rounded.length (neededWeight s.mClosePercent))
    s.closeTimeVote ours =
      if !scan.1 && (tally rounded).getD 0 0 > threshConsensus then (true, 0)
      else (scan.1, scan.2.1) := by
  have total := c.times.length_eq
  have rounded := c.times.map s.roundCloseTime
  have votes : s.closeTimes.alter (s.roundCloseTime ours.mCloseTime)
      (fun n => some (n.getD 0 + 1)) = tally (times.map s.roundCloseTime) := by
    refine .trans ?_ (tally_perm rounded)
    rw [tally, List.foldl_map, List.foldl_append, List.foldl_map]
    rfl
  rw [List.length_append, List.length_map, List.length_singleton, ExtTreeMap.length_toList] at total
  have others : s.mPeerPositions.isEmpty = false := by
    rw [ExtTreeMap.isEmpty_eq_size_beq_zero, beq_eq_false_iff_ne]
    omega
  have all : (s.mPeerPositions.size + 1 : Int) = (times.map s.roundCloseTime).length := by
    rw [List.length_map]
    omega
  rw [← c.resolution]
  unfold closeTimeVote
  simp only [others, c.proposing, if_true, votes, all]
  rfl

/-- What a node that finds consensus has chosen. -/
theorem CountsTimes.leads (c : CountsTimes s ours resolution times) (two : 2 ≤ times.length)
    (agreed : (s.closeTimeVote ours).1 = true) :
    ∃ n, Leads (tally (times.map (Skywell.roundCloseTime · (.ofInt resolution)))).toList
      ((s.closeTimeVote ours).2, n) := by
  have vote := c.vote two
  rw [vote] at agreed ⊢
  generalize times.map (Skywell.roundCloseTime · (.ofInt resolution)) = rounded at agreed ⊢
  have sorted : (tally rounded).toList.Pairwise fun x y => x.1 < y.1 :=
    ExtTreeMap.ordered_keys_toList.imp fun h => Std.compare_eq_lt.1 h
  have scan := scan_leads sorted (computePercent rounded.length AV_CT_CONSENSUS_PCT)
    (false, 0, computePercent rounded.length (neededWeight s.mClosePercent))
  split_ifs at agreed ⊢ with exit
  · rw [Bool.and_eq_true, decide_eq_true_eq, ExtTreeMap.getD_eq_getD_getElem?, getElem?_tally] at exit
    refine ⟨_, leads_of_count (exit.2.trans_eq ?_)⟩
    split_ifs with none
    · rw [none]
      rfl
    · rfl
  · obtain ⟨start, -⟩ | ⟨-, found⟩ := scan
    · rw [start] at agreed
      cases agreed
    · exact ⟨_, found⟩

/-- Two nodes that count the same times and find consensus on the close time choose the same. -/
theorem closeTime_agreement (times : List UInt32) (two : 2 ≤ times.length) (resolution : Int)
    (c : CountsTimes s ours resolution times) (c' : CountsTimes s' ours' resolution times)
    (agreed : (s.closeTimeVote ours).1 = true) (agreed' : (s'.closeTimeVote ours').1 = true) :
    (s.closeTimeVote ours).2 = (s'.closeTimeVote ours').2 := by
  obtain ⟨n, leads⟩ := c.leads two agreed
  obtain ⟨n', leads'⟩ := c'.leads two agreed'
  exact leads.unique leads'

theorem closeTime_agreement_two : ∃ (s s' : LedgerConsensus) (ours : LedgerProposal),
    s.mClosePercent ≠ s'.mClosePercent ∧ (s.closeTimeVote ours).2 = (s'.closeTimeVote ours).2 := by
  let ours : LedgerProposal := ⟨0, 0, 100, 0, 0, 0, false, none⟩
  let node (mClosePercent : Int) : LedgerConsensus := {
    inbound := {}, mPrevLedgerHash := 0, mPreviousLedger := { hash := 0 }, mProposing := true
    mClosePercent, mPeerPositions := (∅ : ExtTreeMap ..).insert 1 ours }
  have counts (percent : Int) : CountsTimes (node percent) ours 30 [100, 100] := ⟨rfl, rfl, .refl _⟩
  exact ⟨node 0, node 300, ours, by decide, closeTime_agreement [100, 100] (by decide) 30 (counts 0)
    (counts 300) (by decide +kernel) (by decide +kernel)⟩

end Skywell.LedgerConsensus
