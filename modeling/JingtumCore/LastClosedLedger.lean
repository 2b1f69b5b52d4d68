import JingtumCore.ConsensusRounds

/-!
# Tracking of the last closed ledger

`mHaveCorrectLCL` is meant to say that the ledger a round builds on is the one
the network prefers. `handleLCL` clears the flag only when it starts to acquire
a ledger, and it starts at most once for the ledger it asked for last. So the
flag stays set when the network comes back to a ledger that was asked for, is
still missing, and was left for another one in between.
-/
namespace Skywell
namespace LedgerConsensus

variable {s s' s0 : LedgerConsensus}

/-- The flag, when it is set, is right. -/
def Tracked (s : LedgerConsensus) : Prop :=
  s.mHaveCorrectLCL = true → s.mPreviousLedger.hash = s.mPrevLedgerHash

/-- A ledger that is returned has the hash that was asked for. -/
def Network.Honest (net : Network) : Prop :=
  ∀ hash ledger, net.getLedgerByHash hash = some ledger → ledger.hash = hash

/-- The flag is set, the wanted ledger is missing, and it is the ledger that
was asked for last. -/
def Overlooked (s : LedgerConsensus) (lclHash : LedgerHash) (net : Network) : Prop :=
  s.mHaveCorrectLCL = true ∧ s.mPreviousLedger.hash ≠ lclHash ∧
    net.getLedgerByHash lclHash = none ∧ s.mAcquiringLedger = lclHash

theorem handleLCL_tracked_iff {lclHash : LedgerHash} {net : Network} (honest : net.Honest)
    (h : s.handleLCL lclHash net = .ok s') : s'.Tracked ↔ ¬s.Overlooked lclHash net := by
  obtain ⟨hhash, hprev, -, hflag⟩ := wanting_frame s lclHash net
  rcases handleLCL_cases h with ⟨hsame, rfl⟩ | ⟨hne, ⟨hnone, hacq, rfl⟩ | ⟨hnone, hacq, rfl⟩ |
    ⟨newLCL, res, hsome, rfl⟩⟩
  · have tracked : (s.wanting lclHash net).Tracked := fun _ => by rw [hprev, hhash, hsame]
    exact iff_of_true tracked fun ho => ho.2.1 hsame
  · have tracked : (s.wanting lclHash net).acquiring.Tracked := fun hf => by cases hf
    exact iff_of_true tracked fun ho => hacq ho.2.2.2
  · rw [Tracked, hprev, hhash, hflag]
    constructor
    · intro tracked overlooked
      exact hne (tracked overlooked.1)
    · intro ho hf
      exact absurd ⟨hf, hne, hnone, hacq⟩ ho
  · have tracked : ((s.wanting lclHash net).onLedger newLCL lclHash res).Tracked :=
      fun _ => honest lclHash newLCL hsome
    exact iff_of_true tracked fun ⟨_, _, hnone, _⟩ => by simp [hsome] at hnone

/-- A call by which the last closed ledger is checked or set. -/
inductive LclCall where
  | checkLCL (net : Network)
  | handleLCL (lclHash : LedgerHash) (net : Network)

namespace LclCall

def net : LclCall → Network
  | checkLCL net => net
  | handleLCL _ net => net

def run : LclCall → LedgerConsensus → Except ConsensusFault LedgerConsensus
  | checkLCL net, s => s.checkLCL net
  | handleLCL lclHash net, s => s.handleLCL lclHash net

/-- The ledger that the call hands to `handleLCL`, if it does. -/
def wants : LclCall → LedgerConsensus → Option LedgerHash
  | checkLCL net, s =>
    if s.netLedger net ≠ s.mPrevLedgerHash ∨ s.mPreviousLedger.hash ≠ s.mPrevLedgerHash then
      some (s.netLedger net)
    else none
  | handleLCL lclHash _, _ => some lclHash

def Overlooks (c : LclCall) (s : LedgerConsensus) : Prop :=
  ∃ lclHash, c.wants s = some lclHash ∧ s.Overlooked lclHash c.net

theorem run_eq (c : LclCall) :
    c.run s = match c.wants s with
      | some lclHash => s.handleLCL lclHash c.net
      | none => .ok s := by
  cases c with
  | checkLCL net =>
    simp only [run, wants, LedgerConsensus.checkLCL]
    by_cases h1 : s.netLedger net = s.mPrevLedgerHash
    · by_cases h2 : s.mPreviousLedger.hash = s.mPrevLedgerHash
      · simp [h1, h2]
        rfl
      · simp [h2, LclCall.net]
    · simp [h1, LclCall.net]
  | handleLCL lclHash net => rfl

theorem tracked_iff {c : LclCall} (honest : c.net.Honest) (tracked : s.Tracked)
    (h : c.run s = .ok s') : s'.Tracked ↔ ¬c.Overlooks s := by
  rw [run_eq] at h
  cases hw : c.wants s with
  | none =>
    rw [hw] at h
    cases h
    exact iff_of_true tracked fun ⟨_, hw', _⟩ => by simp [hw] at hw'
  | some lclHash =>
    rw [hw] at h
    rw [handleLCL_tracked_iff honest h]
    simp [Overlooks, hw]

end LclCall

/-- A sequence of calls, with the state each is made in, and where it leads. -/
inductive LclRun (s0 : LedgerConsensus) : List (LedgerConsensus × LclCall) → LedgerConsensus → Prop
  | nil : LclRun s0 [] s0
  | snoc {calls : List (LedgerConsensus × LclCall)} {s s' : LedgerConsensus} (c : LclCall) :
      LclRun s0 calls s → c.net.Honest → c.run s = .ok s' → LclRun s0 (calls ++ [(s, c)]) s'

theorem create_tracked {c : Start} {net : Network} (same : c.previousLedger.hash = c.prevLCLHash)
    (h : create c net = .ok s0) : s0.Tracked := by
  unfold create at h
  split at h
  · cases h
  · simp only [same, beq_self_eq_true] at h
    cases h
    exact fun _ => same

end LedgerConsensus

open LedgerConsensus

/-- In a run of calls, the flag is right in every state exactly when no call
comes back to a missing ledger that was asked for last. -/
theorem lastClosedLedger_tracked_iff (c : Start) (net : Network)
    (same : c.previousLedger.hash = c.prevLCLHash) (s0 s : LedgerConsensus)
    (start : create c net = .ok s0) (calls : List (LedgerConsensus × LclCall))
    (run : LclRun s0 calls s) :
    ((∀ e ∈ calls, e.1.Tracked) ∧ s.Tracked) ↔ ∀ e ∈ calls, ¬e.2.Overlooks e.1 := by
  induction run with
  | nil => simpa using create_tracked same start
  | snoc call _ honest hrun ih =>
    simp only [List.forall_mem_append, List.forall_mem_singleton, ← ih]
    constructor
    · rintro ⟨⟨hcalls, hs⟩, hs'⟩
      exact ⟨⟨hcalls, hs⟩, (LclCall.tracked_iff honest hs hrun).1 hs'⟩
    · rintro ⟨⟨hcalls, hs⟩, ho⟩
      exact ⟨⟨hcalls, hs⟩, (LclCall.tracked_iff honest hs hrun).2 ho⟩

/-- A node that knows one ledger only. -/
def knowsOnly (hash : LedgerHash) : Network where
  getLedgerByHash h := if h = hash then some { hash := h } else none

theorem knowsOnly_honest (hash : LedgerHash) : (knowsOnly hash).Honest := by
  intro h ledger hl
  simp only [knowsOnly] at hl
  split_ifs at hl
  cases hl
  rfl

/-- A round on ledger 1, as it is constructed. -/
def roundOnOne : LedgerConsensus where
  inbound := {}
  mPrevLedgerHash := 1
  mPreviousLedger := { hash := 1 }
  mHaveCorrectLCL := true

theorem roundOnOne_switched :
    ((roundOnOne.wanting 3 (knowsOnly 3)).onLedger { hash := 3 } 3 30).Tracked := by
  refine ((lastClosedLedger_tracked_iff { prevLCLHash := 1, previousLedger := { hash := 1 } }
    (knowsOnly 3) rfl roundOnOne _ rfl [(roundOnOne, .handleLCL 3 (knowsOnly 3))]
    (.snoc (.handleLCL 3 (knowsOnly 3)) .nil (knowsOnly_honest 3) rfl)).2 ?_).2
  rintro e he ⟨lclHash, hw, -, -, hnone, -⟩
  rw [List.mem_singleton.1 he] at hw hnone
  cases hw
  cases hnone

/-- From ledger 1 the network goes to the missing ledger 2, to ledger 3 and
back to ledger 2. The flag stays set on ledger 3. -/
theorem missing_ledger_overlooked :
    (knowsOnly 3).Honest ∧ (do
      let s ← create { prevLCLHash := 1, previousLedger := { hash := 1 } } (knowsOnly 3)
      let s ← s.handleLCL 2 (knowsOnly 3)
      let s ← s.handleLCL 3 (knowsOnly 3)
      let s ← s.handleLCL 2 (knowsOnly 3)
      return (s.mHaveCorrectLCL, s.mPreviousLedger.hash, s.mPrevLedgerHash)) = .ok (true, 3, 2) :=
  ⟨knowsOnly_honest 3, by decide +kernel⟩

end Skywell
