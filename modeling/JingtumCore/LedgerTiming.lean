import Mathlib.Data.Int.Notation
import Mathlib.Tactic.Common

/-!
# Timing of consensus

`ContinuousLedgerTiming` and the rounding of close times. The counts and times
are unbounded integers; division truncates as in the code.
-/
namespace Skywell

def LEDGER_MIN_CONSENSUS : Int := 2000

def LEDGER_RES_INCREASE : UInt32 := 8

def LEDGER_RES_DECREASE : UInt32 := 1

def PROPOSE_FRESHNESS : Int := 20

def PROPOSE_INTERVAL : Int := 12

def AV_CT_CONSENSUS_PCT : Int := 75

/-- `Ledger::roundCloseTime`. -/
def roundCloseTime (closeTime closeResolution : UInt32) : UInt32 :=
  if closeTime = 0 then 0
  else
    let closeTime := closeTime + closeResolution / 2
    closeTime - closeTime % closeResolution

namespace ContinuousLedgerTiming

def LedgerTimeResolution : List Int := [10, 10, 20, 30, 60, 90, 120, 120]

/-- The first place, from the second on, that holds a resolution. There is none
if the search would leave the table. -/
def resolutionIndex (previousResolution : Int) : Option Nat :=
  (LedgerTimeResolution.tail.idxOf? previousResolution).map (· + 1)

def getNextLedgerTimeResolution (previousResolution : Int) (previousAgree : Bool)
    (ledgerSeq : UInt32) : Option Int :=
  if !previousAgree && ledgerSeq % LEDGER_RES_DECREASE == 0 then do
    let i ← resolutionIndex previousResolution
    LedgerTimeResolution[i + 1]?
  else if previousAgree && ledgerSeq % LEDGER_RES_INCREASE == 0 then do
    let i ← resolutionIndex previousResolution
    LedgerTimeResolution[i - 1]?
  else some previousResolution

/-- Whether there is consensus, and `failed` afterwards. `forReal` is for the log. -/
def haveConsensus (previousProposers currentProposers currentAgree currentFinished
    previousAgreeTime currentAgreeTime : Int) (_forReal failed : Bool) : Bool × Bool :=
  if currentAgreeTime ≤ LEDGER_MIN_CONSENSUS then (false, failed)
  else if currentProposers < (previousProposers * 3).tdiv 4 ∧
      currentAgreeTime < previousAgreeTime + LEDGER_MIN_CONSENSUS then (false, failed)
  else if (currentAgree * 100 + 100).tdiv (currentProposers + 1) > 80 then (true, false)
  else if (currentFinished * 100).tdiv (currentProposers + 1) > 80 then (true, true)
  else (false, failed)

/-- Consensus that has not failed rests on the proposers who agree. -/
theorem agree_of_haveConsensus {previousProposers currentProposers currentAgree currentFinished
    previousAgreeTime currentAgreeTime : Int} {forReal failed : Bool}
    (h : haveConsensus previousProposers currentProposers currentAgree currentFinished
      previousAgreeTime currentAgreeTime forReal failed = (true, false)) :
    80 < (currentAgree * 100 + 100).tdiv (currentProposers + 1) := by
  by_contra few
  have few' : ¬(currentAgree * 100 + 100).tdiv (currentProposers + 1) > 80 := few
  simp only [haveConsensus] at h
  split_ifs at h
  all_goals simp at h

end ContinuousLedgerTiming

end Skywell
