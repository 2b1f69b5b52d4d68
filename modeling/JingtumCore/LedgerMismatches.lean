import JingtumCore.LedgerConsensus

/-!
# Built and validated ledgers

`LedgerHistory` records for each ledger number the hash of the ledger that was built and of the
one that was validated, and has them analysed if they differ.
-/
namespace Skywell

/-- The calls of `handleMismatch`, the last of which is the first of the list, take the place of
`mismatch_counter_`; the analysis itself only writes to the log. -/
structure LedgerHistory where
  m_consensus_validated : UInt32 → Option (LedgerHash × LedgerHash) := fun _ => none
  mismatches : List (LedgerHash × LedgerHash) := []

namespace LedgerHistory

def handleMismatch (h : LedgerHistory) (built valid : LedgerHash) : LedgerHistory :=
  { h with mismatches := (built, valid) :: h.mismatches }

/-- The entry of a number, which `canonicalize` makes if there is none. -/
def entry (h : LedgerHistory) (index : UInt32) : LedgerHash × LedgerHash :=
  (h.m_consensus_validated index).getD (0, 0)

def setEntry (h : LedgerHistory) (index : UInt32) (e : LedgerHash × LedgerHash) : LedgerHistory :=
  { h with m_consensus_validated := Function.update h.m_consensus_validated index (some e) }

def builtLedger (h : LedgerHistory) (index : UInt32) (hash : LedgerHash) : LedgerHistory :=
  let entry := h.entry index
  if entry.1 ≠ hash then
    let h := if entry.2 ≠ 0 ∧ entry.2 ≠ hash then h.handleMismatch hash entry.1 else h
    h.setEntry index (hash, entry.2)
  else h.setEntry index entry

def validatedLedger (h : LedgerHistory) (index : UInt32) (hash : LedgerHash) : LedgerHistory :=
  let entry := h.entry index
  if entry.2 ≠ hash then
    let h := if entry.1 ≠ 0 ∧ entry.1 ≠ hash then h.handleMismatch entry.1 hash else h
    h.setEntry index (entry.1, hash)
  else h.setEntry index entry

/-- A call of `builtLedger` or of `validatedLedger`. -/
structure Call where
  built : Bool
  index : UInt32
  hash : LedgerHash

/-- The history after calls, the last of which is the first of the list. -/
def run : List Call → LedgerHistory
  | [] => {}
  | ⟨true, index, hash⟩ :: earlier => (run earlier).builtLedger index hash
  | ⟨false, index, hash⟩ :: earlier => (run earlier).validatedLedger index hash

/-- The hashes of the last built and of the last validated ledger with a number, zero if there is
none. -/
def last (index : UInt32) : List Call → LedgerHash × LedgerHash
  | [] => (0, 0)
  | ⟨built, i, hash⟩ :: earlier =>
    let entry := last index earlier
    if i ≠ index then entry else if built then (hash, entry.2) else (entry.1, hash)

variable (h : LedgerHistory) (index : UInt32)

@[simp] theorem entry_setEntry (i : UInt32) (e : LedgerHash × LedgerHash) :
    (h.setEntry i e).entry index = if i = index then e else h.entry index := by
  by_cases same : i = index
  · simp [entry, setEntry, same]
  · simp [entry, setEntry, same, Function.update_of_ne (Ne.symm same)]

@[simp] theorem mismatches_setEntry (e : LedgerHash × LedgerHash) :
    (h.setEntry index e).mismatches = h.mismatches := rfl

@[simp] theorem entry_handleMismatch (built valid : LedgerHash) :
    (h.handleMismatch built valid).entry index = h.entry index := rfl

theorem entry_run (calls : List Call) : (run calls).entry index = last index calls := by
  induction calls with
  | nil => rfl
  | cons call earlier ih =>
    obtain ⟨_ | _, i, hash⟩ := call
    · rw [run, last, validatedLedger]
      split_ifs <;> simp_all [Prod.ext_iff]
    · rw [run, last, builtLedger]
      split_ifs <;> simp_all [Prod.ext_iff]

/-- A call has a mismatch analysed exactly if it changes one of the two hashes of its number and
they are then known and different. The pair is that of the last built and the last validated
ledger if the call is for a validated ledger, and for a built one only if the ledger that was
built before is the validated one. -/
theorem mismatch_pair_iff (earlier : List Call) (call : Call) (nonzero : call.hash ≠ 0) :
    let before := last call.index earlier
    let after := last call.index (call :: earlier)
    if after ≠ before ∧ after.1 ≠ 0 ∧ after.2 ≠ 0 ∧ after.1 ≠ after.2 then
      ∃ pair, (run (call :: earlier)).mismatches = pair :: (run earlier).mismatches ∧
        (pair = after ↔ call.built = false ∨ before.1 = before.2)
    else (run (call :: earlier)).mismatches = (run earlier).mismatches := by
  obtain ⟨_ | _, index, hash⟩ := call
  · simp only [last, run, validatedLedger, entry_run] at *
    generalize last index earlier = before
    obtain ⟨built, valid⟩ := before
    by_cases changed : valid = hash
    · simp [changed]
    by_cases differ : built ≠ 0 ∧ built ≠ hash
    · rw [if_pos changed, if_pos differ, if_pos (by grind)]
      exact ⟨_, rfl, by simp⟩
    · rw [if_pos changed, if_neg differ, if_neg (by grind)]
      rfl
  · simp only [last, run, builtLedger, entry_run] at *
    generalize last index earlier = before
    obtain ⟨built, valid⟩ := before
    by_cases changed : built = hash
    · simp [changed]
    by_cases differ : valid ≠ 0 ∧ valid ≠ hash
    · rw [if_pos changed, if_pos differ, if_pos (by grind)]
      exact ⟨_, rfl, by simp⟩
    · rw [if_pos changed, if_neg differ, if_neg (by grind)]
      rfl

theorem mismatch_pair_rebuilt :
    let calls : List Call := [⟨false, 5, 7⟩, ⟨true, 5, 7⟩]
    last 5 (⟨true, 5, 8⟩ :: calls) = (8, 7) ∧
      ∃ pair, (run (⟨true, 5, 8⟩ :: calls)).mismatches = pair :: (run calls).mismatches ∧
        (pair = (8, 7) ↔ true = false ∨ 7 = 7) :=
  ⟨rfl, mismatch_pair_iff [⟨false, 5, 7⟩, ⟨true, 5, 7⟩] ⟨true, 5, 8⟩ (by decide)⟩

/-- The ledger that was built is compared with none. -/
theorem mismatch_with_nothing :
    let calls : List Call := [⟨true, 5, 8⟩, ⟨false, 5, 7⟩]
    (run calls).mismatches = [(8, 0)] ∧ last 5 calls = (8, 7) := by
  decide

end LedgerHistory

end Skywell
