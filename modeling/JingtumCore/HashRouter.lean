import JingtumCore.ApplyTransactions

/-!
# The hash router

`HashRouter`: the flags of the hashes seen lately. An entry is created when it
is first asked for, and when one is created the oldest entries may expire. The
peers of an entry, which are read to relay messages, are left out.
-/
namespace Skywell
open Std

namespace SuppressionFlags

/-- `|` of two sets of flags. -/
def or (a b : SuppressionFlags) : SuppressionFlags where
  SF_RELAYED := a.SF_RELAYED || b.SF_RELAYED
  SF_BAD := a.SF_BAD || b.SF_BAD
  SF_SIGGOOD := a.SF_SIGGOOD || b.SF_SIGGOOD
  SF_SAVED := a.SF_SAVED || b.SF_SAVED
  SF_RETRY := a.SF_RETRY || b.SF_RETRY
  SF_TRUSTED := a.SF_TRUSTED || b.SF_TRUSTED

/-- `(a & b) == b`. -/
def hasAll (a b : SuppressionFlags) : Bool := a.or b == a

end SuppressionFlags

structure HashRouter where
  mSuppressionMap : ExtTreeMap TxID SuppressionFlags compare := ∅
  /-- The hashes by the time, in seconds, at which their entries were created. -/
  mSuppressionTimes : ExtTreeMap Int (List TxID) compare := ∅
  mHoldTime : Int := 300

namespace HashRouter
variable (r : HashRouter) (now : Int) (index : TxID)

/-- The oldest entries go, if they are old enough. -/
def expire : HashRouter :=
  match r.mSuppressionTimes.minEntry? with
  | none => r
  | some (time, hashes) =>
    if time ≤ now - r.mHoldTime then
      { r with
        mSuppressionMap := hashes.foldl (fun m hash => m.erase hash) r.mSuppressionMap
        mSuppressionTimes := r.mSuppressionTimes.erase time }
    else r

/-- `findCreateEntry`: the flags of the entry and whether it was created. -/
def findCreateEntry : (SuppressionFlags × Bool) × HashRouter :=
  match r.mSuppressionMap[index]? with
  | some flags => ((flags, false), r)
  | none =>
    let r := r.expire now
    (({}, true), { r with
      mSuppressionMap := r.mSuppressionMap.insert index {}
      mSuppressionTimes :=
        r.mSuppressionTimes.insert now (r.mSuppressionTimes.getD now [] ++ [index]) })

/-- `Entry::setFlag` on an entry that is there. -/
def setEntryFlag (flags : SuppressionFlags) : HashRouter :=
  { r with mSuppressionMap :=
      r.mSuppressionMap.insert index ((r.mSuppressionMap.getD index {}).or flags) }

/-- `addSuppressionPeer (index, peer, flags)`: whether the entry was created,
and its flags. -/
def addSuppressionPeer : (Bool × SuppressionFlags) × HashRouter :=
  let ((flags, created), r) := r.findCreateEntry now index
  ((created, flags), r)

def getFlags : SuppressionFlags × HashRouter :=
  let ((flags, _), r) := r.findCreateEntry now index
  (flags, r)

def addSuppressionFlags (flag : SuppressionFlags) : Bool × HashRouter :=
  let ((_, created), r) := r.findCreateEntry now index
  (created, r.setEntryFlag index flag)

/-- `setFlag`, and `swapSet` apart from the peers: whether a flag was changed. -/
def setFlag (flag : SuppressionFlags) : Bool × HashRouter :=
  let ((flags, _), r) := r.findCreateEntry now index
  if flags.hasAll flag then (false, r) else (true, r.setEntryFlag index flag)

/-- Every entry with `SF_SIGGOOD` is one of `G`. -/
def GoodOnly (G : TxID → Prop) : Prop :=
  ∀ id flags, r.mSuppressionMap[id]? = some flags → flags.SF_SIGGOOD → G id

variable {r now index} {G : TxID → Prop}

theorem GoodOnly.mono {G' : TxID → Prop} (h : r.GoodOnly G) (hG : ∀ id, G id → G' id) :
    r.GoodOnly G' :=
  fun id flags hf good => hG id (h id flags hf good)

/-- Entries that go take no flags with them to others. -/
theorem getElem?_foldl_erase {m : ExtTreeMap TxID SuppressionFlags compare} (hashes : List TxID)
    {id : TxID} {flags : SuppressionFlags}
    (h : (hashes.foldl (fun m hash => m.erase hash) m)[id]? = some flags) :
    m[id]? = some flags := by
  induction hashes generalizing m with
  | nil => exact h
  | cons hash hashes ih =>
    have kept := ih h
    rw [ExtTreeMap.getElem?_erase] at kept
    split at kept
    · cases kept
    · exact kept

section
variable (h : r.GoodOnly G)
include h

theorem GoodOnly.expire : (r.expire now).GoodOnly G := by
  intro id flags hf good
  simp only [HashRouter.expire] at hf
  split at hf
  · exact h id flags hf good
  split at hf
  · exact h id flags (getElem?_foldl_erase _ hf) good
  · exact h id flags hf good

theorem GoodOnly.findCreateEntry : (r.findCreateEntry now index).2.GoodOnly G ∧
      ((r.findCreateEntry now index).1.1.SF_SIGGOOD → G index) := by
  simp only [HashRouter.findCreateEntry]
  split
  · exact ⟨h, h index _ ‹_›⟩
  · refine ⟨fun id flags hf good => ?_, by simp⟩
    rw [ExtTreeMap.getElem?_insert] at hf
    split at hf
    · cases hf
      cases good
    · exact h.expire id flags hf good

variable {flag : SuppressionFlags}

theorem GoodOnly.setEntryFlag (hG : flag.SF_SIGGOOD → G index) :
    (r.setEntryFlag index flag).GoodOnly G := by
  intro id flags hf good
  simp only [HashRouter.setEntryFlag, ExtTreeMap.getElem?_insert] at hf
  split at hf
  · rename_i same
    obtain rfl := LawfulEqCmp.eq_of_compare same
    cases hf
    rcases Bool.or_eq_true_iff.1 good with old | new
    · rw [ExtTreeMap.getD_eq_getD_getElem?] at old
      cases entry : r.mSuppressionMap[index]? with
      | none => simp [entry] at old
      | some flags => exact h index flags entry (by simpa [entry] using old)
    · exact hG new
  · exact h id flags hf good

theorem GoodOnly.addSuppressionPeer : (r.addSuppressionPeer now index).2.GoodOnly G ∧
      ((r.addSuppressionPeer now index).1.2.SF_SIGGOOD → G index) :=
  h.findCreateEntry

theorem GoodOnly.getFlags :
    (r.getFlags now index).2.GoodOnly G ∧ ((r.getFlags now index).1.SF_SIGGOOD → G index) :=
  h.findCreateEntry

theorem GoodOnly.addSuppressionFlags (hG : flag.SF_SIGGOOD → G index) :
    (r.addSuppressionFlags now index flag).2.GoodOnly G :=
  h.findCreateEntry.1.setEntryFlag hG

theorem GoodOnly.setFlag (hG : flag.SF_SIGGOOD → G index) :
    (r.setFlag now index flag).2.GoodOnly G := by
  simp only [HashRouter.setFlag]
  split
  · exact h.findCreateEntry.1
  · exact h.findCreateEntry.1.setEntryFlag hG

end

end HashRouter

end Skywell
