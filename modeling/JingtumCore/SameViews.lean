import JingtumCore.TrustLines
import JingtumCore.Views

/-!
# Views that differ in cached entries only

`entryCache` puts entries of the ledger into the set. Two sets that differ in such
entries show the same and commit the same: they are one view. Two calls agree if
both return, with the same result and the same view, or both fail.
-/
namespace Skywell.LedgerEntrySet
open StateExcept
variable [Sha512Half] {u v w : LedgerEntrySet} {k : Key}

/-- The set's entry of an index, or the one `entryCache` would make of the ledger's. -/
def known (v : LedgerEntrySet) (k : Key) : Option LedgerEntrySetEntry :=
  v.mEntries[k]?.or ((v.mLedger.getSLE k).map (⟨·, .taaCACHED⟩))

structure SameView (v w : LedgerEntrySet) : Prop where
  ledger : w.mLedger = v.mLedger
  credits : w.mDeferredCredits = v.mDeferredCredits
  metadata : w.mSet = v.mSet
  params : w.mParams = v.mParams
  known : ∀ k, w.known k = v.known k

namespace SameView

theorem refl (v : LedgerEntrySet) : SameView v v := ⟨rfl, rfl, rfl, rfl, fun _ => rfl⟩

theorem symm (h : SameView v w) : SameView w v :=
  ⟨h.ledger.symm, h.credits.symm, h.metadata.symm, h.params.symm, fun k => (h.known k).symm⟩

theorem trans (h : SameView u v) (h' : SameView v w) : SameView u w :=
  ⟨h'.ledger.trans h.ledger, h'.credits.trans h.credits, h'.metadata.trans h.metadata,
    h'.params.trans h.params, fun k => (h'.known k).trans (h.known k)⟩

end SameView

variable {action : LedgerEntryAction} {sle : SLE} {α : Type}

theorem read_eq_known :
    v.read k = (v.known k).bind LedgerEntrySetEntry.shown := by
  rw [read, known]
  cases v.mEntries[k]? with
  | some e => rfl
  | none => cases v.mLedger.getSLE k <;> rfl

theorem SameView.read (h : SameView v w) (k : Key) : w.read k = v.read k := by
  rw [read_eq_known, read_eq_known, h.known]

theorem sameView_cached (v : LedgerEntrySet) : SameView v (v.cached k) := by
  refine ⟨mLedger_cached, mDeferredCredits_cached, mSet_cached, mParams_cached, fun k' => ?_⟩
  rw [known, getElem?_cached, mLedger_cached, known]
  split_ifs with same
  · subst same
    cases v.mEntries[k]? with
    | some e => rfl
    | none => cases v.mLedger.getSLE k <;> rfl
  · rfl

/-- A change that is announced right after it is made. -/
theorem update_eq (h : v.mEntries[k]? = some ⟨sle, action⟩) (alive : action ≠ .taaDELETE)
    (f : SLE → SLE) (rest : LES α) :
    (do assign k f; entryModify k; rest) v = rest (v.setEntry k ⟨f sle, modified action⟩) := by
  have again := @entryModify_eq _ (v.setEntry k ⟨f sle, action⟩) k action (f sle) (by simp) alive
  rw [setEntry_setEntry] at again
  rw [bind_apply_ok (assign_eq h f), bind_apply_ok again]

/-- Both calls return the same result and the same view, or both fail. -/
def Agree {α : Type} : Except Fault (α × LedgerEntrySet) → Except Fault (α × LedgerEntrySet) → Prop
  | .ok (a, v), .ok (b, w) => a = b ∧ SameView v w
  | .error _, .error _ => True
  | _, _ => False

theorem Agree.refl (r : Except Fault (α × LedgerEntrySet)) : Agree r r := by
  cases r with
  | error e => trivial
  | ok r => exact ⟨rfl, .refl _⟩

theorem Agree.symm {r s : Except Fault (α × LedgerEntrySet)} (h : Agree r s) : Agree s r := by
  cases r with
  | error e =>
    cases s with
    | error e' => trivial
    | ok s => exact h.elim
  | ok r =>
    cases s with
    | error e => exact h.elim
    | ok s => exact ⟨h.1.symm, h.2.symm⟩

theorem Agree.trans {r s t : Except Fault (α × LedgerEntrySet)} (h : Agree r s) (h' : Agree s t) :
    Agree r t := by
  cases r with
  | error e =>
    cases s with
    | error e' => cases t <;> exact h'
    | ok s => exact h.elim
  | ok r =>
    cases s with
    | error e => exact h.elim
    | ok s =>
      cases t with
      | error e => exact h'.elim
      | ok t => exact ⟨h.1.trans h'.1, h.2.trans h'.2⟩

end Skywell.LedgerEntrySet
