import JingtumCore.DirectoryRuns
import JingtumCore.Frames

/-!
# The reach of the directory functions

`dirAdd` and a hard `dirDelete` touch the pages of one directory, so that other
directories and other entries stay as they are.
-/
namespace Skywell.LedgerEntrySet
open StateExcept
variable [Sha512Half] {v w : LedgerEntrySet} {root : Key}

/-- From `v` to `w` only pages of the directory have changed. -/
structure PagesOnly (root : Key) (v w : LedgerEntrySet) : Prop where
  ledger : w.mLedger = v.mLedger
  credits : w.mDeferredCredits = v.mDeferredCredits
  others : ∀ k, (∀ n, k ≠ getDirNodeIndex root n) → w.mEntries[k]? = v.mEntries[k]?

instance : IsPreorder LedgerEntrySet (PagesOnly root) where
  refl _ := ⟨rfl, rfl, fun _ _ => rfl⟩
  trans _ _ _ h h' := ⟨h'.ledger.trans h.ledger, h'.credits.trans h.credits,
    fun k other => (h'.others k other).trans (h.others k other)⟩

theorem pagesOnly_setEntry (n : UInt64) {e : LedgerEntrySetEntry} :
    PagesOnly root v (v.setEntry (getDirNodeIndex root n) e) := by
  refine ⟨rfl, rfl, fun k other => ?_⟩
  rw [getElem?_setEntry, if_neg (other n).symm]

theorem entryCache_pages (n : UInt64) : Keeps (PagesOnly root) (entryCache (getDirNodeIndex root n)) := by
  intro v
  refine spec_entryCache.2 ⟨mLedger_cached, mDeferredCredits_cached, fun k other => ?_⟩
  rw [getElem?_cached, if_neg (other n).symm]

theorem deref_pages {k : Key} : Keeps (PagesOnly root) (deref k) :=
  fun v => spec_deref.2 fun _ _ => refl v

theorem assign_pages (n : UInt64) (f : SLE → SLE) :
    Keeps (PagesOnly root) (assign (getDirNodeIndex root n) f) :=
  fun _ => spec_assign.2 fun _ _ => pagesOnly_setEntry n

theorem entryModify_pages (n : UInt64) :
    Keeps (PagesOnly root) (entryModify (getDirNodeIndex root n)) :=
  fun _ => spec_entryModify.2 fun _ _ _ _ => pagesOnly_setEntry n

theorem entryCreate_pages (n : UInt64) :
    Keeps (PagesOnly root) (entryCreate (getDirNodeIndex root n)) :=
  fun _ => spec_entryCreate.2 ⟨fun _ => pagesOnly_setEntry n, fun _ _ => pagesOnly_setEntry n⟩

theorem entryDelete_pages (n : UInt64) :
    Keeps (PagesOnly root) (entryDelete (getDirNodeIndex root n)) := by
  intro v
  simp only [entryDelete, spec_bind, spec_get]
  cases v.mEntries[getDirNodeIndex root n]? with
  | none => exact spec_throw.2 trivial
  | some e =>
    obtain ⟨_, action⟩ := e
    cases action with
    | taaDELETE => exact spec_pure.2 (refl v)
    | taaCREATE =>
      refine spec_set.2 ⟨rfl, rfl, fun k other => ?_⟩
      simp only [Std.ExtTreeMap.getElem?_erase, Key.cmp_eq_iff, if_neg (other n).symm]
    | _ => exact spec_set.2 (pagesOnly_setEntry n)

theorem dirAdd_pages (index : Key) (f : SLE → SLE) :
    Keeps (PagesOnly root) (dirAdd root index f) := by
  have page := @assign_pages _ root
  have first := page 0
  have cacheRoot := @entryCache_pages _ root 0
  have createRoot := @entryCreate_pages _ root 0
  have modifyRoot := @entryModify_pages _ root 0
  refine .bind cacheRoot fun found => keeps_ite ?_ ?_
  · exact .bind createRoot fun _ => .bind (first _) fun _ => .bind (first _) fun _ => keeps_pure _
  refine .bind deref_pages fun sleRoot => .bind (entryCache_pages _) fun _ =>
    keeps_ite keeps_throw (.bind deref_pages fun sleNode =>
      keeps_ite ?_ (keeps_ite (keeps_pure _) ?_))
  · exact .bind (entryModify_pages _) fun _ => .bind (page _ _) fun _ => keeps_pure _
  refine .bind (page _ _) fun _ => .bind (entryModify_pages _) fun _ => .bind (first _) fun _ =>
    .bind modifyRoot fun _ => .bind (entryCreate_pages _) fun _ => .bind (page _ _) fun _ => ?_
  exact keeps_when (page _ _) fun _ => .bind (page _ _) fun _ => .bind (page _ _) fun _ =>
    keeps_pure _

theorem dirDeleteEmptied_pages {keep : Bool} {n : UInt64} :
    Keeps (PagesOnly root) (dirDeleteEmptied keep n root) := by
  have cacheRoot := @entryCache_pages _ root 0
  have deleteRoot := @entryDelete_pages _ root 0
  refine .bind deref_pages fun sleNode => keeps_ite ?_ (keeps_ite ?_ (keeps_ite (keeps_pure _) ?_))
  · refine keeps_ite (.bind (entryDelete_pages _) fun _ => keeps_pure _) ?_
    refine keeps_ite (.bind (entryCache_pages _) fun _ => keeps_guard fun _ => ?_) (keeps_pure _)
    refine .bind deref_pages fun _ => keeps_ite ?_ (keeps_pure _)
    exact .bind (entryDelete_pages _) fun _ => .bind (entryDelete_pages _) fun _ => keeps_pure _
  · refine .bind (entryCache_pages _) fun _ => .bind (entryCache_pages _) fun _ => ?_
    refine keeps_ite (keeps_pure _) (keeps_ite (keeps_pure _) (keeps_guard fun _ => ?_))
    refine .bind (assign_pages _ _) fun _ => .bind (entryModify_pages _) fun _ => ?_
    refine .bind (assign_pages _ _) fun _ => .bind (entryModify_pages _) fun _ => ?_
    exact .bind (entryDelete_pages _) fun _ => keeps_pure _
  · refine .bind cacheRoot fun _ => keeps_guard fun _ => keeps_guard fun _ => ?_
    refine .bind deref_pages fun _ => keeps_ite ?_ (keeps_pure _)
    exact .bind deleteRoot fun _ => .bind (entryDelete_pages _) fun _ => keeps_pure _

theorem dirDelete_pages (keep : Bool) (n : UInt64) (index : Key) (stable : Bool) :
    Keeps (PagesOnly root) (dirDelete keep n root index stable false) := by
  rw [dirDelete_eq]
  refine .bind (entryCache_pages _) fun found => keeps_guard fun _ =>
    keeps_either (.map _ deref_pages) (keeps_pure _) fun indexes => keeps_ite (keeps_pure _) ?_
  refine .bind (assign_pages _ _) fun _ => .bind (entryModify_pages _) fun _ => ?_
  exact keeps_ite dirDeleteEmptied_pages (keeps_pure _)

/-- A directory is shown by the entries of its pages. -/
theorem Shows.of_entries {d : Directory} (h : Shows v root d) (ledger : w.mLedger = v.mLedger)
    (pages : ∀ n, w.mEntries[getDirNodeIndex root n]? = v.mEntries[getDirNodeIndex root n]?) :
    Shows w root d := by
  have read (n : UInt64) : w.read (getDirNodeIndex root n) = v.read (getDirNodeIndex root n) := by
    rw [LedgerEntrySet.read, LedgerEntrySet.read, pages, ledger]
  have store : pageStore root w.read = pageStore root v.read := by
    funext n
    rw [pageStore, pageStore, read]
  refine ⟨store ▸ h.linked, store ▸ h.only, fun n e entry create => ?_⟩
  rw [pages] at entry
  rw [ledger]
  exact h.fresh n e entry create

section
omit [Sha512Half]

theorem ownerDir_pages_apart {a b : Account} (apart : a ≠ b) (m n : UInt64) :
    getDirNodeIndex (getOwnerDirIndex a) m ≠ getDirNodeIndex (getOwnerDirIndex b) n := by
  rw [getDirNodeIndex, getDirNodeIndex, getOwnerDirIndex]
  split_ifs
  · intro same
    exact apart (Key.ownerDir.inj (Key.dirNode.inj same).1)
  · exact nofun
  · exact nofun
  · intro same
    exact apart (Key.ownerDir.inj same)

theorem ne_page {k : Key} (type : k.type ≠ .dirNode) (a : Account) (n : UInt64) :
    k ≠ getDirNodeIndex (getOwnerDirIndex a) n := by
  rintro rfl
  exact type (type_getDirNodeIndex rfl n)

end

end Skywell.LedgerEntrySet
