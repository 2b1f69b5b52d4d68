import JingtumCore.LedgerEntrySet
import JingtumCore.StateExcept

/-!
# What a ledger entry set shows

`read` is the entry that an index names in the set: the set's own entry if it
has one, else the ledger's. Reading through `entryCache` does not change it.
-/
namespace Skywell

/-- What an entry of the set shows: a deleted entry shows nothing. -/
def LedgerEntrySetEntry.shown (e : LedgerEntrySetEntry) : Option SLE :=
  if e.mAction = .taaDELETE then none else some e.mEntry

namespace LedgerEntrySet
open StateExcept
variable [Sha512Half] {v : LedgerEntrySet} {k k' : Key}

def read (v : LedgerEntrySet) (k : Key) : Option SLE :=
  match v.mEntries[k]? with
  | some e => e.shown
  | none => v.mLedger.getSLE k

/-- The set after `entryCache k`. -/
def cached (v : LedgerEntrySet) (k : Key) : LedgerEntrySet :=
  match v.mEntries[k]?, v.mLedger.getSLE k with
  | none, some sle => v.setEntry k ⟨sle, .taaCACHED⟩
  | _, _ => v

@[simp] theorem mLedger_setEntry (e : LedgerEntrySetEntry) : (v.setEntry k e).mLedger = v.mLedger :=
  rfl

@[simp] theorem getElem?_setEntry (e : LedgerEntrySetEntry) :
    (v.setEntry k e).mEntries[k']? = if k = k' then some e else v.mEntries[k']? := by
  simp [setEntry, Std.ExtTreeMap.getElem?_insert]

@[simp] theorem setEntry_setEntry (e e' : LedgerEntrySetEntry) :
    (v.setEntry k e).setEntry k e' = v.setEntry k e' := by
  have h : (v.mEntries.insert k e).insert k e' = v.mEntries.insert k e' := by
    refine Std.ExtTreeMap.ext_getElem? fun i => ?_
    simp only [Std.ExtTreeMap.getElem?_insert]
    split <;> rfl
  simp [setEntry, h]

variable {e : LedgerEntrySetEntry}

theorem read_eq_of_getElem? (h : v.mEntries[k]? = some e) :
    v.read k = e.shown := by
  rw [read, h]

theorem mEntry_eq_of_read {s : SLE} (he : v.mEntries[k]? = some e)
    (h : v.read k = some s) : e.mEntry = s ∧ e.mAction ≠ .taaDELETE := by
  rw [read_eq_of_getElem? he, LedgerEntrySetEntry.shown] at h
  split at h
  · cases h
  · next ha => exact ⟨Option.some.inj h, ha⟩

theorem read_setEntry {e : LedgerEntrySetEntry} :
    (v.setEntry k e).read k' = if k = k' then e.shown else v.read k' := by
  simp only [read, getElem?_setEntry, mLedger_setEntry]
  by_cases h : k = k'
  · simp [if_pos h]
  · simp [if_neg h]

@[simp] theorem mLedger_cached : (v.cached k).mLedger = v.mLedger := by
  unfold cached
  split <;> rfl

@[simp] theorem mSet_cached : (v.cached k).mSet = v.mSet := by
  unfold cached
  split <;> rfl

@[simp] theorem mParams_cached : (v.cached k).mParams = v.mParams := by
  unfold cached
  split <;> rfl

@[simp] theorem mDeferredCredits_cached : (v.cached k).mDeferredCredits = v.mDeferredCredits := by
  unfold cached
  split <;> rfl

theorem getElem?_cached : (v.cached k).mEntries[k']? =
    if k = k' then v.mEntries[k]?.or ((v.mLedger.getSLE k).map (⟨·, .taaCACHED⟩))
    else v.mEntries[k']? := by
  unfold cached
  by_cases hk : k = k'
  · subst hk
    cases h : v.mEntries[k]? <;> cases v.mLedger.getSLE k <;> simp [h]
  · cases v.mEntries[k]? <;> cases v.mLedger.getSLE k <;> simp [hk]

@[simp] theorem read_cached : (v.cached k).read k' = v.read k' := by
  unfold cached
  split
  · next h h' =>
    rw [read_setEntry]
    split
    · next e => simp [read, ← e, h, h', LedgerEntrySetEntry.shown]
    · rfl
  · rfl

theorem entryCache_eq :
    entryCache k v = .ok ((v.read k).isSome, v.cached k) := by
  simp only [entryCache, read, cached, get_bind_apply]
  cases h : v.mEntries[k]? with
  | some e =>
    by_cases h' : e.mAction = .taaDELETE <;> simp [LedgerEntrySetEntry.shown, h']
  | none => cases h' : v.mLedger.getSLE k <;> simp

theorem spec_entryCache {Q : Bool → LedgerEntrySet → Prop} :
    Spec (entryCache k) v Q ↔ Q (v.read k).isSome (v.cached k) := by
  rw [Spec, entryCache_eq]
  simp

theorem deref_eq (h : v.mEntries[k]? = some e) :
    deref k v = .ok (e.mEntry, v) := by
  simp [deref, h]

variable {action : LedgerEntryAction} {sle : SLE}

theorem getElem?_cached_of_read (h : v.read k = some sle) :
    ∃ action, action ≠ .taaDELETE ∧ (v.cached k).mEntries[k]? = some ⟨sle, action⟩ := by
  rw [getElem?_cached, if_pos rfl]
  cases entry : v.mEntries[k]? with
  | some e =>
    obtain ⟨rfl, alive⟩ := mEntry_eq_of_read entry h
    exact ⟨e.mAction, alive, rfl⟩
  | none =>
    rw [LedgerEntrySet.read, entry] at h
    have base : v.mLedger.getSLE k = some sle := h
    exact ⟨.taaCACHED, by decide, by rw [base]; rfl⟩

theorem deref_cached (h : v.read k = some sle) :
    deref k (v.cached k) = .ok (sle, v.cached k) := by
  obtain ⟨action, -, entry⟩ := getElem?_cached_of_read h
  exact deref_eq entry

theorem spec_deref {Q : SLE → LedgerEntrySet → Prop} :
    Spec (deref k) v Q ↔ ∀ e, v.mEntries[k]? = some e → Q e.mEntry v := by
  simp only [deref, spec_bind, spec_get]
  cases v.mEntries[k]? <;> simp

/-- The action of an entry after `entryModify`. -/
def modified (action : LedgerEntryAction) : LedgerEntryAction :=
  if action = .taaCREATE then .taaCREATE else .taaMODIFY

omit [Sha512Half] in
theorem modified_alive : modified action ≠ .taaDELETE := by
  cases action <;> decide

omit [Sha512Half] in
theorem modified_create : modified action = .taaCREATE → action = .taaCREATE := by
  cases action <;> decide

theorem assign_eq (h : v.mEntries[k]? = some e) (f : SLE → SLE) :
    assign k f v = .ok ((), v.setEntry k { e with mEntry := f e.mEntry }) := by
  simp [assign, h]

theorem entryModify_eq (h : v.mEntries[k]? = some ⟨sle, action⟩) (alive : action ≠ .taaDELETE) :
    entryModify k v = .ok ((), v.setEntry k ⟨sle, modified action⟩) := by
  rw [entryModify, bind_apply_ok (deref_eq h), entryModifyRef, get_bind_apply, h]
  cases action with
  | taaDELETE => exact absurd rfl alive
  | _ => rfl

theorem entryCreate_eq (absent : v.read k = none) :
    ∃ action, action ≠ .taaDELETE ∧ (action = .taaCREATE → v.mLedger.getSLE k = none) ∧
      entryCreate k v = .ok ((), v.setEntry k ⟨SLE.new k.type, action⟩) := by
  rw [LedgerEntrySet.read] at absent
  cases entry : v.mEntries[k]? with
  | none =>
    rw [entry] at absent
    refine ⟨.taaCREATE, by decide, fun _ => absent, ?_⟩
    simp only [entryCreate, get_bind_apply, entry]
    rfl
  | some e =>
    obtain ⟨sle, action⟩ := e
    rw [entry] at absent
    cases action with
    | taaDELETE =>
      refine ⟨.taaMODIFY, by decide, nofun, ?_⟩
      simp only [entryCreate, get_bind_apply, entry]
      rfl
    | _ => cases absent

end LedgerEntrySet

end Skywell
