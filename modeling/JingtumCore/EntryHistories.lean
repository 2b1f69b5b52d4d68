import JingtumCore.Commits

/-!
# Histories of a ledger entry set

`LedgerEntrySet` keeps what a transaction creates, modifies and deletes, and
`txnWrite` commits it. Any history of calls on the set is compared with the same
creations, modifications and deletions made on the state map itself. An entry
passed to `entryCreate`, `entryModify` or `entryDelete` stands for what the
pointer points to when the set is committed or the entry is passed again.
-/
namespace Skywell
open Std LedgerEntrySet TransactionEngine StateExcept
variable [Sha512Half]

namespace LedgerEntrySet

/-- `entryCreate (SLE::ref)`. -/
def entryCreateRef (k : Key) (sle : SLE) : LES Unit := do
  let v ← get
  match v.mEntries[k]? with
  | none => set (v.setEntry k ⟨sle, .taaCREATE⟩)
  | some e =>
    match e.mAction with
    | .taaDELETE => set (v.setEntry k ⟨sle, .taaMODIFY⟩)
    | .taaMODIFY => throw (.runtimeError "Create after modify")
    | .taaCREATE => throw (.runtimeError "Create after create")
    | .taaCACHED => throw (.runtimeError "Create after cache")

/-- `entryDelete (SLE::ref)` for an entry that may not be in the set. -/
def entryDeleteRef (k : Key) (sle : SLE) : LES Unit := do
  let v ← get
  match v.mEntries[k]? with
  | none => set (v.setEntry k ⟨sle, .taaDELETE⟩)
  | some e =>
    match e.mAction with
    | .taaCACHED | .taaMODIFY => set (v.setEntry k ⟨sle, .taaDELETE⟩)
    | .taaCREATE => set { v with mEntries := v.mEntries.erase k }
    | .taaDELETE => return ()

end LedgerEntrySet

inductive EntryCall where
  | entryCache (k : Key)
  | entryCreate (k : Key) (sle : SLE)
  | entryModify (k : Key) (sle : SLE)
  | entryDelete (k : Key) (sle : SLE)

namespace EntryCall

/-- A call on the set; `false` is a null pointer returned by `entryCache`. -/
def run : EntryCall → LES Bool
  | entryCache k => LedgerEntrySet.entryCache k
  | entryCreate k sle => do
    entryCreateRef k sle
    return true
  | entryModify k sle => do
    entryModifyRef k sle
    return true
  | entryDelete k sle => do
    entryDeleteRef k sle
    return true

/-- The same change, made on the state map itself. -/
def direct (m : StateMap) : EntryCall → StateMap
  | entryCache _ => m
  | entryCreate k sle => m.insert k sle
  | entryModify k sle => if m.contains k then m.insert k sle else m
  | entryDelete k _ => m.erase k

/-- The entry passed is in the set or in the ledger. -/
def Current (v : LedgerEntrySet) : EntryCall → Prop
  | entryCache _ => True
  | entryCreate _ _ => True
  | entryModify k _ => v.mEntries.contains k ∨ v.mLedger.mAccountStateMap.contains k
  | entryDelete k _ => v.mEntries.contains k ∨ v.mLedger.mAccountStateMap.contains k

end EntryCall

/-- Calls on an empty set over a ledger, with what they return, none of which
throws. An entry is created only where `entryCache` has returned null. -/
inductive History (ok : LedgerEntrySet → EntryCall → Prop) (l : Ledger) :
    List (EntryCall × Bool) → LedgerEntrySet → Prop
  | nil {v : LedgerEntrySet} : v.mLedger = l → v.mEntries = ∅ → History ok l [] v
  | snoc {calls : List (EntryCall × Bool)} {v v' : LedgerEntrySet} {r : Bool} (call : EntryCall) :
      History ok l calls v →
      (∀ k sle, call = .entryCreate k sle → (.entryCache k, false) ∈ calls) → ok v call →
      call.run v = .ok (r, v') → History ok l (calls ++ [(call, r)]) v'

/-- The state map after the calls, if they are made on it. -/
def directly (m : StateMap) (calls : List (EntryCall × Bool)) : StateMap :=
  calls.foldl (fun m c => c.1.direct m) m

/-- The action of an entry says what the ledger holds. -/
def LedgerEntrySetEntry.Backed (e : LedgerEntrySetEntry) (base : Option SLE) : Prop :=
  match e.mAction with
  | .taaCACHED => base = some e.mEntry
  | .taaMODIFY | .taaDELETE => base ≠ none
  | .taaCREATE => base = none

omit [Sha512Half] in
theorem LedgerEntrySetEntry.Backed.written {e : LedgerEntrySetEntry} {base : Option SLE}
    (h : e.Backed base) : e.written base = e.shown := by
  obtain ⟨sle, a⟩ := e
  cases a with
  | taaCACHED => exact h
  | taaCREATE => rfl
  | taaDELETE => rfl
  | taaMODIFY =>
    obtain ⟨s, rfl⟩ := Option.ne_none_iff_exists'.1 h
    rfl

/-- The set over `l` shows the state map `m`, its entries are backed by `l`, and
where `entryCache` has returned null there is no entry that the set does not know. -/
structure Simulates (l : Ledger) (calls : List (EntryCall × Bool)) (v : LedgerEntrySet)
    (m : StateMap) : Prop where
  ledger : v.mLedger = l
  backed : ∀ (k : Key) e, v.mEntries[k]? = some e → e.Backed (l.getSLE k)
  shows : ∀ k : Key, m[k]? = v.read k
  nulls : ∀ k, (.entryCache k, false) ∈ calls → v.mEntries[k]? = none → l.getSLE k = none

namespace Simulates

variable {l : Ledger} {calls : List (EntryCall × Bool)} {v v' : LedgerEntrySet} {m m' : StateMap}
  {k : Key} {sle : SLE}

section
variable (h : Simulates l calls v m)
include h

/-- An entry is set, and the state map changes at its index to what it shows. -/
theorem setEntry {e : LedgerEntrySetEntry} (backed : e.Backed (l.getSLE k))
    (shows : m'[k]? = e.shown) (others : ∀ k', k ≠ k' → m'[k']? = m[k']?) (call : EntryCall) :
    Simulates l (calls ++ [(call, true)]) (v.setEntry k e) m' := by
  refine ⟨h.ledger, ?_, ?_, ?_⟩
  · intro k' e' he'
    rw [getElem?_setEntry] at he'
    split_ifs at he' with hk
    · cases he'
      exact hk ▸ backed
    · exact h.backed k' e' he'
  · intro k'
    rw [read_setEntry]
    split_ifs with hk
    · exact hk ▸ shows
    · rw [others k' hk, h.shows]
  · intro k' hnull hk'
    rw [getElem?_setEntry] at hk'
    split_ifs at hk' with hk
    refine h.nulls k' ?_ hk'
    simpa using hnull

theorem inserted {a : LedgerEntryAction} (alive : a ≠ .taaDELETE)
    (backed : LedgerEntrySetEntry.Backed ⟨sle, a⟩ (l.getSLE k)) (call : EntryCall) :
    Simulates l (calls ++ [(call, true)]) (v.setEntry k ⟨sle, a⟩) (m.insert k sle) :=
  h.setEntry backed (by simp [LedgerEntrySetEntry.shown, alive])
    (fun k' hk => by simp [ExtTreeMap.getElem?_insert, hk]) call

theorem entryCache {r : Bool} (hr : (EntryCall.entryCache k).run v = .ok (r, v')) :
    Simulates l (calls ++ [(.entryCache k, r)]) v' m := by
  obtain ⟨rfl, rfl⟩ : (v.read k).isSome = r ∧ v.cached k = v' := by
    have := entryCache_eq.symm.trans hr
    simpa using this
  refine ⟨mLedger_cached.trans h.ledger, ?_, ?_, ?_⟩
  · intro k' e he
    rw [getElem?_cached, h.ledger] at he
    split_ifs at he with hk
    · subst hk
      cases hold : v.mEntries[k]? with
      | some e' =>
        rw [hold] at he
        cases he
        exact h.backed k e hold
      | none =>
        rw [hold] at he
        obtain ⟨sle, hs, rfl⟩ := Option.map_eq_some_iff.1 he
        exact hs
    · exact h.backed k' e he
  · intro k'
    rw [read_cached, h.shows]
  · intro k' hnull hk'
    rw [getElem?_cached, h.ledger] at hk'
    split_ifs at hk' with hk
    · subst hk
      simpa using (Option.or_eq_none_iff.1 hk').2
    · refine h.nulls k' ?_ hk'
      simpa [Ne.symm hk] using hnull

theorem entryCreate (hnull : (.entryCache k, false) ∈ calls)
    (hr : entryCreateRef k sle v = .ok ((), v')) :
    Simulates l (calls ++ [(.entryCreate k sle, true)]) v' (m.insert k sle) := by
  have set {a : LedgerEntryAction} (alive : a ≠ .taaDELETE)
      (backed : LedgerEntrySetEntry.Backed ⟨sle, a⟩ (l.getSLE k)) :=
    h.inserted alive backed (.entryCreate k sle)
  simp only [entryCreateRef, get_bind_apply] at hr
  cases he : v.mEntries[k]? with
  | none =>
    rw [he] at hr
    cases hr
    exact set (by decide) (h.nulls k hnull he)
  | some e =>
    obtain ⟨s, a⟩ := e
    rw [he] at hr
    cases a with
    | taaDELETE =>
      cases hr
      exact set (by decide) (h.backed k ⟨s, .taaDELETE⟩ he)
    | taaCACHED | taaMODIFY | taaCREATE => cases hr

theorem known (hnone : v.mEntries[k]? = none)
    (current : v.mEntries.contains k ∨ v.mLedger.mAccountStateMap.contains k) :
    l.getSLE k ≠ none := by
  rw [h.ledger] at current
  rcases current with hin | hin
  · rw [ExtTreeMap.contains_eq_isSome_getElem?, hnone] at hin
    cases hin
  · rw [ExtTreeMap.contains_eq_isSome_getElem?] at hin
    exact Option.isSome_iff_ne_none.1 hin

theorem modified (hthere : v.read k ≠ none) :
    (EntryCall.entryModify k sle).direct m = m.insert k sle := by
  rw [EntryCall.direct, if_pos]
  rw [ExtTreeMap.contains_eq_isSome_getElem?, h.shows]
  exact Option.isSome_iff_ne_none.2 hthere

theorem entryModify (current : (EntryCall.entryModify k sle).Current v)
    (hr : entryModifyRef k sle v = .ok ((), v')) :
    Simulates l (calls ++ [(.entryModify k sle, true)]) v'
      ((EntryCall.entryModify k sle).direct m) := by
  have set {a : LedgerEntryAction} (alive : a ≠ .taaDELETE) (hthere : v.read k ≠ none)
      (backed : LedgerEntrySetEntry.Backed ⟨sle, a⟩ (l.getSLE k)) := by
    have inserted := h.inserted alive backed (.entryModify k sle)
    rwa [← h.modified hthere] at inserted
  simp only [entryModifyRef, get_bind_apply] at hr
  cases he : v.mEntries[k]? with
  | none =>
    rw [he] at hr
    cases hr
    refine set (by decide) ?_ (h.known he current)
    rw [LedgerEntrySet.read, he, h.ledger]
    exact h.known he current
  | some e =>
    obtain ⟨s, a⟩ := e
    have hb := h.backed k _ he
    have hthere (alive : a ≠ .taaDELETE) : v.read k ≠ none := by
      simp [read_eq_of_getElem? he, LedgerEntrySetEntry.shown, alive]
    rw [he] at hr
    cases a with
    | taaDELETE => cases hr
    | taaCACHED =>
      cases hr
      have hb : l.getSLE k = some s := hb
      exact set (by decide) (hthere (by decide)) (by simp [LedgerEntrySetEntry.Backed, hb])
    | taaMODIFY =>
      cases hr
      exact set (by decide) (hthere (by decide)) hb
    | taaCREATE =>
      cases hr
      exact set (by decide) (hthere (by decide)) hb

theorem entryDelete (current : (EntryCall.entryDelete k sle).Current v)
    (hr : entryDeleteRef k sle v = .ok ((), v')) :
    Simulates l (calls ++ [(.entryDelete k sle, true)]) v' (m.erase k) := by
  have others : ∀ k', k ≠ k' → (m.erase k)[k']? = m[k']? := by
    intro k' hk
    simp [ExtTreeMap.getElem?_erase, hk]
  have shows : (m.erase k)[k]? = LedgerEntrySetEntry.shown ⟨sle, .taaDELETE⟩ := by
    simp [LedgerEntrySetEntry.shown]
  simp only [entryDeleteRef, get_bind_apply] at hr
  cases he : v.mEntries[k]? with
  | none =>
    rw [he] at hr
    cases hr
    exact h.setEntry (e := ⟨sle, .taaDELETE⟩) (h.known he current) shows others _
  | some e =>
    obtain ⟨s, a⟩ := e
    rw [he] at hr
    cases a with
    | taaCACHED =>
      cases hr
      have hb : l.getSLE k = some s := h.backed k _ he
      exact h.setEntry (by simp [LedgerEntrySetEntry.Backed, hb]) shows
        others _
    | taaMODIFY =>
      cases hr
      exact h.setEntry (e := ⟨sle, .taaDELETE⟩) (h.backed k ⟨s, .taaMODIFY⟩ he) shows others _
    | taaCREATE =>
      -- a created entry goes without a trace: the ledger never had it
      cases hr
      have hb : l.getSLE k = none := h.backed k _ he
      refine ⟨h.ledger, ?_, ?_, ?_⟩
      · intro k' e' he'
        simp only [ExtTreeMap.getElem?_erase] at he'
        split_ifs at he'
        exact h.backed k' e' he'
      · intro k'
        by_cases hk : k = k'
        · subst hk
          simp [LedgerEntrySet.read, h.ledger, hb]
        · rw [others k' hk, h.shows]
          simp [LedgerEntrySet.read, ExtTreeMap.getElem?_erase, hk]
      · intro k' hnull hk'
        by_cases hk : k = k'
        · exact hk ▸ hb
        · apply h.nulls k' (by simpa using hnull)
          simpa [hk] using hk'
    | taaDELETE =>
      cases hr
      refine ⟨h.ledger, h.backed, ?_, fun k' hnull => h.nulls k' (by simpa using hnull)⟩
      intro k'
      by_cases hk : k = k'
      · subst hk
        rw [read_eq_of_getElem? he]
        simp [LedgerEntrySetEntry.shown]
      · rw [others k' hk, h.shows]

end

end Simulates

/-- A history whose modified and deleted entries are current simulates the changes
made on the state map itself. -/
theorem History.simulates {l : Ledger} {calls : List (EntryCall × Bool)} {v : LedgerEntrySet}
    (h : History (fun v call => call.Current v) l calls v) :
    Simulates l calls v (directly l.mAccountStateMap calls) := by
  induction h with
  | nil hl he =>
    refine ⟨hl, by simp [he], ?_, by simp⟩
    intro k
    simp [directly, LedgerEntrySet.read, he, hl, Ledger.getSLE]
  | @snoc calls v v' r call _ hnull current hr ih =>
    rw [directly, List.foldl_append]
    cases call with
    | entryCache k => exact ih.entryCache hr
    | entryCreate k sle =>
      obtain ⟨⟨⟩, v1, h1, h2⟩ := bind_eq_ok.1 hr
      cases h2
      exact ih.entryCreate (hnull k sle rfl) h1
    | entryModify k sle =>
      obtain ⟨⟨⟩, v1, h1, h2⟩ := bind_eq_ok.1 hr
      cases h2
      exact ih.entryModify current h1
    | entryDelete k sle =>
      obtain ⟨⟨⟩, v1, h1, h2⟩ := bind_eq_ok.1 hr
      cases h2
      exact ih.entryDelete current h1

/-- Committing a set is the same as making its changes on the state map itself,
as long as entries are created where `entryCache` has returned null, and those
modified or deleted are in the set or in the ledger. An entry that is committed
as created was not in the ledger, one committed as modified or deleted was. -/
theorem txnWrite_refines_direct {l : Ledger} {calls : List (EntryCall × Bool)} {v : LedgerEntrySet}
    (h : History (fun v call => call.Current v) l calls v) :
    (txnWrite v l).mAccountStateMap = directly l.mAccountStateMap calls ∧
      ∀ (k : Key) e, v.mEntries[k]? = some e →
        (e.mAction = .taaCREATE → l.mAccountStateMap[k]? = none) ∧
        (e.mAction = .taaMODIFY ∨ e.mAction = .taaDELETE → l.mAccountStateMap[k]? ≠ none) := by
  have hs := h.simulates
  constructor
  · refine ExtTreeMap.ext_getElem? fun k => ?_
    have hwritten : (txnWrite v l).mAccountStateMap[k]? = _ := getSLE_txnWrite
    rw [hwritten, hs.shows, LedgerEntrySet.read]
    cases he : v.mEntries[k]? with
    | none => simp [hs.ledger]
    | some e => exact (hs.backed k e he).written
  · rintro k ⟨s, a⟩ he
    have hb := hs.backed k _ he
    constructor
    · rintro rfl
      exact hb
    · rintro (rfl | rfl)
      · exact hb
      · exact hb

def emptyLedger : Ledger where
  mAccountStateMap := ∅
  mTransactionMap := ∅
  mLedgerSeq := 1
  mBaseFee := 10
  mReferenceFeeUnits := 10
  mReserveBase := 0
  mReserveIncrement := 0

/-- A set over the empty ledger, with one entry at most. -/
def oneEntry (k : Key) (e : Option LedgerEntrySetEntry) : LedgerEntrySet where
  mLedger := emptyLedger
  mEntries := (∅ : ExtTreeMap Key LedgerEntrySetEntry Key.cmp).alter k fun _ => e

theorem getElem?_oneEntry (k : Key) (e : Option LedgerEntrySetEntry) :
    (oneEntry k e).mEntries[k]? = e := by
  simp [oneEntry]

theorem setEntry_oneEntry (k : Key) (e : Option LedgerEntrySetEntry) (e' : LedgerEntrySetEntry) :
    (oneEntry k e).setEntry k e' = oneEntry k (some e') := by
  have : (oneEntry k e).mEntries.insert k e' = (oneEntry k (some e')).mEntries := by
    refine ExtTreeMap.ext_getElem? fun k' => ?_
    simp only [oneEntry, ExtTreeMap.getElem?_insert, ExtTreeMap.getElem?_alter]
    split_ifs <;> rfl
  rw [setEntry, this]
  rfl

theorem erase_oneEntry (k : Key) (e : Option LedgerEntrySetEntry) :
    { oneEntry k e with mEntries := (oneEntry k e).mEntries.erase k } = oneEntry k none := by
  have : (oneEntry k e).mEntries.erase k = (oneEntry k none).mEntries := by
    refine ExtTreeMap.ext_getElem? fun k' => ?_
    simp only [oneEntry, ExtTreeMap.getElem?_erase, ExtTreeMap.getElem?_alter]
    split_ifs <;> rfl
  rw [this]
  rfl

theorem run_entryCache_oneEntry (k : Key) :
    (EntryCall.entryCache k).run (oneEntry k none) = .ok (false, oneEntry k none) := by
  rw [EntryCall.run, entryCache_eq]
  simp [LedgerEntrySet.read, cached, oneEntry, emptyLedger, Ledger.getSLE]

theorem run_entryCreate_oneEntry (k : Key) (sle : SLE) :
    (EntryCall.entryCreate k sle).run (oneEntry k none) =
      .ok (true, oneEntry k (some ⟨sle, .taaCREATE⟩)) := by
  refine (bind_apply_ok (a := ()) ?_).trans rfl
  rfl

/-- An entry is created, deleted, modified and deleted through the old pointer, and
created again. -/
theorem recreated_history (k : Key) {sle : SLE} :
    History (fun _ _ => True) emptyLedger [(.entryCache k, false), (.entryCreate k sle, true),
      (.entryDelete k sle, true), (.entryModify k sle, true), (.entryDelete k sle, true),
      (.entryCreate k sle, true)] (oneEntry k (some ⟨sle, .taaMODIFY⟩)) := by
  have hdelete : (EntryCall.entryDelete k sle).run (oneEntry k (some ⟨sle, .taaCREATE⟩)) =
      .ok (true, oneEntry k none) := by
    refine (bind_apply_ok (a := ()) ?_).trans rfl
    rw [entryDeleteRef, get_bind_apply, getElem?_oneEntry, ← erase_oneEntry]
    rfl
  have hmodify : (EntryCall.entryModify k sle).run (oneEntry k none) =
      .ok (true, oneEntry k (some ⟨sle, .taaMODIFY⟩)) := by
    refine (bind_apply_ok (a := ()) ?_).trans rfl
    rfl
  have hdelete' : (EntryCall.entryDelete k sle).run (oneEntry k (some ⟨sle, .taaMODIFY⟩)) =
      .ok (true, oneEntry k (some ⟨sle, .taaDELETE⟩)) := by
    refine (bind_apply_ok (a := ()) ?_).trans rfl
    rw [entryDeleteRef, get_bind_apply, getElem?_oneEntry]
    simp [setEntry_oneEntry]
  have hcreate : (EntryCall.entryCreate k sle).run (oneEntry k (some ⟨sle, .taaDELETE⟩)) =
      .ok (true, oneEntry k (some ⟨sle, .taaMODIFY⟩)) := by
    refine (bind_apply_ok (a := ()) ?_).trans rfl
    rw [entryCreateRef, get_bind_apply, getElem?_oneEntry]
    simp [setEntry_oneEntry]
  have h0 : History (fun _ _ => True) emptyLedger [] (oneEntry k none) :=
    .nil rfl (by simp [oneEntry])
  have h1 := h0.snoc _ (by simp) trivial (run_entryCache_oneEntry k)
  have h2 := h1.snoc _ (by simp) trivial (run_entryCreate_oneEntry k sle)
  have h3 := h2.snoc _ (by simp) trivial hdelete
  have h4 := h3.snoc _ (by simp) trivial hmodify
  have h5 := h4.snoc _ (by simp) trivial hdelete'
  exact h5.snoc _ (by simp) trivial hcreate

section
omit [Sha512Half]

/-- The entry that is created again is recorded as modified, and is not written. -/
theorem recreated_entry_lost : ∃ (_ : Sha512Half) (k : Key) (sle : SLE)
    (calls : List (EntryCall × Bool)) (v : LedgerEntrySet),
      History (fun _ _ => True) emptyLedger calls v ∧
      v.mEntries[k]? = some ⟨sle, .taaMODIFY⟩ ∧ emptyLedger.mAccountStateMap[k]? = none ∧
      (directly emptyLedger.mAccountStateMap calls)[k]? = some sle ∧
      (txnWrite v emptyLedger).mAccountStateMap[k]? = none := by
  let hash := Key.coded
  let k := getAccountRootIndex 5
  refine ⟨hash, k, SLE.new .accountRoot, _, _, recreated_history k, getElem?_oneEntry k _,
    by simp [emptyLedger], ?_, ?_⟩
  · simp [directly, EntryCall.direct]
  · apply getSLE_txnWrite.trans
    rw [getElem?_oneEntry]
    simp [LedgerEntrySetEntry.written, emptyLedger, Ledger.getSLE]

end

/-- A ledger with the roots of the accounts 5 and 7. -/
def twoRoots : Ledger :=
  { emptyLedger with
    mAccountStateMap := ((∅ : StateMap).insert (.account 5) (SLE.new .accountRoot)).insert
      (.account 7) (SLE.new .accountRoot) }

/-- The set in which the root of account 5 has been deleted and one of account 6 created. -/
def replacedRoot : LedgerEntrySet :=
  let v : LedgerEntrySet := { mLedger := twoRoots }
  let cached := v.setEntry (.account 5) ⟨SLE.new .accountRoot, .taaCACHED⟩
  let deleted := cached.setEntry (.account 5) ⟨SLE.new .accountRoot, .taaDELETE⟩
  deleted.setEntry (.account 6) ⟨SLE.new .accountRoot, .taaCREATE⟩

theorem replacedRoot_history : History (fun v call => call.Current v) twoRoots
    [(.entryCache (.account 5), true), (.entryDelete (.account 5) (SLE.new .accountRoot), true),
      (.entryCache (.account 6), false),
      (.entryCreate (.account 6) (SLE.new .accountRoot), true)] replacedRoot := by
  let v0 : LedgerEntrySet := { mLedger := twoRoots }
  let v1 := v0.setEntry (.account 5) ⟨SLE.new .accountRoot, .taaCACHED⟩
  let v2 := v1.setEntry (.account 5) ⟨SLE.new .accountRoot, .taaDELETE⟩
  have held : twoRoots.getSLE (.account 5) = some (SLE.new .accountRoot) := by
    simp [twoRoots, Ledger.getSLE, ExtTreeMap.getElem_insert]
  have found : (EntryCall.entryCache (.account 5)).run v0 = .ok (true, v1) := by
    rw [EntryCall.run, entryCache_eq]
    simp [LedgerEntrySet.read, cached, v0, v1, held]
  have deleted : (EntryCall.entryDelete (.account 5) (SLE.new .accountRoot)).run v1 =
      .ok (true, v2) := by
    refine (bind_apply_ok (a := ()) ?_).trans rfl
    rw [entryDeleteRef, get_bind_apply, getElem?_setEntry, if_pos rfl]
    rfl
  have unknown : v2.mEntries[Key.account 6]? = none := by
    simp [v2, v1, v0, getElem?_setEntry]
  have null : (EntryCall.entryCache (.account 6)).run v2 = .ok (false, v2) := by
    rw [EntryCall.run, entryCache_eq]
    simp [LedgerEntrySet.read, cached, v2, v1, v0, twoRoots, Ledger.getSLE]
  have created : (EntryCall.entryCreate (.account 6) (SLE.new .accountRoot)).run v2 =
      .ok (true, replacedRoot) := by
    refine (bind_apply_ok (a := ()) ?_).trans rfl
    rw [entryCreateRef, get_bind_apply, unknown]
    rfl
  have h0 : History (fun v call => call.Current v) twoRoots [] v0 := .nil rfl rfl
  have h1 := h0.snoc (.entryCache _) (by simp) trivial found
  have h2 := h1.snoc (.entryDelete _ _) (by simp) (.inl (by simp [v1, LedgerEntrySet.setEntry]))
    deleted
  have h3 := h2.snoc (.entryCache _) (by simp) trivial null
  exact h3.snoc (.entryCreate _ _) (by simp) trivial created

section
omit [Sha512Half]

/-- The deleted root is not written, and the created one is. -/
theorem replacedRoot_written : ∃ (_ : Sha512Half),
    (txnWrite replacedRoot twoRoots).mAccountStateMap =
      (twoRoots.mAccountStateMap.erase (.account 5)).insert (.account 6) (SLE.new .accountRoot) := by
  let hash := Key.coded
  exact ⟨hash, (txnWrite_refines_direct replacedRoot_history).1⟩

end

end Skywell
