import JingtumCore.LinkedStore
import JingtumCore.Views
import Mathlib.Data.List.Perm.Basic

/-!
# Directories

A directory is a list of pages, each linked to the next and to the one before it;
the root page keeps the number of the last one as the page before it. A set shows
a directory when its page entries are those of the list and there are no others.
`dirAdd` and a hard `dirDelete` take a set that shows a directory to one that shows
the directory with an entry more or less.
-/
namespace Skywell.LedgerEntrySet
open LinkedStore StateExcept U64Field
section
variable [Sha512Half] {v w : LedgerEntrySet} {k : Key} {s : SLE}

/-- The set has an entry of its own for an index. -/
def InSet (v : LedgerEntrySet) (k : Key) : Prop := (v.mEntries[k]?).isSome = true

/-- The set has not created an entry that the ledger has. -/
def Fresh (v : LedgerEntrySet) (k : Key) : Prop :=
  ∀ e, v.mEntries[k]? = some e → e.mAction = .taaCREATE → v.mLedger.getSLE k = none

/-- From `v` the set comes to `w`, which shows `shown`. -/
structure Leads (v w : LedgerEntrySet) (shown : Key → Option SLE) : Prop where
  read : w.read = shown
  inSet : ∀ k, v.InSet k → (shown k).isSome = true → w.InSet k
  fresh : ∀ k, v.Fresh k → w.Fresh k

theorem Leads.refl (v : LedgerEntrySet) : Leads v v v.read := ⟨rfl, fun _ h _ => h, fun _ h => h⟩

theorem Leads.trans_read {v w u : LedgerEntrySet} (h : Leads v w v.read) (h' : Leads w u w.read) :
    Leads v u v.read := by
  refine ⟨h'.read.trans h.read, fun k inSet shown => ?_, fun k fresh => h'.fresh k (h.fresh k fresh)⟩
  exact h'.inSet k (h.inSet k inSet shown) (by rwa [h.read])

/-- The entry of an index is in the set, and can be changed through a pointer. -/
structure Held (v : LedgerEntrySet) (k : Key) (s : SLE) : Prop where
  inSet : v.InSet k
  read : v.read k = some s
  fresh : v.Fresh k

theorem Held.entry (h : v.Held k s) :
    ∃ e, v.mEntries[k]? = some e ∧ e.mEntry = s ∧ e.mAction ≠ .taaDELETE := by
  obtain ⟨e, he⟩ := Option.isSome_iff_exists.1 h.inSet
  exact ⟨e, he, mEntry_eq_of_read he h.read⟩

theorem Leads.held {shown : Key → Option SLE} (h : Leads v w shown) (held : v.Held k s) {t : SLE}
    (still : shown k = some t) : w.Held k t :=
  ⟨h.inSet k held.inSet (by rw [still]; rfl), by rw [h.read, still], h.fresh k held.fresh⟩

/-- Two changes of one entry. -/
theorem Leads.again {u : LedgerEntrySet} {t : SLE} {o : Option SLE}
    (h : Leads v w (Function.update v.read k (some t)))
    (h' : Leads w u (Function.update w.read k o)) : Leads v u (Function.update v.read k o) := by
  have same : Function.update w.read k o = Function.update v.read k o := by
    rw [h.read, Function.update_idem]
  rw [same] at h'
  refine ⟨h'.read, fun k' inSet shown => ?_, fun k' fresh => h'.fresh k' (h.fresh k' fresh)⟩
  refine h'.inSet k' (h.inSet k' inSet ?_) shown
  by_cases own : k' = k
  · rw [own, Function.update_self]
    rfl
  · rw [Function.update_of_ne own] at shown ⊢
    exact shown

theorem setEntry_leads {e : LedgerEntrySetEntry} (keep : e.mAction = .taaCREATE →
    v.mLedger.getSLE k = none) : Leads v (v.setEntry k e) (Function.update v.read k e.shown) where
  read := by
    funext k'
    rw [read_setEntry, Function.update_apply]
    exact if_congr eq_comm rfl rfl
  inSet := by
    intro k' h _
    unfold InSet at h ⊢
    rw [getElem?_setEntry]
    split
    · rfl
    · exact h
  fresh := by
    intro k' h e' he' create
    rw [getElem?_setEntry] at he'
    split at he'
    · next same =>
      cases he'
      exact same ▸ keep create
    · exact h e' he' create

theorem live_leads {action : LedgerEntryAction} (alive : action ≠ .taaDELETE)
    (keep : action = .taaCREATE → v.mLedger.getSLE k = none) :
    Leads v (v.setEntry k ⟨s, action⟩) (Function.update v.read k (some s)) := by
  have leads : Leads v (v.setEntry k ⟨s, action⟩) _ := setEntry_leads keep
  rwa [LedgerEntrySetEntry.shown, if_neg alive] at leads

theorem setEntry_inSet {e : LedgerEntrySetEntry} : (v.setEntry k e).InSet k := by
  unfold InSet
  rw [getElem?_setEntry, if_pos rfl]
  rfl

theorem update_read (h : v.read k = some s) : Function.update v.read k (some s) = v.read := by
  rw [← h, Function.update_eq_self]

theorem entryCache_held (h : v.read k = some s) (fresh : v.Fresh k) :
    ∃ w, entryCache k v = .ok (true, w) ∧ Leads v w v.read ∧ w.Held k s := by
  suffices leads : Leads v (v.cached k) v.read ∧ (v.cached k).InSet k from
    ⟨v.cached k, by rw [entryCache_eq, h]; rfl, leads.1, leads.2, by rw [leads.1.read, h],
      leads.1.fresh k fresh⟩
  cases entry : v.mEntries[k]? with
  | some e =>
    have same : v.cached k = v := by rw [cached, entry]
    rw [same]
    exact ⟨.refl v, by rw [InSet, entry]; rfl⟩
  | none =>
    have ledger : v.mLedger.getSLE k = some s := by
      rw [read, entry] at h
      exact h
    have same : v.cached k = v.setEntry k ⟨s, .taaCACHED⟩ := by rw [cached, entry, ledger]
    rw [same]
    have leads : Leads v (v.setEntry k ⟨s, .taaCACHED⟩) _ := live_leads (by decide) (by simp)
    rw [update_read h] at leads
    exact ⟨leads, setEntry_inSet⟩

theorem entryCache_none (h : v.read k = none) : entryCache k v = .ok (false, v) := by
  have same : v.cached k = v := by
    unfold cached
    split
    · next none ledger =>
      rw [read, none, ledger] at h
      cases h
    · rfl
  rw [entryCache_eq, h, same]
  rfl

theorem Held.deref (h : v.Held k s) : deref k v = .ok (s, v) := by
  obtain ⟨e, he, rfl, -⟩ := h.entry
  exact deref_eq he

theorem Held.assign (h : v.Held k s) (f : SLE → SLE) :
    ∃ w, LedgerEntrySet.assign k f v = .ok ((), w) ∧
      Leads v w (Function.update v.read k (some (f s))) ∧ w.Held k (f s) := by
  obtain ⟨⟨sle, action⟩, he, rfl, alive⟩ := h.entry
  have leads := live_leads (s := f sle) alive fun create => h.fresh _ he create
  exact ⟨_, assign_eq he f, leads, leads.held h (Function.update_self ..)⟩

theorem Held.entryModify (h : v.Held k s) :
    ∃ w, LedgerEntrySet.entryModify k v = .ok ((), w) ∧ Leads v w v.read ∧ w.Held k s := by
  obtain ⟨⟨sle, action⟩, he, rfl, alive⟩ := h.entry
  have leads := live_leads (s := sle) modified_alive fun create =>
    h.fresh _ he (modified_create create)
  rw [update_read h.read] at leads
  exact ⟨_, entryModify_eq he alive, leads, leads.held h h.read⟩

/-- A change of an entry that counts as modified then. -/
theorem Held.change (h : v.Held k s) (f : SLE → SLE) :
    ∃ w, (∀ {α : Type} (rest : Unit → LES α), (do
        LedgerEntrySet.assign k f
        rest (← LedgerEntrySet.entryModify k)) v = rest () w) ∧
      Leads v w (Function.update v.read k (some (f s))) ∧ w.Held k (f s) := by
  obtain ⟨v1, run1, leads1, held1⟩ := h.assign f
  obtain ⟨v2, run2, leads2, held2⟩ := held1.entryModify
  rw [← update_read held1.read] at leads2
  exact ⟨v2, fun _ => by rw [bind_apply_ok run1, bind_apply_ok run2], leads1.again leads2, held2⟩

theorem entryCreate_held (h : v.read k = none) :
    ∃ w, entryCreate k v = .ok ((), w) ∧
      Leads v w (Function.update v.read k (some (SLE.new k.type))) ∧ w.Held k (SLE.new k.type) := by
  obtain ⟨action, alive, new, run⟩ := entryCreate_eq h
  have leads := live_leads (s := SLE.new k.type) alive new
  refine ⟨_, run, leads, setEntry_inSet, by rw [leads.read, Function.update_self],
    fun e found create => ?_⟩
  rw [getElem?_setEntry, if_pos rfl] at found
  cases found
  exact new create

theorem Held.entryDelete (h : v.Held k s) :
    ∃ w, LedgerEntrySet.entryDelete k v = .ok ((), w) ∧
      Leads v w (Function.update v.read k none) := by
  obtain ⟨e, he, rfl, alive⟩ := h.entry
  have start : LedgerEntrySet.entryDelete k v = LedgerEntrySet.entryDelete k v := rfl
  conv_rhs at start => simp only [LedgerEntrySet.entryDelete, get_bind_apply, he]
  cases action : e.mAction with
  | taaCACHED | taaMODIFY =>
    rw [action] at start
    refine ⟨_, start, ?_⟩
    exact @setEntry_leads _ v k { e with mAction := .taaDELETE } fun create => by cases create
  | taaDELETE => exact absurd action alive
  | taaCREATE =>
    rw [action] at start
    -- the entry was made in this set, and the ledger has none
    refine ⟨_, start, ?_, ?_, ?_⟩
    · funext k'
      simp only [LedgerEntrySet.read, Std.ExtTreeMap.getElem?_erase, Function.update_apply]
      by_cases same : k = k'
      · subst same
        simp [h.fresh e he action]
      · simp [same, Ne.symm same]
    · intro k' h' shown
      unfold InSet at h' ⊢
      by_cases same : k = k'
      · subst same
        simp at shown
      · simpa [same] using h'
    · intro k' h' e' he' create
      by_cases same : k = k'
      · subst same
        simp at he'
      · refine h' e' ?_ create
        simpa [Std.ExtTreeMap.getElem?_erase, same] using he'

end

/-- What is read of a page. -/
def pageOf (s : SLE) : Cell UInt64 (List Key) :=
  ⟨s.getIndexes, s.getFieldU64 sfIndexNext, s.getFieldU64 sfIndexPrevious⟩

/-- What is set on a new page besides its links and entries. -/
structure Describer where
  describe : SLE → SLE
  pageOf_describe : ∀ s, pageOf (describe s) = pageOf s

@[simp] theorem pageOf_new : pageOf (SLE.new .dirNode) = ⟨[], 0, 0⟩ := rfl

@[simp] theorem pageOf_setIndexes (s : SLE) (l : List Key) :
    pageOf (s.setIndexes l) = { pageOf s with entries := l } := by
  simp [pageOf, SLE.setIndexes, SLE.getIndexes, SLE.getFieldU64, SLE.get]

@[simp] theorem pageOf_setNext (s : SLE) (n : UInt64) :
    pageOf (s.setFieldU64 sfIndexNext n) = { pageOf s with next := n } := by
  simp [pageOf, SLE.setFieldU64, SLE.getIndexes, SLE.getFieldU64, SLE.get]

@[simp] theorem pageOf_setPrevious (s : SLE) (n : UInt64) :
    pageOf (s.setFieldU64 sfIndexPrevious n) = { pageOf s with previous := n } := by
  simp [pageOf, SLE.setFieldU64, SLE.getIndexes, SLE.getFieldU64, SLE.get]

@[simp] theorem pageOf_setFieldIndex (s : SLE) (f : IndexField) (k : Key) :
    pageOf (s.setFieldIndex f k) = pageOf s := by
  simp [pageOf, SLE.setFieldIndex, SLE.getIndexes, SLE.getFieldU64, SLE.get]

theorem pageOf_setFieldAccount (s : SLE) {f : AccountField} {a : Account} :
    pageOf (s.setFieldAccount f a) = pageOf s := by
  simp [pageOf, SLE.setFieldAccount, SLE.getIndexes, SLE.getFieldU64, SLE.get]

/-- The describer of an account's directory. -/
def ownerDescriber (owner : Account) : Describer :=
  ⟨ownerDirDescriber owner, fun s => pageOf_setFieldAccount s⟩

theorem getDirNodeIndex_injective (root : Key) : Function.Injective (getDirNodeIndex root) := by
  have own (page : UInt64) : root ≠ .dirNode root page := by
    intro same
    have larger := congrArg sizeOf same
    simp only [Key.dirNode.sizeOf_spec] at larger
    omega
  intro n m same
  unfold getDirNodeIndex at same
  split at same <;> split at same
  · exact (Key.dirNode.inj same).2
  · exact absurd same.symm (own n)
  · exact absurd same (own m)
  · next hn hm => exact (not_not.1 hn).trans (not_not.1 hm).symm

@[simp] theorem getDirNodeIndex_zero (root : Key) : getDirNodeIndex root 0 = root := rfl

/-- The pages that entries show. -/
def pageStore (root : Key) (shown : Key → Option SLE) : Store UInt64 (List Key) :=
  fun n => (shown (getDirNodeIndex root n)).map pageOf

section
variable {root : Key} {shown : Key → Option SLE} {n : UInt64} {s : SLE}

theorem pageStore_update (o : Option SLE) :
    pageStore root (Function.update shown (getDirNodeIndex root n) o) =
      Function.update (pageStore root shown) n (o.map pageOf) := by
  funext m
  by_cases same : m = n
  · subst same
    simp [pageStore]
  · simp [pageStore, same, (getDirNodeIndex_injective root).ne same]

theorem pageStore_update_root (o : Option SLE) :
    pageStore root (Function.update shown root o) =
      Function.update (pageStore root shown) 0 (o.map pageOf) :=
  @pageStore_update root shown 0 o

theorem pageStore_setNext (h : shown (getDirNodeIndex root n) = some s) (m : UInt64) :
    pageStore root (Function.update shown (getDirNodeIndex root n)
      (some (s.setFieldU64 sfIndexNext m))) = setNext (pageStore root shown) n m := by
  rw [pageStore_update, setNext]
  simp [pageStore, h]

theorem pageStore_setPrevious (h : shown (getDirNodeIndex root n) = some s) (m : UInt64) :
    pageStore root (Function.update shown (getDirNodeIndex root n)
      (some (s.setFieldU64 sfIndexPrevious m))) = setPrevious (pageStore root shown) n m := by
  rw [pageStore_update, setPrevious]
  simp [pageStore, h]

theorem exists_of_pageStore {c : Cell UInt64 (List Key)} (h : pageStore root shown n = some c) :
    ∃ s, shown (getDirNodeIndex root n) = some s ∧ pageOf s = c :=
  Option.map_eq_some_iff.1 h

theorem none_of_pageStore (h : pageStore root shown n = none) :
    shown (getDirNodeIndex root n) = none :=
  Option.map_eq_none_iff.1 h

end

/-- The pages of a directory, with their numbers, from the root on. Only the root and the
last page can be empty. -/
structure Directory where
  pages : List (UInt64 × List Key)
  root : firstOr 0 pages = 0
  increasing : (pages.map Prod.fst).Pairwise (· < ·)
  short : ∀ p ∈ pages, p.2.length ≤ DIR_NODE_MAX
  middle : ∀ p ∈ pages, p.1 ≠ 0 → p.1 ≠ lastOr 0 pages → p.2 ≠ []

namespace Directory

def empty : Directory := ⟨[], rfl, by simp, by simp, by simp⟩

def last (d : Directory) : UInt64 := lastOr 0 d.pages

/-- The entries of a directory with the pages they are on. -/
def entries (d : Directory) : List (UInt64 × Key) := d.pages.flatMap fun p => p.2.map (p.1, ·)

/-- Without entries there is at most one page. -/
def Tidy (d : Directory) : Prop := d.entries = [] → d.pages.length ≤ 1

theorem empty_tidy : empty.Tidy := fun _ => Nat.zero_le 1

theorem tidy_of_page {d : Directory} {n : UInt64} {indexes : List Key}
    (page : (n, indexes) ∈ d.pages) (some_ : indexes ≠ []) : d.Tidy := by
  intro none
  obtain ⟨index, inside⟩ := List.exists_mem_of_ne_nil indexes some_
  have member : (n, index) ∈ d.entries := List.mem_flatMap.2 ⟨_, page, List.mem_map.2 ⟨_, inside, rfl⟩⟩
  rw [none] at member
  cases member

theorem distinct (d : Directory) : (d.pages.map Prod.fst).Nodup :=
  d.increasing.imp fun h => UInt64.ne_of_lt h

section
variable (d : Directory) {l m : List (UInt64 × List Key)} {n : UInt64} {indexes : List Key}

/-- Other entries on a page. -/
def replace (split : d.pages = l ++ (n, indexes) :: m) (indexes' : List Key)
    (short : indexes'.length ≤ DIR_NODE_MAX)
    (middle : n ≠ 0 → n ≠ d.last → indexes' ≠ []) : Directory where
  pages := l ++ (n, indexes') :: m
  root := by
    have root := d.root
    rw [split] at root
    simpa using root
  increasing := by
    have increasing := d.increasing
    rw [split] at increasing
    simpa using increasing
  short := by
    have old := d.short
    rw [split, List.forall_mem_append, List.forall_mem_cons] at old
    rw [List.forall_mem_append, List.forall_mem_cons]
    exact ⟨old.1, short, old.2.2⟩
  middle := by
    have old : ∀ p ∈ d.pages, p.1 ≠ 0 → p.1 ≠ d.last → p.2 ≠ [] := d.middle
    have last : lastOr 0 (l ++ (n, indexes') :: m) = d.last := by simp [Directory.last, split]
    rw [last]
    rw [split, List.forall_mem_append, List.forall_mem_cons] at old
    rw [List.forall_mem_append, List.forall_mem_cons]
    exact ⟨old.1, middle, old.2.2⟩

/-- A new last page. -/
def newPage (split : d.pages = l ++ [(n, indexes)]) (full : indexes ≠ []) (more : n + 1 ≠ 0)
    (index : Key) : Directory where
  pages := d.pages ++ [(n + 1, [index])]
  root := by
    rw [split]
    have root := d.root
    rw [split] at root
    simpa using root
  increasing := by
    have old := d.increasing
    have larger : n < n + 1 := by
      rw [UInt64.lt_iff_toNat_lt]
      have wraps := UInt64.toNat_inj.not.2 more
      have limit := n.toNat_lt
      simp only [UInt64.toNat_add, UInt64.toNat_one, UInt64.toNat_zero] at wraps ⊢
      omega
    rw [split] at old ⊢
    simp only [List.map_append, List.map_cons, List.map_nil, List.pairwise_append] at old ⊢
    refine ⟨old, by simp, fun a ha b hb => ?_⟩
    rw [List.mem_singleton.1 hb]
    rcases List.mem_append.1 ha with front | back
    · exact UInt64.lt_trans (old.2.2 a front n (by simp)) larger
    · rwa [List.mem_singleton.1 back]
  short := by
    rw [List.forall_mem_append, List.forall_mem_singleton]
    exact ⟨d.short, by simp [DIR_NODE_MAX]⟩
  middle := by
    rw [List.forall_mem_append, List.forall_mem_singleton]
    refine ⟨fun p old root _ => ?_, by simp⟩
    by_cases last : p.1 = n
    · have same : p = (n, indexes) :=
        List.inj_on_of_nodup_map d.distinct old (by simp [split]) last
      rwa [same]
    · exact d.middle p old root (by simpa [split] using last)

theorem first_iff (split : d.pages = l ++ (n, indexes) :: m) : n = 0 ↔ l = [] := by
  have root := d.root
  have increasing := d.increasing
  rw [split] at root increasing
  cases l with
  | nil => simpa using root
  | cons p l =>
    have zero : p.1 = 0 := root
    have less : p.1 < n := by
      rw [List.cons_append, List.map_cons, List.pairwise_cons] at increasing
      exact increasing.1 n (by simp)
    simp only [reduceCtorEq, iff_false]
    rintro rfl
    rw [zero] at less
    exact absurd less (by decide)

theorem ne_zero_of_mem_after (split : d.pages = l ++ (n, indexes) :: m) {k : UInt64}
    (member : k ∈ m.map Prod.fst) : k ≠ 0 := by
  have increasing := d.increasing
  rw [split, List.map_append, List.map_cons, List.pairwise_append, List.pairwise_cons] at increasing
  have less := increasing.2.1.1 k member
  rintro rfl
  exact absurd (UInt64.lt_iff_toNat_lt.1 less) (by simp)

/-- A page between two others is left out. -/
def unlink (split : d.pages = l ++ (n, indexes) :: m) (someBefore : l ≠ []) (someAfter : m ≠ []) :
    Directory where
  pages := l ++ m
  root := by
    have root := d.root
    rw [split] at root
    cases l with
    | nil => exact absurd rfl someBefore
    | cons p l => exact root
  increasing := by
    have sub : List.Sublist (l ++ m) (l ++ (n, indexes) :: m) := by simp
    have increasing := d.increasing
    rw [split] at increasing
    exact increasing.sublist (sub.map _)
  short := by
    have old := d.short
    rw [split, List.forall_mem_append, List.forall_mem_cons] at old
    exact List.forall_mem_append.2 ⟨old.1, old.2.2⟩
  middle := by
    have old := d.middle
    have last : lastOr 0 (l ++ m) = lastOr 0 d.pages := by
      rw [split, lastOr_append, lastOr_append, lastOr_cons, lastOr_eq_of_ne_nil _ _ someAfter]
    rw [← last, split, List.forall_mem_append, List.forall_mem_cons] at old
    exact List.forall_mem_append.2 ⟨old.1, old.2.2⟩

end

end Directory

variable {index : Key} {indexes : List Key}

theorem removeIndex_perm (h : index ∈ indexes) (stable : Bool) :
    (removeIndex indexes index stable).Perm (indexes.erase index) := by
  cases stable with
  | true => exact .refl _
  | false =>
    obtain ⟨front, last, rfl⟩ := (List.eq_nil_or_concat' indexes).resolve_left (List.ne_nil_of_mem h)
    simp only [removeIndex, List.getLast?_concat]
    by_cases early : index ∈ front
    · have position : front.idxOf index < front.length := List.idxOf_lt_length_iff.2 early
      rw [List.idxOf_append_of_mem early, List.set_append_left _ _ position, List.dropLast_concat,
        List.erase_append_left _ early]
      apply (List.set_perm_cons_eraseIdx position last).trans
      rw [List.eraseIdx_idxOf_eq_erase]
      exact (List.perm_append_singleton last _).symm
    · obtain rfl : index = last := by simpa [early] using h
      rw [List.idxOf_append_of_notMem early, List.erase_append_right _ early]
      simp

theorem removeIndex_singleton (stable : Bool) : removeIndex [index] index stable = [] := by
  cases stable with
  | true => simp [removeIndex]
  | false => simp [removeIndex]

theorem removeIndex_eq (h : index ∈ indexes) (stable : Bool) :
    (if indexes.length > 1 then removeIndex indexes index stable else []) =
      removeIndex indexes index stable := by
  split
  · rfl
  · next short =>
    have one : indexes.length = 1 := by
      have := List.length_pos_of_mem h
      omega
    obtain ⟨a, rfl⟩ := List.length_eq_one_iff.1 one
    rw [List.mem_singleton.1 h, removeIndex_singleton]

theorem Directory.entries_erase {d : Directory} {l m : List (UInt64 × List Key)} {n : UInt64}
    (split : d.pages = l ++ (n, indexes) :: m)
    (member : index ∈ indexes) : d.entries.erase (n, index) =
      (l.flatMap fun p => p.2.map (p.1, ·)) ++ ((indexes.erase index).map (n, ·) ++
        m.flatMap fun p => p.2.map (p.1, ·)) := by
  have distinct := d.distinct
  rw [split, List.map_append, List.nodup_append] at distinct
  have front : (n, index) ∉ l.flatMap fun p => p.2.map (p.1, ·) := by
    intro found
    obtain ⟨p, hp, found⟩ := List.mem_flatMap.1 found
    obtain ⟨k, -, same⟩ := List.mem_map.1 found
    exact distinct.2.2 p.1 (List.mem_map_of_mem hp) n List.mem_cons_self (congrArg Prod.fst same)
  rw [Directory.entries, split, List.flatMap_append, List.flatMap_cons,
    List.erase_append_right _ front, List.erase_append_left _ (List.mem_map_of_mem member),
    List.map_erase (Prod.mk_right_injective n)]

section
variable [Sha512Half] {v w : LedgerEntrySet} {root : Key} {d : Directory}

/-- The set shows linked pages under a root index, and no others. -/
structure ShowsPages (v : LedgerEntrySet) (root : Key) (pages : List (UInt64 × List Key)) :
    Prop where
  linked : Linked (pageStore root v.read) (lastOr 0 pages) pages 0
  only : ∀ n, n ∉ pages.map Prod.fst → pageStore root v.read n = none
  fresh : ∀ n, v.Fresh (getDirNodeIndex root n)

variable {pages : List (UInt64 × List Key)} {indexes : List Key} {n : UInt64}

theorem ShowsPages.congr (h : ShowsPages v root pages)
    (leads : Leads v w v.read) : ShowsPages w root pages :=
  ⟨leads.read ▸ h.linked, leads.read ▸ h.only, fun n => leads.fresh _ (h.fresh n)⟩

/-- The set shows a directory under a root index. -/
def Shows (v : LedgerEntrySet) (root : Key) (d : Directory) : Prop := ShowsPages v root d.pages

theorem Shows.rootPage (h : Shows v root d) (some_ : d.pages ≠ []) :
    ∃ s, v.read root = some s ∧ (pageOf s).previous = d.last ∧ 0 ∈ d.pages.map Prod.fst := by
  obtain ⟨pages, first, increasing, short, middle⟩ := d
  cases pages with
  | nil => exact absurd rfl some_
  | cons p pages =>
    obtain ⟨n, indexes⟩ := p
    have zero : n = 0 := first
    subst zero
    obtain ⟨s, shown, page⟩ := exists_of_pageStore h.linked.1
    exact ⟨s, shown, by rw [page]; rfl, List.mem_cons_self⟩

/-- The last page is found by its number in the root. -/
theorem dirAdd_last (h : Shows v root d)
    (split : d.pages = pages ++ [(n, indexes)]) (f : SLE → SLE) (index : Key) :
    ∃ v1 r s, Leads v v1 v.read ∧ v1.Held root r ∧ v1.Held (getDirNodeIndex root n) s ∧
      pageOf s = ⟨indexes, 0, lastOr d.last pages⟩ ∧
      dirAdd root index f v = (if indexes.length ≠ DIR_NODE_MAX then do
          entryModify (getDirNodeIndex root n)
          assign (getDirNodeIndex root n) fun sle => sle.setIndexes (indexes ++ [index])
          return (.tesSUCCESS, n)
        else if n + 1 = 0 then return (.tecDIR_FULL, n + 1)
        else do
          assign (getDirNodeIndex root n) fun sle => sle.setFieldU64 sfIndexNext (n + 1)
          entryModify (getDirNodeIndex root n)
          assign root fun sle => sle.setFieldU64 sfIndexPrevious (n + 1)
          entryModify root
          entryCreate (getDirNodeIndex root (n + 1))
          assign (getDirNodeIndex root (n + 1)) fun sle => sle.setFieldIndex .sfRootIndex root
          if n + 1 ≠ 1 then
            assign (getDirNodeIndex root (n + 1)) fun sle =>
              sle.setFieldU64 sfIndexPrevious (n + 1 - 1)
          assign (getDirNodeIndex root (n + 1)) f
          assign (getDirNodeIndex root (n + 1)) fun sle => sle.setIndexes [index]
          return (.tesSUCCESS, n + 1) : LES (TER × UInt64)) v1 := by
  have number : d.last = n := by simp [Directory.last, split]
  obtain ⟨r, shown, previous, -⟩ := h.rootPage (by simp [split])
  have cell : pageStore root v.read n = some ⟨indexes, 0, lastOr d.last pages⟩ := by
    have linked : Linked (pageStore root v.read) d.last d.pages 0 := h.linked
    rw [split] at linked
    exact linked.cell
  obtain ⟨s, page, content⟩ := exists_of_pageStore cell
  obtain ⟨v1, run1, leads1, held1⟩ := entryCache_held shown (h.fresh 0)
  obtain ⟨v2, run2, leads2, held2⟩ := entryCache_held
    (by rw [leads1.read, page]) (leads1.fresh _ (h.fresh n))
  have held1' := leads2.held held1 held1.read
  refine ⟨v2, r, s, leads1.trans_read leads2, held1', held2, content, ?_⟩
  rw [dirAdd, bind_apply_ok run1]
  simp only [Bool.not_true, reduceCtorEq, if_false]
  rw [bind_apply_ok held1.deref]
  have prev : r.getFieldU64 sfIndexPrevious = n := previous.trans number
  have own : s.getIndexes = indexes := congrArg Cell.entries content
  rw [prev, bind_apply_ok run2]
  simp only [Bool.not_true, reduceCtorEq, if_false]
  rw [bind_apply_ok held2.deref, own]

theorem ShowsPages.links {l m : List (UInt64 × List Key)} {s : SLE}
    (h : ShowsPages v root (l ++ (n, indexes) :: m)) (held : v.Held (getDirNodeIndex root n) s) :
    s.getFieldU64 sfIndexPrevious = lastOr (lastOr 0 (l ++ (n, indexes) :: m)) l ∧
      s.getFieldU64 sfIndexNext = firstOr 0 m := by
  obtain ⟨s', shown, page⟩ := exists_of_pageStore h.linked.cell
  cases held.read.symm.trans shown
  exact ⟨congrArg Cell.previous page, congrArg Cell.next page⟩

/-- A change of the entries of one page. -/
theorem ShowsPages.replace {l m : List (UInt64 × List Key)}
    {indexes' : List Key} (h : ShowsPages v root (l ++ (n, indexes) :: m))
    (distinct : ((l ++ (n, indexes) :: m).map Prod.fst).Nodup)
    (store : pageStore root w.read = Function.update (pageStore root v.read) n
      (some ⟨indexes', firstOr 0 m, lastOr (lastOr 0 (l ++ (n, indexes) :: m)) l⟩))
    (fresh : ∀ n, w.Fresh (getDirNodeIndex root n)) :
    ShowsPages w root (l ++ (n, indexes') :: m) := by
  have last : lastOr 0 (l ++ (n, indexes') :: m) = lastOr 0 (l ++ (n, indexes) :: m) := by simp
  refine ⟨?_, fun k other => ?_, fresh⟩
  · rw [store, last]
    exact h.linked.replace distinct indexes'
  · have other' : k ∉ (l ++ (n, indexes) :: m).map Prod.fst := by simpa using other
    have notPage : k ≠ n := fun same => other' (by simp [same])
    rw [store, Function.update_of_ne notPage]
    exact h.only k other'

theorem dirAdd_shows_room (h : Shows v root d) (f : SLE → SLE) (index : Key)
    (split : d.pages = pages ++ [(n, indexes)]) (room : indexes.length ≠ DIR_NODE_MAX) :
    ∃ w d', dirAdd root index f v = .ok ((.tesSUCCESS, n), w) ∧ Shows w root d' ∧
      d'.entries = d.entries ++ [(n, index)] := by
  obtain ⟨v1, r, s, leads1, -, held, page, run⟩ := dirAdd_last h split f index
  obtain ⟨v2, run2, leads2, held2⟩ := held.entryModify
  obtain ⟨v3, run3, leads3, -⟩ := held2.assign fun sle => sle.setIndexes (indexes ++ [index])
  have short : (indexes ++ [index]).length ≤ DIR_NODE_MAX := by
    have old := d.short (n, indexes) (by simp [split])
    rw [List.length_append]
    exact Nat.lt_of_le_of_ne old room
  have shows : ShowsPages v3 root (pages ++ [(n, indexes ++ [index])]) := by
    have distinct := d.distinct
    rw [split] at distinct
    unfold Shows at h
    rw [split] at h
    refine h.replace distinct ?_ fun n =>
      leads3.fresh _ (leads2.fresh _ (leads1.fresh _ (h.fresh n)))
    rw [leads3.read, leads2.read, leads1.read, pageStore_update]
    simp [page, Directory.last, split]
  refine ⟨v3, d.replace split (indexes ++ [index]) short (by simp), ?_, shows, ?_⟩
  · rw [run, if_pos room, bind_apply_ok run2, bind_apply_ok run3]
    rfl
  · simp [Directory.entries, Directory.replace, split]

/-- The entries and links of a page that was just made. -/
theorem newPage_held {page : Key} (type : page.type = .dirNode)
    (absent : v.read page = none) (f : Describer) (index : Key) :
    ∃ w s, (do
        entryCreate page
        assign page fun sle => sle.setFieldIndex .sfRootIndex root
        if n + 1 ≠ 1 then
          assign page fun sle => sle.setFieldU64 sfIndexPrevious (n + 1 - 1)
        assign page f.describe
        assign page fun sle => sle.setIndexes [index]
        return (.tesSUCCESS, n + 1) : LES (TER × UInt64)) v = .ok ((.tesSUCCESS, n + 1), w) ∧
      Leads v w (Function.update v.read page (some s)) ∧ pageOf s = ⟨[index], 0, n⟩ := by
  obtain ⟨v1, run1, leads1, held1⟩ := entryCreate_held absent
  obtain ⟨v2, run2, leads2, held2⟩ := held1.assign fun sle => sle.setFieldIndex .sfRootIndex root
  -- page 1 comes after the root, and leaves out the number 0
  obtain ⟨v3, s, leads3, held3, content, run3⟩ : ∃ v3 s,
      Leads v v3 (Function.update v.read page (some s)) ∧ v3.Held page s ∧
      pageOf s = ⟨[], 0, n⟩ ∧ ∀ rest : Unit → LES (TER × UInt64),
        (if n + 1 ≠ 1 then
          assign page (fun sle => sle.setFieldU64 sfIndexPrevious (n + 1 - 1)) >>= rest
        else rest ()) v2 = rest () v3 := by
    by_cases first : n + 1 = 1
    · have zero : n = 0 := by simpa using first
      refine ⟨v2, _, leads1.again leads2, held2, ?_, fun rest => ?_⟩
      · simp [type, zero]
      · rw [if_neg (not_not.2 first)]
    · obtain ⟨v3, run3, leads3, held3⟩ := held2.assign
        fun sle => sle.setFieldU64 sfIndexPrevious (n + 1 - 1)
      refine ⟨v3, _, (leads1.again leads2).again leads3, held3, ?_, fun rest => ?_⟩
      · simp [type]
      · rw [if_pos first, bind_apply_ok run3]
  obtain ⟨v4, run4, leads4, held4⟩ := held3.assign f.describe
  obtain ⟨v5, run5, leads5, -⟩ := held4.assign fun sle => sle.setIndexes [index]
  refine ⟨v5, _, ?_, (leads3.again leads4).again leads5, ?_⟩
  · rw [bind_apply_ok run1, bind_apply_ok run2]
    apply (run3 _).trans
    beta_reduce
    rw [bind_apply_ok run4, bind_apply_ok run5]
    rfl
  · simp [f.pageOf_describe, content]

section
variable (h : Shows v root d) (type : root.type = .dirNode) (f : Describer) (index : Key)
include h type

theorem dirAdd_shows_absent (none : d.pages = []) :
    ∃ w d', dirAdd root index f.describe v = .ok ((.tesSUCCESS, 0), w) ∧ Shows w root d' ∧
      d'.entries = d.entries ++ [(0, index)] := by
  have absent : v.read root = .none := none_of_pageStore (h.only 0 (by simp [none]))
  obtain ⟨v1, run1, leads1, held1⟩ := entryCreate_held absent
  obtain ⟨v2, run2, leads2, held2⟩ := held1.assign
    fun sle => f.describe (sle.setFieldIndex .sfRootIndex root)
  obtain ⟨v3, run3, leads3, held3⟩ := held2.assign fun sle => sle.setIndexes [index]
  refine ⟨v3, ⟨[(0, [index])], rfl, by simp, by simp [DIR_NODE_MAX], by simp⟩, ?_, ?_, ?_⟩
  · rw [dirAdd, bind_apply_ok (entryCache_none absent)]
    simp only [Bool.not_false, if_true]
    rw [bind_apply_ok run1, bind_apply_ok run2, bind_apply_ok run3]
    rfl
  · have store : pageStore root v3.read =
        Function.update (pageStore root v.read) 0 (some ⟨[index], 0, 0⟩) := by
      rw [leads3.read, leads2.read, leads1.read, Function.update_idem, Function.update_idem,
        pageStore_update_root]
      simp [f.pageOf_describe, type]
    refine ⟨?_, ?_, fun n => leads3.fresh _ (leads2.fresh _ (leads1.fresh _ (h.fresh n)))⟩
    · rw [store]
      exact ⟨Function.update_self .., trivial⟩
    · intro n other
      rw [store, Function.update_of_ne (by simpa using other)]
      exact h.only n (by simp [none])
  · simp [Directory.entries, none]

theorem dirAdd_shows_full (split : d.pages = pages ++ [(n, indexes)])
    (full : indexes.length = DIR_NODE_MAX) (more : n + 1 ≠ 0) :
    ∃ w d', dirAdd root index f.describe v = .ok ((.tesSUCCESS, n + 1), w) ∧ Shows w root d' ∧
      d'.entries = d.entries ++ [(n + 1, index)] := by
  have nonempty : indexes ≠ [] := by
    rintro rfl
    cases full
  let d' := d.newPage split nonempty more index
  have new : n + 1 ∉ d.pages.map Prod.fst := by
    have distinct : ((d.pages ++ [(n + 1, [index])]).map Prod.fst).Nodup := d'.distinct
    rw [List.map_append, List.nodup_append] at distinct
    exact fun member => distinct.2.2 _ member _ (by simp) rfl
  have some_ : d.pages ≠ [] := by simp [split]
  have number : d.last = n := by simp [Directory.last, split]
  obtain ⟨-, -, -, rootMember⟩ := h.rootPage some_
  have lastMember : n ∈ d.pages.map Prod.fst := by simp [split]
  obtain ⟨v1, r, s, leads1, heldRoot, held, page, run⟩ := dirAdd_last h split f.describe index
  obtain ⟨v2, run2, leads2, held2⟩ := held.change fun sle => sle.setFieldU64 sfIndexNext (n + 1)
  obtain ⟨r', heldRoot'⟩ : ∃ r', v2.Held root r' := by
    by_cases first : n = 0
    · subst first
      exact ⟨_, held2⟩
    · have other : root ≠ getDirNodeIndex root n := (getDirNodeIndex_injective root).ne (Ne.symm first)
      exact ⟨r, leads2.held heldRoot ((Function.update_of_ne other ..).trans heldRoot.read)⟩
  obtain ⟨v3, run3, leads3, -⟩ := heldRoot'.change
    fun sle => sle.setFieldU64 sfIndexPrevious (n + 1)
  have store3 : pageStore root v3.read =
      setPrevious (setNext (pageStore root v.read) n (n + 1)) 0 (n + 1) := by
    have store2 : pageStore root v2.read = setNext (pageStore root v.read) n (n + 1) := by
      rw [leads2.read, pageStore_setNext held.read, leads1.read]
    rw [leads3.read, ← store2]
    exact @pageStore_setPrevious root v2.read 0 r' heldRoot'.read (n + 1)
  have outside (k : UInt64) (other : k ∉ d.pages.map Prod.fst) : pageStore root v3.read k = none := by
    rw [store3, setPrevious, Function.update_of_ne (ne_of_mem_of_not_mem rootMember other).symm,
      setNext, Function.update_of_ne (ne_of_mem_of_not_mem lastMember other).symm, h.only k other]
  obtain ⟨w, s', run4, leads4, page'⟩ := newPage_held (type_getDirNodeIndex type (n + 1))
    (none_of_pageStore (outside _ new)) f index
  have store : pageStore root w.read =
      Function.update (pageStore root v3.read) (n + 1) (some ⟨[index], 0, n⟩) := by
    rw [leads4.read, pageStore_update, Option.map_some, page']
  refine ⟨w, d', ?_, ⟨?_, ?_, ?_⟩, ?_⟩
  · rw [run, if_neg (not_not.2 full), if_neg more, run2, run3]
    exact run4
  · have linked : Linked (pageStore root v.read) d.last d.pages 0 := h.linked
    have linked1 := linked.setNext d.distinct some_ (n + 1)
    have linked2 := linked1.setPrevious d.distinct some_ (n + 1)
    have linked3 := linked2.snoc new [index] 0
    have last : lastOr (n + 1) d.pages = n := by simp [split]
    have last' : lastOr d.last d.pages = n := by simp [split]
    have first : firstOr (n + 1) d.pages = 0 := by
      have root := d.root
      rw [split] at root ⊢
      simpa using root
    have number' : lastOr 0 d'.pages = n + 1 := by simp [d', Directory.newPage]
    rw [first, last, last'] at linked3
    rw [store, store3, number']
    exact linked3
  · intro k other
    have other' : k ∉ d.pages.map Prod.fst ∧ k ≠ n + 1 := by
      simpa [d', Directory.newPage] using other
    rw [store, Function.update_of_ne other'.2]
    exact outside k other'.1
  · intro k
    exact leads4.fresh _ (leads3.fresh _ (leads2.fresh _ (leads1.fresh _ (h.fresh k))))
  · simp [Directory.entries, d', Directory.newPage]

theorem dirAdd_shows :
    (∃ n w d', dirAdd root index f.describe v = .ok ((.tesSUCCESS, n), w) ∧ Shows w root d' ∧
      d'.entries = d.entries ++ [(n, index)]) ∨
    ∃ n w, dirAdd root index f.describe v = .ok ((.tecDIR_FULL, n), w) ∧ Shows w root d := by
  by_cases none : d.pages = []
  · exact .inl ⟨0, dirAdd_shows_absent h type f index none⟩
  obtain ⟨pages, ⟨n, indexes⟩, split⟩ := (List.eq_nil_or_concat' d.pages).resolve_left none
  by_cases room : indexes.length = DIR_NODE_MAX
  · by_cases more : n + 1 = 0
    · obtain ⟨v1, r, s, leads1, -, -, -, run⟩ := dirAdd_last h split f.describe index
      refine .inr ⟨n + 1, v1, ?_, h.congr leads1⟩
      rw [run, if_neg (not_not.2 room), if_pos more]
      rfl
    · exact .inl ⟨n + 1, dirAdd_shows_full h type f index split room more⟩
  · exact .inl ⟨n, dirAdd_shows_room h f.describe index split room⟩

variable {f index} in
theorem Shows.added {n : UInt64}
    (done : dirAdd root index f.describe v = .ok ((.tesSUCCESS, n), w)) :
    ∃ d', Shows w root d' ∧ d'.entries = d.entries ++ [(n, index)] := by
  rcases dirAdd_shows h type f index with ⟨n', w', d', ran, shows, entries⟩ | ⟨n', w', ran, -⟩
  · cases ran.symm.trans done
    exact ⟨d', shows, entries⟩
  · cases ran.symm.trans done

end

/-- The whole directory goes when its pages are deleted. -/
theorem showsPages_nil (h : ShowsPages v root pages)
    (gone : ∀ n ∈ pages.map Prod.fst, pageStore root w.read n = none)
    (others : ∀ n, n ∉ pages.map Prod.fst → pageStore root w.read n = pageStore root v.read n)
    (fresh : ∀ n, w.Fresh (getDirNodeIndex root n)) : Shows w root .empty := by
  refine ⟨trivial, fun n _ => ?_, fresh⟩
  by_cases member : n ∈ pages.map Prod.fst
  · exact gone n member
  · rw [others n member, h.only n member]

/-- A root and a last page that are both empty go. -/
theorem deleteBoth {q : UInt64} {a b : List Key} {r s : SLE}
    (h : ShowsPages v root [(0, a), (q, b)]) (heldRoot : v.Held root r)
    (held : v.Held (getDirNodeIndex root q) s) (other : q ≠ 0) :
    ∃ w, (do
        entryDelete root
        entryDelete (getDirNodeIndex root q)
        return .tesSUCCESS : LES TER) v = .ok (.tesSUCCESS, w) ∧ Shows w root .empty := by
  have apart : getDirNodeIndex root q ≠ root := (getDirNodeIndex_injective root).ne other
  obtain ⟨v1, run1, leads1⟩ := heldRoot.entryDelete
  have held1 := leads1.held held ((Function.update_of_ne apart ..).trans held.read)
  obtain ⟨v2, run2, leads2⟩ := held1.entryDelete
  have store : pageStore root v2.read =
      Function.update (Function.update (pageStore root v.read) 0 none) q none := by
    rw [leads2.read, leads1.read, pageStore_update, pageStore_update_root]
    rfl
  refine ⟨v2, ?_, showsPages_nil h ?_ ?_ fun n => leads2.fresh _ (leads1.fresh _ (h.fresh n))⟩
  · rw [bind_apply_ok run1, bind_apply_ok run2]
    rfl
  · intro n member
    rw [store]
    simp only [List.map_cons, List.map_nil, List.mem_cons, List.not_mem_nil, or_false] at member
    rcases member with rfl | rfl
    · rw [Function.update_of_ne other.symm, Function.update_self]
    · rw [Function.update_self]
  · intro n outside
    simp only [List.map_cons, List.map_nil, List.mem_cons, List.not_mem_nil, or_false,
      not_or] at outside
    rw [store, Function.update_of_ne outside.2, Function.update_of_ne outside.1]

/-- The pages that go when the root has been emptied. -/
theorem dirDeleteEmptied_root {m : List (UInt64 × List Key)} {s : SLE}
    (split : d.pages = [] ++ (0, indexes) :: m) (h : ShowsPages v root ((0, []) :: m))
    (held : v.Held root s) (keep : Bool) :
    ∃ w d', dirDeleteEmptied keep 0 root v = .ok (.tesSUCCESS, w) ∧ Shows w root d' ∧
      (d'.entries = m.flatMap fun p => p.2.map (p.1, ·)) ∧ (keep = false → d'.Tidy) := by
  let stays := d.replace split [] (by simp) (by simp)
  obtain ⟨previous, next⟩ := h.links (l := []) held
  rw [lastOr_nil, List.nil_append, lastOr_cons] at previous
  rw [dirDeleteEmptied, getDirNodeIndex_zero, bind_apply_ok held.deref, previous, next]
  simp only [if_true]
  by_cases none : m = []
  · subst none
    obtain ⟨w, run, leads⟩ := held.entryDelete
    have store : pageStore root w.read = Function.update (pageStore root v.read) 0 none := by
      rw [leads.read, pageStore_update_root]
      rfl
    refine ⟨w, .empty, ?_, showsPages_nil h ?_ ?_ fun n => leads.fresh _ (h.fresh n), rfl,
      fun _ => Directory.empty_tidy⟩
    · rw [lastOr_nil, if_pos rfl, bind_apply_ok run]
      rfl
    · intro n member
      rw [List.mem_singleton.1 member, store]
      exact Function.update_self ..
    · intro n outside
      rw [store, Function.update_of_ne (by simpa using outside)]
  rw [if_neg (d.ne_zero_of_mem_after split (lastOr_mem 0 none))]
  by_cases two : (!keep && lastOr 0 m == firstOr 0 m) = true
  swap
  · rw [if_neg two]
    refine ⟨v, stays, rfl, h, by simp [Directory.entries, stays, Directory.replace], fun drop => ?_⟩
    -- the page after the root is not the last one
    obtain ⟨⟨q, indexes'⟩, m, rfl⟩ := List.exists_cons_of_ne_nil none
    have notLast : q ≠ lastOr 0 d.pages := by
      intro last
      rw [split, List.nil_append] at last
      apply two
      rw [drop, Bool.not_false, Bool.true_and, beq_iff_eq]
      exact last.symm
    apply @Directory.tidy_of_page _ q indexes' (by simp [stays, Directory.replace])
    exact d.middle (q, indexes') (by simp [split]) (d.ne_zero_of_mem_after split (by simp)) notLast
  rw [if_pos two]
  -- the last page is the one after the root
  obtain ⟨⟨q, indexes'⟩, rfl⟩ : ∃ c, m = [c] := by
    have distinct := d.distinct
    rw [split, List.nil_append, List.map_cons, List.nodup_cons] at distinct
    rw [Bool.and_eq_true, beq_iff_eq] at two
    exact eq_singleton distinct.2 none two.2
  have apart : q ≠ 0 := d.ne_zero_of_mem_after split (by simp)
  obtain ⟨s', shown, page'⟩ := exists_of_pageStore h.linked.2.1
  obtain ⟨v1, run1, leads1, held1⟩ := entryCache_held shown (h.fresh q)
  have heldRoot := leads1.held held held.read
  have own : s'.getIndexes = indexes' := congrArg Cell.entries page'
  rw [firstOr_cons, bind_apply_ok run1]
  simp only [Bool.not_true, reduceCtorEq, if_false]
  rw [bind_apply_ok held1.deref, own]
  cases indexes' with
  | cons index rest =>
    refine ⟨v1, stays, rfl, h.congr leads1, by simp [Directory.entries, stays, Directory.replace],
      fun _ => @Directory.tidy_of_page _ q (index :: rest) ?_ (by simp)⟩
    simp [stays, Directory.replace]
  | nil =>
    obtain ⟨w, run, shows⟩ := deleteBoth (h.congr leads1) heldRoot held1 apart
    exact ⟨w, .empty, run, shows, by simp [Directory.entries, Directory.empty],
      fun _ => Directory.empty_tidy⟩

section
variable {l m : List (UInt64 × List Key)} {n : UInt64} {indexes : List Key} {s : SLE}

/-- An emptied page between two others goes. -/
theorem dirDeleteEmptied_middle (split : d.pages = l ++ (n, indexes) :: m) (someBefore : l ≠ [])
    (someAfter : m ≠ []) (h : ShowsPages v root (l ++ (n, []) :: m))
    (held : v.Held (getDirNodeIndex root n) s) (type : root.type = .dirNode) (keep : Bool) :
    ∃ w, dirDeleteEmptied keep n root v = .ok (.tesSUCCESS, w) ∧
      Shows w root (d.unlink split someBefore someAfter) := by
  have distinct := d.distinct
  have distinct' : ((l ++ (n, []) :: m).map Prod.fst).Nodup := by
    rw [split] at distinct
    simpa using distinct
  have apart := distinct'
  rw [List.map_append, List.map_cons, List.nodup_append, List.nodup_cons] at apart
  obtain ⟨-, ⟨notAfter, -⟩, apart⟩ := apart
  obtain ⟨p, hp⟩ : ∃ p, p = lastOr (lastOr 0 (l ++ (n, ([] : List Key)) :: m)) l := ⟨_, rfl⟩
  obtain ⟨q, hq⟩ : ∃ q, q = firstOr 0 m := ⟨_, rfl⟩
  have memberP : p ∈ l.map Prod.fst := hp ▸ lastOr_mem _ someBefore
  have memberQ : q ∈ m.map Prod.fst := hq ▸ firstOr_mem _ someAfter
  have nonzero : n ≠ 0 := fun zero => someBefore ((d.first_iff split).1 zero)
  have nonzeroQ : q ≠ 0 := d.ne_zero_of_mem_after split memberQ
  have pq : p ≠ q := apart p memberP q (List.mem_cons_of_mem _ memberQ)
  have pn : p ≠ n := apart p memberP n List.mem_cons_self
  have qn : q ≠ n := fun same => notAfter (same ▸ memberQ)
  have inj {a b : UInt64} (ne : a ≠ b) : getDirNodeIndex root a ≠ getDirNodeIndex root b :=
    (getDirNodeIndex_injective root).ne ne
  obtain ⟨previous, next⟩ := h.links held
  rw [← hp] at previous
  rw [← hq] at next
  have inPages {k : UInt64} (member : k ∈ l.map Prod.fst ∨ k ∈ m.map Prod.fst) :
      k ∈ (l ++ (n, ([] : List Key)) :: m).map Prod.fst := by
    rw [List.map_append, List.map_cons, List.mem_append, List.mem_cons]
    exact member.imp_right .inr
  obtain ⟨cp, cellP⟩ := h.linked.exists_of_mem (inPages (.inl memberP))
  obtain ⟨cq, cellQ⟩ := h.linked.exists_of_mem (inPages (.inr memberQ))
  obtain ⟨sp, shownP, -⟩ := exists_of_pageStore cellP
  obtain ⟨sq, shownQ, -⟩ := exists_of_pageStore cellQ
  obtain ⟨v1, run1, leads1, heldP1⟩ := entryCache_held shownP (h.fresh p)
  have held1 := leads1.held held held.read
  obtain ⟨v2, run2, leads2, heldQ2⟩ := entryCache_held (k := getDirNodeIndex root q) (s := sq)
    (by rw [leads1.read, shownQ]) (leads1.fresh _ (h.fresh q))
  have held2 := leads2.held held1 held1.read
  have heldP2 := leads2.held heldP1 heldP1.read
  obtain ⟨v3, run3, leads3, -⟩ := heldP2.change fun sle => sle.setFieldU64 sfIndexNext q
  have heldQ3 := leads3.held heldQ2 ((Function.update_of_ne (inj pq.symm) ..).trans heldQ2.read)
  have held3 := leads3.held held2 ((Function.update_of_ne (inj pn.symm) ..).trans held2.read)
  obtain ⟨v4, run4, leads4, -⟩ := heldQ3.change fun sle => sle.setFieldU64 sfIndexPrevious p
  have held4 := leads4.held held3 ((Function.update_of_ne (inj qn.symm) ..).trans held3.read)
  obtain ⟨w, run5, leads5⟩ := held4.entryDelete
  have store : pageStore root w.read =
      Function.update (setPrevious (setNext (pageStore root v.read) p q) q p) n none := by
    have store3 : pageStore root v3.read = setNext (pageStore root v.read) p q := by
      rw [leads3.read, pageStore_setNext heldP2.read, leads2.read, leads1.read]
    rw [leads5.read, pageStore_update, leads4.read, pageStore_setPrevious heldQ3.read, store3]
    rfl
  refine ⟨w, ?_, ?_, ?_, ?_⟩
  · rw [dirDeleteEmptied, bind_apply_ok held.deref, previous, next]
    simp only [nonzero, nonzeroQ, if_false, ne_eq, not_false_eq_true, if_true]
    rw [bind_apply_ok run1, bind_apply_ok run2]
    simp only [Bool.not_true, reduceCtorEq, if_false, type_getDirNodeIndex type, bne_self_eq_false]
    rw [run3, run4, bind_apply_ok run5]
    rfl
  · have linked := h.linked.unlink distinct' someBefore someAfter
    rw [← hp, ← hq] at linked
    have last : lastOr 0 (l ++ m) = lastOr 0 (l ++ (n, ([] : List Key)) :: m) := by
      rw [lastOr_append, lastOr_append]
      exact lastOr_eq_of_ne_nil _ _ someAfter
    rw [store]
    change Linked _ (lastOr 0 (l ++ m)) (l ++ m) 0
    rw [last]
    exact linked
  · intro k outside
    have outside' : k ∉ l.map Prod.fst ∧ k ∉ m.map Prod.fst := by
      change k ∉ (l ++ m).map Prod.fst at outside
      rwa [List.map_append, List.mem_append, not_or] at outside
    rw [store]
    by_cases own : k = n
    · rw [own, Function.update_self]
    · rw [Function.update_of_ne own, setPrevious,
        Function.update_of_ne (ne_of_mem_of_not_mem memberQ outside'.2).symm, setNext,
        Function.update_of_ne (ne_of_mem_of_not_mem memberP outside'.1).symm]
      apply h.only k
      simp only [List.map_append, List.map_cons, List.mem_append, List.mem_cons, not_or]
      exact ⟨outside'.1, own, outside'.2⟩
  · intro k
    exact leads5.fresh _ (leads4.fresh _ (leads3.fresh _ (leads2.fresh _ (leads1.fresh _
      (h.fresh k)))))

/-- An emptied last page goes with an empty root, and stays otherwise. -/
theorem dirDeleteEmptied_last (split : d.pages = l ++ [(n, indexes)]) (someBefore : l ≠ [])
    (h : ShowsPages v root (l ++ [(n, [])])) (held : v.Held (getDirNodeIndex root n) s)
    (type : root.type = .dirNode) (keep : Bool) :
    ∃ w d', dirDeleteEmptied keep n root v = .ok (.tesSUCCESS, w) ∧ Shows w root d' ∧
      (d'.entries = l.flatMap fun p => p.2.map (p.1, ·)) ∧ (keep = false → d'.Tidy) := by
  let stays := d.replace split [] (by simp) (by simp [Directory.last, split])
  have nonzero : n ≠ 0 := fun zero => someBefore ((d.first_iff split).1 zero)
  obtain ⟨p, hp⟩ : ∃ p, p = lastOr n l := ⟨_, rfl⟩
  obtain ⟨previous, next⟩ := h.links held
  rw [lastOr_append, lastOr_cons, lastOr_nil, ← hp] at previous
  rw [firstOr_nil] at next
  rw [dirDeleteEmptied, bind_apply_ok held.deref, previous, next]
  simp only [nonzero, if_false, ne_eq, not_true_eq_false]
  by_cases kept : (keep || p != 0) = true
  · rw [if_pos kept]
    refine ⟨v, stays, rfl, h, by simp [Directory.entries, stays, Directory.replace], fun drop => ?_⟩
    -- the page before the last one is not the root
    obtain ⟨front, ⟨k, indexes'⟩, rfl⟩ := (List.eq_nil_or_concat' l).resolve_left someBefore
    have notRoot : k ≠ 0 := by simpa [drop, hp] using kept
    have notLast : k ≠ lastOr 0 d.pages := by
      have distinct := d.distinct
      rw [split] at distinct ⊢
      simp only [List.map_append, List.append_assoc,
        List.nodup_append] at distinct
      simp only [lastOr_append]
      rintro rfl
      simp at distinct
    apply @Directory.tidy_of_page _ k indexes' (by simp [stays, Directory.replace])
    exact d.middle (k, indexes') (by simp [split]) notRoot notLast
  rw [if_neg kept]
  rw [Bool.or_eq_true, bne_iff_ne, not_or] at kept
  -- the page before is the root
  obtain ⟨rootIndexes, rfl⟩ : ∃ rootIndexes, l = [(0, rootIndexes)] := by
    obtain ⟨front, ⟨k, rootIndexes⟩, rfl⟩ := (List.eq_nil_or_concat' l).resolve_left someBefore
    have zero : k = 0 := by simpa [hp] using kept.2
    rw [zero, List.append_assoc] at split
    rw [(d.first_iff split).1 rfl, zero]
    exact ⟨rootIndexes, rfl⟩
  obtain ⟨r, shown, page'⟩ := exists_of_pageStore h.linked.1
  obtain ⟨v1, run1, leads1, heldRoot⟩ := entryCache_held shown (h.fresh 0)
  have held1 := leads1.held held held.read
  have own : r.getIndexes = rootIndexes := congrArg Cell.entries page'
  rw [← getDirNodeIndex_zero root, bind_apply_ok run1]
  simp only [Bool.not_true, reduceCtorEq, if_false, type_getDirNodeIndex type,
    bne_self_eq_false]
  rw [bind_apply_ok heldRoot.deref, own]
  cases rootIndexes with
  | cons index rest =>
    refine ⟨v1, stays, rfl, h.congr leads1, by simp [Directory.entries, stays, Directory.replace],
      fun _ => @Directory.tidy_of_page _ 0 (index :: rest) ?_ (by simp)⟩
    simp [stays, Directory.replace]
  | nil =>
    obtain ⟨w, run, shows⟩ := deleteBoth (h.congr leads1) heldRoot held1 nonzero
    exact ⟨w, .empty, run, shows, by simp [Directory.entries, Directory.empty],
      fun _ => Directory.empty_tidy⟩

end

theorem dirDelete_eq (keep : Bool) (stable : Bool) :
    dirDelete keep n root index stable false =
      dirDeleteAt keep n root index stable (return .tefBAD_LEDGER) := by
  unfold dirDelete
  cases 20 - n.toNat with
  | zero => rfl
  | succ tries => rfl

/-- A hard deletion of an entry of the directory succeeds, and leaves the others. Where the
root need not be kept, pages stay behind when the only entry was between the root and the last
page. -/
theorem dirDelete_shows (h : Shows v root d) (type : root.type = .dirNode) {index : Key}
    (member : (n, index) ∈ d.entries) (keep stable : Bool) :
    ∃ w d', dirDelete keep n root index stable false v = .ok (.tesSUCCESS, w) ∧ Shows w root d' ∧
      d'.entries.Perm (d.entries.erase (n, index)) ∧
      (stable = true → d'.entries = d.entries.erase (n, index)) ∧
      (keep = false → (d'.Tidy ↔ ¬(d'.entries = [] ∧ n ≠ 0 ∧ n ≠ d.last))) := by
  obtain ⟨⟨k, indexes⟩, hp, found⟩ := List.mem_flatMap.1 member
  obtain ⟨index', inside, same⟩ := List.mem_map.1 found
  obtain rfl : n = k := (congrArg Prod.fst same).symm
  obtain rfl : index = index' := (congrArg Prod.snd same).symm
  obtain ⟨l, m, split⟩ := List.append_of_mem hp
  have shows := h
  unfold Shows at shows
  rw [split] at shows
  have distinct := d.distinct
  rw [split] at distinct
  obtain ⟨s, shown, page⟩ := exists_of_pageStore shows.linked.cell
  have own : s.getIndexes = indexes := congrArg Cell.entries page
  obtain ⟨v1, run1, leads1, held1⟩ := entryCache_held shown (h.fresh n)
  obtain ⟨rest, hr⟩ : ∃ rest, rest = removeIndex indexes index stable := ⟨_, rfl⟩
  obtain ⟨v2, run2, leads2, held2⟩ := held1.change fun sle => sle.setIndexes rest
  have shows2 : ShowsPages v2 root (l ++ (n, rest) :: m) := by
    refine shows.replace distinct ?_ fun k => leads2.fresh _ (leads1.fresh _ (h.fresh k))
    rw [leads2.read, leads1.read, pageStore_update]
    simp [page]
  have run : dirDelete keep n root index stable false v =
      (if rest.isEmpty then dirDeleteEmptied keep n root else pure .tesSUCCESS) v2 := by
    rw [dirDelete_eq, dirDeleteAt, bind_apply_ok run1]
    simp only [type_getDirNodeIndex type, bne_self_eq_false, Bool.and_false, Bool.false_eq_true,
      if_false, if_true]
    have read : (SLE.getIndexes <$> deref (getDirNodeIndex root n) : LES (List Key)) v1 =
        .ok (indexes, v1) := by
      rw [map_eq_pure_bind, bind_apply_ok held1.deref, own]
      rfl
    have found : indexes.contains index = true := List.contains_iff_mem.2 inside
    rw [bind_apply_ok read, found]
    simp only [Bool.not_true, reduceCtorEq, if_false]
    rw [removeIndex_eq inside, ← hr, run2]
  have perm := removeIndex_perm inside stable
  rw [← hr] at perm
  rw [Directory.entries_erase split inside, run]
  -- only the order of the entries of the page depends on the kind of deletion
  suffices result : ∃ w d', (if rest.isEmpty then dirDeleteEmptied keep n root else
      pure .tesSUCCESS) v2 = .ok (.tesSUCCESS, w) ∧ Shows w root d' ∧
      d'.entries = (l.flatMap fun p => p.2.map (p.1, ·)) ++ (rest.map (n, ·) ++
        m.flatMap fun p => p.2.map (p.1, ·)) ∧
      (keep = false → (d'.Tidy ↔ ¬(d'.entries = [] ∧ n ≠ 0 ∧ n ≠ d.last))) by
    obtain ⟨w, d', ran, shows', entries, tidy⟩ := result
    refine ⟨w, d', ran, shows', ?_, fun keepsOrder => ?_, tidy⟩
    · rw [entries]
      exact ((perm.map _).append_right _).append_left _
    · rw [entries, hr, keepsOrder]
      rfl
  cases rest with
  | cons a rest =>
    have short : (a :: rest).length ≤ DIR_NODE_MAX := by
      have old := d.short (n, indexes) hp
      rw [perm.length_eq, List.length_erase_of_mem inside]
      exact (Nat.sub_le _ _).trans old
    have page : (n, a :: rest) ∈ (d.replace split (a :: rest) short (by simp)).pages := by
      simp [Directory.replace]
    exact ⟨v2, d.replace split (a :: rest) short (by simp), rfl, shows2,
      by simp [Directory.entries, Directory.replace],
      fun _ => iff_of_true (Directory.tidy_of_page page (by simp))
        (by simp [Directory.entries, Directory.replace])⟩
  | nil =>
    by_cases first : l = []
    · subst first
      obtain rfl : n = 0 := (d.first_iff split).2 rfl
      obtain ⟨w, d', ran, shows', entries, tidy⟩ := dirDeleteEmptied_root split shows2 held2 keep
      exact ⟨w, d', ran, shows', by simpa using entries, fun drop => by simpa using tidy drop⟩
    by_cases last : m = []
    · subst last
      obtain ⟨w, d', ran, shows', entries, tidy⟩ :=
        dirDeleteEmptied_last split first shows2 held2 type keep
      refine ⟨w, d', ran, shows', by simpa using entries, fun drop => ?_⟩
      simpa [Directory.last, split] using tidy drop
    · obtain ⟨w, ran, shows'⟩ := dirDeleteEmptied_middle split first last shows2 held2 type keep
      refine ⟨w, _, ran, shows', by simp [Directory.entries, Directory.unlink], fun _ => ?_⟩
      have notRoot : n ≠ 0 := fun zero => first ((d.first_iff split).1 zero)
      have notLast : n ≠ d.last := by
        rw [List.map_append, List.map_cons, List.nodup_append, List.nodup_cons] at distinct
        rw [Directory.last, split, lastOr_append]
        exact (ne_of_mem_of_not_mem (lastOr_mem n last) distinct.2.1.1).symm
      have two : ¬(l ++ m).length ≤ 1 := by
        have := List.length_pos_of_ne_nil first
        have := List.length_pos_of_ne_nil last
        rw [List.length_append]
        omega
      have pages : (d.unlink split first last).pages = l ++ m := rfl
      tauto

end

end Skywell.LedgerEntrySet
