import JingtumCore.Directory
import JingtumCore.ExceptFold

/-!
# Whole lives of directories

`dirFirst`, `dirNext` and `dirCount`, and what holds of a directory after any
sequence of additions and hard deletions that starts where there is none.
-/
namespace Skywell.LedgerEntrySet
open LinkedStore StateExcept U64Field
variable [Sha512Half]

/-- The page an iteration is on and the entry it comes to next, with the entry it
returned; `none` is the index zero. -/
structure DirCursor where
  sleNode : Key
  uDirEntry : Nat
  uEntryIndex : Option Key

/-- Each call of itself goes on to another page. -/
def dirNext (uRootIndex : Key) : Nat → DirCursor → LES (Bool × DirCursor)
  | 0, _ => throw .endlessLoop
  | fuel + 1, cursor => do
    let sleNode ← deref cursor.sleNode
    let svIndexes := sleNode.getIndexes
    match svIndexes[cursor.uDirEntry]? with
    | none =>
      let uNodeNext := sleNode.getFieldU64 sfIndexNext
      if uNodeNext = 0 then return (false, { cursor with uEntryIndex := none })
      let sleNext := getDirNodeIndex uRootIndex uNodeNext
      if !(← entryCache sleNext) then return (false, { cursor with uDirEntry := 0 })
      dirNext uRootIndex fuel ⟨sleNext, 0, cursor.uEntryIndex⟩
    | some index => return (true, ⟨cursor.sleNode, cursor.uDirEntry + 1, some index⟩)

def dirFirst (uRootIndex : Key) (fuel : Nat) : LES (Bool × DirCursor) := do
  if !(← entryCache uRootIndex) then throw .nullPointer
  dirNext uRootIndex fuel ⟨uRootIndex, 0, none⟩

/-- The entries that `dirNext` returns until it returns false. -/
def dirRest (uRootIndex : Key) : Nat → Bool × DirCursor → LES (List (Option Key))
  | 0, _ => throw .endlessLoop
  | fuel + 1, (found, cursor) =>
    if found then do
      let following ← dirNext uRootIndex fuel cursor
      return cursor.uEntryIndex :: (← dirRest uRootIndex fuel following)
    else return []

/-- An iteration: `dirFirst`, and then `dirNext` until it returns false. -/
def dirIterate (uRootIndex : Key) (fuel : Nat) : LES (List (Option Key)) := do
  let first ← dirFirst uRootIndex fuel
  dirRest uRootIndex fuel first

/-- `dirCount` from page `uNodeDir` on. -/
def dirCountFrom (uRootIndex : Key) : Nat → UInt64 → UInt32 → LES (TER × UInt32)
  | 0, _, _ => throw .endlessLoop
  | fuel + 1, uNodeDir, uCount => do
    let node := getDirNodeIndex uRootIndex uNodeDir
    if ← entryCache node then
      let sleNode ← deref node
      let uCount := uCount + UInt32.ofNat sleNode.getIndexes.length
      let uNodeDir := sleNode.getFieldU64 sfIndexNext
      if uNodeDir ≠ 0 then dirCountFrom uRootIndex fuel uNodeDir uCount
      else return (.tesSUCCESS, uCount)
    else if uNodeDir ≠ 0 then return (.tefBAD_LEDGER, uCount)
    else return (.tesSUCCESS, uCount)

def dirCount (uRootIndex : Key) (fuel : Nat) : LES (TER × UInt32) := dirCountFrom uRootIndex fuel 0 0

/-- What successful additions and hard deletions lead to where there was no directory: the
set, the entries added and not deleted, in the order they were added, with the pages they
were added to, and whether all deletions were stable. -/
inductive DirRun (root : Key) : LedgerEntrySet → List (UInt64 × Key) → Bool → Prop
  | absent {v : LedgerEntrySet} (none : ∀ n, v.read (getDirNodeIndex root n) = none) :
      DirRun root v [] true
  | add {v w : LedgerEntrySet} {log : List (UInt64 × Key)} {stable : Bool} {n : UInt64}
      (run : DirRun root v log stable) (f : Describer) (index : Key)
      (done : dirAdd root index f.describe v = .ok ((.tesSUCCESS, n), w)) :
      DirRun root w (log ++ [(n, index)]) stable
  | delete {v w : LedgerEntrySet} {log : List (UInt64 × Key)} {stable : Bool} {n : UInt64}
      {index : Key} (run : DirRun root v log stable) (added : (n, index) ∈ log)
      (bKeepRoot bStable : Bool)
      (done : dirDelete bKeepRoot n root index bStable false v = .ok (.tesSUCCESS, w)) :
      DirRun root w (log.erase (n, index)) (stable && bStable)

variable {v : LedgerEntrySet} {root : Key} {d : Directory} {log : List (UInt64 × Key)}
  {stable : Bool} {fuel : Nat} {l m : List (UInt64 × List Key)} {n : UInt64} {indexes : List Key}

theorem shows_empty (none : ∀ n, v.read (getDirNodeIndex root n) = none) :
    Shows v root .empty := by
  refine ⟨trivial, fun n _ => ?_, fun n e entry create => ?_⟩
  · rw [pageStore, none]
    rfl
  · have deleted := none n
    rw [read_eq_of_getElem? entry, LedgerEntrySetEntry.shown, create] at deleted
    cases deleted

/-- Every run shows a directory with the entries that were added and not deleted. -/
theorem DirRun.shows (run : DirRun root v log stable) (type : root.type = .dirNode) :
    ∃ d, Shows v root d ∧ d.entries.Perm log ∧ (stable = true → d.entries = log) := by
  induction run with
  | @absent v none =>
    exact ⟨.empty, shows_empty none, .refl _, fun _ => rfl⟩
  | @add v w log stable n _ f index done ih =>
    obtain ⟨d, shows, perm, order⟩ := ih
    obtain ⟨d', shows', entries⟩ := shows.added type done
    refine ⟨d', shows', ?_, fun all => ?_⟩
    · rw [entries]
      exact perm.append_right _
    · rw [entries, order all]
  | @delete v w log stable n index _ added keep st done ih =>
    obtain ⟨d, shows, perm, order⟩ := ih
    obtain ⟨w', d', ran, shows', perm', order', -⟩ :=
      dirDelete_shows shows type (perm.mem_iff.2 added) keep st
    cases ran.symm.trans done
    refine ⟨d', shows', perm'.trans (perm.erase _), fun all => ?_⟩
    rw [Bool.and_eq_true] at all
    rw [order' all.2, order all.1]

theorem Shows.page {l m : List (UInt64 × List Key)} {n : UInt64} {indexes : List Key}
    (shows : Shows v root d) (split : d.pages = l ++ (n, indexes) :: m) :
    ∃ s, v.read (getDirNodeIndex root n) = some s ∧ s.getIndexes = indexes ∧
      s.getFieldU64 sfIndexNext = firstOr 0 m := by
  have linked := shows.linked
  rw [split] at linked
  obtain ⟨s, shown, page⟩ := exists_of_pageStore linked.cell
  exact ⟨s, shown, congrArg Cell.entries page, congrArg Cell.next page⟩

/-- The pages are linked in strictly increasing order from the root to the page that the root
names as the last one, each has at most 32 entries and none but the root and the last one is
empty; an entry is on the page it was added to until it is deleted. -/
theorem DirRun.linked_pages (run : DirRun root v log stable) (type : root.type = .dirNode) :
    (∃ d : Directory, Shows v root d) ∧
    ∀ n index, (n, index) ∈ log →
      ∃ sle, v.read (getDirNodeIndex root n) = some sle ∧ index ∈ sle.getIndexes := by
  obtain ⟨d, shows, perm, -⟩ := run.shows type
  refine ⟨⟨d, shows⟩, fun n index added => ?_⟩
  obtain ⟨⟨k, indexes⟩, hp, found⟩ := List.mem_flatMap.1 (perm.mem_iff.2 added)
  obtain ⟨index', inside, same⟩ := List.mem_map.1 found
  obtain rfl : n = k := (congrArg Prod.fst same).symm
  obtain rfl : index = index' := (congrArg Prod.snd same).symm
  obtain ⟨l, m, split⟩ := List.append_of_mem hp
  obtain ⟨sle, shown, own, -⟩ := shows.page split
  exact ⟨sle, shown, own ▸ inside⟩

/-- Additions and stable deletions on one directory, with the entries that are there in the end;
`none` is a call that did not succeed. -/
def session (root : Key) (f : Describer) :
    List (Key ⊕ (UInt64 × Key)) → List (UInt64 × Key) → LES (Option (List (UInt64 × Key)))
  | [], log => return some log
  | .inl index :: calls, log => do
    match ← dirAdd root index f.describe with
    | (.tesSUCCESS, n) => session root f calls (log ++ [(n, index)])
    | _ => return none
  | .inr (n, index) :: calls, log => do
    if (n, index) ∈ log then
      match ← dirDelete false n root index true false with
      | .tesSUCCESS => session root f calls (log.erase (n, index))
      | _ => return none
    else return none

theorem session_preserves {P : LedgerEntrySet → List (UInt64 × Key) → Prop} {f : Describer}
    {calls : List (Key ⊕ (UInt64 × Key))} {log' : List (UInt64 × Key)} {w : LedgerEntrySet}
    (add : ∀ {v w log n} index, P v log →
      dirAdd root index f.describe v = .ok ((.tesSUCCESS, n), w) → P w (log ++ [(n, index)]))
    (delete : ∀ {v w log n index}, P v log → (n, index) ∈ log →
      dirDelete false n root index true false v = .ok (.tesSUCCESS, w) → P w (log.erase (n, index)))
    (start : P v log) (ended : session root f calls log v = .ok (some log', w)) : P w log' := by
  induction calls generalizing v log with
  | nil =>
    cases ended
    exact start
  | cons call calls ih =>
    cases call with
    | inl index =>
      obtain ⟨⟨ter, n⟩, v', done, rest⟩ := bind_eq_ok.1 ended
      cases ter with
      | tesSUCCESS => exact ih (add index start done) rest
      | _ => cases rest
    | inr entry =>
      obtain ⟨n, index⟩ := entry
      rw [session] at ended
      split_ifs at ended with added
      · obtain ⟨ter, v', done, rest⟩ := bind_eq_ok.1 ended
        cases ter with
        | tesSUCCESS => exact ih (delete start added done) rest
        | _ => cases rest
      · cases ended

theorem DirRun.of_session {f : Describer} {calls : List (Key ⊕ (UInt64 × Key))}
    {log' : List (UInt64 × Key)} {w : LedgerEntrySet} (run : DirRun root v log true)
    (ended : session root f calls log v = .ok (some log', w)) : DirRun root w log' true :=
  session_preserves (P := fun v log => DirRun root v log true)
    (fun index run done => run.add f index done)
    (fun run added done => run.delete added false true done) run ended

/-- A set over a ledger without entries. -/
def emptySet : @LedgerEntrySet Key.coded :=
  letI := Key.coded
  { mLedger :=
      { mAccountStateMap := ∅
        mTransactionMap := ∅
        mLedgerSeq := 1
        mBaseFee := 10
        mReferenceFeeUnits := 10
        mReserveBase := 20
        mReserveIncrement := 5 } }

section
omit [Sha512Half]

theorem emptySet_read (k : Key) : @read Key.coded emptySet k = none := by
  let _ := Key.coded
  simp [read, emptySet, Ledger.getSLE]

/-- Three pages are filled, with one entry on the last; the fourth entry of the root and all
entries of the page between the root and the last one are deleted. -/
def thinning : List (Key ⊕ (UInt64 × Key)) :=
  (List.range 65).map (fun i => .inl (.account i)) ++
    (.inr (0, .account 3) :: (List.range 32).map fun i => .inr (1, .account (32 + i)))

def thinned : List (UInt64 × Key) :=
  (((List.range 32).erase 3).map fun i => (0, .account i)) ++ [(2, .account 64)]

theorem thinning_ends : ∃ v, @session Key.coded (.ownerDir 5) (ownerDescriber 5) thinning []
    emptySet = .ok (some thinned, v) := by
  let _ := Key.coded
  have outcome : (session (.ownerDir 5) (ownerDescriber 5) thinning [] emptySet).map
      (fun r => r.1) = .ok (some thinned) := by decide +kernel
  obtain ⟨⟨log, v⟩, ended, rfl⟩ := ExceptFold.map_eq_ok.1 outcome
  exact ⟨v, ended⟩

theorem DirRun.linked_pages_thinned : ∃ (_ : Sha512Half) (v : LedgerEntrySet),
    DirRun (.ownerDir 5) v thinned true ∧ (∃ d, Shows v (.ownerDir 5) d) ∧
      ∀ n index, (n, index) ∈ thinned →
        ∃ sle, v.read (getDirNodeIndex (.ownerDir 5) n) = some sle ∧ index ∈ sle.getIndexes := by
  let _ := Key.coded
  obtain ⟨v, ended⟩ := thinning_ends
  have run := DirRun.of_session (.absent fun _ => emptySet_read _) ended
  exact ⟨Key.coded, v, run, run.linked_pages rfl⟩

end

/-- A cursor of the directory, with the entries that are still to come. -/
def At (v : LedgerEntrySet) (root : Key) (d : Directory) (cursor : DirCursor)
    (remaining : List Key) : Prop :=
  ∃ l n indexes m, d.pages = l ++ (n, indexes) :: m ∧ cursor.sleNode = getDirNodeIndex root n ∧
    v.InSet (getDirNodeIndex root n) ∧
    remaining = indexes.drop cursor.uDirEntry ++ m.flatMap Prod.snd

/-- What `dirNext` returned: the first of the entries that were to come, or false. -/
def Came (v : LedgerEntrySet) (root : Key) (d : Directory) (r : Bool × DirCursor) :
    List Key → Prop
  | [] => r.1 = false
  | index :: remaining => r.1 = true ∧ r.2.uEntryIndex = some index ∧ At v root d r.2 remaining

section
variable (shows : Shows v root d)
include shows

section
variable (split : d.pages = l ++ (n, indexes) :: m) (inSet : v.InSet (getDirNodeIndex root n))
  (i : Nat) (entry : Option Key)
include split inSet i entry

/-- What `dirNext` makes of a cursor on a page. -/
theorem dirNext_came (enough : m.length < fuel) :
    ∃ w r, dirNext root fuel ⟨getDirNodeIndex root n, i, entry⟩ v = .ok (r, w) ∧
      Leads v w v.read ∧ Came w root d r (indexes.drop i ++ m.flatMap Prod.snd) := by
  induction fuel generalizing v l n indexes i entry m with
  | zero => omega
  | succ fuel ih =>
    obtain ⟨s, shown, own, next⟩ := shows.page split
    have held : v.Held (getDirNodeIndex root n) s := ⟨inSet, shown, shows.fresh n⟩
    rw [dirNext, bind_apply_ok held.deref, own, next]
    cases entryAt : indexes[i]? with
    | some index =>
      obtain ⟨inside, rfl⟩ := List.getElem?_eq_some_iff.1 entryAt
      rw [List.drop_eq_getElem_cons inside]
      exact ⟨v, _, rfl, .refl v, rfl, rfl, l, n, indexes, m, split, rfl, inSet, rfl⟩
    | none =>
      rw [List.drop_eq_nil_of_le (List.getElem?_eq_none_iff.1 entryAt)]
      cases m with
      | nil => exact ⟨v, _, rfl, .refl v, rfl⟩
      | cons p m =>
        obtain ⟨q, indexes'⟩ := p
        have split' : d.pages = (l ++ [(n, indexes)]) ++ (q, indexes') :: m := by simp [split]
        obtain ⟨s, shown, -⟩ := shows.page split'
        obtain ⟨v1, run1, leads1, held1⟩ := entryCache_held shown (shows.fresh q)
        have nonzero : firstOr 0 ((q, indexes') :: m) ≠ 0 := d.ne_zero_of_mem_after split (by simp)
        obtain ⟨w, r, ran, leads, came⟩ :=
          ih (shows.congr leads1) split' held1.inSet 0 entry (Nat.lt_of_succ_lt_succ enough)
        refine ⟨w, r, ?_, leads1.trans_read leads, came⟩
        rw [if_neg nonzero]
        exact (bind_apply_ok run1).trans ran

end

theorem dirRest_came {remaining : List Key} {r : Bool × DirCursor}
    (came : Came v root d r remaining) (enough : d.pages.length + remaining.length < fuel) :
    ∃ w, dirRest root fuel r v = .ok (remaining.map some, w) ∧ Leads v w v.read := by
  induction remaining generalizing v r fuel with
  | nil =>
    obtain ⟨fuel, rfl⟩ : ∃ k, fuel = k + 1 := ⟨fuel - 1, by omega⟩
    obtain ⟨found, cursor⟩ := r
    obtain rfl : found = false := came
    exact ⟨v, rfl, .refl v⟩
  | cons index remaining ih =>
    obtain ⟨fuel, rfl⟩ : ∃ k, fuel = k + 1 := ⟨fuel - 1, by omega⟩
    obtain ⟨found, node, i, entry⟩ := r
    obtain ⟨rfl, rfl, l, n, indexes, m, split, rfl, inSet, rfl⟩ := came
    rw [List.length_cons] at enough
    have short : m.length < fuel := by
      have length := congrArg List.length split
      simp only [List.length_append, List.length_cons] at length
      omega
    obtain ⟨w, r, ran, leads, came⟩ := dirNext_came shows split inSet i (some index) short
    obtain ⟨w', ran', leads'⟩ := @ih w fuel (shows.congr leads) r came (by omega)
    refine ⟨w', ?_, leads.trans_read leads'⟩
    rw [dirRest]
    simp only [if_true]
    rw [bind_apply_ok ran, bind_apply_ok ran']
    rfl

/-- An iteration ends with the entries of the directory, page after page. -/
theorem dirIterate_entries (some_ : d.pages ≠ [])
    (enough : d.pages.length + (d.entries.map Prod.snd).length < fuel) :
    ∃ w, dirIterate root fuel v = .ok ((d.entries.map Prod.snd).map some, w) := by
  have entries : d.entries.map Prod.snd = d.pages.flatMap Prod.snd := by
    simp [Directory.entries, List.map_flatMap]
  obtain ⟨s, shown, -, -⟩ := shows.rootPage some_
  obtain ⟨⟨n, indexes⟩, m, split⟩ : ∃ p m, d.pages = p :: m := List.exists_cons_of_ne_nil some_
  obtain rfl : n = 0 := (d.first_iff split).2 rfl
  obtain ⟨v1, run1, leads1, held1⟩ := entryCache_held shown (shows.fresh 0)
  have enough' : m.length < fuel := by
    rw [split, List.length_cons] at enough
    omega
  obtain ⟨v2, r, run2, leads2, came⟩ :=
    dirNext_came (l := []) (shows.congr leads1) split held1.inSet 0 none enough'
  have remaining : indexes.drop 0 ++ m.flatMap Prod.snd = d.entries.map Prod.snd := by
    rw [entries, split, List.flatMap_cons, List.drop_zero]
  rw [remaining] at came
  obtain ⟨w, run3, -⟩ := dirRest_came ((shows.congr leads1).congr leads2) came enough
  refine ⟨w, ?_⟩
  have first : dirFirst root fuel v = .ok (r, v2) := by
    rw [dirFirst, bind_apply_ok run1]
    exact run2
  rw [dirIterate, bind_apply_ok first]
  exact run3

/-- The entries from one page on are counted. -/
theorem dirCountFrom_pages (split : d.pages = l ++ (n, indexes) :: m) (count : UInt32)
    (enough : m.length < fuel) : ∃ w, dirCountFrom root fuel n count v = .ok ((.tesSUCCESS, count +
      UInt32.ofNat (indexes ++ m.flatMap Prod.snd).length), w) := by
  induction fuel generalizing v l n indexes count m with
  | zero => omega
  | succ fuel ih =>
    obtain ⟨s, shown, own, next⟩ := shows.page split
    obtain ⟨v1, run1, leads1, held1⟩ := entryCache_held shown (shows.fresh n)
    rw [dirCountFrom, bind_apply_ok run1]
    simp only [if_true]
    rw [bind_apply_ok held1.deref, own, next]
    cases m with
    | nil =>
      rw [List.flatMap_nil, List.append_nil]
      exact ⟨v1, rfl⟩
    | cons p m =>
      obtain ⟨q, indexes'⟩ := p
      have split' : d.pages = (l ++ [(n, indexes)]) ++ (q, indexes') :: m := by simp [split]
      have nonzero : firstOr 0 ((q, indexes') :: m) ≠ 0 := d.ne_zero_of_mem_after split (by simp)
      obtain ⟨w, ran⟩ := ih (shows.congr leads1) split' (count + UInt32.ofNat indexes.length)
        (Nat.lt_of_succ_lt_succ enough)
      rw [if_pos nonzero]
      refine ⟨w, ran.trans ?_⟩
      simp [UInt32.add_assoc]

theorem dirCount_entries (perm : d.entries.Perm log) (enough : d.pages.length < fuel) :
    ∃ w, dirCount root fuel v = .ok ((.tesSUCCESS, UInt32.ofNat log.length), w) := by
  have entries : log.length = (d.pages.flatMap Prod.snd).length := by
    rw [← perm.length_eq]
    simp [Directory.entries]
  rw [entries]
  by_cases none : d.pages = []
  · obtain ⟨fuel, rfl⟩ : ∃ k, fuel = k + 1 := ⟨fuel - 1, by omega⟩
    have absent := none_of_pageStore (shows.only 0 (by simp [none]))
    refine ⟨v, ?_⟩
    rw [dirCount, dirCountFrom, bind_apply_ok (entryCache_none absent), none]
    rfl
  · obtain ⟨⟨n, indexes⟩, m, split⟩ : ∃ p m, d.pages = p :: m := List.exists_cons_of_ne_nil none
    obtain rfl : n = 0 := (d.first_iff split).2 rfl
    have enough' : m.length < fuel := by
      rw [split, List.length_cons] at enough
      omega
    rw [split]
    obtain ⟨w, ran⟩ := dirCountFrom_pages (l := []) shows split 0 enough'
    rw [UInt32.zero_add] at ran
    exact ⟨w, ran⟩

end

/-- Where the root exists an iteration ends, and returns the entries that were added and not
deleted, in the order they were added if all deletions were stable; where it does not exist
there are no entries. `dirCount` gives their number in 32 bits. -/
theorem DirRun.iterate (run : DirRun root v log stable) (type : root.type = .dirNode) :
    (∀ sle, v.read root = some sle → ∃ bound, ∀ fuel, bound < fuel →
      ∃ entries w, dirIterate root fuel v = .ok (entries.map some, w) ∧
        entries.Perm (log.map Prod.snd) ∧ (stable = true → entries = log.map Prod.snd)) ∧
    (v.read root = none → log = []) ∧
    ∃ bound, ∀ fuel, bound < fuel →
      ∃ w, dirCount root fuel v = .ok ((.tesSUCCESS, UInt32.ofNat log.length), w) := by
  obtain ⟨d, shows, perm, order⟩ := run.shows type
  refine ⟨fun sle shown => ?_, fun absent => ?_, ?_⟩
  · have some_ : d.pages ≠ [] := by
      intro none
      have absent := none_of_pageStore (shows.only 0 (by simp [none]))
      cases absent.symm.trans shown
    refine ⟨d.pages.length + (d.entries.map Prod.snd).length, fun fuel enough => ?_⟩
    obtain ⟨w, ran⟩ := dirIterate_entries shows some_ enough
    exact ⟨_, w, ran, perm.map _, fun all => by rw [order all]⟩
  · by_cases none : d.pages = []
    · rw [Directory.entries, none] at perm
      exact perm.nil_eq.symm
    · obtain ⟨s, shown, -, -⟩ := shows.rootPage none
      cases absent.symm.trans shown
  · refine ⟨d.pages.length, fun fuel enough => ?_⟩
    exact dirCount_entries shows perm enough

section
omit [Sha512Half]

theorem DirRun.iterate_thinned : ∃ (_ : Sha512Half) (v : LedgerEntrySet),
    DirRun (.ownerDir 5) v thinned true ∧
      (∃ fuel w, dirIterate (.ownerDir 5) fuel v = .ok ((thinned.map Prod.snd).map some, w)) ∧
      ∃ fuel w, dirCount (.ownerDir 5) fuel v = .ok ((.tesSUCCESS, 32), w) := by
  let _ := Key.coded
  obtain ⟨v, ended⟩ := thinning_ends
  have run := DirRun.of_session (.absent fun _ => emptySet_read _) ended
  obtain ⟨iterates, present, least, counts⟩ := run.iterate rfl
  cases shown : v.read (.ownerDir 5) with
  | none => cases present shown
  | some sle =>
    obtain ⟨bound, ends⟩ := iterates sle shown
    obtain ⟨entries, w, ran, -, order⟩ := ends (bound + 1) (Nat.lt_succ_self bound)
    rw [order rfl] at ran
    exact ⟨Key.coded, v, run, ⟨bound + 1, w, ran⟩, least + 1, counts _ (Nat.lt_succ_self least)⟩

/-- Where the last entry was deleted the root is gone, and `dirFirst` goes through a null
pointer. -/
theorem dirIterate_emptied : ∃ (_ : Sha512Half) (v : LedgerEntrySet),
    DirRun (.ownerDir 5) v [] true ∧ ∀ fuel, dirIterate (.ownerDir 5) fuel v = .error .nullPointer := by
  let _ := Key.coded
  let session : LES ((TER × UInt64) × TER × Bool) := do
    let added ← dirAdd (.ownerDir 5) (.account 7) (ownerDescriber 5).describe
    let deleted ← dirDelete false 0 (.ownerDir 5) (.account 7) true false
    return (added, deleted, ← entryCache (.ownerDir 5))
  have outcome : (session emptySet).map (fun r => r.1) =
      .ok ((.tesSUCCESS, 0), .tesSUCCESS, false) := by decide +kernel
  obtain ⟨⟨result, v3⟩, ended, rfl⟩ := ExceptFold.map_eq_ok.1 outcome
  obtain ⟨added, v1, run1, ended1⟩ := bind_eq_ok.1 ended
  obtain ⟨deleted, v2, run2, ended2⟩ := bind_eq_ok.1 ended1
  obtain ⟨found, v3', run3, ended3⟩ := bind_eq_ok.1 ended2
  cases ended3
  have absent (n : UInt64) := emptySet_read (getDirNodeIndex (.ownerDir 5) n)
  have run : DirRun (.ownerDir 5) v1 [(0, .account 7)] true := .add (.absent absent) _ _ run1
  refine ⟨Key.coded, v2, run.delete List.mem_cons_self false true run2, fun fuel => ?_⟩
  have first : dirFirst (.ownerDir 5) fuel v2 = .error .nullPointer := by
    rw [dirFirst, bind_apply_ok run3]
    rfl
  simp [dirIterate, bind, StateT.bind, Except.bind, first]

end

end Skywell.LedgerEntrySet
