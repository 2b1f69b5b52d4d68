import JingtumCore.DirectoryRuns

/-!
# Empty directories

What `dirIsEmpty` says after any sequence of additions and hard deletions that
need not keep the root. The one deletion after which it is wrong takes the only
entry from a page between the root and the last one: both of these stay.
-/
namespace Skywell.LedgerEntrySet
open LinkedStore StateExcept U64Field
variable [Sha512Half]

/-- The page that the root of a directory names as the last one. -/
def lastPage (v : LedgerEntrySet) (root : Key) : UInt64 :=
  match v.read root with
  | some sle => sle.getFieldU64 sfIndexPrevious
  | none => 0

/-- The deletion takes the only entry, from a page that is neither the root nor the last. -/
def leavesPages (v : LedgerEntrySet) (root : Key) (log : List (UInt64 × Key)) (n : UInt64)
    (index : Key) : Bool :=
  log == [(n, index)] && n != 0 && n != v.lastPage root

/-- What successful additions and hard deletions with `bKeepRoot` off lead to where there was no
directory: the set, the entries added and not deleted with the pages they were added to, and
whether the last call was a deletion that left pages behind. -/
inductive HardRun (root : Key) : LedgerEntrySet → List (UInt64 × Key) → Bool → Prop
  | absent {v : LedgerEntrySet} (none : ∀ n, v.read (getDirNodeIndex root n) = none) :
      HardRun root v [] false
  | add {v w : LedgerEntrySet} {log : List (UInt64 × Key)} {left : Bool} {n : UInt64}
      (run : HardRun root v log left) (f : Describer) (index : Key)
      (done : dirAdd root index f.describe v = .ok ((.tesSUCCESS, n), w)) :
      HardRun root w (log ++ [(n, index)]) false
  | delete {v w : LedgerEntrySet} {log : List (UInt64 × Key)} {left : Bool} {n : UInt64}
      {index : Key} (run : HardRun root v log left) (added : (n, index) ∈ log) (bStable : Bool)
      (done : dirDelete false n root index bStable false v = .ok (.tesSUCCESS, w)) :
      HardRun root w (log.erase (n, index)) (leavesPages v root log n index)

variable {v : LedgerEntrySet} {root : Key} {d : Directory} {log : List (UInt64 × Key)} {left : Bool}

theorem Shows.lastPage_eq (shows : Shows v root d) : v.lastPage root = d.last := by
  by_cases none : d.pages = []
  · have absent : v.read (getDirNodeIndex root 0) = Option.none :=
      none_of_pageStore (shows.only 0 (by simp [none]))
    rw [getDirNodeIndex_zero] at absent
    rw [lastPage, absent, Directory.last, none]
    rfl
  · obtain ⟨sle, shown, previous, -⟩ := shows.rootPage none
    rw [lastPage, shown]
    exact previous

/-- A directory without entries that has two pages or more is taken for one that has entries. -/
theorem dirIsEmpty_shows (shows : Shows v root d) :
    ∃ b w, dirIsEmpty root v = .ok (b, w) ∧ ((b = true ↔ d.entries = []) ↔ d.Tidy) := by
  obtain ⟨pages, first, increasing, short, middle⟩ := d
  cases pages with
  | nil =>
    have absent : v.read (getDirNodeIndex root 0) = none :=
      none_of_pageStore (shows.only 0 (by simp))
    rw [getDirNodeIndex_zero] at absent
    refine ⟨true, v, ?_, by simp [Directory.entries, Directory.Tidy]⟩
    rw [dirIsEmpty, bind_apply_ok (entryCache_none absent)]
    rfl
  | cons p m =>
    obtain ⟨n, indexes⟩ := p
    have zero : n = 0 := first
    subst zero
    obtain ⟨sle, shown, own, next⟩ := shows.page (l := []) rfl
    rw [getDirNodeIndex_zero] at shown
    have fresh := shows.fresh 0
    obtain ⟨w, run, -, held⟩ := entryCache_held shown fresh
    rw [dirIsEmpty, bind_apply_ok run]
    simp only [Bool.not_true, reduceCtorEq, if_false]
    rw [bind_apply_ok held.deref, own, next]
    cases indexes with
    | cons index rest =>
      exact ⟨false, w, rfl, by simp [Directory.entries, Directory.Tidy]⟩
    | nil =>
      cases m with
      | nil => exact ⟨true, w, rfl, by simp [Directory.entries, Directory.Tidy]⟩
      | cons q m =>
        have nonzero : q.1 ≠ 0 :=
          Directory.ne_zero_of_mem_after ⟨_, first, increasing, short, middle⟩ (l := []) rfl (by simp)
        refine ⟨false, w, ?_, by simp [Directory.Tidy]⟩
        have false_ : (q.1 == 0) = false := beq_eq_false_iff_ne.2 nonzero
        simp only [firstOr_cons,
          false_]
        rfl

/-- Every run shows a directory with the entries that were added and not deleted, and pages
stay behind only after the last call of the run left them. -/
theorem HardRun.shows (run : HardRun root v log left) (type : root.type = .dirNode) :
    ∃ d, Shows v root d ∧ d.entries.Perm log ∧ (d.Tidy ↔ left = false) := by
  induction run with
  | @absent v none =>
    exact ⟨.empty, shows_empty none, .refl _, iff_of_true Directory.empty_tidy rfl⟩
  | @add v w log left n _ f index done ih =>
    obtain ⟨d, shows, perm, -⟩ := ih
    obtain ⟨d', shows', entries⟩ := shows.added type done
    refine ⟨d', shows', ?_, iff_of_true (fun none => ?_) rfl⟩
    · rw [entries]
      exact perm.append_right _
    · rw [entries] at none
      exact absurd none (by simp)
  | @delete v w log left n index _ added st done ih =>
    obtain ⟨d, shows, perm, -⟩ := ih
    obtain ⟨w', d', ran, shows', perm', -, tidy⟩ :=
      dirDelete_shows shows type (perm.mem_iff.2 added) false st
    cases ran.symm.trans done
    have all : d'.entries.Perm (log.erase (n, index)) := perm'.trans (perm.erase _)
    refine ⟨d', shows', all, (tidy rfl).trans ?_⟩
    have gone : d'.entries = [] ↔ log = [(n, index)] := by
      rw [← List.length_eq_zero_iff, all.length_eq, List.length_eq_zero_iff, List.erase_eq_nil_iff,
        or_iff_right (List.ne_nil_of_mem added)]
    rw [← shows.lastPage_eq, leavesPages]
    simp only [Bool.and_eq_false_iff, beq_eq_false_iff_ne, bne_eq_false_iff_eq]
    tauto

/-- `dirIsEmpty` returns true exactly where no entry remains, unless the last call took the only
entry from a page between the root and the last page. -/
theorem HardRun.dirIsEmpty_iff (run : HardRun root v log left) (type : root.type = .dirNode) :
    ∃ b w, dirIsEmpty root v = .ok (b, w) ∧ ((b = true ↔ log = []) ↔ left = false) := by
  obtain ⟨d, shows, perm, tidy⟩ := run.shows type
  obtain ⟨b, w, ran, exact_⟩ := dirIsEmpty_shows shows
  have none : d.entries = [] ↔ log = [] := by
    rw [← List.length_eq_zero_iff, perm.length_eq, List.length_eq_zero_iff]
  rw [none] at exact_
  exact ⟨b, w, ran, exact_.trans tidy⟩

theorem HardRun.left_of_ne_nil (run : HardRun root v log left) (some_ : log ≠ []) :
    left = false := by
  cases run with
  | absent => rfl
  | add => rfl
  | @delete v _ log _ n index _ _ _ _ =>
    have more : log ≠ [(n, index)] := fun one => some_ (by simp [one])
    simp [leavesPages, more]

theorem HardRun.of_session {f : Describer} {calls : List (Key ⊕ (UInt64 × Key))}
    {log' : List (UInt64 × Key)} {w : LedgerEntrySet} (run : HardRun root v log left)
    (ended : session root f calls log v = .ok (some log', w)) :
    ∃ left', HardRun root w log' left' :=
  session_preserves (P := fun v log => ∃ left, HardRun root v log left)
    (fun index ⟨_, run⟩ done => ⟨_, run.add f index done⟩)
    (fun ⟨_, run⟩ added done => ⟨_, run.delete added true done⟩) ⟨left, run⟩ ended

omit [Sha512Half] in
theorem HardRun.dirIsEmpty_iff_thinned : ∃ (_ : Sha512Half) (v : LedgerEntrySet),
    HardRun (.ownerDir 5) v thinned false ∧
      ∃ w, dirIsEmpty (.ownerDir 5) v = .ok (false, w) := by
  let _ := Key.coded
  obtain ⟨v, ended⟩ := thinning_ends
  obtain ⟨left, run⟩ := HardRun.of_session (.absent fun _ => emptySet_read _) ended
  obtain rfl : left = false := run.left_of_ne_nil (by decide)
  obtain ⟨b, w, ran, exact_⟩ := run.dirIsEmpty_iff rfl
  cases b with
  | false => exact ⟨Key.coded, v, run, w, ran⟩
  | true => exact absurd ((exact_.2 rfl).1 rfl) (by decide)

/-- Three pages are filled with one entry on the last; the last, the root and then the page
between them are emptied. -/
def threePages : List (Key ⊕ (UInt64 × Key)) :=
  (List.range 65).map (fun i => .inl (.account i)) ++
    (.inr (2, .account 64) :: (List.range 64).map fun i => .inr (i.toUInt64 / 32, .account i))

omit [Sha512Half] in
theorem HardRun.dirIsEmpty_emptied : ∃ (_ : Sha512Half) (v w : LedgerEntrySet) (left : Bool),
    HardRun (.ownerDir 5) v [] left ∧ dirIsEmpty (.ownerDir 5) v = .ok (false, w) := by
  let _ := Key.coded
  let whole : LES (Option (List (UInt64 × Key)) × Bool) := do
    let log ← session (.ownerDir 5) (ownerDescriber 5) threePages []
    return (log, ← dirIsEmpty (.ownerDir 5))
  have outcome : (whole emptySet).map (fun r => r.1) = .ok (some [], false) := by decide +kernel
  obtain ⟨⟨result, w⟩, ended, rfl⟩ := ExceptFold.map_eq_ok.1 outcome
  obtain ⟨log, v, ran, ended1⟩ := bind_eq_ok.1 ended
  obtain ⟨b, w', said, ended2⟩ := bind_eq_ok.1 ended1
  cases ended2
  have absent (n : UInt64) := emptySet_read (getDirNodeIndex (.ownerDir 5) n)
  obtain ⟨left, run⟩ := HardRun.of_session (.absent absent) ran
  exact ⟨Key.coded, v, w, left, run, said⟩

end Skywell.LedgerEntrySet
