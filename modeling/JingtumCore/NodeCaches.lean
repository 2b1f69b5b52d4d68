import Mathlib.Order.Nat
import Mathlib.Tactic.Common

/-!
# The caches of the node store

`DatabaseImp` as one hash sees it: its entries in `m_cache` and `m_negCache`, and whether the
backend has the object. Each use of a cache or of the backend is one step of a call. It is given
the time, and whether a pointer to the object is held elsewhere.
-/
namespace Skywell.NodeStore

/-- `TaggedCache::Entry`. A weak entry has its object only as long as it is held elsewhere. -/
structure Entry where
  last_access : Nat
  isCached : Bool

def TaggedCache.fetch (entry : Option Entry) (now : Nat) (held : Bool) : Option Entry :=
  entry.bind fun e => if e.isCached || held then some ⟨now, true⟩ else none

def TaggedCache.sweep (entry : Option Entry) (when_expire : Nat) (held : Bool) : Option Entry :=
  entry.bind fun e =>
    if e.isCached && when_expire < e.last_access then some e
    else if held then some { e with isCached := false } else none

def KeyCache.sweep (entry : Option Nat) (now when_expire : Nat) : Option Nat :=
  entry.bind fun last_access =>
    if now < last_access then some now
    else if last_access ≤ when_expire then none else some last_access

/-- What a `doFetch` or a `storeInternal` does next. -/
inductive Call where
  | fetchCache
  | touchNegCache
  | fetchBackend
  | fetchCacheAgain
  | insertNegCache
  | canonicalize
  | returned (found : Bool)
  | replaceCache
  | storeBackend
  | eraseNegCache
  | stored

structure DatabaseImp where
  m_cache : Option Entry := none
  m_negCache : Option Nat := none
  m_backend : Bool

def DatabaseImp.advance (db : DatabaseImp) (now : Nat) (held : Bool) : Call → Call × DatabaseImp
  | .fetchCache =>
    let m_cache := TaggedCache.fetch db.m_cache now held
    (if m_cache.isSome then .returned true else .touchNegCache, { db with m_cache })
  | .touchNegCache =>
    (if db.m_negCache.isSome then .returned false else .fetchBackend,
      { db with m_negCache := db.m_negCache.map fun _ => now })
  | .fetchBackend => (if db.m_backend then .canonicalize else .fetchCacheAgain, db)
  | .fetchCacheAgain =>
    let m_cache := TaggedCache.fetch db.m_cache now held
    (if m_cache.isSome then .returned true else .insertNegCache, { db with m_cache })
  | .insertNegCache => (.returned false, { db with m_negCache := some now })
  | .canonicalize => (.returned true, { db with m_cache := some ⟨now, true⟩ })
  | .replaceCache => (.storeBackend, { db with m_cache := some ⟨now, true⟩ })
  | .storeBackend => (.eraseNegCache, { db with m_backend := true })
  | .eraseNegCache => (.stored, { db with m_negCache := none })
  | call => (call, db)

/-- A database and the calls on it, by their threads. -/
structure Shared extends DatabaseImp where
  calls : Nat → Call

inductive Event where
  | advance (thread now : Nat) (held : Bool)
  | sweepCache (when_expire : Nat) (held : Bool)
  | sweepNegCache (now when_expire : Nat)

def Event.isOf (thread : Nat) : Event → Bool
  | .advance t _ _ => t == thread
  | _ => false

namespace Shared

def start (m_backend : Bool) (stores : Nat → Bool) : Shared :=
  ⟨{ m_backend }, fun t => if stores t then .replaceCache else .fetchCache⟩

def step (s : Shared) : Event → Shared
  | .advance t now held =>
    let (call, db) := s.advance now held (s.calls t)
    ⟨db, Function.update s.calls t call⟩
  | .sweepCache when_expire held =>
    { s with m_cache := TaggedCache.sweep s.m_cache when_expire held }
  | .sweepNegCache now when_expire =>
    { s with m_negCache := KeyCache.sweep s.m_negCache now when_expire }

def run (s : Shared) (events : List Event) : Shared := events.foldl step s

/-- Whatever happens next, thread `t` has the object once it has made the five steps that a
fetch takes at most. -/
def Answers (s : Shared) (t : Nat) : Prop :=
  ∀ events, 5 ≤ events.countP (Event.isOf t) → (s.run events).calls t = .returned true

variable {s : Shared} {t u : Nat}

/-- A store past its second step has put the object into the backend. -/
def Sound (s : Shared) : Prop :=
  ∀ t, s.calls t = .eraseNegCache ∨ s.calls t = .stored → s.m_backend = true

theorem Sound.step (sound : Sound s) (e : Event) : Sound (s.step e) := by
  cases e with
  | advance u now held =>
    intro t
    have own := sound u
    have other := sound t
    by_cases same : t = u <;> cases next : s.calls u <;>
      simp_all [Shared.step, DatabaseImp.advance, ite_eq_iff]
  | _ => exact sound

theorem Sound.run (sound : Sound s) (events : List Event) : Sound (s.run events) :=
  List.foldlRecOn events _ sound fun _ sound e _ => sound.step e

/-- The call is a fetch that has not found the object in the backend and is about to give up. -/
def Missed (call : Call) : Prop := call = .fetchCacheAgain ∨ call = .insertNegCache

/-- The steps to the object, while nothing records the hash as missing. -/
def left : Call → Nat
  | .returned true => 0
  | .canonicalize => 1
  | .fetchBackend => 2
  | .touchNegCache => 3
  | .fetchCache => 4
  | _ => 5

structure Finds (s : Shared) (t n : Nat) : Prop where
  stored : s.m_backend = true
  unlisted : s.m_negCache = none
  pending : ∀ u, ¬Missed (s.calls u)
  soon : left (s.calls t) ≤ n
  most : n ≤ 4

theorem advance_finds {db : DatabaseImp} {call : Call} (stored : db.m_backend = true)
    (unlisted : db.m_negCache = none) (pending : ¬Missed call) (now : Nat) (held : Bool) :
    (db.advance now held call).2.m_backend = true ∧
      (db.advance now held call).2.m_negCache = none ∧
      ¬Missed (db.advance now held call).1 ∧
      (left call ≤ 4 → left (db.advance now held call).1 ≤ left call - 1) := by
  cases call with
  | fetchCache => simp only [DatabaseImp.advance]; split <;> simp_all [Missed, left]
  | returned found => cases found <;> simp_all [DatabaseImp.advance, left]
  | _ => simp_all [DatabaseImp.advance, Missed, left]

theorem Finds.step {n : Nat} (finds : Finds s t n) (e : Event) :
    Finds (s.step e) t (n - if e.isOf t then 1 else 0) := by
  obtain ⟨stored, unlisted, pending, soon, most⟩ := finds
  cases e with
  | advance u now held =>
    obtain ⟨stored, unlisted, passed, nearer⟩ := advance_finds stored unlisted (pending u) now held
    refine ⟨stored, unlisted, ?_, ?_, by omega⟩
    · exact (Function.forall_update_iff _ fun _ c => ¬Missed c).2 ⟨passed, fun v _ => pending v⟩
    · by_cases same : u = t
      · subst same
        have := nearer (by omega)
        simp only [Shared.step, Function.update_self, Event.isOf, beq_self_eq_true, if_true]
        omega
      · simpa [Shared.step, Event.isOf, same, Ne.symm same] using soon
  | sweepCache => exact ⟨stored, unlisted, pending, soon, most⟩
  | sweepNegCache => exact ⟨stored, by rw [Shared.step, unlisted]; rfl, pending, soon, most⟩

theorem Finds.run {n : Nat} (finds : Finds s t n) (events : List Event) :
    Finds (s.run events) t (n - events.countP (Event.isOf t)) := by
  induction events generalizing s n with
  | nil => exact finds
  | cons e events ih =>
    have rest := ih (finds.step e)
    rwa [Nat.sub_sub, Nat.add_comm, ← List.countP_cons] at rest

theorem Finds.answers (finds : Finds s t 4) : Answers s t := by
  intro events enough
  have soon := (finds.run events).soon
  rw [Nat.sub_eq_zero_of_le (by omega)] at soon
  generalize (s.run events).calls t = call at soon
  match call with
  | .returned true => rfl

theorem Answers.step (answers : Answers s t) (e : Event) : Answers (s.step e) t :=
  fun events enough => answers (e :: events) (by rw [List.countP_cons]; omega)

theorem Answers.found (answers : Answers s t) : s.calls t ≠ .returned false := by
  intro ended
  have answer := answers (List.replicate 5 (.advance t 0 false)) (by simp [Event.isOf])
  simp [run, Shared.step, DatabaseImp.advance, ended] at answer

/-- The cache may forget the object at any time. -/
theorem swept (s : Shared) : ∃ e, s.step e = { s with m_cache := none } := by
  refine ⟨.sweepCache (s.m_cache.elim 0 Entry.last_access) false, ?_⟩
  cases h : s.m_cache <;> simp [step, TaggedCache.sweep, h]

theorem Answers.unlisted (answers : Answers s t) (idle : s.calls t = .fetchCache) :
    s.m_negCache = none := by
  obtain ⟨e, forgets⟩ := swept s
  have found := ((answers.step e).step (.advance t 0 false)).step (.advance t 0 false) |>.found
  rw [forgets] at found
  simpa [Shared.step, DatabaseImp.advance, TaggedCache.fetch, idle] using found

theorem Answers.notInserting (answers : Answers s t) (idle : s.calls t = .fetchCache) :
    s.calls u ≠ .insertNegCache := by
  intro missed
  have other : t ≠ u := by rintro rfl; simp [idle] at missed
  have listed := (answers.step (.advance u 0 false)).unlisted
  simp [Shared.step, DatabaseImp.advance, missed, other, idle] at listed

theorem Answers.pending (answers : Answers s t) (idle : s.calls t = .fetchCache) (u : Nat) :
    ¬Missed (s.calls u) := by
  rintro (missed | missed)
  · obtain ⟨e, forgets⟩ := swept s
    have other : t ≠ u := by rintro rfl; simp [idle] at missed
    have next := ((answers.step e).step (.advance u 0 false)).notInserting (u := u)
    rw [forgets] at next
    simp [Shared.step, DatabaseImp.advance, TaggedCache.fetch, missed, other, idle] at next
  · exact answers.notInserting idle missed

/-- After a store, a fetch that has not begun returns the object, whatever happens meanwhile,
exactly if the hash is not recorded as missing and no earlier fetch is about to record it. -/
theorem fetch_after_store_iff {m_backend : Bool} {stores : Nat → Bool} {events : List Event}
    (reached : (start m_backend stores).run events = s) (stored : s.calls u = .stored)
    (idle : s.calls t = .fetchCache) :
    Answers s t ↔ s.m_negCache = none ∧ ∀ u, ¬Missed (s.calls u) := by
  have sound : Sound (start m_backend stores) := by simp [Sound, start, ite_eq_iff]
  have backend := sound.run events u
  rw [reached] at backend
  refine ⟨fun answers => ⟨answers.unlisted idle, answers.pending idle⟩, ?_⟩
  rintro ⟨unlisted, pending⟩
  exact Finds.answers ⟨backend (.inr stored), unlisted, pending, by simp [idle, left], le_refl 4⟩

theorem fetch_after_store_alone :
    Answers ((start false (· == 0)).run (List.replicate 3 (.advance 0 7 false))) 1 := by
  refine (fetch_after_store_iff (u := 0) rfl rfl rfl).2 ⟨rfl, fun u => ?_⟩
  by_cases first : u = 0 <;> simp [first, Missed, run, start, step, DatabaseImp.advance]

/-- The fetch of thread 1 records the hash after the store, and a sweep takes the object out of
the cache. -/
theorem fetch_after_store_misses :
    let s := (start false (· == 0)).run (List.replicate 4 (.advance 1 1 false) ++
      List.replicate 3 (.advance 0 2 false) ++
      [.advance 1 3 false, .sweepCache 2 false, .sweepNegCache 4 2])
    s.calls 0 = .stored ∧ s.calls 2 = .fetchCache ∧
      (s.run (List.replicate 2 (.advance 2 4 false))).calls 2 = .returned false :=
  ⟨rfl, rfl, rfl⟩

end Shared

end Skywell.NodeStore
