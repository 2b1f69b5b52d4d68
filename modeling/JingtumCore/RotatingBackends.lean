import Mathlib.Order.Nat
import Mathlib.Tactic.Common

/-!
# Rotating backends

`DatabaseRotatingImp` looks an object up in the writable and then in the archive backend. It keeps
references to the two pointers, so each lookup reads its pointer anew. An object is determined by
its hash, so a backend is given by the hashes it has.
-/
namespace Skywell.NodeStore

structure Backends where
  writableBackend_ : Nat
  archiveBackend_ : Nat

namespace Backends

def rotateBackends (b : Backends) (newBackend : Nat) : Backends × Nat :=
  (⟨newBackend, b.writableBackend_⟩, b.archiveBackend_)

/-- The pointers before each step of another thread, if `rotateBackends` assigns the archive
before step `p` and the writable backend before step `q`. The mutex guards none of the reads. -/
def during (b : Backends) (newBackend p q step : Nat) : Backends where
  writableBackend_ := if q ≤ step then (b.rotateBackends newBackend).1.writableBackend_
    else b.writableBackend_
  archiveBackend_ := if p ≤ step then (b.rotateBackends newBackend).1.archiveBackend_
    else b.archiveBackend_

end Backends

/-- What each backend has. -/
abbrev Stored := Nat → Nat → Bool

def Stored.store (stored : Stored) (backend hash : Nat) : Stored :=
  Function.update stored backend (Function.update (stored backend) hash true)

structure Fetched where
  object : Bool
  stored : Stored
  /-- The step before which the call returns. -/
  step : Nat

/-- `fetchFrom`: steps 0, 2 and 4 read a pointer, steps 1, 3 and 5 call the backend. -/
def fetchFrom (stored : Stored) (pointers : Nat → Backends) (hash : Nat) : Fetched :=
  if stored (pointers 0).writableBackend_ hash then ⟨true, stored, 2⟩
  else if stored (pointers 2).archiveBackend_ hash then
    ⟨true, stored.store (pointers 4).writableBackend_ hash, 6⟩
  else ⟨false, stored, 4⟩

/-- The object is returned and is then in one of the two backends. -/
def Fetched.Survives (r : Fetched) (pointers : Nat → Backends) (hash : Nat) : Prop :=
  r.object = true ∧ (r.stored (pointers r.step).writableBackend_ hash = true ∨
    r.stored (pointers r.step).archiveBackend_ hash = true)

variable {stored : Stored} {b : Backends} {newBackend p q hash : Nat}

/-- A backend that was writable at a step of the other thread is one of the two later on. -/
theorem during_kept (order : p ≤ q) {i j : Nat} (later : i ≤ j)
    (has : stored (b.during newBackend p q i).writableBackend_ hash = true) :
    stored (b.during newBackend p q j).writableBackend_ hash = true ∨
      stored (b.during newBackend p q j).archiveBackend_ hash = true := by
  simp only [Backends.during] at *
  by_cases assigned : q ≤ i
  · rw [if_pos assigned] at has
    rw [if_pos (assigned.trans later)]
    exact .inl has
  rw [if_neg assigned] at has
  by_cases rotated : q ≤ j
  · rw [if_pos (order.trans rotated)]
    exact .inr has
  · rw [if_neg rotated]
    exact .inl has

/-- A lookup of an object that is in one of the backends survives a rotation exactly if the
object is in the writable one, or the archive is read before it is replaced. -/
theorem fetchFrom_survives_iff (order : p ≤ q) (fresh : stored newBackend hash = false)
    (found : stored b.writableBackend_ hash = true ∨ stored b.archiveBackend_ hash = true) :
    (fetchFrom stored (b.during newBackend p q) hash).Survives (b.during newBackend p q) hash ↔
      stored b.writableBackend_ hash = true ∨ 2 < p := by
  unfold fetchFrom
  by_cases first : stored (b.during newBackend p q 0).writableBackend_ hash = true
  · rw [if_pos first]
    refine iff_of_true ⟨rfl, during_kept order (Nat.zero_le 2) first⟩ (.inl ?_)
    by_cases assigned : q ≤ 0 <;> simp_all [Backends.during, Backends.rotateBackends]
  rw [if_neg first]
  by_cases second : stored (b.during newBackend p q 2).archiveBackend_ hash = true
  · rw [if_pos second]
    refine iff_of_true ⟨rfl, during_kept order (show 4 ≤ 6 by decide) ?_⟩ ?_
    · simp [Stored.store]
    · by_cases assigned : p ≤ 2
      · exact .inl (by simpa [Backends.during, Backends.rotateBackends, assigned] using second)
      · exact .inr (by omega)
  · rw [if_neg second]
    refine iff_of_false (fun survives => Bool.false_ne_true survives.1) ?_
    by_cases assigned : p ≤ 2
    · simp_all [Backends.during, Backends.rotateBackends]
    · have unassigned : q ≠ 0 := by omega
      simp_all [Backends.during]

theorem fetchFrom_survives_writable :
    (fetchFrom (fun b _ => b == 1) ((Backends.mk 1 2).during 3 1 1) 7).Survives
      ((Backends.mk 1 2).during 3 1 1) 7 :=
  (fetchFrom_survives_iff (le_refl 1) rfl (.inl rfl)).2 (.inl rfl)

/-- The archive that has the object is replaced between the two lookups. -/
theorem fetchFrom_misses_archive :
    (fetchFrom (fun b _ => b == 2) ((Backends.mk 1 2).during 3 2 2) 7).object = false := by
  decide

end Skywell.NodeStore
