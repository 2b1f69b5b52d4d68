import Mathlib.Logic.Relation
import Mathlib.Tactic.Common

/-!
# Threads on a shared state

Programs that act on a shared state in atomic steps and may fail, the runs of
a pool of them in any order, and a rule for what holds in all of these runs: a
state only moves along a preorder that keeps what a thread has learnt, and each
thread keeps an invariant in whatever later state it is scheduled.
-/
namespace Interleaving
universe u

inductive Thread (σ ε α : Type u) where
  | done (a : α)
  | fail (e : ε)
  | step (act : σ → σ) (rest : σ → Thread σ ε α)

variable {σ ε α β : Type u}

namespace Thread

def bind : Thread σ ε α → (α → Thread σ ε β) → Thread σ ε β
  | done a, f => f a
  | fail e, _ => fail e
  | step act rest, f => step act fun s => (rest s).bind f

def tryCatch : Thread σ ε α → (ε → Thread σ ε α) → Thread σ ε α
  | done a, _ => done a
  | fail e, handler => handler e
  | step act rest, handler => step act fun s => (rest s).tryCatch handler

instance : Monad (Thread σ ε) where
  pure := done
  bind := bind

instance : MonadExceptOf ε (Thread σ ε) where
  throw := fail
  tryCatch := tryCatch

/-- One step that changes the state and returns a value. -/
def atomic (f : σ → α × σ) : Thread σ ε α :=
  step (fun s => (f s).2) fun s => done (f s).1

/-- The thread run alone to its end. -/
def exec : Thread σ ε α → σ → Except ε α × σ
  | done a, s => (.ok a, s)
  | fail e, s => (.error e, s)
  | step act rest, s => (rest s).exec (act s)

end Thread

/-- What can happen besides the steps of threads: a thread starts, or the state
changes by itself. -/
structure System (σ ε : Type u) where
  starts : σ → Thread σ ε PUnit → σ → Prop
  drifts : σ → σ → Prop

inductive System.Step (sys : System σ ε) :
    List (Thread σ ε PUnit) × σ → List (Thread σ ε PUnit) × σ → Prop
  | start {threads s t s'} : sys.starts s t s' → Step sys (threads, s) (t :: threads, s')
  | act {before after s act rest} :
      Step sys (before ++ .step act rest :: after, s) (before ++ rest s :: after, act s)
  | drift {threads s s'} : sys.drifts s s' → Step sys (threads, s) (threads, s')

def System.Reachable (sys : System σ ε) (s0 : σ) :
    List (Thread σ ε PUnit) × σ → Prop :=
  Relation.ReflTransGen sys.Step ([], s0)

variable {sys : System σ ε} {f : α → Thread σ ε β} {s0 : σ}

/-- A thread may run to its end with no other in between. -/
theorem System.Reachable.exec {threads : List (Thread σ ε PUnit)} {t : Thread σ ε PUnit} {s : σ}
    (h : sys.Reachable s0 (t :: threads, s)) :
    ∃ t', sys.Reachable s0 (t' :: threads, (t.exec s).2) := by
  induction t generalizing s with
  | done a => exact ⟨_, h⟩
  | fail e => exact ⟨_, h⟩
  | step act rest ih => exact ih s (.tail h (@Step.act _ _ sys [] threads s act rest))

/-- An invariant of the state, and how states may follow one another. -/
structure Discipline (σ : Type u) where
  inv : σ → Prop
  after : σ → σ → Prop
  refl : ∀ s, after s s
  trans : ∀ {s1 s2 s3}, after s1 s2 → after s2 s3 → after s1 s3

/-- `s'` may be found later than `s`. -/
def Discipline.Later (D : Discipline σ) (s s' : σ) : Prop := D.after s s' ∧ D.inv s'

/-- The thread, which was last scheduled in `s`, keeps the discipline in any
later state, and if it ends then `Q` holds from there on. -/
def Safe (D : Discipline σ) (Q : α → σ → Prop) : Thread σ ε α → σ → Prop
  | .done a, s => ∀ s', D.Later s s' → Q a s'
  | .fail _, _ => True
  | .step act rest, s =>
    ∀ s', D.Later s s' → D.Later s' (act s') ∧ Safe D Q (rest s') (act s')

section
variable {D : Discipline σ} {Q R : α → σ → Prop} {P : β → σ → Prop} {s s' : σ}
  {t : Thread σ ε α}

theorem Safe.later (h : Safe D Q t s) (hs : D.after s s') : Safe D Q t s' := by
  cases t with
  | done a => exact fun s'' h' => h s'' ⟨D.trans hs h'.1, h'.2⟩
  | fail e => trivial
  | step act rest => exact fun s'' h' => h s'' ⟨D.trans hs h'.1, h'.2⟩

/-- It is enough to look at the states in which the thread can be scheduled. -/
theorem Safe.of_later (h : ∀ s', D.Later s s' → Safe D Q t s') : Safe D Q t s := by
  cases t with
  | done a => exact fun s' hs => h s' hs s' ⟨D.refl s', hs.2⟩
  | fail e => trivial
  | step act rest => exact fun s' hs => h s' hs s' ⟨D.refl s', hs.2⟩

theorem Safe.mono (h : Safe D Q t s) (hQ : ∀ a s', Q a s' → R a s') : Safe D R t s := by
  induction t generalizing s with
  | done a => exact fun s' hs => hQ a s' (h s' hs)
  | fail e => trivial
  | step act rest ih => exact fun s' hs => ⟨(h s' hs).1, ih s' (h s' hs).2⟩

theorem Safe.bind (h : Safe D Q t s) (hf : ∀ a s', D.Later s s' → Q a s' → Safe D P (f a) s') :
    Safe D P (t >>= f) s := by
  induction t generalizing s with
  | done a => exact Safe.of_later fun s' hs => hf a s' hs (h s' hs)
  | fail e => trivial
  | step act rest ih =>
    intro s' hs
    obtain ⟨kept, next⟩ := h s' hs
    refine ⟨kept, ih s' next fun a s'' hs'' => hf a s'' ⟨?_, hs''.2⟩⟩
    exact D.trans hs.1 (D.trans kept.1 hs''.1)

theorem Safe.tryCatch {handler : ε → Thread σ ε α} (h : Safe D Q t s)
    (hh : ∀ e s', D.after s s' → Safe D Q (handler e) s') :
    Safe D Q (MonadExcept.tryCatch t handler) s := by
  induction t generalizing s with
  | done a => exact h
  | fail e => exact hh e s (D.refl s)
  | step act rest ih =>
    intro s' hs
    obtain ⟨kept, next⟩ := h s' hs
    exact ⟨kept, ih s' next fun e s'' hs'' => hh e s'' (D.trans hs.1 (D.trans kept.1 hs''))⟩

theorem Safe.pure {a : α} (h : ∀ s', D.Later s s' → Q a s') :
    Safe D Q (Pure.pure a : Thread σ ε α) s := h

theorem Safe.throw {e : ε} : Safe D Q (MonadExcept.throw e : Thread σ ε α) s := trivial

/-- What an atomic step establishes has to last. -/
theorem Safe.atomic {f : σ → α × σ}
    (h : ∀ s', D.Later s s' → D.Later s' (f s').2)
    (hQ : ∀ s' s'', D.Later s s' → D.Later (f s').2 s'' → Q (f s').1 s'') :
    Safe D Q (Thread.atomic f : Thread σ ε α) s :=
  fun s' hs => ⟨h s' hs, fun s'' hs'' => hQ s' s'' hs hs''⟩

variable {c : Prop} [Decidable c] {t' : Thread σ ε α}

theorem Safe.ite (ht : c → Safe D Q t s)
    (ht' : ¬c → Safe D Q t' s) : Safe D Q (if c then t else t') s := by
  split
  · exact ht ‹_›
  · exact ht' ‹_›

/-- A step that is made under a condition, with what follows it. -/
theorem Safe.when {x : Thread σ ε PUnit} {f : PUnit → Thread σ ε β}
    (hx : c → Safe D (fun _ _ => True) x s) (hf : ∀ s', D.after s s' → Safe D P (f ⟨⟩) s') :
    Safe D P (if c then x >>= f else f ⟨⟩) s :=
  Safe.ite (fun hc => Safe.bind (hx hc) fun _ s' hs _ => hf s' hs.1) fun _ => hf s (D.refl s)

theorem Safe.either (ht : c → Safe D Q t s) (ht' : ¬c → Safe D Q t' s)
    (hf : ∀ a s', D.Later s s' → Q a s' → Safe D P (f a) s') :
    Safe D P (if c then t >>= f else t' >>= f) s :=
  Safe.ite (fun hc => Safe.bind (ht hc) hf) fun hc => Safe.bind (ht' hc) hf

theorem Safe.discard (h : Safe D Q t s) : Safe D (fun _ _ => True) (discard t) s :=
  Safe.bind h fun _ _ _ _ => Safe.pure fun _ _ => trivial

/-- A loop over a list whose items satisfy what lasts. -/
theorem Safe.foldlM {γ : Type u} {f : β → γ → Thread σ ε β} {G : γ → σ → Prop}
    (stable : ∀ c s s', D.after s s' → G c s → G c s') {l : List γ} {b : β}
    (hl : ∀ c ∈ l, G c s)
    (hf : ∀ b c s, G c s → Safe D (fun _ _ => True) (f b c) s) :
    Safe D (fun _ _ => True) (l.foldlM f b) s := by
  induction l generalizing b s with
  | nil => exact Safe.pure fun _ _ => trivial
  | cons c l ih =>
    refine Safe.bind (hf b c s (hl c List.mem_cons_self)) fun b' s' hs _ => ih fun d hd => ?_
    exact stable d s s' hs.1 (hl d (List.mem_cons_of_mem c hd))

end

/-- The rule for runs. -/
theorem System.Reachable.keeps {D : Discipline σ} (init : D.inv s0)
    (starts : ∀ {s t s'}, D.inv s → sys.starts s t s' →
      D.Later s s' ∧ Safe D (fun _ _ => True) t s')
    (drifts : ∀ {s s'}, D.inv s → sys.drifts s s' → D.Later s s') {c : List (Thread σ ε PUnit) × σ}
    (h : sys.Reachable s0 c) : D.inv c.2 ∧ ∀ t ∈ c.1, Safe D (fun _ _ => True) t c.2 := by
  induction h with
  | refl => exact ⟨init, by simp⟩
  | tail _ step ih =>
    obtain ⟨inv, safe⟩ := ih
    cases step with
    | start h =>
      obtain ⟨later, started⟩ := starts inv h
      exact ⟨later.2, List.forall_mem_cons.2 ⟨started, fun t ht => (safe t ht).later later.1⟩⟩
    | @act before after s act rest =>
      have now := safe (.step act rest) (by simp) s ⟨D.refl s, inv⟩
      refine ⟨now.1.2, fun t ht => ?_⟩
      rcases List.mem_append.1 ht with ht | ht
      · exact (safe t (List.mem_append_left _ ht)).later now.1.1
      rcases List.mem_cons.1 ht with rfl | ht
      · exact now.2
      · exact (safe t (List.mem_append_right _ (List.mem_cons_of_mem _ ht))).later now.1.1
    | drift h =>
      have later := drifts inv h
      exact ⟨later.2, fun t ht => (safe t ht).later later.1⟩

end Interleaving
