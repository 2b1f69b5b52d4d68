import Mathlib.Tactic.Common

/-!
# Relations between programs in two monads

A relation between the programs of two monads that is kept by `pure` and `bind`
is kept by every program written for an arbitrary monad. The relation also
carries a property of the value that both programs return.
-/
universe u v w

structure Congruence (m : Type u → Type v) (n : Type u → Type w) [Monad m] [Monad n] where
  rel : ∀ {α : Type u}, (α → Prop) → m α → n α → Prop
  pure : ∀ {α : Type u} {V : α → Prop} {a : α}, V a → rel V (Pure.pure a) (Pure.pure a)
  bind : ∀ {α β : Type u} {V : α → Prop} {W : β → Prop} {x : m α} {y : n α} {f : α → m β}
    {g : α → n β}, rel V x y → (∀ a, V a → rel W (f a) (g a)) → rel W (x >>= f) (y >>= g)

namespace Congruence
variable {m : Type u → Type v} {n : Type u → Type w} [Monad m] [Monad n] (C : Congruence m n)
  {α β : Type u} {V : α → Prop}

theorem ite {c : Prop} [Decidable c] {x x' : m α} {y y' : n α} (h : C.rel V x y)
    (h' : C.rel V x' y') : C.rel V (if c then x else x') (if c then y else y') := by
  split
  · exact h
  · exact h'

/-- A loop: the accumulator keeps `V` if the items are of `G`. -/
theorem foldlM {f : α → β → m α} {g : α → β → n α} {G : β → Prop}
    (step : ∀ a b, V a → G b → C.rel V (f a b) (g a b)) {l : List β} (items : ∀ b ∈ l, G b)
    {a : α} (ha : V a) : C.rel V (l.foldlM f a) (l.foldlM g a) := by
  induction l generalizing a with
  | nil => exact C.pure ha
  | cons b l ih =>
    exact C.bind (step a b ha (items b List.mem_cons_self)) fun a' ha' =>
      ih (fun c hc => items c (List.mem_cons_of_mem b hc)) ha'

end Congruence
