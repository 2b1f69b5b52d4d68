import Mathlib.Tactic.Common
import Std.Data.ExtTreeMap

/-!
# Folds that may fail

What a computation in `Except` has gone through when it returns, what it fails
with, and two rules for `List.foldlM`: what every step keeps holds of the result, and a fold whose
steps never fail returns. What a fold over a map leaves at a key.
-/
namespace ExceptFold

variable {ε α β σ : Type}

@[simp] theorem ok_bind (a : α) (f : α → Except ε β) : (Except.ok a >>= f) = f a := rfl

variable {m : Except ε α} {a : α} {e : ε} {f : Unit → Except ε α} {P : ε → Prop} {l : List α}
  {s : σ} {p : Prop} [Decidable p] {n : Except ε α} {b : β} {t : σ}

theorem bind_eq_ok {f : α → Except ε β} : (m >>= f) = .ok b ↔ ∃ a, m = .ok a ∧ f a = .ok b := by
  cases m with
  | error e => simp [bind, Except.bind]
  | ok a => simp

theorem map_eq_ok {f : α → β} : f <$> m = .ok b ↔ ∃ a, m = .ok a ∧ f a = b := by
  cases m with
  | error e => simp
  | ok a => simp

theorem guard_eq_ok :
    (if p then throw e >>= f else f ()) = .ok a ↔ ¬ p ∧ f () = .ok a := by
  by_cases hp : p
  · rw [if_pos hp]
    refine ⟨nofun, fun h => absurd hp h.1⟩
  · rw [if_neg hp]
    exact ⟨fun h => ⟨hp, h⟩, fun h => h.2⟩

theorem toOption_eq_some : m.toOption = some a ↔ m = .ok a := by
  cases m with
  | error e => simp [Except.toOption]
  | ok b => simp [Except.toOption]

/-- Every error of a computation satisfies `P`. -/
def Fails (P : ε → Prop) (m : Except ε α) : Prop := ∀ e, m = .error e → P e

theorem fails_pure (a : α) : Fails P (pure a : Except ε α) := nofun

theorem Fails.ite (hm : Fails P m) (hn : Fails P n) : Fails P (if p then m else n) := by
  split
  · exact hm
  · exact hn

theorem fails_guard
    (he : P e) (hf : Fails P (f ())) : Fails P (if p then throw e >>= f else f ()) := by
  refine .ite (fun e' h => ?_) hf
  cases h
  exact he

/-- Whatever a computation returns satisfies `P`. -/
def Returns (P : α → Prop) (m : Except ε α) : Prop := ∀ a, m = .ok a → P a

theorem returns_pure {P : α → Prop} (h : P a) : Returns P (pure a : Except ε α) := by
  intro b same
  cases same
  exact h

theorem returns_if {P : α → Prop} (hm : p → Returns P m) (hn : ¬ p → Returns P n) :
    Returns P (if p then m else n) := by
  by_cases hp : p
  · rw [if_pos hp]
    exact hm hp
  · rw [if_neg hp]
    exact hn hp

theorem returns_guard {P : α → Prop}
    (hf : ¬ p → Returns P (f ())) : Returns P (if p then throw e >>= f else f ()) :=
  returns_if (fun _ => nofun) hf

theorem foldlM_keeps {P : σ → Prop} {f : σ → α → Except ε σ}
    (step : ∀ s a s', a ∈ l → P s → f s a = .ok s' → P s') (h : l.foldlM f s = .ok t) (start : P s) :
    P t := by
  induction l generalizing s with
  | nil =>
    cases h
    exact start
  | cons a l ih =>
    obtain ⟨s1, h1, h2⟩ := bind_eq_ok.1 h
    exact ih (fun s b s' hb => step s b s' (List.mem_cons_of_mem a hb)) h2
      (step s a s1 List.mem_cons_self start h1)

/-- Each step that has been made leaves something that later steps keep. -/
theorem foldlM_marks {Q : α → σ → Prop} {f : σ → α → Except ε σ}
    (mark : ∀ s a s', f s a = .ok s' → Q a s') (keep : ∀ s a b s', Q b s → f s a = .ok s' → Q b s')
    (h : l.foldlM f s = .ok t) : ∀ a ∈ l, Q a t := by
  induction l generalizing s with
  | nil => simp
  | cons a l ih =>
    obtain ⟨s1, h1, h2⟩ := bind_eq_ok.1 h
    intro b hb
    rcases List.mem_cons.1 hb with rfl | hb
    · exact foldlM_keeps (fun s c s' _ hq he => keep s c b s' hq he) h2 (mark s b s1 h1)
    · exact ih h2 b hb

theorem foldlM_returns {P : σ → Prop} {f : σ → α → Except ε σ}
    (step : ∀ s a, a ∈ l → P s → ∃ s', f s a = .ok s' ∧ P s') (start : P s) :
    ∃ t, l.foldlM f s = .ok t := by
  induction l generalizing s with
  | nil => exact ⟨s, rfl⟩
  | cons a l ih =>
    obtain ⟨s1, h1, hp⟩ := step s a List.mem_cons_self start
    obtain ⟨t, ht⟩ := ih (fun s b hb => step s b (List.mem_cons_of_mem a hb)) hp
    exact ⟨t, bind_eq_ok.2 ⟨s1, h1, ht⟩⟩

end ExceptFold

namespace MapFold

theorem foldl_keeps {α σ β : Type} {f : σ → α → σ} (look : σ → β) {l : List α}
    (keep : ∀ s, ∀ e ∈ l, look (f s e) = look s) (s : σ) : look (l.foldl f s) = look s :=
  List.foldlRecOn (motive := fun s' => look s' = look s) l f rfl
    fun s' same e mem => (keep s' e mem).trans same

/-- A fold over the entries of a map that writes each one at its own key writes it once. -/
theorem foldl_toList {κ γ σ β : Type} {cmp : κ → κ → Ordering} [Std.TransCmp cmp]
    [Std.LawfulEqCmp cmp] [DecidableEq κ] {f : σ → κ × γ → σ} (m : Std.ExtTreeMap κ γ cmp)
    (k : κ) (look : σ → β) (new : γ → β → β)
    (write : ∀ s e, m[e.1]? = some e.2 →
      look (f s e) = if e.1 = k then new e.2 (look s) else look s) (s : σ) :
    look (m.toList.foldl f s) = m[k]?.elim (look s) (new · (look s)) := by
  have known {k c} : (k, c) ∈ m.toList ↔ m[k]? = some c :=
    Std.ExtTreeMap.mem_toList_iff_getElem?_eq_some
  have other (l : List (κ × γ)) (apart : ∀ e ∈ l, e ∈ m.toList ∧ e.1 ≠ k) (s : σ) :
      look (l.foldl f s) = look s :=
    foldl_keeps look (fun s e mem => by rw [write s e (known.1 (apart e mem).1), if_neg (apart e mem).2]) s
  cases found : m[k]? with
  | none =>
    refine other _ (fun e mem => ⟨mem, fun same => ?_⟩) s
    cases (same ▸ known.1 mem).symm.trans found
  | some c =>
    obtain ⟨before, after, split⟩ := List.append_of_mem (known.2 found)
    have distinct : m.toList.Pairwise (·.1 ≠ ·.1) :=
      Std.ExtTreeMap.distinct_keys_toList.imp (mt Std.LawfulEqCmp.compare_eq_iff_eq.2)
    rw [split, List.pairwise_append, List.pairwise_cons] at distinct
    have first := other before fun e mem => ⟨by simp [split, mem], distinct.2.2 e mem _ List.mem_cons_self⟩
    have last := other after fun e mem => ⟨by simp [split, mem], (distinct.2.1.1 e mem).symm⟩
    rw [split, List.foldl_append, List.foldl_cons, last, write _ _ found, if_pos rfl, first]
    rfl

end MapFold
