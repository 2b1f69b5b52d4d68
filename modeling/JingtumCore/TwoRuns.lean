import JingtumCore.StateExcept

/-!
# Two runs

What two programs return when they are run from states that need not have
anything to do with each other. A pair of runs in which one throws satisfies every
relation.
-/
namespace StateExcept

variable {σ ε α β γ δ : Type} {P : γ → δ → Prop}

/-- Whatever the two programs return, from whatever states, is related by `P`. -/
def Agree (P : α → β → Prop) (m : StateT σ (Except ε) α) (n : StateT σ (Except ε) β) : Prop :=
  ∀ s t, Spec m s fun a _ => Spec n t fun b _ => P a b

variable {p q : Prop} {m' : StateT σ (Except ε) γ} {n' : StateT σ (Except ε) δ}

theorem agree_pure {c : γ} {d : δ} (h : P c d) :
    Agree P (pure c : StateT σ (Except ε) γ) (pure d) :=
  fun _ _ => spec_pure.2 (spec_pure.2 h)

variable {m : StateT σ (Except ε) γ} {n : StateT σ (Except ε) δ}

theorem Always.agree_left (h : Always (fun c => ∀ d, P c d) m) : Agree P m n :=
  fun s _ => (h s).mono fun _ _ hc _ _ _ => hc _

theorem Always.agree_right (h : Always (fun d => ∀ c, P c d) n) : Agree P m n :=
  fun _ t _ _ _ => (h t).mono fun _ _ hd => hd _

theorem agree_true {m : StateT σ (Except ε) α} {n : StateT σ (Except ε) β} :
    Agree (fun _ _ => True) m n := fun _ _ _ _ _ _ _ _ => trivial

theorem agree_lift {e : Except ε α} :
    Agree Eq (liftM e : StateT σ (Except ε) α) (liftM e) := by
  intro s t
  refine spec_lift.2 fun a ha => spec_lift.2 fun b hb => ?_
  rw [ha] at hb
  cases hb
  rfl

theorem Agree.bind {Q : α → β → Prop} {m : StateT σ (Except ε) α} {n : StateT σ (Except ε) β}
    {f : α → StateT σ (Except ε) γ} {g : β → StateT σ (Except ε) δ} (hm : Agree Q m n)
    (hf : ∀ a b, Q a b → Agree P (f a) (g b)) : Agree P (m >>= f) (n >>= g) := by
  intro s t
  refine spec_bind.2 fun a s' ha c s'' hc => spec_bind.2 fun b t' hb => ?_
  exact hf a b (hm s t a s' ha b t' hb) s' t' c s'' hc

theorem Agree.mono {Q : γ → δ → Prop}
    (h : Agree P m n) (hPQ : ∀ c d, P c d → Q c d) : Agree Q m n :=
  fun s t c s' hc d t' hd => hPQ c d (h s t c s' hc d t' hd)

theorem Agree.and {A : γ → Prop} {B : δ → Prop}
    (h : Agree P m n) (hm : Always A m) (hn : Always B n) :
    Agree (fun c d => P c d ∧ A c ∧ B d) m n :=
  fun s t c s' hc d t' hd => ⟨h s t c s' hc d t' hd, hm s c s' hc, hn t d t' hd⟩

theorem Agree.ite [Decidable p] (h : Agree P m n) (h' : Agree P m' n') :
    Agree P (if p then m else m') (if p then n else n') := by
  by_cases hp : p
  · rw [if_pos hp, if_pos hp]
    exact h
  · rw [if_neg hp, if_neg hp]
    exact h'

/-- Each program has a test of its own, after which it returns nothing that `P`
asks anything of. -/
theorem Agree.guards [Decidable p] [Decidable q] (hm : Always (fun c => ∀ d, P c d) m)
    (hn : Always (fun d => ∀ c, P c d) n) (h : Agree P m' n') :
    Agree P (if p then m else m') (if q then n else n') := by
  by_cases hp : p
  · rw [if_pos hp]
    exact hm.agree_left
  by_cases hq : q
  · rw [if_pos hq]
    exact hn.agree_right
  · rw [if_neg hp, if_neg hq]
    exact h

/-- Each program has a step of its own that it takes under a condition of its own. -/
theorem Agree.when [Decidable p] [Decidable q] {m n : StateT σ (Except ε) Unit}
    {f : Unit → StateT σ (Except ε) γ} {g : Unit → StateT σ (Except ε) δ}
    (h : Agree P (f ()) (g ())) :
    Agree P (if p then m >>= f else f ()) (if q then n >>= g else g ()) := by
  have left {n' : StateT σ (Except ε) δ} (hf : Agree P (f ()) n') :
      Agree P (if p then m >>= f else f ()) n' := by
    split
    · exact fun s t => spec_bind.2 fun _ s' _ => hf s' t
    · exact hf
  refine left ?_
  split
  · exact fun s t c s' hc => spec_bind.2 fun _ t' _ => h s t' c s' hc
  · exact h

end StateExcept
