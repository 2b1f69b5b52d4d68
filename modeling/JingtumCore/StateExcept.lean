import Mathlib.Tactic.Common

/-!
# Programs with a state and exceptions

Partial correctness for `StateT σ (Except ε)`: what holds of every result of a
program, and relations between the first and the last state that a program
keeps. A program that throws satisfies every specification.
-/
namespace StateExcept

variable {σ ε α β : Type}

@[simp] theorem pure_apply (a : α) (s : σ) : (pure a : StateT σ (Except ε) α) s = .ok (a, s) := rfl

@[simp] theorem get_bind_apply (f : σ → StateT σ (Except ε) α) (s : σ) :
    (get >>= f) s = f s s := rfl

@[simp] theorem set_apply (s t : σ) : (set t : StateT σ (Except ε) PUnit) s = .ok (⟨⟩, t) := rfl

variable {a : α} {m n : StateT σ (Except ε) α} {s t : σ} {e : Except ε α}
  {f : α → StateT σ (Except ε) β} {Q : α → σ → Prop} {P : β → Prop} {R : σ → σ → Prop}
  {c p : Prop} [Decidable c] [Decidable p] {x : ε}

theorem bind_apply_ok (h : m s = .ok (a, t)) : (m >>= f) s = f a t := by
  simp [bind, StateT.bind, Except.bind, h]

@[simp] theorem set_bind_apply (f : PUnit → StateT σ (Except ε) α) (s t : σ) :
    (set t >>= f) s = f ⟨⟩ t := rfl

theorem lift_eq_ok :
    (liftM e : StateT σ (Except ε) α) s = .ok (a, t) ↔ e = .ok a ∧ t = s := by
  cases e with
  | error e =>
    constructor
    · rintro ⟨⟩
    · rintro ⟨⟨⟩, _⟩
  | ok b =>
    constructor
    · rintro ⟨⟩
      exact ⟨rfl, rfl⟩
    · rintro ⟨⟨⟩, rfl⟩
      rfl

theorem lift_apply_ok (h : e = .ok a) (s : σ) :
    (liftM e : StateT σ (Except ε) α) s = .ok (a, s) := lift_eq_ok.2 ⟨h, rfl⟩

theorem bind_apply_error (h : m s = .error x) : (m >>= f) s = .error x := by
  simp [bind, StateT.bind, Except.bind, h]

theorem bind_apply_congr (h : m s = n t) : (m >>= f) s = (n >>= f) t := by
  simp [bind, StateT.bind, h]

theorem ite_bind_eq :
    (if c then m >>= f else n >>= f) = (if c then m else n) >>= f := by
  split_ifs <;> rfl

/-- Every result of `m` from `s` satisfies `Q`. -/
def Spec (m : StateT σ (Except ε) α) (s : σ) (Q : α → σ → Prop) : Prop :=
  ∀ a t, m s = .ok (a, t) → Q a t

theorem bind_eq_ok {u : σ} {b : β} :
    (m >>= f) s = .ok (b, u) ↔ ∃ a t, m s = .ok (a, t) ∧ f a t = .ok (b, u) := by
  simp only [bind, StateT.bind, Except.bind]
  cases hm : m s with
  | error e => simp
  | ok r => simp [Prod.ext_iff]

@[simp] theorem spec_pure :
    Spec (pure a : StateT σ (Except ε) α) s Q ↔ Q a s :=
  ⟨fun h => h a s rfl, fun h _ _ e => by cases e; exact h⟩

@[simp] theorem spec_bind
    {Q : β → σ → Prop} : Spec (m >>= f) s Q ↔ Spec m s fun a t => Spec (f a) t Q := by
  constructor
  · intro h a t ha b u hb
    exact h b u (bind_eq_ok.2 ⟨a, t, ha, hb⟩)
  · intro h b u hb
    obtain ⟨a, t, ha, hb⟩ := bind_eq_ok.1 hb
    exact h a t ha b u hb

@[simp] theorem spec_map {f : α → β} {Q : β → σ → Prop} :
    Spec (f <$> m) s Q ↔ Spec m s fun a t => Q (f a) t := by
  rw [map_eq_pure_bind, spec_bind]
  simp

@[simp] theorem spec_get {Q : σ → σ → Prop} :
    Spec (get : StateT σ (Except ε) σ) s Q ↔ Q s s :=
  ⟨fun h => h s s rfl, fun h _ _ e => by cases e; exact h⟩

@[simp] theorem spec_set {Q : PUnit → σ → Prop} :
    Spec (set t : StateT σ (Except ε) PUnit) s Q ↔ Q ⟨⟩ t :=
  ⟨fun h => h _ t rfl, fun h _ _ e => by cases e; exact h⟩

@[simp] theorem spec_modify {f : σ → σ} {Q : PUnit → σ → Prop} :
    Spec (modify f : StateT σ (Except ε) PUnit) s Q ↔ Q ⟨⟩ (f s) :=
  ⟨fun h => h _ _ rfl, fun h _ _ e => by cases e; exact h⟩

@[simp] theorem spec_throw {e : ε} :
    Spec (throw e : StateT σ (Except ε) α) s Q ↔ True :=
  ⟨fun _ => trivial, fun _ _ _ h => by cases h⟩

@[simp] theorem spec_lift :
    Spec (liftM e : StateT σ (Except ε) α) s Q ↔ ∀ a, e = .ok a → Q a s := by
  cases e with
  | error e =>
    constructor
    · intro _ a h
      cases h
    · intro _ a t h
      cases h
  | ok a =>
    constructor
    · rintro h _ ⟨⟩
      exact h a s rfl
    · rintro h _ _ ⟨⟩
      exact h a rfl

theorem spec_ite
    :
    Spec (if c then m else n) s Q ↔ (c → Spec m s Q) ∧ (¬c → Spec n s Q) := by
  split <;> simp_all

theorem Spec.mono {P : α → σ → Prop} (h : Spec m s P)
    (hPQ : ∀ a t, P a t → Q a t) : Spec m s Q := fun a t e => hPQ a t (h a t e)

theorem Spec.and {P : α → σ → Prop} (h : Spec m s P)
    (h' : Spec m s Q) : Spec m s fun a t => P a t ∧ Q a t := fun a t e => ⟨h a t e, h' a t e⟩

/-- `m` ends from `s` with a result that satisfies `Q`. -/
def Ends (m : StateT σ (Except ε) α) (s : σ) (Q : α → σ → Prop) : Prop :=
  ∃ a t, m s = .ok (a, t) ∧ Q a t

theorem ends_pure (h : Q a s) :
    Ends (pure a : StateT σ (Except ε) α) s Q := ⟨a, s, rfl, h⟩

theorem Ends.bind
    {P : α → σ → Prop} {Q : β → σ → Prop} (hm : Ends m s P) (hf : ∀ a t, P a t → Ends (f a) t Q) :
    Ends (m >>= f) s Q := by
  obtain ⟨a, t, ha, hp⟩ := hm
  obtain ⟨b, u, hb, hq⟩ := hf a t hp
  exact ⟨b, u, bind_eq_ok.2 ⟨a, t, ha, hb⟩, hq⟩

/-- Every result of `m`, from whatever state, satisfies `P`. -/
def Always (P : α → Prop) (m : StateT σ (Except ε) α) : Prop := ∀ s, Spec m s fun a _ => P a

theorem always_pure {P : α → Prop} (h : P a) :
    Always P (pure a : StateT σ (Except ε) α) := fun _ => spec_pure.2 h

theorem Always.bind (hf : ∀ a, Always P (f a)) : Always P (m >>= f) :=
  fun _ => spec_bind.2 fun a t _ => hf a t

theorem Always.andThen {Q : α → Prop}
    (hm : Always Q m) (hf : ∀ a, Q a → Always P (f a)) :
    Always P (m >>= f) :=
  fun s => spec_bind.2 <| (hm s).mono fun a t ha => hf a ha t

theorem Always.ite {P : α → Prop}
    (hm : Always P m) (hn : Always P n) : Always P (if c then m else n) := by
  split
  · exact hm
  · exact hn

theorem Always.when {m : StateT σ (Except ε) Unit}
    {f : Unit → StateT σ (Except ε) β} (hf : ∀ a, Always P (f a)) :
    Always P (if p then m >>= f else f ()) :=
  .ite (.bind hf) (hf ())

theorem Always.either
    (hf : ∀ a, Always P (f a)) :
    Always P (if p then m >>= f else n >>= f) :=
  .ite (.bind hf) (.bind hf)

theorem Always.mono {P Q : α → Prop} (h : Always P m)
    (hPQ : ∀ a, P a → Q a) : Always Q m := fun s => (h s).mono fun a _ => hPQ a

/-- `R` holds between the state a program starts in and the one it ends in. -/
def Keeps (R : σ → σ → Prop) (m : StateT σ (Except ε) α) : Prop := ∀ s, Spec m s fun _ t => R s t

theorem keeps_throw {e : ε} : Keeps R (throw e : StateT σ (Except ε) α) :=
  fun _ => spec_throw.2 trivial

theorem keeps_if
    (hm : c → Keeps R m) (hn : ¬c → Keeps R n) : Keeps R (if c then m else n) := by
  split
  · exact hm ‹_›
  · exact hn ‹_›

theorem keeps_ite
    (hm : Keeps R m) (hn : Keeps R n) : Keeps R (if c then m else n) :=
  keeps_if (fun _ => hm) fun _ => hn

theorem keeps_guard {e : ε}
    {f : Unit → StateT σ (Except ε) α} (hf : ¬p → Keeps R (f ())) :
    Keeps R (if p then throw e >>= f else f ()) :=
  keeps_if (fun _ _ => spec_bind.2 (spec_throw.2 trivial)) hf

theorem Keeps.map (f : α → β) (hm : Keeps R m) :
    Keeps R (f <$> m) := fun s => spec_map.2 (hm s)

section Keeps
variable {R : σ → σ → Prop} [IsPreorder σ R]

theorem keeps_pure (a : α) : Keeps R (pure a : StateT σ (Except ε) α) :=
  fun s => spec_pure.2 (refl s)

theorem keeps_get : Keeps R (get : StateT σ (Except ε) σ) := fun s => spec_get.2 (refl s)

theorem keeps_lift : Keeps R (liftM e : StateT σ (Except ε) α) :=
  fun s => spec_lift.2 fun _ _ => refl s

theorem Keeps.bind (hm : Keeps R m) (hf : ∀ a, Keeps R (f a)) : Keeps R (m >>= f) :=
  fun s => spec_bind.2 <| (hm s).mono fun a t hst => (hf a t).mono fun _ _ htu =>
    IsTrans.trans _ _ _ hst htu

theorem keeps_when {m : StateT σ (Except ε) Unit}
    {f : Unit → StateT σ (Except ε) β} (hm : Keeps R m) (hf : ∀ a, Keeps R (f a)) :
    Keeps R (if p then m >>= f else f ()) :=
  keeps_ite (hm.bind hf) (hf ())

theorem keeps_either (hm : Keeps R m) (hn : Keeps R n) (hf : ∀ a, Keeps R (f a)) :
    Keeps R (if p then m >>= f else n >>= f) :=
  keeps_ite (hm.bind hf) (hn.bind hf)

theorem Keeps.forM {f : α → StateT σ (Except ε) PUnit} (hf : ∀ a, Keeps R (f a)) (l : List α) :
    Keeps R (l.forM f) := by
  induction l with
  | nil => exact keeps_pure _
  | cons a l ih => exact (hf a).bind fun _ => ih

end Keeps

end StateExcept
