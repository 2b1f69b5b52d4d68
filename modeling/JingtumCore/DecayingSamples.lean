import Mathlib.Data.Int.DivMod
import Mathlib.Tactic.Linarith
import Mathlib.Tactic.Ring

/-!
# Balances that decay

`DecayingSample` ages its value by whole seconds and moves its reference time to the time of the
call, so that the part of a second that has passed is lost with every call.
-/
namespace Skywell

/-- The ticks of the clock in a second. -/
def ticksPerSecond : Int := 1000000000

structure DecayingSample where
  m_value : Int
  m_when : Int

namespace DecayingSample

/-- One turn of the loop that ages the value. -/
def decaySecond (window value : Int) : Int := value - (value + window - 1).tdiv window

def decay (window : Int) (s : DecayingSample) (now : Int) : DecayingSample :=
  if now = s.m_when then s
  else if s.m_value = 0 then { s with m_when := now }
  else
    let elapsed := (now - s.m_when).tdiv ticksPerSecond
    -- a negative difference is a very large `std::size_t`
    if elapsed < 0 ∨ elapsed > 4 * window then ⟨0, now⟩
    else ⟨(decaySecond window)^[elapsed.toNat] s.m_value, now⟩

def value (window : Int) (s : DecayingSample) (now : Int) : Int × DecayingSample :=
  let aged := s.decay window now
  (aged.m_value.tdiv window, aged)

/-- The sample after calls of `value` at these times. -/
def polled (window : Int) (s : DecayingSample) (times : List Int) : DecayingSample :=
  times.foldl (fun s now => (s.value window now).2) s

section
variable {window v : Int} (large : 1 ≤ window)
include large

theorem decaySecond_bounds (nonneg : 0 ≤ v) :
    0 ≤ decaySecond window v ∧ decaySecond window v ≤ v := by
  have some_ : 0 ≤ v + window - 1 := by omega
  have quotient := Int.ediv_nonneg some_ (by omega : 0 ≤ window)
  have small : (v + window - 1) / window < v + 1 := by
    apply Int.ediv_lt_of_lt_mul (by omega)
    nlinarith
  rw [decaySecond, Int.tdiv_eq_ediv_of_nonneg some_]
  omega

theorem iterate_bounds (nonneg : 0 ≤ v) (n : Nat) :
    0 ≤ (decaySecond window)^[n] v ∧ (decaySecond window)^[n] v ≤ v := by
  induction n with
  | zero => exact ⟨nonneg, le_rfl⟩
  | succ n ih =>
    rw [Function.iterate_succ_apply']
    obtain ⟨low, high⟩ := decaySecond_bounds large ih.1
    exact ⟨low, high.trans ih.2⟩

theorem iterate_antitone (nonneg : 0 ≤ v) {m n : Nat} (le : m ≤ n) :
    (decaySecond window)^[n] v ≤ (decaySecond window)^[m] v := by
  obtain ⟨more, rfl⟩ := Nat.exists_eq_add_of_le' le
  rw [Function.iterate_add_apply]
  exact (iterate_bounds large (iterate_bounds large nonneg m).1 more).2

/-- Within the four windows the value has aged by the whole seconds since the last call. -/
theorem decay_eq {s : DecayingSample} {now : Int} (later : s.m_when ≤ now)
    (near : now - s.m_when ≤ 4 * window * ticksPerSecond) :
    s.decay window now =
      ⟨(decaySecond window)^[((now - s.m_when) / ticksPerSecond).toNat] s.m_value, now⟩ := by
  have whole : 0 ≤ (now - s.m_when) / ticksPerSecond :=
    Int.ediv_nonneg (by omega) (by decide)
  have most : (now - s.m_when) / ticksPerSecond ≤ 4 * window :=
    Int.ediv_le_of_le_mul (by decide) near
  rw [decay]
  split_ifs with same zero
  · subst same
    simp
  · have fixed : decaySecond window 0 = 0 := by
      have bounds := decaySecond_bounds large (le_refl 0)
      omega
    rw [zero, Function.iterate_fixed fixed]
  · rw [Int.tdiv_eq_ediv_of_nonneg (by omega)]
    exact if_neg (by omega)

/-- The whole seconds from each time to the next. -/
def wholeSeconds : Int → List Int → Nat
  | _, [] => 0
  | t, u :: times => ((u - t) / ticksPerSecond).toNat + wholeSeconds u times

omit large in
theorem wholeSeconds_le {t now : Int} {times : List Int}
    (sorted : (t :: times ++ [now]).Pairwise (· ≤ ·)) :
    wholeSeconds t (times ++ [now]) ≤ ((now - t) / ticksPerSecond).toNat := by
  induction times generalizing t with
  | nil => exact le_rfl
  | cons u times ih =>
    obtain ⟨first, rest⟩ := List.pairwise_cons.1 sorted
    have early : t ≤ u := first u (by simp)
    have later : u ≤ now := (List.pairwise_cons.1 rest).1 now (by simp)
    have most := ih rest
    rw [List.cons_append, wholeSeconds]
    unfold ticksPerSecond at *
    omega

/-- However often the sample is asked, the value ages by the whole seconds from call to call. -/
theorem polled_decay {s : DecayingSample} {times : List Int} {now : Int}
    (nonneg : 0 ≤ s.m_value) (sorted : (s.m_when :: times ++ [now]).Pairwise (· ≤ ·))
    (near : now - s.m_when ≤ 4 * window * ticksPerSecond) :
    (s.polled window times).decay window now =
      ⟨(decaySecond window)^[wholeSeconds s.m_when (times ++ [now])] s.m_value, now⟩ := by
  induction times generalizing s with
  | nil =>
    have later : s.m_when ≤ now := by simpa using sorted
    exact decay_eq large later near
  | cons t times ih =>
    obtain ⟨first, rest⟩ := List.pairwise_cons.1 sorted
    have early : s.m_when ≤ t := first t (by simp)
    have later : t ≤ now := (List.pairwise_cons.1 rest).1 now (by simp)
    have aged := decay_eq large early (by omega)
    have nonneg' := (iterate_bounds large nonneg ((t - s.m_when) / ticksPerSecond).toNat).1
    have run := ih (s := ⟨_, t⟩) nonneg' rest (by dsimp only; omega)
    rw [polled, List.foldl_cons, value, aged]
    refine run.trans ?_
    rw [List.cons_append, wholeSeconds, Nat.add_comm, Function.iterate_add_apply]

/-- In a window of two seconds or more, a second takes no more than half of the value. -/
theorem half_le_decaySecond (more : 2 ≤ window) (nonneg : 0 ≤ v) :
    v / 2 ≤ decaySecond window v := by
  have some_ : 0 ≤ v + window - 1 := by omega
  have cut := Int.ediv_mul_le (v + window - 1) (by omega : window ≠ 0)
  rw [decaySecond, Int.tdiv_eq_ediv_of_nonneg some_]
  generalize (v + window - 1) / window = part at cut ⊢
  have half : 2 * part ≤ v + 1 := by
    rcases le_or_gt part 0 with none | one
    · omega
    · nlinarith
  omega

theorem le_iterate (more : 2 ≤ window) {u : Int} (nonneg : 0 ≤ u) {n : Nat} (le : 2 ^ n * u ≤ v) :
    u ≤ (decaySecond window)^[n] v := by
  induction n generalizing v with
  | zero => simpa using le
  | succ n ih =>
    have power : 0 ≤ 2 ^ n * u := by positivity
    have double : 2 ^ (n + 1) * u = 2 * (2 ^ n * u) := by ring
    have half := half_le_decaySecond large more (v := v) (by omega)
    rw [Function.iterate_succ_apply]
    exact ih (by omega)

/-- Some value shows that a second was lost, unless all are zero by then. -/
theorem exists_slower {m n : Nat} (lt : m < n) (young : window ≠ 1 ∨ m = 0) :
    ∃ v, 0 ≤ v ∧ (decaySecond window)^[n] v / window < (decaySecond window)^[m] v / window := by
  obtain ⟨v, nonneg, high⟩ : ∃ v, 0 ≤ v ∧ window * window ≤ (decaySecond window)^[m] v := by
    rcases young with more | rfl
    · have nonneg : 0 ≤ window * window := by positivity
      exact ⟨2 ^ m * (window * window), by positivity, le_iterate large (by omega) nonneg le_rfl⟩
    · exact ⟨window * window, by positivity, le_rfl⟩
  refine ⟨v, nonneg, ?_⟩
  have next := iterate_antitone large nonneg lt
  rw [Function.iterate_succ_apply', decaySecond, Int.tdiv_eq_ediv_of_nonneg (by nlinarith)] at next
  generalize (decaySecond window)^[m] v = u at high next ⊢
  have part : window ≤ (u + window - 1) / window := by
    rw [Int.le_ediv_iff_mul_le (by omega)]
    omega
  calc (decaySecond window)^[n] v / window ≤ (u - window) / window :=
        Int.ediv_le_ediv (by omega) (by omega)
    _ = u / window - 1 := by
        rw [Int.sub_ediv_of_dvd _ (dvd_refl window), Int.ediv_self (by omega)]
    _ < u / window := by omega

/-- Asking for the value never speeds up its decay. It does not slow it down exactly if the parts
of seconds lost in between do not add up to another one, or all is gone after a second. -/
theorem value_polled {t0 : Int} {times : List Int} {now : Int}
    (sorted : (t0 :: times ++ [now]).Pairwise (· ≤ ·))
    (near : now - t0 ≤ 4 * window * ticksPerSecond) :
    (∀ v, 0 ≤ v → ((⟨v, t0⟩ : DecayingSample).value window now).1 ≤
      (((⟨v, t0⟩ : DecayingSample).polled window times).value window now).1) ∧
    ((∀ v, 0 ≤ v → (((⟨v, t0⟩ : DecayingSample).polled window times).value window now).1 =
        ((⟨v, t0⟩ : DecayingSample).value window now).1) ↔
      wholeSeconds t0 (times ++ [now]) = ((now - t0) / ticksPerSecond).toNat ∨
        window = 1 ∧ wholeSeconds t0 (times ++ [now]) ≠ 0) := by
  have later : t0 ≤ now := (List.pairwise_cons.1 sorted).1 now (by simp)
  have most := wholeSeconds_le sorted
  have values (v : Int) (nonneg : 0 ≤ v) :
      (((⟨v, t0⟩ : DecayingSample).polled window times).value window now).1 =
        (decaySecond window)^[wholeSeconds t0 (times ++ [now])] v / window ∧
      ((⟨v, t0⟩ : DecayingSample).value window now).1 =
        (decaySecond window)^[((now - t0) / ticksPerSecond).toNat] v / window := by
    have bound := iterate_bounds large nonneg
    rw [value, value, polled_decay large nonneg sorted near, decay_eq large later near]
    exact ⟨Int.tdiv_eq_ediv_of_nonneg (bound _).1, Int.tdiv_eq_ediv_of_nonneg (bound _).1⟩
  constructor
  · intro v nonneg
    rw [(values v nonneg).1, (values v nonneg).2]
    exact Int.ediv_le_ediv (by omega) (iterate_antitone large nonneg most)
  · constructor
    · intro same
      by_contra slower
      rw [not_or, not_and_or, not_not] at slower
      obtain ⟨v, nonneg, less⟩ := exists_slower large (lt_of_le_of_ne most slower.1) slower.2
      rw [← (values v nonneg).1, ← (values v nonneg).2, same v nonneg] at less
      exact lt_irrefl _ less
    · rintro (all | ⟨rfl, some_⟩) v nonneg
      · rw [(values v nonneg).1, (values v nonneg).2, all]
      · -- with a window of one second the value is gone after it
        have gone (n : Nat) (positive : n ≠ 0) : (decaySecond 1)^[n] v = 0 := by
          obtain ⟨n, rfl⟩ := Nat.exists_eq_succ_of_ne_zero positive
          have first : decaySecond 1 v = 0 := by simp [decaySecond]
          have fixed : decaySecond 1 0 = 0 := rfl
          rw [Function.iterate_succ_apply, first, Function.iterate_fixed fixed]
        rw [(values v nonneg).1, (values v nonneg).2, gone _ some_, gone _ (by omega)]

end

/-- Asked after half a second, the value of a second later is the one before. -/
theorem value_stands_still :
    ((⟨3200, 0⟩ : DecayingSample).value 32 1000000000).1 = 96 ∧
      (((⟨3200, 0⟩ : DecayingSample).polled 32 [500000000]).value 32 1000000000).1 = 100 := by
  decide +kernel

theorem value_polled_quarters :
    (((⟨3200, 0⟩ : DecayingSample).polled 32 [1250000000, 2500000000]).value 32 3750000000).1 =
      ((⟨3200, 0⟩ : DecayingSample).value 32 3750000000).1 :=
  (value_polled (by decide) (by decide) (by decide)).2.2 (.inl (by decide)) 3200 (by decide)

end DecayingSample
end Skywell
