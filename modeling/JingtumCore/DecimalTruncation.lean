import Mathlib.Algebra.Order.Field.Power
import Mathlib.Algebra.Order.Floor.Semifield
import Mathlib.Data.Rat.Floor
import Mathlib.Tactic.Positivity

/-!
# Truncation to a number of decimal digits

A positive rational has one decimal mantissa of `p + 1` digits with an exponent that leaves
less than a unit of the last digit. The pair grows with the rational, first in its exponent
and then in its mantissa.
-/
namespace DecimalTruncation

variable {p v v' m : ℕ} {o o' e : ℤ} {x y : ℚ}

theorem ten_zpow_pos (o : ℤ) : (0 : ℚ) < 10 ^ o := zpow_pos (by norm_num) o

/-- A number below a mantissa's successor is below the power of ten above it. -/
theorem lt_ten_zpow (high : v < 10 ^ p) (h : x < (v + 1) * (10 : ℚ) ^ o) (top : p + o ≤ e) :
    x < 10 ^ e := by
  have upper : ((v : ℚ) + 1) ≤ 10 ^ p := by exact_mod_cast high
  calc x < (v + 1) * 10 ^ o := h
    _ ≤ 10 ^ p * 10 ^ o := mul_le_mul_of_nonneg_right upper (ten_zpow_pos o).le
    _ = 10 ^ (p + o) := by rw [zpow_add₀ (by norm_num), zpow_natCast]
    _ ≤ 10 ^ e := zpow_le_zpow_right₀ (by norm_num) top

theorem mul_zpow_lt (high : v < 10 ^ p) (top : p + o ≤ e) : v * (10 : ℚ) ^ o < 10 ^ e :=
  lt_ten_zpow high (mul_lt_mul_of_pos_right (lt_add_one _) (ten_zpow_pos o)) top

theorem ten_zpow_le (low : 10 ^ p ≤ v) (bottom : e ≤ p + o) : (10 : ℚ) ^ e ≤ v * 10 ^ o :=
  calc (10 : ℚ) ^ e ≤ 10 ^ (p + o) := zpow_le_zpow_right₀ (by norm_num) bottom
    _ = 10 ^ p * 10 ^ o := by rw [zpow_add₀ (by norm_num), zpow_natCast]
    _ ≤ v * 10 ^ o := mul_le_mul_of_nonneg_right (by exact_mod_cast low) (ten_zpow_pos o).le

/-- `v * 10 ^ o` has `p + 1` digits and is `x` without what lies below the last of them. -/
structure Truncates (p : ℕ) (x : ℚ) (v : ℕ) (o : ℤ) : Prop where
  low : 10 ^ p ≤ v
  high : v < 10 ^ (p + 1)
  le : v * (10 : ℚ) ^ o ≤ x
  lt : x < (v + 1) * (10 : ℚ) ^ o

namespace Truncates

theorem mono (hx : Truncates p x v o) (hy : Truncates p y v' o') (h : x ≤ y) :
    o < o' ∨ o = o' ∧ v ≤ v' := by
  rcases lt_trichotomy o o' with less | rfl | more
  · exact .inl less
  · refine .inr ⟨rfl, ?_⟩
    have below : (v : ℚ) * 10 ^ o < (v' + 1) * 10 ^ o := (hx.le.trans h).trans_lt hy.lt
    have below' : (v : ℚ) < v' + 1 := lt_of_mul_lt_mul_right below (ten_zpow_pos o).le
    exact Nat.lt_succ_iff.1 (by exact_mod_cast below')
  · exfalso
    have : y < x :=
      calc y < 10 ^ (p + o) := lt_ten_zpow hy.high hy.lt (by push_cast; omega)
        _ ≤ v * 10 ^ o := ten_zpow_le hx.low le_rfl
        _ ≤ x := hx.le
    linarith

theorem unique (h : Truncates p x v o) (h' : Truncates p x v' o') : v = v' ∧ o = o' := by
  have forth := h.mono h' le_rfl
  have back := h'.mono h le_rfl
  omega

theorem abs_sub_lt (h : Truncates p x v o) : |v * (10 : ℚ) ^ o - x| < 10 ^ o := by
  have low := h.le
  have high := h.lt
  rw [abs_lt]
  constructor <;> linarith

end Truncates

theorem truncates_self (low : 10 ^ p ≤ v) (high : v < 10 ^ (p + 1)) :
    Truncates p (v * (10 : ℚ) ^ o) v o := by
  refine ⟨low, high, le_rfl, ?_⟩
  exact mul_lt_mul_of_pos_right (by linarith) (ten_zpow_pos o)

theorem shift_digits (m k : ℕ) (e : ℤ) :
    ((m * 10 ^ k : ℕ) : ℚ) * 10 ^ (e - k) = m * 10 ^ e := by
  rw [zpow_sub₀ (by norm_num), zpow_natCast]
  push_cast
  field_simp

theorem cut_digits (m k : ℕ) (e : ℤ) :
    ((m / 10 ^ k : ℕ) : ℚ) * 10 ^ (e + k) ≤ m * 10 ^ e ∧
      (m : ℚ) * 10 ^ e < ((m / 10 ^ k : ℕ) + 1) * 10 ^ (e + k) := by
  have split : (m : ℚ) * 10 ^ e = m / (10 ^ k : ℕ) * 10 ^ (e + k) := by
    rw [zpow_add₀ (by norm_num), zpow_natCast]
    push_cast
    field_simp
  have unit := ten_zpow_pos (e + k)
  rw [split, ← Nat.floor_div_eq_div (K := ℚ)]
  constructor
  · exact mul_le_mul_of_nonneg_right (Nat.floor_le (by positivity)) unit.le
  · exact mul_lt_mul_of_pos_right (Nat.lt_floor_add_one _) unit

theorem floor_scaled :
    ⌊(m : ℚ) * 10 ^ e⌋₊ = m / 10 ^ (-e).toNat * 10 ^ e.toNat := by
  rcases le_total 0 e with positive | negative
  · obtain ⟨k, rfl⟩ := Int.eq_ofNat_of_zero_le positive
    have none : (-(k : ℤ)).toNat = 0 := by omega
    rw [none, pow_zero, Nat.div_one]
    exact_mod_cast Nat.floor_natCast (m * 10 ^ k)
  · obtain ⟨k, hk⟩ := Int.eq_ofNat_of_zero_le (Int.neg_nonneg_of_nonpos negative)
    obtain rfl : e = -(k : ℤ) := by omega
    have none : (-(k : ℤ)).toNat = 0 := by omega
    rw [none, neg_neg, zpow_neg, pow_zero, mul_one, ← div_eq_mul_inv]
    exact_mod_cast Nat.floor_div_eq_div (K := ℚ) m (10 ^ k)

end DecimalTruncation
