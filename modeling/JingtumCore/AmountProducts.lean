import JingtumCore.NativeRange

/-!
# Products and quotients of amounts

`multiply` and `divide` compute on mantissas of sixteen digits or more, add a bias to the
integer part of the result and leave the rounding to `canonicalize`. The bias is less than a
unit of the result wherever a digit is cut off afterwards.
-/
namespace Skywell.STAmount
open DecimalTruncation

variable {a b r : STAmount} {issue : Issue}

theorem nativeMantissa_eq_growMantissa (steps : Nat) (v : UInt64) (offset : Int) :
    nativeMantissa steps v offset = growMantissa steps v offset := by
  induction steps generalizing v offset with
  | zero => rfl
  | succ steps ih =>
    unfold nativeMantissa growMantissa
    rw [ih]

/-- An operand has the value of its amount and at least sixteen digits; it has more only if
it is native and as it was. -/
theorem operand_spec (ha : a.Normal) (legal : a.isLegalNet = true) (nonzero : a.mValue ≠ 0) :
    (a.operand.1.toNat : ℚ) * 10 ^ a.operand.2 = a.magnitude ∧ 10 ^ 15 ≤ a.operand.1.toNat ∧
      a.operand.1.toNat ≤ 10 ^ 17 ∧
      (a.operand.1.toNat < 10 ^ 16 ∨ a.mIsNative = true ∧ a.operand = (a.mValue, 0)) := by
  unfold operand
  cases native : a.mIsNative with
  | false =>
    obtain ⟨low, high, -, -⟩ := ha.issued native nonzero
    exact ⟨rfl, low, high.le.trans (by decide), .inl high⟩
  | true =>
    have limit := (isLegalNet_iff native).1 legal
    have positive := toNat_pos_of_ne_zero nonzero
    have offset := ha.offset_of_native native
    rw [if_pos rfl, nativeMantissa_eq_growMantissa]
    obtain ⟨k, -, grown, shifted, short, long⟩ := growMantissa_spec 15 a.mValue a.mOffset
    have low : 10 ^ 15 ≤ a.mValue.toNat * 10 ^ k := by
      rcases long with long | rfl
      · exact long
      · exact Nat.le_mul_of_pos_left _ positive
    rw [grown, shifted]
    refine ⟨shift_digits .., low, ?_, ?_⟩
    · rcases short with rfl | short
      · rwa [Nat.pow_zero, Nat.mul_one]
      · omega
    · rcases short with rfl | short
      · right
        refine ⟨rfl, Prod.ext (UInt64.toNat_inj.1 ?_) ?_⟩
        · rw [grown, Nat.pow_zero, Nat.mul_one]
        · rw [shifted, offset]
          rfl
      · exact .inl short

theorem value_mul :
    a.value * b.value = signed (a.mIsNegative != b.mIsNegative) (a.magnitude * b.magnitude) := by
  unfold value
  cases a.mIsNegative <;> cases b.mIsNegative <;> simp

theorem value_div :
    a.value / b.value = signed (a.mIsNegative != b.mIsNegative) (a.magnitude / b.magnitude) := by
  unfold value
  cases a.mIsNegative <;> cases b.mIsNegative <;> simp [neg_div, div_neg]

section Biased

variable {v bias : Nat} {offset : Int} {negative : Bool} {x : ℚ}
  (low : 10 ^ 15 ≤ v) (least : 2 ≤ bias) (most : bias ≤ 9) (fits : v + bias < 2 ^ 64)
  (le : (v : ℚ) * 10 ^ offset ≤ x) (lt : x < (v + 1) * 10 ^ offset)
include low least most fits le lt

/-- An issued result is within a unit of its last place exactly if a digit of the biased
mantissa is cut off, or the result is too small or too large. -/
theorem biased_issued (issued : isSWT issue.currency = false) :
    (∀ r, ofIssue issue (.ofNat (v + bias)) offset negative = .ok r → 10 ^ (-81 : ℤ) ≤ x →
      |r.value - signed negative x| < 10 ^ r.mOffset) ↔
    (10 ^ 16 ≤ v + bias ∨ offset < -96 ∨ 80 < offset) := by
  have least' : (2 : ℚ) ≤ bias := by exact_mod_cast least
  have most' : (bias : ℚ) ≤ 9 := by exact_mod_cast most
  have read : (UInt64.ofNat (v + bias)).toNat = v + bias := UInt64.toNat_ofNat_of_lt' fits
  have nonzero := ofNat_ne_zero (by omega) fits
  have below : x < ((v + bias : ℕ) : ℚ) * 10 ^ offset := by
    push_cast
    nlinarith
  constructor
  · intro h
    by_contra small
    obtain ⟨short, inside⟩ := not_or.1 small
    obtain ⟨above, under⟩ := not_or.1 inside
    have made : ofIssue issue (.ofNat (v + bias)) offset negative =
        .ok ⟨issue, .ofNat (v + bias), offset, false, negative⟩ :=
      ofIssue_inRange issued (by omega) (by omega) (Int.not_lt.1 above) (Int.not_lt.1 under)
    have large : (10 : ℚ) ^ (-81 : ℤ) ≤ x := (ten_zpow_le low (by omega)).trans le
    have near := h _ made large
    rw [value, abs_signed_sub, magnitude, abs_lt] at near
    rw [read] at near
    push_cast at near
    nlinarith [near.2]
  · intro digits r made large
    obtain ⟨-, -, sign, ⟨tiny, -⟩ | ⟨truncated, -, top⟩⟩ := ofIssue_issued issued nonzero made
    · rw [read] at tiny
      linarith
    rw [read] at truncated
    -- the last place of the result is above the bias
    have place : (bias : ℚ) * 10 ^ offset < 10 ^ r.mOffset := by
      have more : offset + 1 ≤ r.mOffset := by
        by_contra less
        have short : v + bias < 10 ^ 16 := by
          by_contra long
          have above := ten_zpow_le (e := 16 + offset) (Nat.not_lt.1 long) le_rfl
          exact absurd above (not_le.2 (lt_ten_zpow truncated.high truncated.lt (by omega)))
        rcases digits with digits | digits | digits
        · omega
        · have tiny : x < 10 ^ (-81 : ℤ) :=
            lt_ten_zpow (p := 16) (by omega) lt (by push_cast; omega)
          linarith
        · have same := truncated.unique (truncates_self (by omega) short)
          omega
      calc (bias : ℚ) * 10 ^ offset < 10 * 10 ^ offset := by nlinarith
        _ = 10 ^ (offset + 1) := by rw [zpow_add_one₀ (by norm_num), mul_comm]
        _ ≤ 10 ^ r.mOffset := zpow_le_zpow_right₀ (by norm_num) more
    rw [value, sign, abs_signed_sub, magnitude, abs_lt]
    have lower := truncated.le
    have upper := truncated.lt
    push_cast at lower upper below
    constructor <;> nlinarith

/-- A native result is within a drop exactly if a digit of the biased mantissa is cut off, or
the call throws. -/
theorem biased_native (native : isSWT issue.currency = true) :
    (∀ r, ofIssue issue (.ofNat (v + bias)) offset negative = .ok r → 1 ≤ x →
      |r.value - signed negative x| < 10 ^ r.mOffset) ↔
    (offset < 0 ∨ 10 ^ 17 < (v + bias) * 10 ^ offset.toNat % 2 ^ 64) := by
  have unit := ten_zpow_pos offset
  have least' : (2 : ℚ) ≤ bias := by exact_mod_cast least
  have most' : (bias : ℚ) ≤ 9 := by exact_mod_cast most
  have read : (UInt64.ofNat (v + bias)).toNat = v + bias := UInt64.toNat_ofNat_of_lt' fits
  have nonzero := ofNat_ne_zero (by omega) fits
  rw [ofIssue_native_eq native nonzero, read]
  by_cases cut : offset < 0
  · refine ⟨fun _ => .inl cut, fun _ r made _ => ?_⟩
    have none : offset.toNat = 0 := by omega
    obtain ⟨lower, upper⟩ := cut_digits (v + bias) (-offset).toNat offset
    have whole : offset + ((-offset).toNat : Int) = 0 := by omega
    rw [whole, zpow_zero] at lower upper
    have small : (v + bias) / 10 ^ (-offset).toNat < 2 ^ 64 := (Nat.div_le_self _ _).trans_lt fits
    rw [none, Nat.pow_zero, Nat.mul_one, Nat.mod_eq_of_lt small] at made
    split at made
    · cases made
    cases made
    have tenth : (10 : ℚ) ^ offset ≤ 10 ^ (-1 : ℤ) := zpow_le_zpow_right₀ (by norm_num) (by omega)
    have place : (bias : ℚ) * 10 ^ offset < 1 := by
      norm_num at tenth
      nlinarith
    rw [value, abs_signed_sub, magnitude, abs_lt]
    rw [UInt64.toNat_ofNat_of_lt' small, zpow_zero]
    push_cast at lower upper ⊢
    constructor <;> nlinarith
  · obtain ⟨k, hk⟩ := Int.eq_ofNat_of_zero_le (Int.not_lt.1 cut)
    subst hk
    have none : (-(k : Int)).toNat = 0 := by omega
    have one : 1 ≤ 10 ^ k := Nat.pow_pos (by decide)
    have one' : (1 : ℚ) ≤ 10 ^ k := by exact_mod_cast one
    rw [none, Nat.pow_zero, Nat.div_one, Int.toNat_natCast]
    rw [zpow_natCast] at le lt unit
    by_cases refused : (v + bias) * 10 ^ k % 2 ^ 64 > 10 ^ 17
    · rw [if_pos refused]
      exact ⟨fun _ => .inr refused, fun _ r made => by cases made⟩
    rw [if_neg refused]
    refine ⟨fun h => ?_, fun h => ?_⟩
    · exfalso
      have low' : (10 : ℚ) ^ 15 ≤ v := by exact_mod_cast low
      have near := h _ rfl (by nlinarith)
      rw [value, abs_signed_sub, magnitude, abs_lt] at near
      rw [toNat_ofNat_mod, zpow_zero] at near
      by_cases fits' : (v + bias) * 10 ^ k < 2 ^ 64
      · rw [Nat.mod_eq_of_lt fits'] at near
        push_cast at near
        nlinarith [near.2]
      · have lost : (((v + bias) * 10 ^ k % 2 ^ 64 : ℕ) : ℚ) ≤ 10 ^ 17 := by
          exact_mod_cast Nat.not_lt.1 refused
        have large : (2 : ℚ) ^ 64 ≤ (v + bias) * 10 ^ k := by exact_mod_cast Nat.not_lt.1 fits'
        nlinarith [near.1]
    · rcases h with h | h
      · exact absurd h cut
      · exact absurd h refused

end Biased

/-- The smallest magnitude of an issue. -/
def smallest (issue : Issue) : ℚ := if isSWT issue.currency then 1 else 10 ^ (-81 : ℤ)

theorem smallest_pos : 0 < smallest issue := by
  unfold smallest
  split
  · norm_num
  · exact ten_zpow_pos _

/-- The integer part of a product of mantissas, fourteen digits up. -/
def productMantissa (a b : STAmount) : Nat := a.operand.1.toNat * b.operand.1.toNat / 10 ^ 14

def productExponent (a b : STAmount) : Int := a.operand.2 + b.operand.2 + 14

/-- The integer part of a quotient of mantissas, seventeen digits down. -/
def quotientMantissa (num den : STAmount) : Nat :=
  num.operand.1.toNat * 10 ^ 17 / den.operand.1.toNat

def quotientExponent (num den : STAmount) : Int := num.operand.2 - den.operand.2 - 17

section Exact

variable (ha : a.Normal) (hb : b.Normal) (legal : a.isLegalNet = true) (legal' : b.isLegalNet = true)
  (na : a.mValue ≠ 0) (nb : b.mValue ≠ 0)
include ha hb legal legal' na nb

theorem product_eq :
    a.magnitude * b.magnitude =
      (a.operand.1.toNat * b.operand.1.toNat : ℕ) * (10 : ℚ) ^ (a.operand.2 + b.operand.2) := by
  obtain ⟨value1, -, -, -⟩ := operand_spec ha legal na
  obtain ⟨value2, -, -, -⟩ := operand_spec hb legal' nb
  rw [← value1, ← value2, zpow_add₀ (by norm_num)]
  push_cast
  ring

theorem product_bracket :
    10 ^ 16 ≤ productMantissa a b ∧
    (productMantissa a b : ℚ) * 10 ^ productExponent a b ≤ a.magnitude * b.magnitude ∧
      a.magnitude * b.magnitude < (productMantissa a b + 1) * 10 ^ productExponent a b := by
  obtain ⟨-, low1, -, -⟩ := operand_spec ha legal na
  obtain ⟨-, low2, -, -⟩ := operand_spec hb legal' nb
  constructor
  · rw [productMantissa, Nat.le_div_iff_mul_le (by decide)]
    exact le_trans (by decide) (Nat.mul_le_mul low1 low2)
  · rw [product_eq ha hb legal legal' na nb]
    exact cut_digits (a.operand.1.toNat * b.operand.1.toNat) 14 (a.operand.2 + b.operand.2)

theorem quotient_eq :
    a.magnitude / b.magnitude =
      (a.operand.1.toNat * 10 ^ 17 : ℕ) / b.operand.1.toNat * (10 : ℚ) ^ quotientExponent a b := by
  obtain ⟨value1, -, -, -⟩ := operand_spec ha legal na
  obtain ⟨value2, -, -, -⟩ := operand_spec hb legal' nb
  unfold quotientExponent
  rw [← value1, ← value2, zpow_sub₀ (by norm_num), zpow_sub₀ (by norm_num)]
  push_cast
  field_simp

theorem quotient_bracket :
    10 ^ 15 ≤ quotientMantissa a b ∧ quotientMantissa a b ≤ 10 ^ 19 ∧
    (quotientMantissa a b : ℚ) * 10 ^ quotientExponent a b ≤ a.magnitude / b.magnitude ∧
      a.magnitude / b.magnitude < (quotientMantissa a b + 1) * 10 ^ quotientExponent a b := by
  obtain ⟨-, low1, high1, -⟩ := operand_spec ha legal na
  obtain ⟨-, low2, high2, -⟩ := operand_spec hb legal' nb
  have exactly := quotient_eq ha hb legal legal' na nb
  unfold quotientMantissa
  generalize a.operand.1.toNat = n at *
  generalize b.operand.1.toNat = d at *
  have positive : 0 < d := by omega
  have unit := ten_zpow_pos (quotientExponent a b)
  refine ⟨?_, ?_, ?_, ?_⟩
  · rw [Nat.le_div_iff_mul_le positive]
    omega
  · rw [Nat.div_le_iff_le_mul_add_pred positive]
    omega
  · rw [exactly, ← Nat.floor_div_eq_div (K := ℚ)]
    exact mul_le_mul_of_nonneg_right (Nat.floor_le (by positivity)) unit.le
  · rw [exactly, ← Nat.floor_div_eq_div (K := ℚ)]
    exact mul_lt_mul_of_pos_right (Nat.lt_floor_add_one _) unit

end Exact

/-- Where `multiply` is accurate: the mantissa fits, and of a native result a digit is cut
off. -/
def MultiplyCondition (a b : STAmount) (issue : Issue) : Prop :=
  a.mValue ≠ 0 → b.mValue ≠ 0 →
    ¬ (a.mIsNative = true ∧ b.mIsNative = true ∧ isSWT issue.currency = true) →
      if isSWT issue.currency then productExponent a b < 0 ∨
        10 ^ 17 < (productMantissa a b + 7) * 10 ^ (productExponent a b).toNat % 2 ^ 64
      else productMantissa a b + 7 < 2 ^ 64

/-- Where `divide` is accurate: a digit is cut off. -/
def DivideCondition (num den : STAmount) (issue : Issue) : Prop :=
  num.mValue ≠ 0 → den.mValue ≠ 0 →
    if isSWT issue.currency then quotientExponent num den < 0 ∨
      10 ^ 17 < (quotientMantissa num den + 5) * 10 ^ (quotientExponent num den).toNat % 2 ^ 64
    else 10 ^ 16 ≤ quotientMantissa num den + 5 ∨ quotientExponent num den < -96 ∨
      80 < quotientExponent num den

theorem getuint64_of_lt {v : Nat} (h : v < 2 ^ 64) : getuint64 v = .ofNat v := if_pos h

theorem toNat_getuint64_add {v bias : Nat} (h : v < 2 ^ 64) :
    getuint64 v + UInt64.ofNat bias = .ofNat (v + bias) := by
  rw [getuint64_of_lt h, UInt64.ofNat_add]

/-- Only two native amounts, as they are, have a product of so many digits. -/
theorem native_of_large_product (ha : a.Normal) (hb : b.Normal) (legal : a.isLegalNet = true)
    (legal' : b.isLegalNet = true) (na : a.mValue ≠ 0) (nb : b.mValue ≠ 0)
    (large : 10 ^ 33 < a.operand.1.toNat * b.operand.1.toNat) :
    a.mIsNative = true ∧ b.mIsNative = true ∧ productExponent a b = 14 := by
  obtain ⟨-, -, high1, form1⟩ := operand_spec ha legal na
  obtain ⟨-, -, high2, form2⟩ := operand_spec hb legal' nb
  rcases form1 with short | ⟨native1, same1⟩
  · have := Nat.mul_le_mul short.le high2
    omega
  rcases form2 with short | ⟨native2, same2⟩
  · have := Nat.mul_le_mul high1 short.le
    omega
  refine ⟨native1, native2, ?_⟩
  rw [productExponent, same1, same2]
  rfl

theorem toNat_getuint64_wrapped {v : Nat} (large : 2 ^ 64 ≤ v + 7) : (getuint64 v + 7).toNat ≤ 6 := by
  unfold getuint64
  by_cases fits : v < 2 ^ 64
  · rw [if_pos fits, UInt64.toNat_add, UInt64.toNat_ofNat_of_lt' fits]
    have seven : (7 : UInt64).toNat = 7 := rfl
    omega
  · rw [if_neg fits]
    decide

theorem abs_value : |a.value| = a.magnitude := abs_signed magnitude_nonneg

theorem ofIssue_few {m : UInt64} (negative : Bool) (issued : isSWT issue.currency = false)
    (few : m.toNat ≤ 6) :
    ∃ r, ofIssue issue m 14 negative = .ok r ∧ |r.value| ≤ 10 ^ 15 ∧ (10 : ℚ) ^ r.mOffset ≤ 1 := by
  by_cases zero : m = 0
  · refine ⟨⟨issue, 0, -100, false, false⟩, ?_, ?_⟩
    · simp [ofIssue, canonicalize, getCurrency, issued, zero]
    · rw [value_of_zero rfl]
      norm_num
  · obtain ⟨r, made⟩ := ofIssue_short (e := 14) negative issued zero (by omega) (by decide)
    refine ⟨r, made, ?_⟩
    have few' : (m.toNat : ℚ) ≤ 6 := by exact_mod_cast few
    obtain ⟨-, -, -, ⟨-, none, offset⟩ | ⟨truncated, -⟩⟩ := ofIssue_issued issued zero made
    · rw [value_of_zero none, offset]
      norm_num
    · rw [abs_value]
      have below : r.magnitude ≤ 10 ^ 15 := by
        apply truncated.le.trans
        linarith
      refine ⟨below, ?_⟩
      have low : (10 : ℚ) ^ 15 ≤ r.mValue.toNat := by exact_mod_cast truncated.low
      have unit := ten_zpow_pos r.mOffset
      unfold magnitude at below
      nlinarith

section Accuracy

variable (ha : a.Normal) (hb : b.Normal) (legal : a.isLegalNet = true) (legal' : b.isLegalNet = true)
include ha hb legal legal'

/-- Two native factors that are multiplied directly have an exact product. -/
theorem multiply_native_exact (na : a.mValue ≠ 0) (nb : b.mValue ≠ 0)
    (both : a.mIsNative = true ∧ b.mIsNative = true ∧ isSWT issue.currency = true)
    (h : a.multiply b issue = .ok r) : r.value = a.value * b.value ∧ r.mOffset = 0 := by
  obtain ⟨native1, native2, native⟩ := both
  have drops {c : STAmount} (hc : c.Normal) (legalc : c.isLegalNet = true) (nc : c.mIsNative = true) :
      ∃ n, c.getSNValue = .ok n ∧ c.value = n.toInt := by
    have limit := (isLegalNet_iff nc).1 legalc
    obtain ⟨n, read, same⟩ := getSNValue_drops (a := { c with mIssue := {} })
      ⟨nc, rfl, hc.offset_of_native nc, by change c.mValue.toNat < 2 ^ 62; omega⟩
    refine ⟨n, read, ?_⟩
    rw [value_eq_drops (hc.offset_of_native nc), same]
    rfl
  obtain ⟨n1, read1, value1⟩ := drops ha legal native1
  obtain ⟨n2, read2, value2⟩ := drops hb legal' native2
  rcases multiply_native na nb native native1 native2 read1 read2 with
    ⟨-, m, made, product⟩ | ⟨-, e, thrown⟩
  · rw [made] at h
    cases h
    refine ⟨?_, rfl⟩
    rw [value_eq_drops rfl, value1, value2]
    exact_mod_cast product
  · rw [thrown] at h
    cases h

theorem multiply_accurate_iff :
    (∀ r, a.multiply b issue = .ok r → smallest issue ≤ |a.value * b.value| →
      |r.value - a.value * b.value| < 10 ^ r.mOffset) ↔ MultiplyCondition a b issue := by
  unfold MultiplyCondition
  by_cases zero : a.mValue = 0 ∨ b.mValue = 0
  · refine ⟨fun _ na nb => absurd zero (not_or.2 ⟨na, nb⟩), fun _ r made large => ?_⟩
    have none : a.value * b.value = 0 := mul_eq_zero.2 (zero.imp value_of_zero value_of_zero)
    rw [none] at large
    exact absurd large (not_le.2 smallest_pos)
  obtain ⟨na, nb⟩ := not_or.1 zero
  by_cases both : a.mIsNative = true ∧ b.mIsNative = true ∧ isSWT issue.currency = true
  · refine ⟨fun _ _ _ mixed => absurd both mixed, fun _ r made _ => ?_⟩
    obtain ⟨exactly, -⟩ := multiply_native_exact ha hb legal legal' na nb both made
    rw [exactly, sub_self]
    exact ten_zpow_pos _
  obtain ⟨low, lower, upper⟩ := product_bracket ha hb legal legal' na nb
  have positive : 0 ≤ a.magnitude * b.magnitude := mul_nonneg magnitude_nonneg magnitude_nonneg
  simp only [na, nb, both, not_false_eq_true, forall_const, Ne]
  rw [value_mul, abs_signed positive, multiply_eq_ofIssue na nb both]
  have parts : productParts a b = (getuint64 (productMantissa a b) + 7, productExponent a b) := rfl
  rw [parts]
  by_cases fits : productMantissa a b + 7 < 2 ^ 64
  · have biased : getuint64 (productMantissa a b) + 7 = .ofNat (productMantissa a b + 7) :=
      toNat_getuint64_add (by omega)
    rw [biased]
    unfold smallest
    cases native : isSWT issue.currency with
    | true =>
      exact biased_native (by omega) (by decide) (by decide) fits lower upper native
    | false =>
      simp only [reduceCtorEq, if_false]
      rw [biased_issued (by omega) (by decide) (by decide) fits lower upper native]
      exact ⟨fun _ => fits, fun _ => .inl (by omega)⟩
  · have product : 10 ^ 33 < a.operand.1.toNat * b.operand.1.toNat := by
      unfold productMantissa at fits
      omega
    obtain ⟨native1, native2, exponent⟩ := native_of_large_product ha hb legal legal' na nb product
    have issued : isSWT issue.currency = false :=
      Bool.eq_false_iff.2 fun native => both ⟨native1, native2, native⟩
    simp only [issued, reduceCtorEq, if_false, fits, iff_false]
    intro h
    rw [exponent] at h lower
    obtain ⟨r, made, small, unit⟩ := ofIssue_few
      (a.mIsNegative != b.mIsNegative) issued (toNat_getuint64_wrapped (Nat.not_lt.1 fits))
    have large : (10 : ℚ) ^ 30 ≤ a.magnitude * b.magnitude := by
      have low' : (10 : ℚ) ^ 16 ≤ productMantissa a b := by exact_mod_cast low
      refine le_trans ?_ lower
      linarith
    have near := h r made (by rw [smallest, issued]; norm_num at large ⊢; linarith)
    have far := abs_sub_abs_le_abs_sub
      (signed (a.mIsNegative != b.mIsNegative) (a.magnitude * b.magnitude)) r.value
    rw [abs_signed positive, abs_sub_comm] at far
    linarith

/-- What `divide` hands to the constructor. -/
theorem divide_eq_ofIssue (na : a.mValue ≠ 0) (nb : b.mValue ≠ 0) :
    a.divide b issue = ofIssue issue (.ofNat (quotientMantissa a b + 5)) (quotientExponent a b)
      (a.mIsNegative != b.mIsNegative) := by
  obtain ⟨-, high, -, -⟩ := quotient_bracket ha hb legal legal' na nb
  have biased : getuint64 (quotientMantissa a b) + 5 = .ofNat (quotientMantissa a b + 5) :=
    toNat_getuint64_add (by omega)
  unfold divide
  rw [if_neg (not_isZero nb), if_neg (not_isZero na), ← biased]
  rfl

theorem divide_accurate_iff :
    (∀ r, a.divide b issue = .ok r → smallest issue ≤ |a.value / b.value| →
      |r.value - a.value / b.value| < 10 ^ r.mOffset) ↔ DivideCondition a b issue := by
  unfold DivideCondition
  by_cases zero : a.mValue = 0 ∨ b.mValue = 0
  · refine ⟨fun _ na nb => absurd zero (not_or.2 ⟨na, nb⟩), fun _ r made large => ?_⟩
    have none : a.value / b.value = 0 := div_eq_zero_iff.2 (zero.imp value_of_zero value_of_zero)
    rw [none] at large
    exact absurd large (not_le.2 smallest_pos)
  obtain ⟨na, nb⟩ := not_or.1 zero
  obtain ⟨low, high, lower, upper⟩ := quotient_bracket ha hb legal legal' na nb
  have positive : 0 ≤ a.magnitude / b.magnitude := div_nonneg magnitude_nonneg magnitude_nonneg
  simp only [na, nb, not_false_eq_true, forall_const, Ne]
  rw [value_div, abs_signed positive]
  rw [divide_eq_ofIssue ha hb legal legal' na nb]
  unfold smallest
  cases native : isSWT issue.currency with
  | true =>
    exact biased_native low (by decide) (by decide) (by omega) lower upper native
  | false =>
    exact biased_issued low (by decide) (by decide) (by omega) lower upper native

end Accuracy

/-- `multiply` and `divide` are accurate to one unit in the last place exactly under the
conditions on the mantissas and the exponents. -/
theorem products_accurate_iff (a b : STAmount) (issue : Issue) (ha : a.Normal) (hb : b.Normal)
    (legal : a.isLegalNet = true) (legal' : b.isLegalNet = true) :
    ((∀ r, a.multiply b issue = .ok r → smallest issue ≤ |a.value * b.value| →
      |r.value - a.value * b.value| < 10 ^ r.mOffset) ↔ MultiplyCondition a b issue) ∧
    ((∀ r, a.divide b issue = .ok r → smallest issue ≤ |a.value / b.value| →
      |r.value - a.value / b.value| < 10 ^ r.mOffset) ↔ DivideCondition a b issue) :=
  ⟨multiply_accurate_iff ha hb legal legal', divide_accurate_iff ha hb legal legal'⟩

/-- Ten units of a currency times `10 ^ 15` drops, in drops: seven drops too many. -/
theorem multiply_seven_drops :
    Normal ⟨⟨7, 9⟩, cMinValue, -14, false, false⟩ ∧ Normal (ofNative 1000000000000000) ∧
      (ofNative 1000000000000000).isLegalNet = true ∧
      multiply ⟨⟨7, 9⟩, cMinValue, -14, false, false⟩ (ofNative 1000000000000000) {} =
        .ok (ofNative 10000000000000007) ∧
      value ⟨⟨7, 9⟩, cMinValue, -14, false, false⟩ * (ofNative 1000000000000000).value = 10 ^ 16 ∧
      (ofNative 10000000000000007).value = 10 ^ 16 + 7 := by
  refine ⟨by decide, by decide, by decide, by decide, ?_, ?_⟩
  · have mantissa : (1000000000000000 : UInt64).toNat = 1000000000000000 := rfl
    rw [value_of_not_negative rfl, value_of_not_negative rfl]
    norm_num [magnitude, ofNative, cMinValue, mantissa]
  · have mantissa : (10000000000000007 : UInt64).toNat = 10000000000000007 := rfl
    rw [value_of_not_negative rfl]
    norm_num [magnitude, ofNative, mantissa]

/-- One unit times one unit. -/
theorem products_accurate_units :
    Normal ⟨⟨7, 9⟩, cMinValue, -15, false, false⟩ ∧
      MultiplyCondition ⟨⟨7, 9⟩, cMinValue, -15, false, false⟩
        ⟨⟨7, 9⟩, cMinValue, -15, false, false⟩ ⟨7, 9⟩ ∧
      ∀ r, multiply ⟨⟨7, 9⟩, cMinValue, -15, false, false⟩ ⟨⟨7, 9⟩, cMinValue, -15, false, false⟩
        ⟨7, 9⟩ = .ok r →
        smallest ⟨7, 9⟩ ≤ |value ⟨⟨7, 9⟩, cMinValue, -15, false, false⟩ *
          value ⟨⟨7, 9⟩, cMinValue, -15, false, false⟩| →
        |r.value - value ⟨⟨7, 9⟩, cMinValue, -15, false, false⟩ *
          value ⟨⟨7, 9⟩, cMinValue, -15, false, false⟩| < 10 ^ r.mOffset := by
  refine ⟨by decide, ?_, (products_accurate_iff _ _ ⟨7, 9⟩ (by decide) (by decide) (by decide)
    (by decide)).1.2 ?_⟩
  all_goals
    unfold MultiplyCondition
    decide

end Skywell.STAmount
