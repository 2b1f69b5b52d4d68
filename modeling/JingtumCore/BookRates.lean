import JingtumCore.AmountProducts

/-!
# The rates of a book

The 64-bit rate of an offer is the exponent and the mantissa of `offerIn / offerOut`, so that
rates are ordered as the quotients that `divide` returns. The bias of `divide` depends on the
exponent at which the quotient was computed: prices are in order where the lower one was not
computed at the larger exponent, and where they differ by more than the bias.
-/
namespace Skywell.STAmount
open DecimalTruncation

/-- `getRate`; whatever `divide` throws is caught. -/
def getRate (offerOut offerIn : STAmount) : UInt64 :=
  if offerOut.isZero then 0
  else
    match offerIn.divide offerOut noIssue with
    | .ok r => if r.isZero then 0 else UInt64.ofInt (r.mOffset + 100) <<< 56 ||| r.mValue
    | .error _ => 0

def amountFromQuality (rate : UInt64) : Except Fault STAmount :=
  if rate = 0 then .ok (zeroOf noIssue)
  else ofIssue noIssue (rate &&& ~~~((255 : UInt64) <<< 56)) ((rate >>> 56).toNat - 100) false

variable {a b r offerOut offerIn : STAmount}

theorem toNat_rate {m : UInt64} {o : Int} (mantissa : m.toNat < 2 ^ 56) (low : -100 ≤ o)
    (high : o < 156) :
    (UInt64.ofInt (o + 100) <<< 56 ||| m).toNat = (o + 100).toNat * 2 ^ 56 + m.toNat := by
  have shift : (56 : UInt64).toNat % 64 = 56 := by decide
  obtain ⟨e, he⟩ := Int.eq_ofNat_of_zero_le (show 0 ≤ o + 100 by omega)
  have whole : (UInt64.ofInt (o + 100)).toNat = e := by
    unfold UInt64.ofInt
    rw [UInt64.toNat_ofNat']
    omega
  rw [UInt64.toNat_or, UInt64.toNat_shiftLeft, shift, whole, Nat.shiftLeft_eq,
    Nat.mod_eq_of_lt (by omega), Nat.mul_comm, ← Nat.two_pow_add_eq_or_of_lt mantissa, he]
  omega

/-- What a rate that is not zero is made of. -/
theorem getRate_ne_zero (h : getRate offerOut offerIn ≠ 0) :
    ∃ r, offerIn.divide offerOut noIssue = .ok r ∧ r.mValue ≠ 0 ∧ offerOut.mValue ≠ 0 ∧
      getRate offerOut offerIn = UInt64.ofInt (r.mOffset + 100) <<< 56 ||| r.mValue := by
  unfold getRate at h ⊢
  by_cases zero : offerOut.isZero = true
  · rw [if_pos zero] at h
    exact absurd rfl h
  rw [if_neg zero] at h ⊢
  cases divided : offerIn.divide offerOut noIssue with
  | error e =>
    rw [divided] at h
    exact absurd rfl h
  | ok r =>
    rw [divided] at h
    dsimp only at h ⊢
    by_cases none : r.isZero = true
    · rw [if_pos none] at h
      exact absurd rfl h
    · rw [if_neg none]
      exact ⟨r, rfl, mt isZero_iff_mValue.2 none, mt isZero_iff_mValue.2 zero, rfl⟩

/-- A quotient that is not zero has the internal form. -/
theorem divide_form (h : a.divide b noIssue = .ok r) (nonzero : r.mValue ≠ 0) :
    r.mIssue = noIssue ∧ r.mIsNative = false ∧
      r.mIsNegative = (a.mIsNegative != b.mIsNegative) ∧
      10 ^ 15 ≤ r.mValue.toNat ∧ r.mValue.toNat < 10 ^ 16 ∧ -96 ≤ r.mOffset ∧ r.mOffset ≤ 80 := by
  obtain ⟨-, ⟨⟩⟩ | ⟨zero, h⟩ := ite_eq_iff.1 h
  obtain ⟨-, ⟨⟩⟩ | ⟨-, h⟩ := ite_eq_iff.1 h
  · exact absurd rfl nonzero
  have made : ofIssue noIssue (getuint64 (quotientMantissa a b) + 5) (quotientExponent a b)
      (a.mIsNegative != b.mIsNegative) = .ok r := h
  by_cases empty : getuint64 (quotientMantissa a b) + 5 = 0
  · rw [empty] at made
    rw [ofIssue_zero made] at nonzero
    exact absurd rfl nonzero
  obtain ⟨issue, native, sign, ⟨-, none, -⟩ | ⟨truncated, least, most⟩⟩ :=
    ofIssue_issued (show isSWT noIssue.currency = false from rfl) empty made
  · exact absurd none nonzero
  · exact ⟨issue, native, sign, truncated.low, truncated.high, least, most⟩

/-- A rate is read back as the quotient it was made of. -/
theorem amountFromQuality_getRate (sign : offerIn.mIsNegative = offerOut.mIsNegative)
    (h : getRate offerOut offerIn ≠ 0) :
    amountFromQuality (getRate offerOut offerIn) = offerIn.divide offerOut noIssue := by
  obtain ⟨r, divided, nonzero, -, rate⟩ := getRate_ne_zero h
  obtain ⟨issue, native, negative, low, high, least, most⟩ := divide_form divided nonzero
  have word := toNat_rate (m := r.mValue) (o := r.mOffset) (by omega) (by omega) (by omega)
  rw [divided]
  unfold amountFromQuality
  rw [if_neg h]
  rw [← rate] at word
  have mask : ~~~((255 : UInt64) <<< 56) = 72057594037927935 := by decide
  have mantissa : getRate offerOut offerIn &&& ~~~((255 : UInt64) <<< 56) = r.mValue := by
    rw [← UInt64.toNat_inj, UInt64.toNat_and]
    change (_ &&& (2 ^ 56 - 1)) = _
    rw [Nat.and_two_pow_sub_one_eq_mod]
    omega
  have exponent : ((getRate offerOut offerIn >>> 56).toNat : Int) - 100 = r.mOffset := by
    have shift : (56 : UInt64).toNat % 64 = 56 := by decide
    rw [UInt64.toNat_shiftRight, shift, word]
    omega
  rw [mantissa, exponent]
  obtain ⟨issue', value, offset, native', negative'⟩ := r
  simp only at *
  subst issue native
  rw [negative, sign, bne_self_eq_false]
  exact canonicalize_inRange rfl (UInt64.le_iff_toNat_le.2 low) (le_cMaxValue_iff.2 high) least most

/-- An offer with a price: both amounts are positive, in the internal form and legal. -/
structure Priced (offerOut offerIn : STAmount) : Prop where
  outForm : offerOut.Normal
  inForm : offerIn.Normal
  outSign : offerOut.mIsNegative = false
  inSign : offerIn.mIsNegative = false
  outLegal : offerOut.isLegalNet = true
  inLegal : offerIn.isLegalNet = true

/-- The exact price. -/
def price (offerOut offerIn : STAmount) : ℚ := offerIn.value / offerOut.value

theorem price_eq (h : Priced offerOut offerIn) :
    price offerOut offerIn = offerIn.magnitude / offerOut.magnitude := by
  unfold price
  rw [value_of_not_negative h.inSign, value_of_not_negative h.outSign]

/-- The quotient of an offer is the biased integer part of its price, truncated. -/
theorem rate_spec (h : Priced offerOut offerIn) (rate : getRate offerOut offerIn ≠ 0) :
    ∃ v m : Nat, ∃ o : Int, (getRate offerOut offerIn).toNat = (o + 100).toNat * 2 ^ 56 + m ∧
      -96 ≤ o ∧ m < 10 ^ 16 ∧ 10 ^ 15 ≤ v ∧
      Truncates 15 (((v + 5 : ℕ) : ℚ) * 10 ^ quotientExponent offerIn offerOut) m o ∧
      (v : ℚ) * 10 ^ quotientExponent offerIn offerOut ≤ price offerOut offerIn ∧
      price offerOut offerIn < (v + 1) * 10 ^ quotientExponent offerIn offerOut := by
  obtain ⟨r, divided, nonzero, outNonzero, word⟩ := getRate_ne_zero rate
  obtain ⟨-, -, -, low, high, least, most⟩ := divide_form divided nonzero
  have inNonzero : offerIn.mValue ≠ 0 := by
    intro zero
    unfold divide at divided
    rw [if_neg (not_isZero outNonzero), if_pos (isZero_iff_mValue.2 zero)] at divided
    cases divided
    exact nonzero rfl
  obtain ⟨small, large, lower, upper⟩ :=
    quotient_bracket h.inForm h.outForm h.inLegal h.outLegal inNonzero outNonzero
  rw [divide_eq_ofIssue h.inForm h.outForm h.inLegal h.outLegal inNonzero outNonzero] at divided
  have fits : quotientMantissa offerIn offerOut + 5 < 2 ^ 64 := by omega
  have read : (UInt64.ofNat (quotientMantissa offerIn offerOut + 5)).toNat =
      quotientMantissa offerIn offerOut + 5 := UInt64.toNat_ofNat_of_lt' fits
  have some := ofNat_ne_zero (by omega) fits
  obtain ⟨-, -, -, ⟨-, none, -⟩ | ⟨truncated, -⟩⟩ :=
    ofIssue_issued (show isSWT noIssue.currency = false from rfl) some divided
  · exact absurd none nonzero
  rw [read] at truncated
  refine ⟨quotientMantissa offerIn offerOut, r.mValue.toNat, r.mOffset, ?_, least, high, small,
    truncated, ?_, ?_⟩
  · rw [word]
    exact toNat_rate (by omega) (by omega) (by omega)
  · rwa [price_eq h]
  · rwa [price_eq h]

section Order

variable {out1 in1 out2 in2 : STAmount} (h1 : Priced out1 in1) (h2 : Priced out2 in2)
  (rate1 : getRate out1 in1 ≠ 0) (rate2 : getRate out2 in2 ≠ 0)
include h1 h2 rate1 rate2

theorem getRate_le (biased : ∀ v1 v2 : ℕ, 10 ^ 15 ≤ v1 →
    v1 * (10 : ℚ) ^ quotientExponent in1 out1 ≤ price out1 in1 →
    price out2 in2 < (v2 + 1) * 10 ^ quotientExponent in2 out2 →
    ((v1 + 5 : ℕ) : ℚ) * 10 ^ quotientExponent in1 out1 ≤
      ((v2 + 5 : ℕ) : ℚ) * 10 ^ quotientExponent in2 out2) :
    getRate out1 in1 ≤ getRate out2 in2 := by
  obtain ⟨v1, m1, o1, word1, low1, high1, large1, truncated1, lower1, -⟩ := rate_spec h1 rate1
  obtain ⟨v2, m2, o2, word2, low2, high2, -, truncated2, -, upper2⟩ := rate_spec h2 rate2
  have order := truncated1.mono truncated2 (biased v1 v2 large1 lower1 upper2)
  rw [UInt64.le_iff_toNat_le, word2]
  omega

/-- A lower price that was not computed at a larger exponent has no larger rate. -/
theorem getRate_mono (le : price out1 in1 ≤ price out2 in2)
    (exponents : quotientExponent in1 out1 ≤ quotientExponent in2 out2) :
    getRate out1 in1 ≤ getRate out2 in2 := by
  refine getRate_le h1 h2 rate1 rate2 fun v1 v2 _ lower1 upper2 => ?_
  have unit1 := ten_zpow_pos (quotientExponent in1 out1)
  have unit2 := ten_zpow_pos (quotientExponent in2 out2)
  rcases exponents.eq_or_lt with same | less
  · rw [same] at lower1 unit1 ⊢
    have next : (v1 : ℚ) < v2 + 1 :=
      lt_of_mul_lt_mul_right ((lower1.trans le).trans_lt upper2) unit2.le
    have next' : v1 ≤ v2 := Nat.lt_succ_iff.1 (by exact_mod_cast next)
    exact mul_le_mul_of_nonneg_right (by exact_mod_cast Nat.add_le_add_right next' 5) unit2.le
  · -- the bias of the first quotient is less than half a unit of the second
    have tenth : 10 * (10 : ℚ) ^ quotientExponent in1 out1 ≤ 10 ^ quotientExponent in2 out2 := by
      rw [mul_comm, ← zpow_add_one₀ (by norm_num)]
      exact zpow_le_zpow_right₀ (by norm_num) (by omega)
    push_cast
    linarith

theorem getRate_mono_of_gap (gap : price out1 in1 * (1 + 5 / 10 ^ 15) ≤ price out2 in2) :
    getRate out1 in1 ≤ getRate out2 in2 := by
  refine getRate_le h1 h2 rate1 rate2 fun v1 v2 large1 lower1 upper2 => ?_
  have unit1 := ten_zpow_pos (quotientExponent in1 out1)
  have unit2 := ten_zpow_pos (quotientExponent in2 out2)
  have large : (10 : ℚ) ^ 15 ≤ v1 := by exact_mod_cast large1
  have part : (10 : ℚ) ^ 15 * 10 ^ quotientExponent in1 out1 ≤
      v1 * 10 ^ quotientExponent in1 out1 := mul_le_mul_of_nonneg_right large unit1.le
  push_cast
  linarith

end Order

/-- Rates are in the order of the prices up to the bias of `divide`, and are read back as the
quotients. -/
theorem book_order :
    (∀ out1 in1 out2 in2 : STAmount, Priced out1 in1 → Priced out2 in2 → getRate out1 in1 ≠ 0 →
      getRate out2 in2 ≠ 0 →
        (price out1 in1 ≤ price out2 in2 →
          quotientExponent in1 out1 ≤ quotientExponent in2 out2 →
            getRate out1 in1 ≤ getRate out2 in2) ∧
        (price out1 in1 = price out2 in2 →
          quotientExponent in1 out1 = quotientExponent in2 out2 →
            getRate out1 in1 = getRate out2 in2) ∧
        (price out1 in1 * (1 + 5 / 10 ^ 15) ≤ price out2 in2 →
          getRate out1 in1 ≤ getRate out2 in2)) ∧
    (∀ offerOut offerIn : STAmount, offerOut.mIsNegative = false → offerIn.mIsNegative = false →
      getRate offerOut offerIn ≠ 0 →
        amountFromQuality (getRate offerOut offerIn) = offerIn.divide offerOut noIssue) := by
  constructor
  · intro out1 in1 out2 in2 h1 h2 rate1 rate2
    refine ⟨getRate_mono h1 h2 rate1 rate2, ?_, getRate_mono_of_gap h1 h2 rate1 rate2⟩
    intro same exponents
    exact UInt64.le_antisymm (getRate_mono h1 h2 rate1 rate2 same.le exponents.le)
      (getRate_mono h2 h1 rate2 rate1 same.ge exponents.ge)
  · intro offerOut offerIn outSign inSign rate
    exact amountFromQuality_getRate (inSign.trans outSign.symm) rate

/-- Two for three and eight for twelve: the same price, and a higher rate for the first. More drops
than `cMaxNativeN` for one have a quotient of more than 64 bits, and a lower rate than fewer. -/
theorem same_price_other_rate :
    Priced ⟨⟨7, 9⟩, 3000000000000000, -15, false, false⟩ ⟨⟨8, 9⟩, 2000000000000000, -15, false, false⟩ ∧
    Priced ⟨⟨7, 9⟩, 1200000000000000, -14, false, false⟩ ⟨⟨8, 9⟩, 8000000000000000, -15, false, false⟩ ∧
    price ⟨⟨7, 9⟩, 3000000000000000, -15, false, false⟩ ⟨⟨8, 9⟩, 2000000000000000, -15, false, false⟩ =
      price ⟨⟨7, 9⟩, 1200000000000000, -14, false, false⟩
        ⟨⟨8, 9⟩, 8000000000000000, -15, false, false⟩ ∧
    getRate ⟨⟨7, 9⟩, 1200000000000000, -14, false, false⟩
        ⟨⟨8, 9⟩, 8000000000000000, -15, false, false⟩ ≠ 0 ∧
    getRate ⟨⟨7, 9⟩, 1200000000000000, -14, false, false⟩
        ⟨⟨8, 9⟩, 8000000000000000, -15, false, false⟩ <
      getRate ⟨⟨7, 9⟩, 3000000000000000, -15, false, false⟩
        ⟨⟨8, 9⟩, 2000000000000000, -15, false, false⟩ ∧
    let one : STAmount := ⟨⟨7, 9⟩, cMinValue, -15, false, false⟩
    (ofNative 1000000000000000000).Normal ∧ cMaxNativeN < 1000000000000000000 ∧
      getRate one (ofNative 1000000000000000000) ≠ 0 ∧
      quotientExponent (ofNative cMaxNativeN) one =
        quotientExponent (ofNative 1000000000000000000) one ∧
      getRate one (ofNative 1000000000000000000) < getRate one (ofNative cMaxNativeN) := by
  refine ⟨⟨by decide, by decide, rfl, rfl, rfl, rfl⟩, ⟨by decide, by decide, rfl, rfl, rfl, rfl⟩, ?_,
    by decide, by decide, by decide⟩
  have three : (3000000000000000 : UInt64).toNat = 3000000000000000 := rfl
  have two : (2000000000000000 : UInt64).toNat = 2000000000000000 := rfl
  have twelve : (1200000000000000 : UInt64).toNat = 1200000000000000 := rfl
  have eight : (8000000000000000 : UInt64).toNat = 8000000000000000 := rfl
  norm_num [price, value, magnitude, three, two, twelve, eight]

/-- One for one and two for one. -/
theorem book_order_one_two :
    getRate ⟨⟨7, 9⟩, cMinValue, -15, false, false⟩ ⟨⟨8, 9⟩, cMinValue, -15, false, false⟩ ≤
      getRate ⟨⟨7, 9⟩, cMinValue, -15, false, false⟩ ⟨⟨8, 9⟩, 2000000000000000, -15, false, false⟩ := by
  have two : (2000000000000000 : UInt64).toNat = 2000000000000000 := rfl
  refine (book_order.1 ⟨⟨7, 9⟩, cMinValue, -15, false, false⟩ ⟨⟨8, 9⟩, cMinValue, -15, false, false⟩
    ⟨⟨7, 9⟩, cMinValue, -15, false, false⟩ ⟨⟨8, 9⟩, 2000000000000000, -15, false, false⟩
    ⟨by decide, by decide, rfl, rfl, rfl, rfl⟩ ⟨by decide, by decide, rfl, rfl, rfl, rfl⟩
    (by decide) (by decide)).1 ?_ (by decide)
  norm_num [price, value, magnitude, toNat_cMinValue, two]

end Skywell.STAmount
