import JingtumCore.AmountArithmetic

/-!
# Amounts as rational numbers

The exact value of an amount, what `canonicalize` makes of it, and the comparison
operators as the order of the values. The internal form is what lets exponents be compared
before mantissas.
-/
namespace Skywell.STAmount
open DecimalTruncation

def magnitude (a : STAmount) : ℚ := a.mValue.toNat * 10 ^ a.mOffset

def signed (negative : Bool) (x : ℚ) : ℚ := if negative then -x else x

/-- The exact value. -/
def value (a : STAmount) : ℚ := signed a.mIsNegative a.magnitude

variable {a b r : STAmount} {issue : Issue} {mantissa : UInt64} {exponent : Int} {negative : Bool}
  {test : Int → Bool} {v : UInt64}

theorem toNat_pos_of_ne_zero (h : v ≠ 0) : 0 < v.toNat :=
  Nat.pos_of_ne_zero fun zero => h (UInt64.toNat_inj.1 zero)

theorem ofNat_ne_zero {n : Nat} (nonzero : n ≠ 0) (fits : n < 2 ^ 64) : UInt64.ofNat n ≠ 0 := by
  intro zero
  have read : (UInt64.ofNat n).toNat = n := UInt64.toNat_ofNat_of_lt' fits
  rw [zero] at read
  exact nonzero read.symm

theorem toNat_ofNat_mod (n : Nat) : (UInt64.ofNat (n % 2 ^ 64)).toNat = n % 2 ^ 64 :=
  UInt64.toNat_ofNat_of_lt' (Nat.mod_lt _ (by decide))

theorem magnitude_nonneg : 0 ≤ a.magnitude :=
  mul_nonneg (Nat.cast_nonneg _) (ten_zpow_pos _).le

theorem magnitude_pos (h : a.mValue ≠ 0) : 0 < a.magnitude :=
  mul_pos (by exact_mod_cast toNat_pos_of_ne_zero h) (ten_zpow_pos _)

theorem magnitude_of_zero (h : a.mValue = 0) : a.magnitude = 0 := by
  simp [magnitude, h]

@[simp] theorem signed_true (x : ℚ) : signed true x = -x := rfl

@[simp] theorem signed_false (x : ℚ) : signed false x = x := rfl

theorem abs_signed {x : ℚ} (h : 0 ≤ x) : |signed negative x| = x := by
  cases negative with
  | false => exact abs_of_nonneg h
  | true => rw [signed_true, abs_neg, abs_of_nonneg h]

theorem abs_signed_sub (x y : ℚ) :
    |signed negative x - signed negative y| = |x - y| := by
  cases negative with
  | false => rfl
  | true => rw [signed_true, signed_true, neg_sub_neg, abs_sub_comm]

theorem value_of_zero (h : a.mValue = 0) : a.value = 0 := by
  unfold value
  rw [magnitude_of_zero h]
  cases a.mIsNegative <;> simp

theorem mValue_zeroOf : (zeroOf issue).mValue = 0 := by
  unfold zeroOf
  split <;> rfl

theorem value_zeroOf : (zeroOf issue).value = 0 :=
  value_of_zero mValue_zeroOf

theorem magnitude_native (h : a.mOffset = 0) : a.magnitude = a.mValue.toNat := by
  simp [magnitude, h]

theorem isZero_iff_mValue : a.isZero = true ↔ a.mValue = 0 := by
  unfold isZero signum
  by_cases zero : a.mValue = 0
  · simp [zero]
  · cases a.mIsNegative <;> simp

theorem Normal.offset_of_native (h : a.Normal) (native : a.mIsNative = true) : a.mOffset = 0 := by
  unfold Normal at h
  rw [if_pos native] at h
  exact h.1

theorem Normal.ne_zero_of_negative (h : a.Normal) (negative : a.mIsNegative = true) :
    a.mValue ≠ 0 := by
  intro zero
  rw [(h.of_zero zero).1] at negative
  cases negative

theorem Normal.issued (h : a.Normal) (native : a.mIsNative = false) (nonzero : a.mValue ≠ 0) :
    10 ^ 15 ≤ a.mValue.toNat ∧ a.mValue.toNat < 10 ^ 16 ∧ -96 ≤ a.mOffset ∧ a.mOffset ≤ 80 := by
  unfold Normal at h
  rw [if_neg (by simp [native])] at h
  rcases h with ⟨zero, -⟩ | ⟨low, high, least, most⟩
  · exact absurd zero nonzero
  · exact ⟨UInt64.le_iff_toNat_le.1 low, le_cMaxValue_iff.1 high, least, most⟩

theorem Normal.truncates (h : a.Normal) (native : a.mIsNative = false) (nonzero : a.mValue ≠ 0) :
    Truncates 15 a.magnitude a.mValue.toNat a.mOffset := by
  obtain ⟨low, high, -, -⟩ := h.issued native nonzero
  exact truncates_self low high

theorem ofIssue_drops_eq (native : isSWT issue.currency = true) (nonzero : mantissa ≠ 0) :
    ofIssue issue mantissa 0 negative = if mantissa.toNat > 10 ^ 17 then
      .error (.runtimeError "Native currency amount out of range")
    else .ok ⟨issue, mantissa, 0, true, negative⟩ := by
  have kept : mantissa.toNat / 10 ^ (-(0 : Int)).toNat * 10 ^ (0 : Int).toNat % 2 ^ 64 =
      mantissa.toNat := by simp
  rw [ofIssue_native_eq native nonzero, kept, UInt64.ofNat_toNat]

/-- Between nonzero amounts the exponent decides, and then the mantissa. -/
theorem magnitude_lt_iff (ha : a.Normal) (hb : b.Normal) (same : a.mIsNative = b.mIsNative)
    (na : a.mValue ≠ 0) (nb : b.mValue ≠ 0) :
    a.magnitude < b.magnitude ↔
      a.mOffset < b.mOffset ∨ a.mOffset = b.mOffset ∧ a.mValue < b.mValue := by
  rw [UInt64.lt_iff_toNat_lt]
  cases native : a.mIsNative with
  | true =>
    have oa := ha.offset_of_native native
    have ob := hb.offset_of_native (same.symm.trans native)
    rw [magnitude_native oa, magnitude_native ob, oa, ob]
    simp
  | false =>
    have ta := ha.truncates native na
    have tb := hb.truncates (same.symm.trans native) nb
    constructor
    · intro less
      rcases ta.mono tb less.le with h | ⟨equal, h⟩
      · exact .inl h
      · refine .inr ⟨equal, Nat.lt_of_le_of_ne h fun mantissas => ?_⟩
        unfold magnitude at less
        rw [equal, mantissas] at less
        exact lt_irrefl _ less
    · intro h
      by_contra less
      have back := tb.mono ta (not_lt.1 less)
      omega

theorem value_of_not_negative (h : a.mIsNegative = false) : a.value = a.magnitude := by
  simp [value, h]

theorem value_of_negative (h : a.mIsNegative = true) : a.value = -a.magnitude := by
  simp [value, h]

/-- The last part of `compare`. -/
theorem compare_nonzero (ha : a.Normal) (hb : b.Normal) (same : a.mIsNative = b.mIsNative)
    (sign : a.mIsNegative = b.mIsNegative) (na : a.mValue ≠ 0) (nb : b.mValue ≠ 0) :
    compare a b = if a.magnitude < b.magnitude then if a.mIsNegative then 1 else -1
      else if b.magnitude < a.magnitude then if a.mIsNegative then -1 else 1 else 0 := by
  have forth := magnitude_lt_iff ha hb same na nb
  have back := magnitude_lt_iff hb ha same.symm nb na
  unfold compare
  rw [if_neg (by simp [sign]), if_neg na, if_neg nb]
  rcases lt_trichotomy a.mOffset b.mOffset with less | equal | more
  · rw [if_neg (by omega), if_pos less, if_pos (forth.2 (.inl less))]
  · rw [if_neg (by omega), if_neg (by omega)]
    simp only [forth, back, equal, lt_irrefl, false_or, true_and]
    by_cases less : a.mValue < b.mValue
    · rw [if_neg (UInt64.lt_asymm less), if_pos less, if_pos less]
    · rw [if_neg less, if_neg less]
  · have larger := back.2 (.inl more)
    rw [if_pos more, if_neg larger.not_gt, if_pos larger]

/-- Amounts that are not negative are compared by their magnitudes. -/
theorem compare_of_not_negative (ha : a.mValue ≠ 0 → a.Normal) (hb : b.mValue ≠ 0 → b.Normal)
    (same : a.mIsNative = b.mIsNative) (sa : a.mIsNegative = false) (sb : b.mIsNegative = false) :
    compare a b = if a.magnitude < b.magnitude then -1
      else if b.magnitude < a.magnitude then 1 else 0 := by
  by_cases za : a.mValue = 0
  · rw [compare, if_neg (by simp [sa, sb]), if_pos za, if_neg (by simp [sb]), magnitude_of_zero za]
    by_cases zb : b.mValue = 0
    · simp [zb, magnitude_of_zero zb]
    · simp [zb, magnitude_pos zb]
  by_cases zb : b.mValue = 0
  · rw [compare, if_neg (by simp [sa, sb]), if_neg za, if_pos zb, magnitude_of_zero zb,
      if_neg magnitude_nonneg.not_gt, if_pos (magnitude_pos za)]
  rw [compare_nonzero (ha za) (hb zb) same (sa.trans sb.symm) za zb]
  simp [sa]

theorem compare_eq_of_value (ha : a.Normal) (hb : b.Normal) (same : a.mIsNative = b.mIsNative) :
    compare a b = if a.value < b.value then -1 else if b.value < a.value then 1 else 0 := by
  cases sa : a.mIsNegative with
  | true =>
    have na := ha.ne_zero_of_negative sa
    have below : a.value < 0 := by
      rw [value_of_negative sa]
      exact neg_neg_of_pos (magnitude_pos na)
    cases sb : b.mIsNegative with
    | true =>
      have nb := hb.ne_zero_of_negative sb
      rw [compare_nonzero ha hb same (sa.trans sb.symm) na nb, value_of_negative sa,
        value_of_negative sb, if_pos sa, if_pos sa]
      rcases lt_trichotomy a.magnitude b.magnitude with less | equal | more
      · rw [if_pos less, if_neg (by linarith), if_pos (by linarith)]
      · simp [equal]
      · rw [if_neg (by linarith), if_pos more, if_pos (by linarith)]
    | false =>
      have above : 0 ≤ b.value := by
        rw [value_of_not_negative sb]
        exact magnitude_nonneg
      rw [if_pos (by linarith), compare, if_pos (by simp [sa, sb]), if_pos sa]
  | false =>
    have above : 0 ≤ a.value := by
      rw [value_of_not_negative sa]
      exact magnitude_nonneg
    cases sb : b.mIsNegative with
    | true =>
      have nb := hb.ne_zero_of_negative sb
      have below : b.value < 0 := by
        rw [value_of_negative sb]
        exact neg_neg_of_pos (magnitude_pos nb)
      rw [if_neg (by linarith), if_pos (by linarith), compare, if_pos (by simp [sa, sb]),
        if_neg (by simp [sa])]
    | false =>
      rw [value_of_not_negative sa, value_of_not_negative sb]
      exact compare_of_not_negative (fun _ => ha) (fun _ => hb) same sa sb

theorem compareWith_eq_ok {t : Bool} :
    compareWith test a b = .ok t ↔ a.isComparable b = true ∧ test (compare a b) = t := by
  rw [compareWith, throwComparable]
  by_cases h : a.isComparable b = true
  · simp [h]
  · simp [h]

theorem native_of_isComparable (h : a.isComparable b = true) : a.mIsNative = b.mIsNative := by
  rw [isComparable] at h
  cases na : a.mIsNative <;> cases nb : b.mIsNative <;> simp [na, nb] at h ⊢

theorem compareWith_eq (comparable : a.isComparable b = true) :
    compareWith test a b = .ok (test (compare a b)) :=
  compareWith_eq_ok.2 ⟨comparable, rfl⟩

/-- Amounts of one sort with the same value have the same parts. -/
theorem parts_eq_iff_value_eq (ha : a.Normal) (hb : b.Normal) (same : a.mIsNative = b.mIsNative) :
    (a.mIsNegative = b.mIsNegative ∧ a.mOffset = b.mOffset ∧ a.mValue = b.mValue) ↔
      a.value = b.value := by
  constructor
  · rintro ⟨sign, offset, mantissa⟩
    unfold value magnitude
    rw [sign, offset, mantissa]
  · intro h
    have equal : compare a b = 0 := by
      rw [compare_eq_of_value ha hb same, h]
      simp
    unfold compare at equal
    split_ifs at equal with sign _ za _ nb zb more _ less _ above _ below _ <;>
      try exact absurd equal (by decide)
    · rw [bne_iff_ne, not_not] at sign
      have zb : b.mValue = 0 := not_not.1 nb
      rw [(ha.of_zero za).2, (hb.of_zero zb).2, same, za, zb]
      exact ⟨sign, rfl, rfl⟩
    · rw [bne_iff_ne, not_not] at sign
      exact ⟨sign, by omega, UInt64.le_antisymm (UInt64.not_lt.1 above) (UInt64.not_lt.1 below)⟩

/-- Comparison is the order of the values. -/
theorem comparison_is_order (ha : a.Normal) (hb : b.Normal) (comparable : a.isComparable b = true) :
    ((compare a b < 0 ↔ a.value < b.value) ∧ (compare a b = 0 ↔ a.value = b.value) ∧
      (0 < compare a b ↔ b.value < a.value)) ∧
    (a.lt b = .ok (decide (a.value < b.value)) ∧ a.le b = .ok (decide (a.value ≤ b.value)) ∧
      a.gt b = .ok (decide (b.value < a.value)) ∧ a.ge b = .ok (decide (b.value ≤ a.value))) ∧
    (a.eqv b = true ↔ a.value = b.value) := by
  have same := native_of_isComparable comparable
  have order := compare_eq_of_value ha hb same
  have signs : (compare a b < 0 ↔ a.value < b.value) ∧ (compare a b = 0 ↔ a.value = b.value) ∧
      (0 < compare a b ↔ b.value < a.value) := by
    rw [order]
    rcases lt_trichotomy a.value b.value with less | equal | more
    · simp [less, less.ne, less.le]
    · simp [equal]
    · simp [more, more.ne', more.not_gt]
  obtain ⟨below, equal, above⟩ := signs
  refine ⟨⟨below, equal, above⟩, ⟨?_, ?_, ?_, ?_⟩, ?_⟩
  · rw [lt, compareWith_eq comparable, decide_eq_decide.2 below]
  · rw [le, compareWith_eq comparable, decide_eq_decide.2 (by rw [← not_lt, above, not_lt])]
  · rw [gt, compareWith_eq comparable, decide_eq_decide.2 above]
  · rw [ge, compareWith_eq comparable, decide_eq_decide.2 (by rw [ge_iff_le, ← not_lt, below, not_lt])]
  · rw [← parts_eq_iff_value_eq ha hb same]
    simp [eqv, comparable, and_assoc]

/-- One drop less and one drop, in the order of the values. -/
theorem comparison_is_order_drops :
    (ofNative 1 true).Normal ∧ (ofNative 1).Normal ∧
      (ofNative 1 true).lt (ofNative 1) =
        .ok (decide ((ofNative 1 true).value < (ofNative 1).value)) :=
  ⟨by decide, by decide,
    (comparison_is_order (a := ofNative 1 true) (b := ofNative 1) (by decide) (by decide)
      (by decide)).2.1.1⟩

end Skywell.STAmount
