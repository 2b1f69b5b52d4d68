import JingtumCore.AmountValues
import JingtumCore.AmountWire

/-!
# Sums and differences of amounts

How far the result of `operator+` and `operator-` is from the exact sum or difference. Of
two issued amounts one is cut off at the last digit of the other, a sum of at most ten such
units is taken for zero, and the sum is truncated again when it has a digit too many.
-/
namespace Skywell.STAmount
open DecimalTruncation ExceptFold

variable {a b r : STAmount} {issue : Issue} {offset : Int}

/-- The parts of an amount other than its issue. -/
def parts (a : STAmount) : UInt64 × Int × Bool := (a.mValue, a.mOffset, a.mIsNegative)

/-- The cached flag says what the currency says. -/
def FlagAgrees (a : STAmount) : Prop := a.mIsNative = isSWT a.mIssue.currency

instance (a : STAmount) : Decidable a.FlagAgrees := by
  unfold FlagAgrees
  infer_instance

variable {n : Int} {fv : Int64} {issue' : Issue} {m : Nat}

theorem isLegalNet_iff (native : a.mIsNative = true) :
    a.isLegalNet = true ↔ a.mValue.toNat ≤ 10 ^ 17 := by
  rw [isLegalNet, native, Bool.not_true, Bool.false_or, decide_eq_true_iff]
  rfl

theorem toInt_iterate_div {n : Nat} {v : Int64} {negative : Bool}
    (h : v.toInt = if negative then -(n : Int) else n) {k : Nat} :
    ((fun v : Int64 => v / 10)^[k] v).toInt =
      if negative then -((n / 10 ^ k : Nat) : Int) else (n / 10 ^ k : Nat) := by
  induction k generalizing v n with
  | zero => simpa using h
  | succ k ih =>
    have low : -2 ^ 63 ≤ v.toInt := Int64.le_toInt v
    have high : v.toInt < 2 ^ 63 := Int64.toInt_lt v
    have tenth : (v / 10).toInt = if negative then -((n / 10 : Nat) : Int) else (n / 10 : Nat) := by
      rw [Int64.toInt_div, h]
      change (Int.tdiv _ (10 : Nat)).bmod (2 ^ 64) = _
      split_ifs at h ⊢
      · rw [Int.neg_tdiv, ← Int.ofNat_tdiv]
        refine Int.bmod_eq_of_le ?_ ?_ <;> omega
      · rw [← Int.ofNat_tdiv]
        refine Int.bmod_eq_of_le ?_ ?_ <;> omega
    rw [Function.iterate_succ_apply, ih tenth, Nat.div_div_eq_div_mul, Nat.pow_succ']

/-- The signed mantissa at a larger exponent. -/
theorem toInt_scaled_signed (fits : a.mValue.toNat < 2 ^ 63) (offset : Int) :
    (a.scaled offset).toInt =
      if a.mIsNegative then -((a.mValue.toNat / 10 ^ (offset - a.mOffset).toNat : Nat) : Int)
      else (a.mValue.toNat / 10 ^ (offset - a.mOffset).toNat : Nat) := by
  refine toInt_iterate_div ?_
  split_ifs
  · rw [Int64.toInt_neg, toInt_toInt64 fits]
    refine Int.bmod_eq_of_le ?_ ?_ <;> omega
  · exact toInt_toInt64 fits

/-- A sum of mantissas and what is made of it. -/
theorem ofSum_cases (issue : Issue) (offset : Int) (hfv : fv.toInt = n) :
    (|n| ≤ 10 ∧ ofSum issue fv offset = .ok (zeroOf issue)) ∨
      (10 < |n| ∧ ∃ m : UInt64, (m.toNat : Int) = |n| ∧
        ofSum issue fv offset = ofIssue issue m offset (decide (n < 0))) := by
  have ten : (10 : Int64).toInt = 10 := rfl
  have minusTen : (-10 : Int64).toInt = -10 := rfl
  have zero : (0 : Int64).toInt = 0 := rfl
  have small : (fv ≥ -10 ∧ fv ≤ 10) ↔ |n| ≤ 10 := by
    rw [ge_iff_le, Int64.le_iff_toInt_le, Int64.le_iff_toInt_le, ten, minusTen, hfv, abs_le]
  have sign : fv ≥ 0 ↔ 0 ≤ n := by
    rw [ge_iff_le, Int64.le_iff_toInt_le, zero, hfv]
  unfold ofSum
  by_cases few : |n| ≤ 10
  · rw [if_pos (small.2 few)]
    exact .inl ⟨few, rfl⟩
  rw [if_neg (mt small.1 few)]
  refine .inr ⟨not_le.1 few, ?_⟩
  by_cases positive : 0 ≤ n
  · rw [if_pos (sign.2 positive), decide_eq_false (not_lt.2 positive), abs_of_nonneg positive]
    exact ⟨_, (toNat_toUInt64_of_nonneg (hfv ▸ positive)).trans hfv, rfl⟩
  · have negative : n < 0 := not_le.1 positive
    rw [if_neg (mt sign.1 positive), decide_eq_true negative, abs_of_neg negative]
    exact ⟨_, (toNat_neg_toUInt64 (hfv ▸ negative)).trans (by rw [hfv]), rfl⟩

theorem abs_toInt_scaled (fits : a.mValue.toNat < 10 ^ 16) (offset : Int) :
    |(a.scaled offset).toInt| < 10 ^ 16 := by
  have cut : a.mValue.toNat / 10 ^ (offset - a.mOffset).toNat ≤ a.mValue.toNat := Nat.div_le_self _ _
  generalize hq : a.mValue.toNat / 10 ^ (offset - a.mOffset).toNat = q at cut
  rw [toInt_scaled_signed (by omega), abs_lt]
  split <;> omega

theorem scaled_near (fits : a.mValue.toNat < 10 ^ 16) (le : a.mOffset ≤ offset) :
    |a.value - (a.scaled offset).toInt * 10 ^ offset| < 10 ^ offset := by
  have bracket := cut_digits a.mValue.toNat (offset - a.mOffset).toNat a.mOffset
  have exponent : a.mOffset + ((offset - a.mOffset).toNat : Int) = offset := by omega
  rw [exponent] at bracket
  obtain ⟨low, high⟩ := bracket
  rw [toInt_scaled_signed (by omega), abs_lt]
  cases sign : a.mIsNegative with
  | false =>
    rw [value_of_not_negative sign, magnitude, if_neg (by simp), Int.cast_natCast]
    constructor <;> linarith
  | true =>
    rw [value_of_negative sign, magnitude, if_pos rfl, Int.cast_neg, Int.cast_natCast]
    constructor <;> linarith

theorem scaled_same (fits : a.mValue.toNat < 10 ^ 16) :
    a.value = (a.scaled a.mOffset).toInt * 10 ^ a.mOffset := by
  rw [toInt_scaled_signed (by omega)]
  cases sign : a.mIsNegative with
  | false => simp [value, magnitude, sign]
  | true => simp [value, magnitude, sign]

theorem exponent_le_of_truncates {v : Nat} {o : Int} (h : Truncates 15 (m * 10 ^ offset) v o)
    (digits : m < 10 ^ 17) : o ≤ offset + 1 := by
  by_contra more
  have above : (10 : ℚ) ^ (17 + offset) ≤ m * 10 ^ offset :=
    (ten_zpow_le h.low (by omega)).trans h.le
  exact absurd above (not_le.2 (mul_zpow_lt digits le_rfl))

theorem succ_mul_le_of_lt (positive : 0 < m) (h : (m : ℚ) * 10 ^ offset < 10 ^ (-81 : ℤ)) :
    ((m : ℚ) + 1) * 10 ^ offset ≤ 10 ^ (-81 : ℤ) := by
  have split : (10 : ℚ) ^ (-81 : ℤ) = 10 ^ (-81 - offset) * 10 ^ offset := by
    rw [← zpow_add₀ (by norm_num)]
    congr 1
    ring
  rw [split] at h ⊢
  have less : (m : ℚ) < 10 ^ (-81 - offset) := lt_of_mul_lt_mul_right h (ten_zpow_pos _).le
  have room : 0 ≤ -81 - offset := by
    by_contra low
    have one : (1 : ℚ) ≤ m := by exact_mod_cast positive
    have small : (10 : ℚ) ^ (-81 - offset) ≤ 10 ^ (0 : ℤ) :=
      zpow_le_zpow_right₀ (by norm_num) (by omega)
    linarith
  obtain ⟨k, hk⟩ := Int.eq_ofNat_of_zero_le room
  rw [hk] at less ⊢
  have next : m + 1 ≤ 10 ^ k := by exact_mod_cast less
  exact mul_le_mul_of_nonneg_right (by exact_mod_cast next) (ten_zpow_pos _).le

/-- The distance of the result from a number that the sum of mantissas is near to. -/
theorem ofSum_near {x : ℚ} (hfv : fv.toInt = n) (digits : |n| < 10 ^ 17)
    (issued : isSWT issue.currency = false) (near : |x - n * 10 ^ offset| < 10 ^ offset)
    (h : ofSum issue fv offset = .ok r) :
    |r.value - x| ≤ 11 * 10 ^ offset ∨ |x| < 10 ^ (-81 : ℤ) ∧ r.mValue = 0 := by
  rw [abs_lt] at near
  have unit := ten_zpow_pos offset
  rcases ofSum_cases issue offset hfv with ⟨few, sum⟩ | ⟨many, m, hm, sum⟩
  · rw [sum] at h
    cases h
    left
    have few' : |(n : ℚ)| ≤ 10 := by exact_mod_cast few
    rw [abs_le] at few'
    rw [value_zeroOf, abs_le]
    constructor <;> nlinarith
  rw [sum] at h
  have hm' : (m.toNat : ℚ) = |(n : ℚ)| := by exact_mod_cast hm
  have nonzero : m ≠ 0 := by
    rintro rfl
    rw [← hm] at many
    exact absurd many (by decide)
  have exactly : |(n : ℚ) * 10 ^ offset| = m.toNat * 10 ^ offset := by
    rw [abs_mul, ← hm', abs_of_pos unit]
  obtain ⟨-, -, sign, ⟨tiny, zero, -⟩ | ⟨truncated, -⟩⟩ := ofIssue_issued issued nonzero h
  · right
    refine ⟨?_, zero⟩
    have room := succ_mul_le_of_lt (toNat_pos_of_ne_zero nonzero) tiny
    have bound := abs_le.1 exactly.le
    rw [abs_lt]
    constructor <;> linarith
  · left
    have signed_n : (n : ℚ) * 10 ^ offset = signed r.mIsNegative (m.toNat * 10 ^ offset) := by
      rw [sign, hm']
      by_cases negative : n < 0
      · rw [decide_eq_true negative, signed_true, abs_of_neg (by exact_mod_cast negative), neg_mul,
          neg_neg]
      · rw [decide_eq_false negative, signed_false,
          abs_of_nonneg (by exact_mod_cast not_lt.1 negative)]
    have cut : |r.value - n * 10 ^ offset| < 10 ^ r.mOffset := by
      rw [value, signed_n, abs_signed_sub]
      exact truncated.abs_sub_lt
    have digits' : m.toNat < 10 ^ 17 := by omega
    have one : (10 : ℚ) ^ r.mOffset ≤ 10 * 10 ^ offset :=
      calc (10 : ℚ) ^ r.mOffset ≤ 10 ^ (offset + 1) :=
            zpow_le_zpow_right₀ (by norm_num) (exponent_le_of_truncates truncated digits')
        _ = 10 * 10 ^ offset := by rw [zpow_add_one₀ (by norm_num), mul_comm]
    rw [abs_lt] at cut
    rw [abs_le]
    constructor <;> linarith

theorem mValue_lt_of_issued (h : a.Normal) (issued : a.mIsNative = false) :
    a.mValue.toNat < 10 ^ 16 := by
  by_cases zero : a.mValue = 0
  · rw [zero]
    decide
  · exact (h.issued issued zero).2.1

theorem throwComparable_eq (h : a.isComparable b = true) : throwComparable a b = .ok () := by
  rw [throwComparable, if_pos h]

theorem not_isZero (h : a.mValue ≠ 0) : ¬ a.isZero = true := mt isZero_iff_mValue.1 h

theorem add_of_zero_right (comparable : a.isComparable b = true) (zero : b.mValue = 0) :
    a.add b = .ok a := by
  rw [add, throwComparable_eq comparable, if_pos (isZero_iff_mValue.2 zero)]
  rfl

theorem sub_of_zero_right (comparable : a.isComparable b = true) (zero : b.mValue = 0) :
    a.sub b = .ok a := by
  rw [sub, throwComparable_eq comparable, if_pos (isZero_iff_mValue.2 zero)]
  rfl

/-- An amount in the internal form is what its parts are canonicalized to. -/
theorem ofIssue_of_normal (h : b.Normal) (issued : b.mIsNative = false) (nonzero : b.mValue ≠ 0)
    (currency : isSWT issue.currency = false) :
    ofIssue issue b.mValue b.mOffset b.mIsNegative = .ok { b with mIssue := issue } := by
  obtain ⟨low, high, least, most⟩ := h.issued issued nonzero
  rw [ofIssue_inRange currency low high least most, issued]

section Issued

variable (comparable : a.isComparable b = true) (issued : a.mIsNative = false)
include comparable issued

theorem add_of_zero_left (hb : b.Normal) (flag : a.FlagAgrees) (zero : a.mValue = 0)
    (nonzero : b.mValue ≠ 0) : a.add b = .ok { b with mIssue := a.mIssue } := by
  have issued' : b.mIsNative = false := (native_of_isComparable comparable).symm.trans issued
  have currency : isSWT a.mIssue.currency = false := flag.symm.trans issued
  rw [add, throwComparable_eq comparable, ok_bind, if_neg (not_isZero nonzero),
    if_pos (isZero_iff_mValue.2 zero), ofIssue_of_normal hb issued' nonzero currency]

theorem add_of_nonzero (na : a.mValue ≠ 0) (nb : b.mValue ≠ 0) :
    a.add b = ofSum a.mIssue (a.scaled (max a.mOffset b.mOffset) + b.scaled (max a.mOffset b.mOffset))
      (max a.mOffset b.mOffset) := by
  rw [add, throwComparable_eq comparable, ok_bind, if_neg (not_isZero nb), if_neg (not_isZero na),
    if_neg (by simp [issued])]

theorem sub_of_nonzero (nb : b.mValue ≠ 0) :
    a.sub b = ofSum a.mIssue (a.scaled (max a.mOffset b.mOffset) - b.scaled (max a.mOffset b.mOffset))
      (max a.mOffset b.mOffset) := by
  have issued' : b.mIsNative = false := (native_of_isComparable comparable).symm.trans issued
  rw [sub, throwComparable_eq comparable, ok_bind, if_neg (not_isZero nb), if_neg (by simp [issued'])]

variable (ha : a.Normal) (hb : b.Normal)
include ha hb

/-- The sum, or the difference, of two scaled mantissas. -/
theorem ofSum_scaled (flag : a.FlagAgrees) {z : Int64} {s : Int} (sign : s = 1 ∨ s = -1)
    (sum : z.toInt = ((a.scaled (max a.mOffset b.mOffset)).toInt +
      s * (b.scaled (max a.mOffset b.mOffset)).toInt).bmod (2 ^ 64))
    (h : ofSum a.mIssue z (max a.mOffset b.mOffset) = .ok r) :
    |r.value - (a.value + s * b.value)| ≤ 11 * 10 ^ max a.mOffset b.mOffset ∨
      |a.value + s * b.value| < 10 ^ (-81 : ℤ) ∧ r.mValue = 0 := by
  have short := mValue_lt_of_issued ha issued
  have short' := mValue_lt_of_issued hb ((native_of_isComparable comparable).symm.trans issued)
  have fits := abs_toInt_scaled short (max a.mOffset b.mOffset)
  have fits' := abs_toInt_scaled short' (max a.mOffset b.mOffset)
  -- one mantissa is exact at the larger exponent, and less than one unit of the other is lost
  have pair : (a.value = (a.scaled (max a.mOffset b.mOffset)).toInt * 10 ^ max a.mOffset b.mOffset ∧
        |b.value - (b.scaled (max a.mOffset b.mOffset)).toInt * 10 ^ max a.mOffset b.mOffset| <
          10 ^ max a.mOffset b.mOffset) ∨
      (b.value = (b.scaled (max a.mOffset b.mOffset)).toInt * 10 ^ max a.mOffset b.mOffset ∧
        |a.value - (a.scaled (max a.mOffset b.mOffset)).toInt * 10 ^ max a.mOffset b.mOffset| <
          10 ^ max a.mOffset b.mOffset) := by
    rcases le_total a.mOffset b.mOffset with le | le
    · rw [max_eq_right le]
      exact .inr ⟨scaled_same short', scaled_near short le⟩
    · rw [max_eq_left le]
      exact .inl ⟨scaled_same short, scaled_near short' le⟩
  generalize a.scaled (max a.mOffset b.mOffset) = x at *
  generalize b.scaled (max a.mOffset b.mOffset) = y at *
  rw [abs_lt] at fits fits'
  have either : s * y.toInt = y.toInt ∨ s * y.toInt = -y.toInt := by
    rcases sign with rfl | rfl <;> omega
  rw [Int.bmod_eq_of_le (by omega) (by omega)] at sum
  refine ofSum_near sum (by rw [abs_lt]; omega) (flag.symm.trans issued) ?_ h
  rcases sign with rfl | rfl <;> rcases pair with ⟨same, near⟩ | ⟨same, near⟩
  all_goals
    push_cast
    rw [abs_lt] at near ⊢
    constructor <;> linarith

theorem add_near (flag : a.FlagAgrees) (h : a.add b = .ok r) :
    |r.value - (a.value + b.value)| ≤ 11 * 10 ^ max a.mOffset b.mOffset ∨
      |a.value + b.value| < 10 ^ (-81 : ℤ) ∧ r.mValue = 0 := by
  have unit := ten_zpow_pos (max a.mOffset b.mOffset)
  by_cases zb : b.mValue = 0
  · rw [add_of_zero_right comparable zb] at h
    cases h
    left
    rw [value_of_zero zb]
    simp [unit.le]
  by_cases za : a.mValue = 0
  · rw [add_of_zero_left comparable issued hb flag za zb] at h
    cases h
    left
    rw [value_of_zero za, zero_add]
    change |b.value - b.value| ≤ _
    simp [unit.le]
  rw [add_of_nonzero comparable issued za zb] at h
  have sum := ofSum_scaled comparable issued ha hb flag (s := 1) (.inl rfl)
    (by rw [Int64.toInt_add, one_mul]) h
  rwa [Int.cast_one, one_mul] at sum

theorem sub_near (flag : a.FlagAgrees) (h : a.sub b = .ok r) :
    |r.value - (a.value - b.value)| ≤ 11 * 10 ^ max a.mOffset b.mOffset ∨
      |a.value - b.value| < 10 ^ (-81 : ℤ) ∧ r.mValue = 0 := by
  have unit := ten_zpow_pos (max a.mOffset b.mOffset)
  by_cases zb : b.mValue = 0
  · rw [sub_of_zero_right comparable zb] at h
    cases h
    left
    rw [value_of_zero zb]
    simp [unit.le]
  rw [sub_of_nonzero comparable issued zb] at h
  have difference := ofSum_scaled comparable issued ha hb flag (s := -1) (.inr rfl)
    (by rw [Int64.toInt_sub, neg_one_mul, ← sub_eq_add_neg]) h
  rwa [Int.cast_neg, Int.cast_one, neg_one_mul, ← sub_eq_add_neg] at difference

end Issued

/-- The issue decides only whether an amount is native. -/
theorem ofIssue_issue {m : UInt64} {negative : Bool}
    (same : isSWT issue.currency = isSWT issue'.currency) : ofIssue issue' m offset negative =
      (ofIssue issue m offset negative).map fun r => { r with mIssue := issue' } := by
  unfold ofIssue canonicalize getCurrency
  dsimp only
  rw [same]
  cases shrinkMantissa 20 (growMantissa (offset - cMinOffset).toNat m offset).1
      (growMantissa (offset - cMinOffset).toNat m offset).2 with
  | error e => split_ifs <;> rfl
  | ok loops =>
    simp only [ok_bind]
    split_ifs <;> rfl

theorem ofSum_parts (same : isSWT issue.currency = isSWT issue'.currency) :
    (ofSum issue' fv offset).map parts = (ofSum issue fv offset).map parts := by
  have each (m : UInt64) (negative : Bool) :
      (ofIssue issue' m offset negative).map parts = (ofIssue issue m offset negative).map parts := by
    rw [ofIssue_issue same]
    cases ofIssue issue m offset negative <;> rfl
  unfold ofSum
  split
  · unfold zeroOf
    rw [same]
    split <;> rfl
  · split
    · exact each _ _
    · exact each _ _

theorem isComparable_symm (h : a.isComparable b = true) : b.isComparable a = true := by
  unfold isComparable at *
  cases na : a.mIsNative <;> cases nb : b.mIsNative <;> simp_all

theorem add_comm_parts (ha : a.Normal) (hb : b.Normal) (comparable : a.isComparable b = true)
    (issued : a.mIsNative = false) (flag : a.FlagAgrees) :
    (a.add b).map parts = (b.add a).map parts := by
  have issued' : b.mIsNative = false := (native_of_isComparable comparable).symm.trans issued
  have comparable' := isComparable_symm comparable
  have currency : a.mIssue.currency = b.mIssue.currency := by
    unfold isComparable at comparable
    simpa [issued, issued', getCurrency] using comparable
  have flag' : b.FlagAgrees := by
    unfold FlagAgrees at *
    rw [issued', ← currency, ← flag, issued]
  by_cases zb : b.mValue = 0
  · rw [add_of_zero_right comparable zb]
    by_cases za : a.mValue = 0
    · rw [add_of_zero_right comparable' za]
      simp [Except.map, parts, za, zb, ha.of_zero za, hb.of_zero zb, issued, issued']
    · rw [add_of_zero_left comparable' issued' ha flag' zb za]
      rfl
  · by_cases za : a.mValue = 0
    · rw [add_of_zero_left comparable issued hb flag za zb, add_of_zero_right comparable' za]
      rfl
    · rw [add_of_nonzero comparable issued za zb, add_of_nonzero comparable' issued' zb za, max_comm,
        Int64.add_comm]
      exact ofSum_parts (by rw [currency])

theorem sub_self_zero (issued : a.mIsNative = false) :
    ∃ r, a.sub a = .ok r ∧ r.isZero = true := by
  have comparable : a.isComparable a = true := by simp [isComparable]
  by_cases zero : a.mValue = 0
  · exact ⟨a, sub_of_zero_right comparable zero, isZero_iff_mValue.2 zero⟩
  · rw [sub_of_nonzero comparable issued zero, Int64.sub_self]
    exact ⟨zeroOf a.mIssue, rfl, isZero_iff_mValue.2 mValue_zeroOf⟩

theorem value_eq_drops (h : a.mOffset = 0) : a.value = a.drops := by
  unfold value drops
  rw [magnitude_native h]
  cases a.mIsNegative <;> simp

theorem isDrops_of_normal (h : a.Normal) (flag : a.FlagAgrees) (native : a.mIsNative = true)
    (legal : a.mValue ≤ cMaxNativeN) : a.IsDrops := by
  have bound : a.mValue.toNat ≤ 10 ^ 17 := UInt64.le_iff_toNat_le.1 legal
  have currency : isSWT a.mIssue.currency = true := flag.symm.trans native
  exact ⟨native, by simpa [isSWT] using currency, h.offset_of_native native, by omega⟩

section Native

variable (ha : a.Normal) (da : a.IsDrops) (db : b.IsDrops)
include ha da db

theorem add_native (legal : b.mValue ≤ cMaxNativeN) :
    ∃ r, a.add b = .ok r ∧ r.Normal ∧ r.mIsNative = true ∧ r.value = a.value + b.value := by
  obtain ⟨n1, read1, -⟩ := getSNValue_drops da
  obtain ⟨n2, read2, -⟩ := getSNValue_drops db
  have result : ∃ r, a.add b = .ok r ∧ r.Normal ∧ r.mIsNative = true := by
    by_cases zb : b.mValue = 0
    · refine ⟨a, add_of_zero_right ?_ zb, ha, da.native⟩
      simp [isComparable, da.native, db.native]
    by_cases za : a.mValue = 0
    · have limit : ¬ b.mValue.toNat > 10 ^ 17 := Nat.not_lt.2 (UInt64.le_iff_toNat_le.1 legal)
      have swt : isSWT a.mIssue.currency = true := by simp [isSWT, da.currency]
      refine ⟨⟨a.mIssue, b.mValue, 0, true, b.mIsNegative⟩, ?_, ?_, rfl⟩
      · rw [add, throwComparable_drops da db, ok_bind, if_neg (not_isZero zb),
          if_pos (isZero_iff_mValue.2 za), db.offset, ofIssue_drops_eq swt zb, if_neg limit]
      · exact ⟨rfl, fun zero => absurd zero zb⟩
    · refine ⟨ofInt64 (n1 + n2), ?_, ofInt64_normal _, ?_⟩
      · rw [add, throwComparable_drops da db, if_neg (not_isZero zb),
          if_neg (not_isZero za), if_pos da.native, read1, read2]
        rfl
      · unfold ofInt64
        split <;> rfl
  obtain ⟨r, sum, form, native⟩ := result
  refine ⟨r, sum, form, native, ?_⟩
  rw [value_eq_drops (form.offset_of_native native), value_eq_drops da.offset,
    value_eq_drops db.offset, drops_add da db sum]
  push_cast
  rfl

theorem sub_native :
    ∃ r, a.sub b = .ok r ∧ r.Normal ∧ r.mIsNative = true ∧ r.value = a.value - b.value := by
  obtain ⟨n1, read1, -⟩ := getSNValue_drops da
  obtain ⟨n2, read2, -⟩ := getSNValue_drops db
  have result : ∃ r, a.sub b = .ok r ∧ r.Normal ∧ r.mIsNative = true := by
    by_cases zb : b.mValue = 0
    · refine ⟨a, sub_of_zero_right ?_ zb, ha, da.native⟩
      simp [isComparable, da.native, db.native]
    · refine ⟨createFromInt64 (n1 - n2), ?_, createFromInt64_eq _ ▸ ofInt64_normal _, ?_⟩
      · rw [sub, throwComparable_drops da db, if_neg (not_isZero zb), if_pos db.native,
          read1, read2]
        rfl
      · unfold createFromInt64
        split <;> rfl
  obtain ⟨r, difference, form, native⟩ := result
  refine ⟨r, difference, form, native, ?_⟩
  rw [value_eq_drops (form.offset_of_native native), value_eq_drops da.offset,
    value_eq_drops db.offset, drops_sub da db difference]
  push_cast
  rfl

end Native

/-- Sums and differences are commutative and near the exact ones. -/
theorem sums_commute_and_are_near :
    (∀ a b : STAmount, a.Normal → b.Normal → a.FlagAgrees → a.mIsNative = false →
      a.isComparable b = true →
        (a.add b).map parts = (b.add a).map parts ∧ (∃ r, a.sub a = .ok r ∧ r.isZero = true) ∧
        (∀ r, a.add b = .ok r →
          |r.value - (a.value + b.value)| ≤ 11 * 10 ^ max a.mOffset b.mOffset ∨
            |a.value + b.value| < 10 ^ (-81 : ℤ) ∧ r.mValue = 0) ∧
        (∀ r, a.sub b = .ok r →
          |r.value - (a.value - b.value)| ≤ 11 * 10 ^ max a.mOffset b.mOffset ∨
            |a.value - b.value| < 10 ^ (-81 : ℤ) ∧ r.mValue = 0)) ∧
    (∀ a b : STAmount, a.Normal → b.Normal → a.FlagAgrees → b.FlagAgrees → a.mIsNative = true →
      b.mIsNative = true → a.mValue ≤ cMaxNativeN → b.mValue ≤ cMaxNativeN →
        ∃ s t d, a.add b = .ok s ∧ b.add a = .ok t ∧ a.sub b = .ok d ∧ s.eqv t = true ∧
          s.value = a.value + b.value ∧ d.value = a.value - b.value) := by
  constructor
  · intro a b ha hb flag issued comparable
    exact ⟨add_comm_parts ha hb comparable issued flag, sub_self_zero issued,
      fun r => add_near comparable issued ha hb flag, fun r => sub_near comparable issued ha hb flag⟩
  · intro a b ha hb flag flag' native native' legal legal'
    have da := isDrops_of_normal ha flag native legal
    have db := isDrops_of_normal hb flag' native' legal'
    obtain ⟨s, sum, form, isNative, exactly⟩ := add_native ha da db legal'
    obtain ⟨t, sum', form', isNative', exactly'⟩ := add_native hb db da legal
    obtain ⟨d, difference, -, -, rest⟩ := sub_native ha da db
    refine ⟨s, t, d, sum, sum', difference, ?_, exactly, rest⟩
    have same : s.value = t.value := by rw [exactly, exactly', add_comm]
    obtain ⟨sign, offset, mantissa⟩ :=
      (parts_eq_iff_value_eq form form' (isNative.trans isNative'.symm)).2 same
    simp [eqv, isComparable, isNative, isNative', sign, offset, mantissa]

/-- One unit and two units of a currency. -/
theorem sums_commute_and_are_near_units :
    Normal ⟨⟨7, 9⟩, cMinValue, -15, false, false⟩ ∧
      (add ⟨⟨7, 9⟩, cMinValue, -15, false, false⟩ ⟨⟨7, 8⟩, cMinValue, -14, false, true⟩).map parts =
        (add ⟨⟨7, 8⟩, cMinValue, -14, false, true⟩ ⟨⟨7, 9⟩, cMinValue, -15, false, false⟩).map parts :=
  ⟨by decide, (sums_commute_and_are_near.1 ⟨⟨7, 9⟩, cMinValue, -15, false, false⟩
    ⟨⟨7, 8⟩, cMinValue, -14, false, true⟩ (by decide) (by decide) (by decide) rfl (by decide)).1⟩

end Skywell.STAmount
