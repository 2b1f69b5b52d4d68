import JingtumCore.DecimalTruncation
import JingtumCore.Drops
import JingtumCore.ExceptFold
import Mathlib.Data.UInt

/-!
# The internal form of amounts

Division and the rounding operations, and the internal form that `STAmount.h`
documents. Every operation either returns an amount of that form at once or
hands a mantissa and an exponent to `canonicalize`. There an issued amount below
the smallest one keeps its sign and gets the exponent zero, and a negative
native amount of less than one drop keeps its sign.
-/
namespace Skywell.STAmount
open DecimalTruncation ExceptFold

/-- `STAmount (Issue const&, int64_t, int)`. -/
def ofIssueInt64 (issue : Issue) (mantissa : Int64) (exponent : Int) : Except Fault STAmount :=
  if mantissa < 0 then ofIssue issue (-mantissa).toUInt64 exponent true
  else ofIssue issue mantissa.toUInt64 exponent false

def divide (num den : STAmount) (issue : Issue) : Except Fault STAmount := do
  if den.isZero then throw (.runtimeError "division by zero")
  if num.isZero then return zeroOf issue
  let (numVal, numOffset) := num.operand
  let (denVal, denOffset) := den.operand
  let v := numVal.toNat * 10 ^ 17 / denVal.toNat
  ofIssue issue (getuint64 v + 5) (numOffset - denOffset - 17) (num.mIsNegative != den.mIsNegative)

/-- `while (value > 10 * cMaxValue)`. -/
def roundMantissa : Nat → UInt64 → Int → UInt64 × Int
  | 0, value, offset => (value, offset)
  | digits + 1, value, offset =>
    if value > 10 * cMaxValue then roundMantissa digits (value / 10) (offset + 1)
    else (value, offset)

def canonicalizeRound (native : Bool) (value : UInt64) (offset : Int) (roundUp : Bool) :
    UInt64 × Int :=
  if !roundUp then (value, offset)
  else if native then
    if offset < 0 then
      let loops := (-1 - offset).toNat
      let value := (fun v : UInt64 => v / 10)^[loops] value
      ((value + if loops ≥ 2 then 9 else 10) / 10, 0)
    else (value, offset)
  else if value > cMaxValue then
    let (value, offset) := roundMantissa 20 value offset
    ((value + 9) / 10, offset + 1)
  else (value, offset)

/-- The product of two native amounts. -/
def multiplyNative (v1 v2 : STAmount) : Except Fault STAmount := do
  let n1 ← getSNValue v1
  let n2 ← getSNValue v2
  let minV := (if n1 < n2 then n1 else n2).toUInt64
  let maxV := (if n1 < n2 then n2 else n1).toUInt64
  if minV > 3000000000 then throw (.runtimeError "Native value overflow")
  if (maxV >>> 32) * minV > 2095475792 then throw (.runtimeError "Native value overflow")
  return ⟨{}, minV * maxV, 0, true, false⟩

def mulRound (v1 v2 : STAmount) (issue : Issue) (roundUp : Bool) : Except Fault STAmount := do
  if v1.isZero || v2.isZero then return zeroOf issue
  if v1.mIsNative && v2.mIsNative && isSWT issue.currency then return ← multiplyNative v1 v2
  let (value1, offset1) := v1.operand
  let (value2, offset2) := v2.operand
  let resultNegative := v1.mIsNegative != v2.mIsNegative
  let away := resultNegative != roundUp
  let v := (value1.toNat * value2.toNat + if away then 10 ^ 14 - 1 else 0) / 10 ^ 14
  let (amount, offset) :=
    canonicalizeRound (isSWT issue.currency) (getuint64 v) (offset1 + offset2 + 14) away
  ofIssue issue amount offset resultNegative

def divRound (num den : STAmount) (issue : Issue) (roundUp : Bool) : Except Fault STAmount := do
  if den.isZero then throw (.runtimeError "division by zero")
  if num.isZero then return zeroOf issue
  let (numVal, numOffset) := num.operand
  let (denVal, denOffset) := den.operand
  let resultNegative := num.mIsNegative != den.mIsNegative
  let away := resultNegative != roundUp
  let v := (numVal.toNat * 10 ^ 17 + if away then denVal.toNat - 1 else 0) / denVal.toNat
  let (amount, offset) :=
    canonicalizeRound (isSWT issue.currency) (getuint64 v) (numOffset - denOffset - 17) away
  ofIssue issue amount offset resultNegative

/-- The internal form. -/
def Normal (a : STAmount) : Prop :=
  if a.mIsNative then a.mOffset = 0 ∧ (a.mValue = 0 → a.mIsNegative = false)
  else (a.mValue = 0 ∧ a.mOffset = -100 ∧ a.mIsNegative = false) ∨
    (cMinValue ≤ a.mValue ∧ a.mValue ≤ cMaxValue ∧ cMinOffset ≤ a.mOffset ∧ a.mOffset ≤ cMaxOffset)

instance (a : STAmount) : Decidable a.Normal := by
  unfold Normal
  infer_instance

/-- Whether `mantissa * 10 ^ exponent` is zero or large enough for the issue: at
least `10 ^ (-81)` if it is issued, and if it is native and negative, one drop at
least and not zero modulo `2 ^ 64`. -/
def LargeEnough (issue : Issue) (mantissa : UInt64) (exponent : Int) (negative : Bool) : Prop :=
  mantissa ≠ 0 →
    if isSWT issue.currency then
      negative = true → 10 ^ (-exponent).toNat ≤ mantissa.toNat ∧
        ¬ 2 ^ 64 ∣ mantissa.toNat * 10 ^ exponent.toNat
    else 10 ^ (15 + (-96 - exponent).toNat) ≤ mantissa.toNat * 10 ^ (exponent + 96).toNat

instance (issue : Issue) (mantissa : UInt64) (exponent : Int) (negative : Bool) :
    Decidable (LargeEnough issue mantissa exponent negative) := by
  unfold LargeEnough
  infer_instance

variable {roundUp : Bool} {a den num : STAmount}

theorem toNat_cMinValue : cMinValue.toNat = 10 ^ 15 := rfl

theorem toNat_cMaxValue : cMaxValue.toNat = 10 ^ 16 - 1 := rfl

theorem le_cMaxValue_iff {value : UInt64} : value ≤ cMaxValue ↔ value.toNat < 10 ^ 16 := by
  rw [UInt64.le_iff_toNat_le, toNat_cMaxValue]
  omega

/-- What the first loop does: it multiplies by ten until the mantissa is large
enough or no room is left. -/
theorem growMantissa_spec (room : Nat) (value : UInt64) (offset : Int) :
    ∃ k ≤ room, (growMantissa room value offset).1.toNat = value.toNat * 10 ^ k ∧
      (growMantissa room value offset).2 = offset - k ∧
      (k = 0 ∨ value.toNat * 10 ^ k < 10 ^ 16) ∧ (10 ^ 15 ≤ value.toNat * 10 ^ k ∨ k = room) := by
  induction room generalizing value offset with
  | zero => exact ⟨0, le_rfl, by simp [growMantissa]⟩
  | succ room ih =>
    by_cases small : value < cMinValue
    · have bound : value.toNat < 10 ^ 15 := UInt64.lt_iff_toNat_lt.1 small
      have times : (value * 10).toNat = value.toNat * 10 := by
        exact Nat.mod_eq_of_lt (by change value.toNat * 10 < _; omega)
      obtain ⟨k, hk, hv, ho, hlt, hge⟩ := ih (value * 10) (offset - 1)
      rw [times] at hv hlt hge
      have step : value.toNat * 10 * 10 ^ k = value.toNat * 10 ^ (k + 1) := by
        ring
      rw [step] at hv hlt hge
      refine ⟨k + 1, by omega, ?_, ?_, ?_, ?_⟩
      · rw [growMantissa, if_pos small, hv]
      · rw [growMantissa, if_pos small, ho]
        push_cast
        ring
      · rcases hlt with rfl | hlt
        · exact .inr (by simp; omega)
        · exact .inr hlt
      · rcases hge with hge | rfl
        · exact .inl hge
        · exact .inr rfl
    · refine ⟨0, Nat.zero_le _, ?_⟩
      have bound : 10 ^ 15 ≤ value.toNat := UInt64.le_iff_toNat_le.1 (UInt64.not_lt.1 small)
      simp [growMantissa, small]
      omega

variable {offset : Int} {value : UInt64}

/-- What the second loop does: it divides by ten until the mantissa fits. -/
theorem shrinkMantissa_spec {digits : Nat} {r : UInt64 × Int}
    (h : shrinkMantissa digits value offset = .ok r) (fits : value.toNat < 10 ^ (16 + digits)) :
    ∃ k : Nat, r.1.toNat = value.toNat / 10 ^ k ∧ r.2 = offset + k ∧ r.1.toNat < 10 ^ 16 ∧
      (k = 0 ∨ (10 ^ (15 + k) ≤ value.toNat ∧ offset + k ≤ 80)) := by
  induction digits generalizing value offset with
  | zero =>
    cases h
    exact ⟨0, by simp, by simp, fits, .inl rfl⟩
  | succ digits ih =>
    by_cases big : value > cMaxValue
    · have bound : 10 ^ 16 ≤ value.toNat :=
        Nat.not_lt.1 (mt le_cMaxValue_iff.2 (UInt64.not_le.2 big))
      rw [shrinkMantissa, if_pos big] at h
      obtain ⟨-, ⟨⟩⟩ | ⟨top, h⟩ := ite_eq_iff.1 h
      have tenth : (value / 10).toNat = value.toNat / 10 := UInt64.toNat_div _ _
      obtain ⟨k, hv, ho, hlt, hk⟩ := ih h (by
        rw [tenth, Nat.div_lt_iff_lt_mul (by decide)]
        exact fits)
      refine ⟨k + 1, ?_, ?_, hlt, .inr ?_⟩
      · rw [hv, tenth, Nat.div_div_eq_div_mul, Nat.pow_succ']
      · rw [ho]
        push_cast
        ring
      · have top' : offset < 80 := Int.not_le.1 top
        rcases hk with rfl | ⟨hk, hk'⟩
        · exact ⟨bound, by push_cast; omega⟩
        · rw [tenth, Nat.le_div_iff_mul_le (by decide)] at hk
          exact ⟨hk, by push_cast; omega⟩
    · rw [shrinkMantissa, if_neg big] at h
      cases h
      exact ⟨0, by simp, by simp, le_cMaxValue_iff.1 (UInt64.not_lt.1 big), .inl rfl⟩

theorem iterate_div (k : Nat) :
    ((fun v : UInt64 => v / 10)^[k] value).toNat = value.toNat / 10 ^ k := by
  induction k generalizing value with
  | zero => simp
  | succ k ih =>
    rw [Function.iterate_succ_apply, ih, UInt64.toNat_div, Nat.pow_succ', Nat.div_div_eq_div_mul]
    rfl

theorem iterate_mul (k : Nat) :
    ((fun v : UInt64 => v * 10)^[k] value).toNat = value.toNat * 10 ^ k % 2 ^ 64 := by
  induction k generalizing value with
  | zero =>
    have := value.toNat_lt
    simp only [Function.iterate_zero, id_eq]
    omega
  | succ k ih =>
    have ten : (10 : UInt64).toNat = 10 := rfl
    rw [Function.iterate_succ_apply, ih, UInt64.toNat_mul, Nat.mod_mul_mod, ten, Nat.mul_assoc]
    congr 2
    rw [Nat.pow_succ']

variable {issue : Issue} {mantissa v : UInt64} {exponent : Int} {negative : Bool} {r : STAmount}

theorem Normal.of_zero (h : a.Normal) (zero : a.mValue = 0) :
    a.mIsNegative = false ∧ a.mOffset = if a.mIsNative then 0 else -100 := by
  unfold Normal at h
  by_cases native : a.mIsNative = true
  · rw [if_pos native] at h ⊢
    exact ⟨h.2 zero, h.1⟩
  · rw [if_neg native] at h ⊢
    rcases h with ⟨-, offset, sign⟩ | ⟨large, -⟩
    · exact ⟨sign, offset⟩
    · rw [zero] at large
      exact absurd large (by decide)

/-- The loops of `canonicalize` leave the digits that fit, and less than sixteen of them only
at the smallest exponent. -/
theorem loops_bracket {offset : Int} {r : UInt64 × Int}
    (h : shrinkMantissa 20 (growMantissa (offset - cMinOffset).toNat v offset).1
      (growMantissa (offset - cMinOffset).toNat v offset).2 = .ok r) :
    r.1.toNat < 10 ^ 16 ∧ (r.1.toNat < 10 ^ 15 → r.2 ≤ -96) ∧
      (r.1.toNat : ℚ) * 10 ^ r.2 ≤ v.toNat * 10 ^ offset ∧
      (v.toNat : ℚ) * 10 ^ offset < (r.1.toNat + 1) * 10 ^ r.2 := by
  obtain ⟨k, hk, grown, shifted, short, long⟩ :=
    growMantissa_spec (offset - cMinOffset).toNat v offset
  have limit : (growMantissa (offset - cMinOffset).toNat v offset).1.toNat < 10 ^ (16 + 20) :=
    (UInt64.toNat_lt _).trans (by decide)
  obtain ⟨j, shrunk, shifted', fits, cut⟩ := shrinkMantissa_spec h limit
  rw [grown] at shrunk cut
  rw [shifted] at shifted' cut
  have room : (offset - cMinOffset).toNat = (offset + 96).toNat := rfl
  have bracket := cut_digits (v.toNat * 10 ^ k) j (offset - k)
  rw [← shrunk, ← shifted', shift_digits] at bracket
  refine ⟨fits, fun low => ?_, bracket⟩
  rcases cut with rfl | ⟨large, -⟩
  · omega
  · -- digits were cut off only while more than sixteen were left
    have : 10 ^ 15 ≤ r.1.toNat := by
      rw [shrunk, Nat.le_div_iff_mul_le (Nat.pow_pos (by decide)), ← Nat.pow_add]
      exact large
    omega

/-- An issued amount is truncated to sixteen digits, or to zero if it is too small. -/
theorem ofIssue_issued (issued : isSWT issue.currency = false) (nonzero : mantissa ≠ 0)
    (h : ofIssue issue mantissa exponent negative = .ok r) :
    r.mIssue = issue ∧ r.mIsNative = false ∧ r.mIsNegative = negative ∧
      (((mantissa.toNat : ℚ) * 10 ^ exponent < 10 ^ (-81 : ℤ) ∧ r.mValue = 0 ∧ r.mOffset = 0) ∨
        (Truncates 15 (mantissa.toNat * 10 ^ exponent) r.mValue.toNat r.mOffset ∧
          -96 ≤ r.mOffset ∧ r.mOffset ≤ 80)) := by
  unfold ofIssue canonicalize getCurrency at h
  rw [if_neg (by simp [issued]), if_neg nonzero] at h
  obtain ⟨⟨v, offset⟩, loops, rest⟩ := ExceptFold.bind_eq_ok.1 h
  obtain ⟨fits, small, le, lt⟩ := loops_bracket loops
  dsimp only at rest fits small le lt
  by_cases tiny : offset < cMinOffset ∨ v < cMinValue
  · rw [if_pos tiny] at rest
    cases rest
    refine ⟨rfl, rfl, rfl, .inl ⟨?_, rfl, rfl⟩⟩
    rcases tiny with low | low
    · have low' : offset < -96 := low
      exact lt_ten_zpow fits lt (by push_cast; omega)
    · have low' : v.toNat < 10 ^ 15 := UInt64.lt_iff_toNat_lt.1 low
      exact lt_ten_zpow low' lt (by push_cast; have := small low'; omega)
  · rw [if_neg tiny] at rest
    obtain ⟨above, large⟩ := not_or.1 tiny
    obtain ⟨-, ⟨⟩⟩ | ⟨top, rest⟩ := ite_eq_iff.1 rest
    cases rest
    have large' : 10 ^ 15 ≤ v.toNat := UInt64.le_iff_toNat_le.1 (UInt64.not_lt.1 large)
    exact ⟨rfl, rfl, rfl, .inr ⟨⟨large', fits, le, lt⟩, Int.not_lt.1 above, Int.not_lt.1 top⟩⟩

theorem shrinkMantissa_overflow {digits : Nat} {value : UInt64} {offset : Int}
    (h : ∀ r, shrinkMantissa digits value offset ≠ .ok r) :
    (10 : ℚ) ^ 96 ≤ value.toNat * 10 ^ offset := by
  induction digits generalizing value offset with
  | zero => exact absurd rfl (h _)
  | succ digits ih =>
    unfold shrinkMantissa at h
    by_cases big : value > cMaxValue
    · rw [if_pos big] at h
      have digits16 : 10 ^ 16 ≤ value.toNat :=
        Nat.not_lt.1 (mt le_cMaxValue_iff.2 (UInt64.not_le.2 big))
      by_cases top : offset ≥ cMaxOffset
      · have top' : 80 ≤ offset := top
        exact_mod_cast ten_zpow_le (e := 96) digits16 (by omega)
      · rw [if_neg top] at h
        have cut := (cut_digits value.toNat 1 offset).1
        apply (ih h).trans
        exact cut
    · rw [if_neg big] at h
      exact absurd rfl (h _)

/-- An issued amount is refused exactly from `10 ^ 96` on. -/
theorem ofIssue_ok_iff (issued : isSWT issue.currency = false) (nonzero : mantissa ≠ 0) :
    (∃ r, ofIssue issue mantissa exponent negative = .ok r) ↔
      (mantissa.toNat : ℚ) * 10 ^ exponent < 10 ^ 96 := by
  constructor
  · rintro ⟨r, h⟩
    obtain ⟨-, -, -, ⟨tiny, -⟩ | ⟨truncated, -, most⟩⟩ := ofIssue_issued issued nonzero h
    · apply tiny.trans
      norm_num
    · exact_mod_cast lt_ten_zpow (e := 96) truncated.high truncated.lt (by omega)
  · intro below
    obtain ⟨k, -, grown, shifted, -⟩ :=
      growMantissa_spec (exponent - cMinOffset).toNat mantissa exponent
    have same : ((growMantissa (exponent - cMinOffset).toNat mantissa exponent).1.toNat : ℚ) *
        10 ^ (growMantissa (exponent - cMinOffset).toNat mantissa exponent).2 =
      mantissa.toNat * 10 ^ exponent := by
      rw [grown, shifted, shift_digits]
    by_contra none
    unfold ofIssue canonicalize getCurrency at none
    rw [if_neg (by simp [issued]), if_neg nonzero] at none
    dsimp only at none
    cases loops : shrinkMantissa 20 (growMantissa (exponent - cMinOffset).toNat mantissa exponent).1
        (growMantissa (exponent - cMinOffset).toNat mantissa exponent).2 with
    | error fault =>
      have exceeds := shrinkMantissa_overflow (by rw [loops]; exact nofun)
      rw [same] at exceeds
      exact absurd below (not_lt.2 exceeds)
    | ok r =>
      obtain ⟨v, offset⟩ := r
      obtain ⟨-, -, le, -⟩ := loops_bracket loops
      rw [loops, ok_bind] at none
      by_cases tiny : offset < cMinOffset ∨ v < cMinValue
      · rw [if_pos tiny] at none
        exact none ⟨_, rfl⟩
      · rw [if_neg tiny] at none
        have low : 10 ^ 15 ≤ v.toNat := UInt64.le_iff_toNat_le.1 (UInt64.not_lt.1 (not_or.1 tiny).2)
        by_cases top : offset > cMaxOffset
        · have top' : 81 ≤ offset := top
          have exceeds : (10 : ℚ) ^ 96 ≤ v.toNat * 10 ^ offset := by
            exact_mod_cast ten_zpow_le (e := 96) low (by omega)
          exact absurd below (not_lt.2 (exceeds.trans le))
        · rw [if_neg top] at none
          exact none ⟨_, rfl⟩

/-- A truncation that is in range is what `canonicalize` returns. -/
theorem ofIssue_of_truncates (issued : isSWT issue.currency = false) (nonzero : mantissa ≠ 0)
    {offset : Int} (h : Truncates 15 (mantissa.toNat * 10 ^ exponent) v.toNat offset)
    (least : -96 ≤ offset) (most : offset ≤ 80) :
    ofIssue issue mantissa exponent negative = .ok ⟨issue, v, offset, false, negative⟩ := by
  have below : (mantissa.toNat : ℚ) * 10 ^ exponent < 10 ^ 96 := by
    exact_mod_cast lt_ten_zpow (e := 96) h.high h.lt (by omega)
  obtain ⟨r, made⟩ := (ofIssue_ok_iff issued nonzero).2 below
  rw [made]
  obtain ⟨issue', value', offset', native', negative'⟩ := r
  obtain ⟨rfl, rfl, rfl, ⟨tiny, -⟩ | ⟨truncated, -⟩⟩ := ofIssue_issued issued nonzero made
  · exact absurd tiny (not_lt.2 ((ten_zpow_le h.low (by omega)).trans h.le))
  · obtain ⟨digits, rfl⟩ := truncated.unique h
    obtain rfl := UInt64.toNat_inj.1 digits
    rfl

theorem ofIssue_zero_ok (issue : Issue) (exponent : Int) (negative : Bool) :
    ofIssue issue 0 exponent negative = .ok (zeroOf issue) := by
  unfold ofIssue canonicalize getCurrency zeroOf
  by_cases native : isSWT issue.currency = true
  · rw [if_pos native, if_pos rfl, if_pos native]
  · rw [if_neg native, if_pos rfl, if_neg native]

theorem ofIssue_zero (h : ofIssue issue 0 exponent negative = .ok r) : r = zeroOf issue := by
  rw [ofIssue_zero_ok] at h
  exact (Except.ok.inj h).symm

/-- A native amount is scaled in 64 bits and then held against the largest one. -/
theorem ofIssue_native_eq (native : isSWT issue.currency = true) (nonzero : mantissa ≠ 0) :
    ofIssue issue mantissa exponent negative =
      if mantissa.toNat / 10 ^ (-exponent).toNat * 10 ^ exponent.toNat % 2 ^ 64 > 10 ^ 17 then
        .error (.runtimeError "Native currency amount out of range")
      else .ok ⟨issue, UInt64.ofNat
        (mantissa.toNat / 10 ^ (-exponent).toNat * 10 ^ exponent.toNat % 2 ^ 64), 0, true,
          negative⟩ := by
  have scaled : ((fun v : UInt64 => v * 10)^[exponent.toNat]
      ((fun v : UInt64 => v / 10)^[(-exponent).toNat] mantissa)) =
      UInt64.ofNat (mantissa.toNat / 10 ^ (-exponent).toNat * 10 ^ exponent.toNat % 2 ^ 64) := by
    rw [← UInt64.toNat_inj, iterate_mul, iterate_div, UInt64.toNat_ofNat']
    omega
  unfold ofIssue canonicalize getCurrency
  rw [if_pos native, if_neg nonzero]
  dsimp only
  rw [scaled]
  have large : UInt64.ofNat
      (mantissa.toNat / 10 ^ (-exponent).toNat * 10 ^ exponent.toNat % 2 ^ 64) > cMaxNativeN ↔
      mantissa.toNat / 10 ^ (-exponent).toNat * 10 ^ exponent.toNat % 2 ^ 64 > 10 ^ 17 := by
    rw [gt_iff_lt, UInt64.lt_iff_toNat_lt, UInt64.toNat_ofNat', Nat.mod_mod]
    rfl
  simp only [large]

theorem zeroOf_normal : (zeroOf issue).Normal := by
  unfold zeroOf
  split
  · simp [Normal]
  · simp [Normal]

/-- When a native amount is canonicalized to zero drops. -/
theorem drops_eq_zero_iff (nonzero : mantissa ≠ 0) :
    UInt64.ofNat (mantissa.toNat / 10 ^ (-exponent).toNat * 10 ^ exponent.toNat % 2 ^ 64) = 0 ↔
    ¬ (10 ^ (-exponent).toNat ≤ mantissa.toNat ∧
      ¬ 2 ^ 64 ∣ mantissa.toNat * 10 ^ exponent.toNat) := by
  have positive : 0 < mantissa.toNat :=
    Nat.pos_of_ne_zero fun hz => nonzero (UInt64.toNat_inj.1 hz)
  have limit : mantissa.toNat < 2 ^ 64 := mantissa.toNat_lt
  rw [← UInt64.toNat_inj, UInt64.toNat_ofNat', Nat.mod_mod, UInt64.toNat_zero]
  by_cases low : exponent ≤ 0
  · have none : exponent.toNat = 0 := by omega
    have indivisible : ¬ 2 ^ 64 ∣ mantissa.toNat :=
      fun h => Nat.not_lt.2 (Nat.le_of_dvd positive h) limit
    have small : mantissa.toNat / 10 ^ (-exponent).toNat < 2 ^ 64 :=
      (Nat.div_le_self _ _).trans_lt limit
    rw [none, Nat.pow_zero, Nat.mul_one, Nat.mul_one, Nat.mod_eq_of_lt small, Nat.div_eq_zero_iff]
    constructor
    · rintro (h | h) ⟨large, -⟩
      · exact absurd h (Nat.pow_pos (by decide)).ne'
      · omega
    · intro h
      exact .inr (Nat.not_le.1 fun large => h ⟨large, indivisible⟩)
  · have none : (-exponent).toNat = 0 := by omega
    rw [none, Nat.pow_zero, ← Nat.dvd_iff_mod_eq_zero]
    simp [Nat.succ_le_iff, positive]

theorem largeEnough_issued (issued : isSWT issue.currency = false) (nonzero : mantissa ≠ 0) :
    LargeEnough issue mantissa exponent negative ↔
      (10 : ℚ) ^ (-81 : ℤ) ≤ mantissa.toNat * 10 ^ exponent := by
  have least : (10 : ℚ) ^ (-81 : ℤ) = ((10 ^ (15 + (-96 - exponent).toNat) : ℕ) : ℚ) *
      10 ^ (exponent - (exponent + 96).toNat) := by
    rw [Nat.cast_pow, Nat.cast_ofNat, ← zpow_natCast, ← zpow_add₀ (by norm_num)]
    congr 1
    omega
  rw [least, ← shift_digits mantissa.toNat (exponent + 96).toNat,
    mul_le_mul_iff_left₀ (ten_zpow_pos _), Nat.cast_le]
  simp [LargeEnough, issued, nonzero]

theorem ofIssue_normal_iff (h : ofIssue issue mantissa exponent negative = .ok r) :
    r.Normal ↔ LargeEnough issue mantissa exponent negative := by
  by_cases zero : mantissa = 0
  · rw [zero] at h ⊢
    rw [ofIssue_zero h]
    exact iff_of_true zeroOf_normal fun none => absurd rfl none
  cases native : isSWT issue.currency with
  | true =>
    rw [ofIssue_native_eq native zero] at h
    obtain ⟨-, ⟨⟩⟩ | ⟨-, h⟩ := ite_eq_iff.1 h
    cases h
    simp only [Normal, LargeEnough, native, drops_eq_zero_iff zero]
    cases negative <;> simp [zero]
  | false =>
    rw [largeEnough_issued native zero]
    obtain ⟨-, flag, -, ⟨tiny, none, offset⟩ | ⟨truncated, least, most⟩⟩ :=
      ofIssue_issued native zero h
    · -- zero with the exponent zero is not the zero of the form
      refine iff_of_false (fun normal => ?_) (not_le.2 tiny)
      have exponent := (normal.of_zero none).2
      rw [if_neg (by simp [flag]), offset] at exponent
      exact absurd exponent (by decide)
    · refine iff_of_true ?_ ((ten_zpow_le truncated.low (by omega)).trans truncated.le)
      unfold Normal
      rw [if_neg (by simp [flag])]
      exact .inr ⟨UInt64.le_iff_toNat_le.2 truncated.low, le_cMaxValue_iff.2 truncated.high, least,
        most⟩

theorem neg_toUInt64_ne_zero {v : Int64} (h : v < 0) : (-v).toUInt64 ≠ 0 := by
  intro zero
  have negated : -v = -0 := congrArg Int64.ofUInt64 zero
  rw [Int64.neg_inj.1 negated] at h
  exact absurd h (by decide)

theorem ofInt64_normal (v : Int64) : (ofInt64 v).Normal := by
  unfold ofInt64
  split
  · rename_i negative
    exact ⟨rfl, fun zero => absurd zero (neg_toUInt64_ne_zero negative)⟩
  · exact ⟨rfl, fun _ => rfl⟩

theorem neg_normal (h : a.Normal) : a.neg.Normal := by
  unfold neg
  split
  · exact h
  · rename_i nonzero
    unfold Normal at h ⊢
    split at h
    · simp_all
    · simp_all

/-- An operation with its operands. -/
inductive Arithmetic where
  | add (v1 v2 : STAmount)
  | sub (v1 v2 : STAmount)
  | neg (v : STAmount)
  | multiply (v1 v2 : STAmount) (issue : Issue)
  | divide (num den : STAmount) (issue : Issue)
  | mulRound (v1 v2 : STAmount) (issue : Issue) (roundUp : Bool)
  | divRound (num den : STAmount) (issue : Issue) (roundUp : Bool)
  | ofIssue (issue : Issue) (mantissa : UInt64) (exponent : Int) (negative : Bool)
  | ofIssueInt64 (issue : Issue) (mantissa : Int64) (exponent : Int)

namespace Arithmetic

def operands : Arithmetic → List STAmount
  | .add v1 v2 | .sub v1 v2 | .multiply v1 v2 _ | .mulRound v1 v2 _ _ => [v1, v2]
  | .divide num den _ | .divRound num den _ _ => [num, den]
  | .neg v => [v]
  | .ofIssue .. | .ofIssueInt64 .. => []

def eval : Arithmetic → Except Fault STAmount
  | .add v1 v2 => v1.add v2
  | .sub v1 v2 => v1.sub v2
  | .neg v => .ok v.neg
  | .multiply v1 v2 issue => v1.multiply v2 issue
  | .divide num den issue => num.divide den issue
  | .mulRound v1 v2 issue roundUp => v1.mulRound v2 issue roundUp
  | .divRound num den issue roundUp => num.divRound den issue roundUp
  | .ofIssue issue mantissa exponent negative => STAmount.ofIssue issue mantissa exponent negative
  | .ofIssueInt64 issue mantissa exponent => STAmount.ofIssueInt64 issue mantissa exponent

/-- A sum of issued amounts is zero or large enough. -/
def sumLargeEnough (issue : Issue) (fv : Int64) (offset : Int) : Prop :=
  ¬ (fv ≥ -10 ∧ fv ≤ 10) →
    if fv ≥ 0 then LargeEnough issue fv.toUInt64 offset false
    else LargeEnough issue (-fv).toUInt64 offset true

instance (issue : Issue) (fv : Int64) (offset : Int) :
    Decidable (sumLargeEnough issue fv offset) := by
  unfold sumLargeEnough
  infer_instance

/-- The rounded result of an operation, before it is brought to the internal form, is
zero or large enough. An operation that rounds nothing has no condition. -/
def ResultLargeEnough : Arithmetic → Prop
  | .add v1 v2 =>
    if v2.isZero then True
    else if v1.isZero then LargeEnough v1.mIssue v2.mValue v2.mOffset v2.mIsNegative
    else if v1.mIsNative then True
    else
      let offset := max v1.mOffset v2.mOffset
      sumLargeEnough v1.mIssue (v1.scaled offset + v2.scaled offset) offset
  | .sub v1 v2 =>
    if v2.isZero ∨ v2.mIsNative then True
    else
      let offset := max v1.mOffset v2.mOffset
      sumLargeEnough v1.mIssue (v1.scaled offset - v2.scaled offset) offset
  | .neg _ => True
  | .multiply v1 v2 issue =>
    if v1.isZero ∨ v2.isZero ∨ (v1.mIsNative ∧ v2.mIsNative ∧ isSWT issue.currency) then True
    else
      let v := v1.operand.1.toNat * v2.operand.1.toNat / 10 ^ 14
      LargeEnough issue (getuint64 v + 7) (v1.operand.2 + v2.operand.2 + 14)
        (v1.mIsNegative != v2.mIsNegative)
  | .divide num den issue =>
    if num.isZero then True
    else
      let v := num.operand.1.toNat * 10 ^ 17 / den.operand.1.toNat
      LargeEnough issue (getuint64 v + 5) (num.operand.2 - den.operand.2 - 17)
        (num.mIsNegative != den.mIsNegative)
  | .mulRound v1 v2 issue roundUp =>
    if v1.isZero ∨ v2.isZero ∨ (v1.mIsNative ∧ v2.mIsNative ∧ isSWT issue.currency) then True
    else
      let negative := v1.mIsNegative != v2.mIsNegative
      let away := negative != roundUp
      let v := (v1.operand.1.toNat * v2.operand.1.toNat + if away then 10 ^ 14 - 1 else 0) / 10 ^ 14
      let rounded := canonicalizeRound (isSWT issue.currency) (getuint64 v)
        (v1.operand.2 + v2.operand.2 + 14) away
      LargeEnough issue rounded.1 rounded.2 negative
  | .divRound num den issue roundUp =>
    if num.isZero then True
    else
      let negative := num.mIsNegative != den.mIsNegative
      let away := negative != roundUp
      let v := (num.operand.1.toNat * 10 ^ 17 + if away then den.operand.1.toNat - 1 else 0) /
        den.operand.1.toNat
      let rounded := canonicalizeRound (isSWT issue.currency) (getuint64 v)
        (num.operand.2 - den.operand.2 - 17) away
      LargeEnough issue rounded.1 rounded.2 negative
  | .ofIssue issue mantissa exponent negative => LargeEnough issue mantissa exponent negative
  | .ofIssueInt64 issue mantissa exponent =>
    if mantissa < 0 then LargeEnough issue (-mantissa).toUInt64 exponent true
    else LargeEnough issue mantissa.toUInt64 exponent false

instance (op : Arithmetic) : Decidable op.ResultLargeEnough := by
  cases op <;> simp only [ResultLargeEnough] <;> infer_instance

variable {v1 v2 : STAmount}

theorem ofSum_normal_iff {fv : Int64} (h : ofSum issue fv offset = .ok r) :
    r.Normal ↔ sumLargeEnough issue fv offset := by
  unfold ofSum at h
  unfold sumLargeEnough
  split at h
  · rename_i small
    cases h
    simp [zeroOf_normal, small]
  · rename_i large
    split at h
    · rename_i sign
      rw [ofIssue_normal_iff h]
      simp [large, sign]
    · rename_i sign
      rw [ofIssue_normal_iff h]
      simp [large, sign]

theorem multiplyNative_normal (h : multiplyNative v1 v2 = .ok r) :
    r.Normal := by
  obtain ⟨n1, -, h⟩ := bind_eq_ok.1 h
  obtain ⟨n2, -, h⟩ := bind_eq_ok.1 h
  obtain ⟨-, h⟩ := guard_eq_ok.1 h
  obtain ⟨-, h⟩ := guard_eq_ok.1 h
  cases h
  exact ⟨rfl, fun _ => rfl⟩

theorem add_normal_iff (form : v1.Normal) (h : v1.add v2 = .ok r) :
    r.Normal ↔ ResultLargeEnough (.add v1 v2) := by
  obtain ⟨-, -, h⟩ := bind_eq_ok.1 h
  simp only [ResultLargeEnough]
  split at h
  · rename_i zero
    cases h
    simp [zero, form]
  rename_i nonzero
  rw [if_neg nonzero]
  split at h
  · rename_i zero
    rw [if_pos zero]
    exact ofIssue_normal_iff h
  rename_i nonzero'
  rw [if_neg nonzero']
  split at h
  · rename_i native
    obtain ⟨n1, -, h⟩ := bind_eq_ok.1 h
    obtain ⟨n2, -, h⟩ := bind_eq_ok.1 h
    cases h
    simp [native, ofInt64_normal]
  · rename_i issued
    rw [if_neg issued]
    exact ofSum_normal_iff h

theorem sub_normal_iff (form : v1.Normal) (h : v1.sub v2 = .ok r) :
    r.Normal ↔ ResultLargeEnough (.sub v1 v2) := by
  obtain ⟨-, -, h⟩ := bind_eq_ok.1 h
  simp only [ResultLargeEnough]
  split at h
  · rename_i zero
    cases h
    simp [zero, form]
  rename_i nonzero
  split at h
  · rename_i native
    obtain ⟨n1, -, h⟩ := bind_eq_ok.1 h
    obtain ⟨n2, -, h⟩ := bind_eq_ok.1 h
    cases h
    simp [native, createFromInt64_eq, ofInt64_normal]
  · rename_i issued
    rw [if_neg (not_or.2 ⟨nonzero, issued⟩)]
    exact ofSum_normal_iff h

theorem quotient_normal_iff {zero : Prop} [Decidable zero] (h : (if zero then .ok (zeroOf issue)
      else STAmount.ofIssue issue mantissa exponent negative) = .ok r) :
    r.Normal ↔ if zero then True else LargeEnough issue mantissa exponent negative := by
  split at h
  · rename_i zero
    cases h
    simp [zero, zeroOf_normal]
  · rename_i nonzero
    rw [if_neg nonzero]
    exact ofIssue_normal_iff h

/-- A product may not get to the mantissas. -/
theorem product_normal_iff (h : (if v1.isZero || v2.isZero then .ok (zeroOf issue)
      else if v1.mIsNative && v2.mIsNative && isSWT issue.currency then multiplyNative v1 v2
      else STAmount.ofIssue issue mantissa exponent negative) = .ok r) :
    r.Normal ↔ if v1.isZero ∨ v2.isZero ∨ (v1.mIsNative ∧ v2.mIsNative ∧ isSWT issue.currency)
      then True else LargeEnough issue mantissa exponent negative := by
  by_cases native : v1.mIsNative && v2.mIsNative && isSWT issue.currency
  · split at h
    · cases h
      simp_all [zeroOf_normal]
    · simp_all [multiplyNative_normal h]
  · rw [if_neg native] at h
    rw [quotient_normal_iff h]
    simp_all

/-- The internal form is closed under an operation exactly where the operation's
rounded result is zero or large enough. -/
theorem normal_iff_resultLargeEnough (op : Arithmetic) (form : ∀ v ∈ op.operands, v.Normal)
    {r : STAmount} (h : op.eval = .ok r) : r.Normal ↔ op.ResultLargeEnough := by
  cases op with
  | add v1 v2 => exact add_normal_iff (form v1 (by simp [operands])) h
  | sub v1 v2 => exact sub_normal_iff (form v1 (by simp [operands])) h
  | neg v =>
    cases h
    simp [ResultLargeEnough, neg_normal (form v (by simp [operands]))]
  | multiply v1 v2 issue => exact product_normal_iff h
  | divide num den issue =>
    unfold eval STAmount.divide at h
    exact quotient_normal_iff (guard_eq_ok.1 h).2
  | mulRound v1 v2 issue roundUp => exact product_normal_iff h
  | divRound num den issue roundUp =>
    unfold eval STAmount.divRound at h
    exact quotient_normal_iff (guard_eq_ok.1 h).2
  | ofIssue issue mantissa exponent negative => exact ofIssue_normal_iff h
  | ofIssueInt64 issue mantissa exponent =>
    simp only [eval, STAmount.ofIssueInt64] at h
    simp only [ResultLargeEnough]
    split at h
    · rename_i negative
      rw [if_pos negative]
      exact ofIssue_normal_iff h
    · rename_i positive
      rw [if_neg positive]
      exact ofIssue_normal_iff h

/-- An amount that is hardly above another one. -/
def tinyDifference : Arithmetic :=
  .sub ⟨noIssue, cMinValue, cMinOffset, false, false⟩
    ⟨noIssue, cMinValue + 100, cMinOffset, false, false⟩

/-- The difference of two issued amounts in the internal form is a zero with a sign and
the exponent zero, and does not equal the zero of its issue. A quarter of a negative
drop is a negative zero. -/
theorem tinyDifference_not_normal :
    (∀ v ∈ tinyDifference.operands, v.Normal) ∧
    (∃ r, tinyDifference.eval = .ok r ∧ r.mValue = 0 ∧ r.mOffset = 0 ∧ r.mIsNegative = true ∧
      ¬ r.Normal ∧ r.eqv (zeroOf noIssue) = false) ∧
    ∃ r, (Arithmetic.divide (ofNative 1 true) (ofNative 4) {}).eval = .ok r ∧
      r.mIsNegative = true ∧ r.mValue = 0 ∧ ¬ r.Normal := by
  refine ⟨by decide, ⟨_, rfl, ?_⟩, ⟨_, rfl, ?_⟩⟩
  · decide
  · decide

/-- The difference of 5 and 4.9975, whose exponent is three less. -/
def nearDifference : Arithmetic :=
  .sub ⟨noIssue, 5000000000000000, -15, false, false⟩ ⟨noIssue, 4997500000000000, -15, false, false⟩

theorem nearDifference_normal : nearDifference.ResultLargeEnough ∧
    ∃ r, nearDifference.eval = .ok r ∧ r.mValue = 2500000000000000 ∧ r.mOffset = -18 ∧ r.Normal := by
  have large : nearDifference.ResultLargeEnough := by
    decide
  refine ⟨large, _, rfl, by decide, by decide, ?_⟩
  exact (normal_iff_resultLargeEnough nearDifference (by decide) rfl).2 large

end Arithmetic

end Skywell.STAmount
