import JingtumCore.AmountText

/-!
# The range of native amounts

`canonicalize` multiplies a native mantissa by ten in 64 bits and looks at the range
afterwards. What it returns is the integer part of the number it was given exactly if the
product fits or the 64 bits that are left of it are out of range.
-/
namespace Skywell.STAmount
open DecimalTruncation ExceptFold

variable {issue : Issue} {v1 v2 : STAmount}

/-- The scaled mantissa fits into 64 bits, or what is left of it is refused. -/
def Unwrapped (mantissa : Nat) (exponent : Int) : Prop :=
  mantissa * 10 ^ exponent.toNat < 2 ^ 64 ∨ 10 ^ 17 < mantissa * 10 ^ exponent.toNat % 2 ^ 64

instance (mantissa : Nat) (exponent : Int) : Decidable (Unwrapped mantissa exponent) := by
  unfold Unwrapped
  infer_instance

/-- A native amount is the integer part of a number, and in range. -/
def IsIntegerPart (r : STAmount) (x : ℚ) : Prop := r.mValue.toNat = ⌊x⌋₊ ∧ r.mValue ≤ cMaxNativeN

theorem ofIssue_unwrapped_iff {mantissa : UInt64} {exponent : Int} (negative : Bool)
    (native : isSWT issue.currency = true) :
    (∀ r, ofIssue issue mantissa exponent negative = .ok r →
      r.IsIntegerPart (mantissa.toNat * 10 ^ exponent)) ↔ Unwrapped mantissa.toNat exponent := by
  unfold IsIntegerPart
  rw [floor_scaled]
  by_cases zero : mantissa = 0
  · have none : Unwrapped mantissa.toNat exponent := by
      left
      rw [zero]
      simp
    refine ⟨fun _ => none, fun _ r h => ?_⟩
    rw [zero] at h
    rw [ofIssue_zero h, zero]
    simp [zeroOf, native]
  have limit := mantissa.toNat_lt
  rw [ofIssue_native_eq native zero]
  by_cases low : exponent ≤ 0
  · -- a division by powers of ten stays in range
    have none : exponent.toNat = 0 := by omega
    have small : mantissa.toNat / 10 ^ (-exponent).toNat ≤ mantissa.toNat := Nat.div_le_self _ _
    unfold Unwrapped
    rw [none, Nat.pow_zero, Nat.mul_one, Nat.mul_one, Nat.mod_eq_of_lt (small.trans_lt limit)]
    refine ⟨fun _ => .inl limit, fun _ r h => ?_⟩
    obtain ⟨-, ⟨⟩⟩ | ⟨high, h⟩ := ite_eq_iff.1 h
    cases h
    have read := UInt64.toNat_ofNat_of_lt' (small.trans_lt limit)
    refine ⟨read, UInt64.le_iff_toNat_le.2 ?_⟩
    rw [read]
    exact Nat.not_lt.1 high
  · have none : (-exponent).toNat = 0 := by omega
    unfold Unwrapped
    rw [none, Nat.pow_zero, Nat.div_one]
    generalize mantissa.toNat * 10 ^ exponent.toNat = product
    have read := toNat_ofNat_mod product
    by_cases high : product % 2 ^ 64 > 10 ^ 17
    · rw [if_pos high]
      exact ⟨fun _ => .inr high, by simp⟩
    rw [if_neg high]
    constructor
    · intro h
      have same := (h _ rfl).1
      rw [read] at same
      left
      omega
    · rintro (fits | refused) r h
      · cases h
        refine ⟨?_, UInt64.le_iff_toNat_le.2 ?_⟩
        · rw [read]
          omega
        · rw [read]
          exact Nat.not_lt.1 high
      · exact absurd refused high

/-- The text of a native amount has no fraction, so that its exponent is the one that is set. -/
theorem offset_of_integer {number : NumberMatch} (readable : Readable number)
    (whole : number.fraction = none) : number.offset = number.exponent10 := by
  have limit := readable.power
  have places : number.places = 0 := by simp [NumberMatch.places, whole]
  apply Int.bmod_eq_of_le
  all_goals
    unfold NumberMatch.exponent10
    split <;> omega

/-- What `setValue` returns is what `canonicalize` makes of the text. -/
theorem setValue_native_iff {a r : STAmount} {text : List Char} {number : NumberMatch}
    (flag : a.FlagAgrees) (native : a.mIsNative = true) (h : matchNumber text = some number) :
    a.setValue text = (r, true) ↔ Readable number ∧ number.fraction = none ∧
      ofIssue a.mIssue (.ofNat number.mantissa) number.exponent10 number.negative = .ok r := by
  rw [setValue_iff flag h]
  constructor
  · rintro ⟨readable, whole, made⟩
    rw [offset_of_integer readable (whole native)] at made
    exact ⟨readable, whole native, made⟩
  · rintro ⟨readable, whole, made⟩
    rw [← offset_of_integer readable whole] at made
    exact ⟨readable, fun _ => whole, made⟩

/-- The mantissa and the exponent that `multiply` hands to the constructor. -/
def productParts (v1 v2 : STAmount) : UInt64 × Int :=
  (getuint64 (v1.operand.1.toNat * v2.operand.1.toNat / 10 ^ 14) + 7,
    v1.operand.2 + v2.operand.2 + 14)

theorem multiply_eq_ofIssue (n1 : v1.mValue ≠ 0) (n2 : v2.mValue ≠ 0)
    (mixed : ¬ (v1.mIsNative = true ∧ v2.mIsNative = true ∧ isSWT issue.currency = true)) :
    v1.multiply v2 issue = ofIssue issue (productParts v1 v2).1 (productParts v1 v2).2
      (v1.mIsNegative != v2.mIsNegative) := by
  unfold multiply productParts
  rw [if_neg (by simp [not_isZero n1, not_isZero n2]), if_neg (by simpa using mixed)]

/-- The product of two native amounts is computed directly if neither is negative and the
factors are not too large. -/
def Multiplies (p q : Int) : Prop :=
  0 ≤ min p q ∧ min p q ≤ 3000000000 ∧ max p q / 2 ^ 32 * min p q ≤ 2095475792

/-- The limits on the factors keep the product within 64 bits. -/
theorem product_lt {lo hi : Nat} (small : lo ≤ 3000000000) (high : hi / 2 ^ 32 * lo ≤ 2095475792) :
    lo * hi < 2 ^ 64 := by
  have split : hi < (hi / 2 ^ 32 + 1) * 2 ^ 32 := by omega
  have bound : lo * hi ≤ (hi / 2 ^ 32 * lo + lo) * 2 ^ 32 :=
    calc lo * hi ≤ lo * ((hi / 2 ^ 32 + 1) * 2 ^ 32) := Nat.mul_le_mul_left _ split.le
      _ = (hi / 2 ^ 32 * lo + lo) * 2 ^ 32 := by ring
  by_cases none : hi / 2 ^ 32 = 0
  · rw [none] at bound
    omega
  · have fewer : lo ≤ hi / 2 ^ 32 * lo := Nat.le_mul_of_pos_left _ (Nat.pos_of_ne_zero none)
    omega

/-- The smaller and the larger of two signed values. -/
theorem exists_min_max (n1 n2 : Int64) :
    ∃ lo hi : Int64, (if n1 < n2 then n1 else n2) = lo ∧ (if n1 < n2 then n2 else n1) = hi ∧
      lo.toInt = min n1.toInt n2.toInt ∧ hi.toInt = max n1.toInt n2.toInt := by
  by_cases less : n1 < n2
  · have less' := Int64.lt_iff_toInt_lt.1 less
    exact ⟨n1, n2, if_pos less, if_pos less, by omega, by omega⟩
  · have less' := mt Int64.lt_iff_toInt_lt.2 less
    exact ⟨n2, n1, if_neg less, if_neg less, by omega, by omega⟩

theorem multiply_native {n1 n2 : Int64} (nonzero1 : v1.mValue ≠ 0) (nonzero2 : v2.mValue ≠ 0)
    (native : isSWT issue.currency = true) (native1 : v1.mIsNative = true)
    (native2 : v2.mIsNative = true) (read1 : v1.getSNValue = .ok n1) (read2 : v2.getSNValue = .ok n2) :
    (Multiplies n1.toInt n2.toInt ∧ ∃ m : UInt64, v1.multiply v2 issue = .ok ⟨{}, m, 0, true, false⟩ ∧
      (m.toNat : Int) = n1.toInt * n2.toInt) ∨
    (¬ Multiplies n1.toInt n2.toInt ∧ ∃ e, v1.multiply v2 issue = .error e) := by
  obtain ⟨lo, hi, hlo, hhi, least, most⟩ := exists_min_max n1 n2
  have product : lo.toInt * hi.toInt = n1.toInt * n2.toInt := by
    rw [least, most, min_mul_max]
  have limit : hi.toInt < 2 ^ 63 := Int64.toInt_lt hi
  have above : lo.toInt ≤ hi.toInt := by omega
  have first (v : UInt64) : v > 3000000000 ↔ 3000000000 < v.toNat := UInt64.lt_iff_toNat_lt
  have second (v : UInt64) : v > 2095475792 ↔ 2095475792 < v.toNat := UInt64.lt_iff_toNat_lt
  unfold multiply Multiplies
  rw [if_neg (by simp [not_isZero nonzero1, not_isZero nonzero2]),
    if_pos (by simp [native, native1, native2]), read1, ok_bind, read2, ok_bind, hlo, hhi, ← least,
    ← most, ← product]
  by_cases negative : lo.toInt < 0
  · -- a negative factor is a large one without its sign
    have wide := (toNat_toUInt64 _).trans (if_pos negative)
    have low := Int64.le_toInt lo
    rw [if_pos ((first _).2 (by omega))]
    exact .inr ⟨fun h => absurd h.1 (by omega), _, rfl⟩
  have narrow := toNat_toUInt64_of_nonneg (v := lo) (by omega)
  have narrow' := toNat_toUInt64_of_nonneg (v := hi) (by omega)
  generalize hi.toUInt64 = maxV at *
  generalize lo.toUInt64 = minV at *
  rw [← narrow, ← narrow']
  by_cases large : 3000000000 < minV.toNat
  · rw [if_pos ((first _).2 large)]
    exact .inr ⟨fun h => absurd h.2.1 (by omega), _, rfl⟩
  have shifted : (maxV >>> 32).toNat = maxV.toNat / 2 ^ 32 := by
    rw [UInt64.toNat_shiftRight, Nat.shiftRight_eq_div_pow]
    rfl
  have part : ((maxV >>> 32) * minV).toNat = maxV.toNat / 2 ^ 32 * minV.toNat := by
    rw [UInt64.toNat_mul, shifted]
    have := Nat.mul_le_mul (show maxV.toNat / 2 ^ 32 ≤ 2 ^ 31 by omega) (Nat.not_lt.1 large)
    omega
  rw [if_neg (mt (first _).1 large)]
  by_cases wide : 2095475792 < maxV.toNat / 2 ^ 32 * minV.toNat
  · rw [if_pos ((second _).2 (by rwa [part]))]
    refine .inr ⟨fun h => absurd h.2.2 (not_le.2 ?_), _, rfl⟩
    exact_mod_cast wide
  · rw [if_neg (mt (second _).1 (by rwa [part]))]
    refine .inl ⟨⟨by omega, by omega, by exact_mod_cast Nat.not_lt.1 wide⟩, _, rfl, ?_⟩
    have fits := product_lt (Nat.not_lt.1 large) (Nat.not_lt.1 wide)
    rw [UInt64.toNat_mul, Nat.mod_eq_of_lt fits]
    rfl

/-- A native amount made out of a mantissa and an exponent, out of a text or as a product is
the integer part of what it was made of, exactly if nothing was lost in 64 bits. -/
theorem native_integer_part_iff (issue : Issue) (swt : isSWT issue.currency = true) :
    (∀ (mantissa : UInt64) (exponent : Int) (negative : Bool),
        ((∀ r, ofIssue issue mantissa exponent negative = .ok r →
          r.IsIntegerPart (mantissa.toNat * 10 ^ exponent)) ↔
            Unwrapped mantissa.toNat exponent)) ∧
    (∀ (a : STAmount) (text : List Char), a.FlagAgrees → a.mIsNative = true →
        ((∀ r number, matchNumber text = some number → a.setValue text = (r, true) →
          r.IsIntegerPart (number.mantissa * 10 ^ number.exponent10)) ↔
            ∀ number, matchNumber text = some number → Readable number → number.fraction = none →
              Unwrapped number.mantissa number.exponent10)) ∧
    (∀ v1 v2 : STAmount, v1.mValue ≠ 0 → v2.mValue ≠ 0 →
      ¬ (v1.mIsNative = true ∧ v2.mIsNative = true) →
        ((∀ r, v1.multiply v2 issue = .ok r →
          r.IsIntegerPart ((productParts v1 v2).1.toNat * 10 ^ (productParts v1 v2).2)) ↔
            Unwrapped (productParts v1 v2).1.toNat (productParts v1 v2).2)) ∧
    (∀ (v1 v2 : STAmount) (n1 n2 : Int64), v1.mValue ≠ 0 → v2.mValue ≠ 0 →
      v1.mIsNative = true → v2.mIsNative = true →
      v1.getSNValue = .ok n1 → v2.getSNValue = .ok n2 →
        ((∀ r, v1.multiply v2 issue = .ok r →
          r.IsIntegerPart ((n1.toInt * n2.toInt : Int) : ℚ)) ↔
            (Multiplies n1.toInt n2.toInt → n1.toInt * n2.toInt ≤ 10 ^ 17))) := by
  refine ⟨?_, ?_, ?_, ?_⟩
  · intro mantissa exponent negative
    exact ofIssue_unwrapped_iff _ swt
  · intro a text flag native
    have currency : isSWT a.mIssue.currency = true := flag.symm.trans native
    have text {number : NumberMatch} (readable : Readable number) :=
      UInt64.toNat_ofNat_of_lt' readable.mantissa ▸ @ofIssue_unwrapped_iff a.mIssue
        (.ofNat number.mantissa) number.exponent10 number.negative currency
    constructor
    · intro h number matched readable whole
      refine (text readable).1 fun r made => ?_
      exact h r number matched ((setValue_native_iff flag native matched).2 ⟨readable, whole, made⟩)
    · intro h r number matched set
      obtain ⟨readable, whole, made⟩ := (setValue_native_iff flag native matched).1 set
      exact (text readable).2 (h number matched readable whole) r made
  · intro v1 v2 nonzero1 nonzero2 mixed
    rw [multiply_eq_ofIssue nonzero1 nonzero2 fun h => mixed ⟨h.1, h.2.1⟩]
    exact ofIssue_unwrapped_iff _ swt
  · intro v1 v2 n1 n2 nonzero1 nonzero2 native1 native2 read1 read2
    rcases multiply_native nonzero1 nonzero2 swt native1 native2 read1 read2 with
      ⟨multiplies, m, made, product⟩ | ⟨refused, e, thrown⟩
    · have floor : ⌊((n1.toInt * n2.toInt : Int) : ℚ)⌋₊ = m.toNat := by
        rw [← product]
        exact_mod_cast Nat.floor_natCast m.toNat
      have range : m ≤ cMaxNativeN ↔ n1.toInt * n2.toInt ≤ 10 ^ 17 := by
        change m.toNat ≤ 10 ^ 17 ↔ _
        omega
      unfold IsIntegerPart
      rw [floor, made]
      constructor
      · intro h _
        exact range.1 (h _ rfl).2
      · intro h r same
        cases same
        exact ⟨rfl, range.2 (h multiplies)⟩
    · rw [thrown]
      exact ⟨fun _ h => absurd h refused, fun _ _ h => by cases h⟩

/-- A mantissa of `2 ^ 60` with the exponent four is zero drops, and so is its text. -/
theorem native_wraps_to_zero :
    ofIssue {} 1152921504606846976 4 false = .ok ⟨{}, 0, 0, true, false⟩ ∧
      ⌊((1152921504606846976 : UInt64).toNat : ℚ) * 10 ^ (4 : ℤ)⌋₊ = 11529215046068469760000 ∧
      setValue {} "1152921504606846976e4".toList = ({}, true) := by
  refine ⟨by decide, ?_, by decide⟩
  rw [floor_scaled]
  rfl

/-- One drop with the exponent two. -/
theorem native_integer_part_hundred :
    ofIssue {} 1 2 false = .ok ⟨{}, 100, 0, true, false⟩ ∧
      IsIntegerPart ⟨{}, 100, 0, true, false⟩ ((1 : UInt64).toNat * 10 ^ (2 : ℤ)) :=
  have returned : ofIssue {} 1 2 false = .ok ⟨{}, 100, 0, true, false⟩ := by decide
  ⟨returned, ((native_integer_part_iff {} rfl).1 1 2 false).2 (by decide) _ returned⟩

end Skywell.STAmount
