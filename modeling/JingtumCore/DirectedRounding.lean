import JingtumCore.AmountProducts

/-!
# Directed rounding

`mulRound` and `divRound` round towards zero by cutting digits off. Away from zero they round
the quotient up and then, in `canonicalizeRound`, once more when a last digit is cut off; the
digits that are cut off before that one are lost without a trace.
-/
namespace Skywell.STAmount
open DecimalTruncation

variable {a b r : STAmount} {issue : Issue} {offset : Int} {negative roundUp : Bool} {x : ℚ}

theorem ofIssue_value {m : UInt64} (h : ofIssue issue m offset negative = .ok r) :
    r.value = signed negative r.magnitude := by
  by_cases zero : m = 0
  · rw [zero] at h
    rw [ofIssue_zero h, value_zeroOf, magnitude_of_zero mValue_zeroOf]
    cases negative <;> simp
  have sign : r.mIsNegative = negative := by
    cases native : isSWT issue.currency with
    | false => exact (ofIssue_issued native zero h).2.2.1
    | true =>
      rw [ofIssue_native_eq native zero] at h
      split at h
      · cases h
      · cases h
        rfl
  rw [value, sign]

/-- The constructor never rounds away from zero. -/
theorem ofIssue_le {m : UInt64} (h : ofIssue issue m offset negative = .ok r) :
    r.magnitude ≤ m.toNat * 10 ^ offset := by
  have positive : (0 : ℚ) ≤ m.toNat * 10 ^ offset :=
    mul_nonneg (Nat.cast_nonneg _) (ten_zpow_pos _).le
  by_cases zero : m = 0
  · rw [zero] at h
    rw [ofIssue_zero h, magnitude_of_zero mValue_zeroOf]
    exact positive
  cases native : isSWT issue.currency with
  | false =>
    obtain ⟨-, -, -, ⟨-, none, -⟩ | ⟨truncated, -⟩⟩ := ofIssue_issued native zero h
    · rw [magnitude_of_zero none]
      exact positive
    · exact truncated.le
  | true =>
    rw [ofIssue_native_eq native zero] at h
    split at h
    · cases h
    cases h
    rw [magnitude_native rfl]
    rw [toNat_ofNat_mod]
    have floor := Nat.floor_le positive
    rw [floor_scaled] at floor
    refine le_trans ?_ floor
    exact_mod_cast Nat.mod_le _ _

/-- A result with the sign of the exact one is on the right side of it. -/
theorem directed_iff (x y : ℚ) :
    ((roundUp = true → signed negative x ≤ signed negative y) ∧
      (roundUp = false → signed negative y ≤ signed negative x)) ↔
    if negative != roundUp then x ≤ y else y ≤ x := by
  cases negative <;> cases roundUp <;> simp

/-- The turns of the loop of `canonicalizeRound`. -/
def excess (v : Nat) : Nat :=
  if v ≤ 99999999999999990 then 0
  else if v / 10 ≤ 99999999999999990 then 1
  else if v / 100 ≤ 99999999999999990 then 2
  else 3

/-- The digits that `canonicalizeRound` cuts off an issued mantissa. -/
def cutDigits (v : Nat) : Nat := if v < 10 ^ 16 then 0 else excess v + 1

/-- Rounding up the digit after the first `k` digits makes up for those. -/
def KeepsDigits (v k : Nat) : Prop := v / 10 ^ k % 10 ≠ 0 ∨ 10 ^ k ∣ v

theorem roundMantissa_eq (v : UInt64) (offset : Int) :
    (roundMantissa 20 v offset).1.toNat = v.toNat / 10 ^ excess v.toNat ∧
      (roundMantissa 20 v offset).2 = offset + excess v.toNat := by
  have more (w : UInt64) : w > 10 * cMaxValue ↔ ¬ w.toNat ≤ 99999999999999990 := by
    rw [gt_iff_lt, Nat.not_le]
    rfl
  have limit := v.toNat_lt
  have ten (w : UInt64) : (w / 10).toNat = w.toNat / 10 := UInt64.toNat_div w 10
  have hundred : (v / 10 / 10).toNat = v.toNat / 100 := by
    rw [ten, ten, Nat.div_div_eq_div_mul]
  have thousand : (v / 10 / 10 / 10).toNat = v.toNat / 1000 := by
    rw [ten, hundred, Nat.div_div_eq_div_mul]
  unfold excess
  by_cases first : v.toNat ≤ 99999999999999990
  · rw [if_pos first, roundMantissa, if_neg (mt (more v).1 (not_not.2 first))]
    simp
  rw [if_neg first, roundMantissa, if_pos ((more v).2 first)]
  by_cases second : v.toNat / 10 ≤ 99999999999999990
  · rw [if_pos second, roundMantissa, if_neg (mt (more _).1 (not_not.2 (by rwa [ten])))]
    exact ⟨ten v, rfl⟩
  rw [if_neg second, roundMantissa, if_pos ((more _).2 (by rwa [ten]))]
  by_cases third : v.toNat / 100 ≤ 99999999999999990
  · rw [if_pos third, roundMantissa, if_neg (mt (more _).1 (not_not.2 (by rwa [hundred])))]
    exact ⟨hundred, by push_cast; ring⟩
  rw [if_neg third, roundMantissa, if_pos ((more _).2 (by rwa [hundred])), roundMantissa,
    if_neg (mt (more _).1 (not_not.2 (by rw [thousand]; omega)))]
  exact ⟨thousand, by push_cast; ring⟩

theorem keepsDigits_iff (v k : Nat) :
    v ≤ (v / 10 ^ k + 9) / 10 * 10 ^ (k + 1) ↔ KeepsDigits v k := by
  unfold KeepsDigits
  have positive : 0 < 10 ^ k := Nat.pow_pos (by decide)
  have split := Nat.div_add_mod v (10 ^ k)
  have rest := Nat.mod_lt v positive
  rw [Nat.dvd_iff_mod_eq_zero, Nat.pow_succ']
  generalize v / 10 ^ k = u at *
  generalize v % 10 ^ k = m at *
  generalize 10 ^ k = p at *
  rw [← Nat.mul_assoc, ← split]
  by_cases digit : u % 10 = 0
  · have same : (u + 9) / 10 * 10 = u := by omega
    rw [same, Nat.mul_comm]
    constructor
    · intro h
      right
      omega
    · rintro (h | h)
      · exact absurd digit h
      · omega
  · have more : u + 1 ≤ (u + 9) / 10 * 10 := by omega
    refine ⟨fun _ => .inl digit, fun _ => ?_⟩
    calc p * u + m ≤ (u + 1) * p := by
          rw [Nat.add_mul, Nat.mul_comm]
          omega
      _ ≤ (u + 9) / 10 * 10 * p := Nat.mul_le_mul_right _ more

/-- A mantissa of sixteen digits is kept if the exponent allows it. -/
theorem ofIssue_sixteen_iff {w : UInt64} (issued : isSWT issue.currency = false)
    (low : 10 ^ 15 ≤ w.toNat) (high : w.toNat < 10 ^ 16) (positive : 0 < x) :
    (∀ r, ofIssue issue w offset negative = .ok r → x ≤ r.magnitude) ↔
      -96 ≤ offset ∧ (80 < offset ∨ x ≤ w.toNat * 10 ^ offset) := by
  have nonzero : w ≠ 0 := by
    rintro rfl
    exact absurd low (by decide)
  have self : Truncates 15 ((w.toNat : ℚ) * 10 ^ offset) w.toNat offset := truncates_self low high
  by_cases bottom : -96 ≤ offset
  · by_cases top : 80 < offset
    · refine ⟨fun _ => ⟨bottom, .inl top⟩, fun _ r made => ?_⟩
      have below := (ofIssue_ok_iff issued nonzero).1 ⟨r, made⟩
      have exceeds : (10 : ℚ) ^ 96 ≤ w.toNat * 10 ^ offset := by
        exact_mod_cast ten_zpow_le (e := 96) low (by omega)
      exact absurd below (not_lt.2 exceeds)
    · have made : ofIssue issue w offset negative = .ok ⟨issue, w, offset, false, negative⟩ :=
        ofIssue_inRange issued low high bottom (Int.not_lt.1 top)
      have size : magnitude ⟨issue, w, offset, false, negative⟩ = w.toNat * 10 ^ offset := rfl
      rw [made, ← size]
      constructor
      · intro h
        exact ⟨bottom, .inr (h _ rfl)⟩
      · rintro ⟨-, above | le⟩ r same
        · exact absurd above top
        · cases same
          exact le
  · refine ⟨fun h => ?_, fun h => absurd h.1 bottom⟩
    exfalso
    obtain ⟨r, made⟩ := ofIssue_short negative issued nonzero high (e := offset) (by omega)
    have le := h r made
    obtain ⟨-, -, -, ⟨-, none, -⟩ | ⟨truncated, least, -⟩⟩ := ofIssue_issued issued nonzero made
    · rw [magnitude_of_zero none] at le
      linarith
    · have same := truncated.unique self
      omega

/-- An issued mantissa is rounded up to sixteen digits. -/
theorem canonicalizeRound_issued (offset : Int) {v : UInt64} (low : 10 ^ 15 ≤ v.toNat) :
    ∃ w : UInt64, canonicalizeRound false v offset true = (w, offset + cutDigits v.toNat) ∧
      10 ^ 15 ≤ w.toNat ∧ w.toNat < 10 ^ 16 ∧
      (w.toNat = if v.toNat < 10 ^ 16 then v.toNat
        else (v.toNat / 10 ^ excess v.toNat + 9) / 10) := by
  have large : v > cMaxValue ↔ ¬ v.toNat < 10 ^ 16 := by
    rw [gt_iff_lt, ← UInt64.not_le, le_cMaxValue_iff]
  unfold canonicalizeRound cutDigits
  by_cases short : v.toNat < 10 ^ 16
  · refine ⟨v, ?_, low, short, (if_pos short).symm⟩
    rw [if_pos short]
    simp [mt large.1 (not_not.2 short)]
  · obtain ⟨value, turns⟩ := roundMantissa_eq v offset
    have range : v.toNat / 10 ^ excess v.toNat ≤ 99999999999999990 ∧
        9999999999999999 ≤ v.toNat / 10 ^ excess v.toNat := by
      have limit := v.toNat_lt
      unfold excess
      split
      · omega
      split
      · omega
      split
      · omega
      · omega
    have rounded : (((roundMantissa 20 v offset).1 + 9) / 10).toNat =
        (v.toNat / 10 ^ excess v.toNat + 9) / 10 := by
      have nine : (9 : UInt64).toNat = 9 := rfl
      have ten : (10 : UInt64).toNat = 10 := rfl
      rw [UInt64.toNat_div, UInt64.toNat_add, ten]
      omega
    refine ⟨((roundMantissa 20 v offset).1 + 9) / 10, ?_, ?_, ?_, ?_⟩
    · have exponent : offset + (excess v.toNat : Int) + 1 = offset + ((excess v.toNat + 1 : ℕ) : Int) := by
        push_cast
        ring
      rw [if_neg short, if_neg (by simp), if_neg (by simp), if_pos (large.2 short)]
      simp only [turns, exponent]
    · omega
    · omega
    · rw [rounded, if_neg short]

/-- A number that was rounded up to `v` units is at most `m` units exactly if `v` is. -/
theorem le_units_iff {v m : Nat} (lt : ((v : ℚ) - 1) * 10 ^ offset < x)
    (le : x ≤ v * 10 ^ offset) : x ≤ m * 10 ^ offset ↔ v ≤ m := by
  have unit := ten_zpow_pos offset
  constructor
  · intro h
    have below : (v : ℚ) - 1 < m := lt_of_mul_lt_mul_right (lt.trans_le h) unit.le
    have below' : (v : ℚ) < (m + 1 : ℕ) := by
      push_cast
      linarith
    exact Nat.lt_succ_iff.1 (by exact_mod_cast below')
  · intro h
    refine le.trans (mul_le_mul_of_nonneg_right ?_ unit.le)
    exact_mod_cast h

/-- Where an issued result is not below a number that was rounded up to `v`. -/
theorem away_issued_iff {v : Nat} (issued : isSWT issue.currency = false) (low : 10 ^ 15 ≤ v)
    (fits : v < 2 ^ 64) (lt : ((v : ℚ) - 1) * 10 ^ offset < x) (le : x ≤ v * 10 ^ offset) :
    (∀ r, ofIssue issue (canonicalizeRound false (.ofNat v) offset true).1
        (canonicalizeRound false (.ofNat v) offset true).2 negative = .ok r → x ≤ r.magnitude) ↔
      -96 ≤ offset + cutDigits v ∧
        (80 < offset + cutDigits v ∨ KeepsDigits v (cutDigits v - 1)) := by
  have read : (UInt64.ofNat v).toNat = v := UInt64.toNat_ofNat_of_lt' fits
  have large : (1 : ℚ) ≤ v := by exact_mod_cast Nat.le_trans (by decide) low
  have positive : 0 < x := by nlinarith
  obtain ⟨w, rounded, least, most, mantissa⟩ :=
    canonicalizeRound_issued offset (by rwa [read])
  rw [read] at rounded mantissa
  rw [rounded, ofIssue_sixteen_iff issued least most positive]
  have exponent : (10 : ℚ) ^ (offset + cutDigits v) = 10 ^ cutDigits v * 10 ^ offset := by
    rw [zpow_add₀ (by norm_num), zpow_natCast, mul_comm]
  -- the rounded mantissa is a whole number of the units that `v` counts
  have whole : x ≤ w.toNat * 10 ^ (offset + cutDigits v) ↔ v ≤ w.toNat * 10 ^ cutDigits v := by
    rw [exponent, ← mul_assoc, ← le_units_iff lt le]
    push_cast
    rfl
  have digits : v ≤ w.toNat * 10 ^ cutDigits v ↔ KeepsDigits v (cutDigits v - 1) := by
    unfold cutDigits
    rw [mantissa]
    by_cases short : v < 10 ^ 16
    · rw [if_pos short, if_pos short, Nat.pow_zero, Nat.mul_one]
      exact ⟨fun _ => .inr (by simp), fun _ => le_rfl⟩
    · rw [if_neg short, if_neg short]
      exact keepsDigits_iff v (excess v)
  rw [whole, digits]

/-- A number of drops that is not refused is kept. -/
theorem drops_iff {fault : Fault} (n : Nat) :
    (∀ r : STAmount, (if n > 10 ^ 17 then Except.error fault
      else .ok ⟨issue, .ofNat n, 0, true, negative⟩) = .ok r → x ≤ r.magnitude) ↔
        10 ^ 17 < n ∨ x ≤ (UInt64.ofNat n).toNat := by
  by_cases large : n > 10 ^ 17
  · rw [if_pos large]
    exact ⟨fun _ => .inl large, nofun⟩
  have size : magnitude ⟨issue, .ofNat n, 0, true, negative⟩ = (UInt64.ofNat n).toNat :=
    magnitude_native rfl
  rw [if_neg large, ← size]
  constructor
  · intro h
    exact .inr (h _ rfl)
  · rintro (h | le) r made
    · exact absurd h large
    · cases made
      exact le

theorem ofIssue_drops_iff {n : Nat} (native : isSWT issue.currency = true) (fits : n < 2 ^ 64)
    (positive : 0 < x) :
    (∀ r, ofIssue issue (.ofNat n) 0 negative = .ok r → x ≤ r.magnitude) ↔ 10 ^ 17 < n ∨ x ≤ n := by
  have read : (UInt64.ofNat n).toNat = n := UInt64.toNat_ofNat_of_lt' fits
  by_cases zero : UInt64.ofNat n = 0
  · have none : n = 0 := by
      rw [zero] at read
      exact read.symm
    subst none
    constructor
    · intro h
      have le := h _ (ofIssue_zero_ok ..)
      rw [magnitude_of_zero mValue_zeroOf] at le
      linarith
    · rintro (large | le)
      · exact absurd large (by decide)
      · rw [Nat.cast_zero] at le
        linarith
  rw [ofIssue_drops_eq native zero, read, drops_iff, read]

theorem le_drops_iff {v turns : Nat} (cut : offset = -1 - turns)
    (lt : ((v : ℚ) - 1) * 10 ^ offset < x) (le : x ≤ v * 10 ^ offset) (n : Nat) :
    x ≤ n ↔ v ≤ n * 10 ^ (turns + 1) := by
  have scale : (n : ℚ) = (n * 10 ^ (turns + 1) : ℕ) * 10 ^ offset := by
    have := shift_digits n (turns + 1) 0
    rw [zpow_zero, mul_one] at this
    rw [← this, cut]
    congr 2
    push_cast
    ring
  rw [scale]
  exact le_units_iff lt le

/-- The last digit is rounded up, after the others were cut off. -/
theorem canonicalizeRound_cut {v turns : Nat} (cut : offset = -1 - turns) (fits : v + 10 < 2 ^ 64) :
    canonicalizeRound true (.ofNat v) offset true =
      (.ofNat ((v / 10 ^ turns + if turns ≥ 2 then 9 else 10) / 10), 0) := by
  have small : v < 2 ^ 64 := by omega
  have read : (UInt64.ofNat v).toNat = v := UInt64.toNat_ofNat_of_lt' small
  have turns_eq : (-1 - offset).toNat = turns := by omega
  have cut_le : v / 10 ^ turns ≤ v := Nat.div_le_self _ _
  unfold canonicalizeRound
  rw [if_neg (by simp), if_pos rfl, if_pos (by omega)]
  dsimp only
  rw [turns_eq]
  congr 1
  rw [← UInt64.toNat_inj]
  have ten : (10 : UInt64).toNat = 10 := rfl
  have nine : (9 : UInt64).toNat = 9 := rfl
  rw [UInt64.toNat_div, UInt64.toNat_add, iterate_div, read, UInt64.toNat_ofNat', ten]
  generalize v / 10 ^ turns = u at cut_le ⊢
  split
  · rw [nine]
    omega
  · omega

section Away

variable {v : Nat} (native : isSWT issue.currency = true) (low : 10 ^ 15 ≤ v)
  (fits : v + 10 < 2 ^ 64) (lt : ((v : ℚ) - 1) * 10 ^ offset < x) (le : x ≤ v * 10 ^ offset)
include native low fits lt le

theorem away_cut_iff {turns : Nat} (cut : offset = -1 - turns) :
    (∀ r, ofIssue issue (canonicalizeRound true (.ofNat v) offset true).1
        (canonicalizeRound true (.ofNat v) offset true).2 negative = .ok r → x ≤ r.magnitude) ↔
      (offset < -2 → KeepsDigits v turns) := by
  have positive : 0 < x := by
    have one : (1 : ℚ) ≤ v := by exact_mod_cast Nat.le_trans (by decide) low
    nlinarith
  have cut_le : v / 10 ^ turns ≤ v := Nat.div_le_self _ _
  have fits' : (v / 10 ^ turns + if turns ≥ 2 then 9 else 10) / 10 < 2 ^ 64 := by
    generalize v / 10 ^ turns = u at cut_le ⊢
    split <;> omega
  rw [canonicalizeRound_cut cut fits]
  rw [ofIssue_drops_iff native fits' positive, le_drops_iff cut lt le]
  by_cases many : turns ≥ 2
  · have few : v / 10 ^ turns ≤ v / 100 := Nat.div_le_div_left
      (Nat.pow_le_pow_right (show 0 < 10 by decide) many) (by decide)
    rw [if_pos many, keepsDigits_iff]
    constructor
    · rintro (h | h) _
      · omega
      · exact h
    · intro h
      exact .inr (h (by omega))
  · rw [if_neg many]
    refine ⟨fun _ h => absurd h (by omega), fun _ => .inr ?_⟩
    have next := Nat.lt_mul_div_succ v (Nat.pow_pos (n := turns + 1) (show 0 < 10 by decide))
    rw [Nat.pow_succ, ← Nat.div_div_eq_div_mul] at next
    have up : (v / 10 ^ turns + 10) / 10 = v / 10 ^ turns / 10 + 1 := by omega
    rw [up, Nat.mul_comm]
    exact next.le

theorem away_whole_iff {k : Nat} (whole : offset = k) :
    (∀ r, ofIssue issue (.ofNat v) offset negative = .ok r → x ≤ r.magnitude) ↔
      Unwrapped v offset := by
  subst whole
  have small : v < 2 ^ 64 := by omega
  have read : (UInt64.ofNat v).toNat = v := UInt64.toNat_ofNat_of_lt' small
  have large : (10 : ℚ) ^ 15 ≤ v := by exact_mod_cast low
  have none : (-(k : Int)).toNat = 0 := by omega
  unfold Unwrapped
  rw [ofIssue_native_eq native (ofNat_ne_zero (by omega) small), read, none, Nat.pow_zero,
    Nat.div_one, Int.toNat_natCast, drops_iff, toNat_ofNat_mod, or_comm]
  rw [zpow_natCast] at lt le
  refine or_congr_left' fun refused => ⟨fun below => ?_, fun within => ?_⟩
  · by_contra wraps
    have lost : ((v * 10 ^ k % 2 ^ 64 : ℕ) : ℚ) ≤ 10 ^ 17 := by exact_mod_cast Nat.not_lt.1 refused
    have wraps' : (2 : ℚ) ^ 64 ≤ v * 10 ^ k := by exact_mod_cast Nat.not_lt.1 wraps
    nlinarith
  · rw [Nat.mod_eq_of_lt within]
    push_cast
    exact le

/-- Where a native result is not below a number that was rounded up to `v`. -/
theorem away_native_iff :
    (∀ r, ofIssue issue (canonicalizeRound true (.ofNat v) offset true).1
        (canonicalizeRound true (.ofNat v) offset true).2 negative = .ok r → x ≤ r.magnitude) ↔
      if offset < 0 then offset < -2 → KeepsDigits v (-1 - offset).toNat
      else Unwrapped v offset := by
  by_cases cut : offset < 0
  · rw [if_pos cut]
    exact away_cut_iff native low fits lt le (by omega)
  · rw [if_neg cut]
    have kept : canonicalizeRound true (.ofNat v) offset true = (.ofNat v, offset) := by
      unfold canonicalizeRound
      rw [if_neg (by simp), if_pos rfl, if_neg cut]
    rw [kept]
    exact away_whole_iff native low fits lt le (k := offset.toNat) (by omega)

end Away

/-- Where a result that is rounded away from zero, from `v` units of `10 ^ offset`, is not too
small. -/
def AwayCondition (issue : Issue) (v : Nat) (offset : Int) : Prop :=
  if isSWT issue.currency then
    if offset < 0 then offset < -2 → KeepsDigits v (-1 - offset).toNat else Unwrapped v offset
  else -96 ≤ offset + cutDigits v ∧ (80 < offset + cutDigits v ∨ KeepsDigits v (cutDigits v - 1))

theorem toNat_getuint64_le (v : Nat) : (getuint64 v).toNat ≤ v := by
  unfold getuint64
  by_cases fits : v < 2 ^ 64
  · rw [if_pos fits, UInt64.toNat_ofNat_of_lt' fits]
  · rw [if_neg fits]
    exact Nat.le_trans (show _ ≤ 2 ^ 64 - 1 by decide) (by omega)

/-- A quotient that is rounded up. -/
def ceilDiv (n d : Nat) : Nat := (n + (d - 1)) / d

theorem ceilDiv_bracket {n d : Nat} (positive : 0 < d) :
    (ceilDiv n d : ℚ) - 1 < (n : ℚ) / d ∧ (n : ℚ) / d ≤ ceilDiv n d := by
  have split := Nat.div_add_mod' (n + (d - 1)) d
  have rest := Nat.mod_lt (n + (d - 1)) positive
  have positive' : (0 : ℚ) < d := by exact_mod_cast positive
  have lower : ((ceilDiv n d * d : ℕ) : ℚ) < (n + d : ℕ) := by
    exact_mod_cast show (n + (d - 1)) / d * d < n + d by omega
  have upper : (n : ℚ) ≤ (ceilDiv n d * d : ℕ) := by
    exact_mod_cast show n ≤ (n + (d - 1)) / d * d by omega
  push_cast at lower upper
  rw [lt_div_iff₀ positive', div_le_iff₀ positive']
  exact ⟨by linarith, upper⟩

/-- The product of the mantissas, fourteen digits up and rounded up. -/
def ceilProduct (a b : STAmount) : Nat := ceilDiv (a.operand.1.toNat * b.operand.1.toNat) (10 ^ 14)

/-- The quotient of the mantissas, seventeen digits down and rounded up. -/
def ceilQuotient (num den : STAmount) : Nat :=
  ceilDiv (num.operand.1.toNat * 10 ^ 17) den.operand.1.toNat

/-- Where `mulRound` is sound: always for a result that is zero, exact or rounded towards
zero. A product that does not fit is rounded up from the largest number that does. -/
def MulRoundCondition (a b : STAmount) (issue : Issue) (roundUp : Bool) : Prop :=
  a.mValue ≠ 0 → b.mValue ≠ 0 →
    ¬ (a.mIsNative = true ∧ b.mIsNative = true ∧ isSWT issue.currency = true) →
      (a.mIsNegative != b.mIsNegative) ≠ roundUp →
        if ceilProduct a b < 2 ^ 64 then
          AwayCondition issue (ceilProduct a b) (productExponent a b)
        else a.operand.1.toNat * b.operand.1.toNat ≤ 1844674407370956 * 10 ^ 18

/-- Where `divRound` is sound. -/
def DivRoundCondition (num den : STAmount) (issue : Issue) (roundUp : Bool) : Prop :=
  num.mValue ≠ 0 → den.mValue ≠ 0 → (num.mIsNegative != den.mIsNegative) ≠ roundUp →
    AwayCondition issue (ceilQuotient num den) (quotientExponent num den)

/-- The last steps of `mulRound` and `divRound`. -/
def roundedOf (issue : Issue) (v : Nat) (offset : Int) (resultNegative roundUp : Bool) :
    Except Fault STAmount :=
  let (amount, offset) :=
    canonicalizeRound (isSWT issue.currency) (getuint64 v) offset (resultNegative != roundUp)
  ofIssue issue amount offset resultNegative

section Unfolded

variable (na : a.mValue ≠ 0) (nb : b.mValue ≠ 0)
include na nb

theorem mulRound_eq_multiply
    (both : a.mIsNative = true ∧ b.mIsNative = true ∧ isSWT issue.currency = true) :
    a.mulRound b issue roundUp = a.multiply b issue := by
  have zero : ¬ (a.isZero || b.isZero) = true := by simp [not_isZero na, not_isZero nb]
  have native : (a.mIsNative && b.mIsNative && isSWT issue.currency) = true := by simp [both]
  unfold mulRound multiply
  rw [if_neg zero, if_pos native, if_neg zero, if_pos native]
  rfl

/-- The mantissa and the exponent that `mulRound` computes, before `canonicalizeRound`. -/
theorem mulRound_eq_ofIssue
    (mixed : ¬ (a.mIsNative = true ∧ b.mIsNative = true ∧ isSWT issue.currency = true)) :
    a.mulRound b issue roundUp = roundedOf issue
      (if (a.mIsNegative != b.mIsNegative) != roundUp then ceilProduct a b else productMantissa a b)
      (productExponent a b) (a.mIsNegative != b.mIsNegative) roundUp := by
  have zero : ¬ (a.isZero || b.isZero) = true := by simp [not_isZero na, not_isZero nb]
  have native : ¬ (a.mIsNative && b.mIsNative && isSWT issue.currency) = true := by
    simpa using mixed
  unfold mulRound roundedOf productExponent ceilProduct productMantissa ceilDiv
  rw [if_neg zero, if_neg native]
  cases a.operand
  cases b.operand
  dsimp only
  by_cases away : ((a.mIsNegative != b.mIsNegative) != roundUp) = true
  · rw [if_pos away, if_pos away]
  · rw [if_neg away, if_neg away, Nat.add_zero]

theorem divRound_eq_ofIssue :
    a.divRound b issue roundUp = roundedOf issue
      (if (a.mIsNegative != b.mIsNegative) != roundUp then ceilQuotient a b else quotientMantissa a b)
      (quotientExponent a b) (a.mIsNegative != b.mIsNegative) roundUp := by
  unfold divRound roundedOf quotientExponent ceilQuotient quotientMantissa ceilDiv
  rw [if_neg (not_isZero nb), if_neg (not_isZero na)]
  cases a.operand
  cases b.operand
  dsimp only
  by_cases away : ((a.mIsNegative != b.mIsNegative) != roundUp) = true
  · rw [if_pos away, if_pos away]
  · rw [if_neg away, if_neg away, Nat.add_zero]

end Unfolded

section Directed

variable {v : Nat}

theorem roundedOf_value (h : roundedOf issue v offset negative roundUp = .ok r) :
    r.value = signed negative r.magnitude := ofIssue_value h

theorem roundedOf_towards (towards : (negative != roundUp) = false) (le : v * (10 : ℚ) ^ offset ≤ x)
    (h : roundedOf issue v offset negative roundUp = .ok r) : r.magnitude ≤ x := by
  unfold roundedOf at h
  rw [towards] at h
  have below : r.magnitude ≤ (getuint64 v).toNat * 10 ^ offset := ofIssue_le h
  refine below.trans (le_trans ?_ le)
  exact mul_le_mul_of_nonneg_right (by exact_mod_cast toNat_getuint64_le v) (ten_zpow_pos _).le

/-- Away from zero the condition decides. -/
theorem roundedOf_away_iff (away : (negative != roundUp) = true) (low : 10 ^ 15 ≤ v)
    (fits : v < 2 ^ 64) (room : isSWT issue.currency = true → v + 10 < 2 ^ 64)
    (lt : ((v : ℚ) - 1) * 10 ^ offset < x) (le : x ≤ v * 10 ^ offset) :
    (∀ r, roundedOf issue v offset negative roundUp = .ok r → x ≤ r.magnitude) ↔
      AwayCondition issue v offset := by
  unfold roundedOf AwayCondition
  rw [away, getuint64_of_lt fits]
  cases native : isSWT issue.currency with
  | true => exact away_native_iff native low (room native) lt le
  | false => exact away_issued_iff native low fits lt le

/-- A result is on the right side of the exact one if it is rounded towards zero, and otherwise
under the condition for rounding away from it. -/
theorem roundedOf_directed_iff {up down : Nat} {condition : Prop}
    (towards : down * (10 : ℚ) ^ offset ≤ x)
    (awayIff : (negative != roundUp) = true →
      ((∀ r, roundedOf issue up offset negative roundUp = .ok r → x ≤ r.magnitude) ↔ condition)) :
    (∀ r, roundedOf issue (if negative != roundUp then up else down) offset negative roundUp = .ok r →
      (roundUp = true → signed negative x ≤ r.value) ∧
        (roundUp = false → r.value ≤ signed negative x)) ↔ (negative ≠ roundUp → condition) := by
  rw [← bne_iff_ne]
  by_cases away : (negative != roundUp) = true
  · rw [if_pos away, ← awayIff away]
    constructor
    · intro h _ r made
      have sides := h r made
      rwa [roundedOf_value made, directed_iff, if_pos away] at sides
    · intro h r made
      rw [roundedOf_value made, directed_iff, if_pos away]
      exact h away r made
  · rw [if_neg away]
    refine ⟨fun _ h => absurd h away, fun _ r made => ?_⟩
    rw [roundedOf_value made, directed_iff, if_neg away]
    exact roundedOf_towards (Bool.eq_false_iff.2 away) towards made

end Directed

section Sound

variable (ha : a.Normal) (hb : b.Normal) (legal : a.isLegalNet = true) (legal' : b.isLegalNet = true)
  (na : a.mValue ≠ 0) (nb : b.mValue ≠ 0)
include ha hb legal legal' na nb

theorem ceilProduct_bracket :
    10 ^ 15 ≤ ceilProduct a b ∧
      ((ceilProduct a b : ℚ) - 1) * 10 ^ productExponent a b < a.magnitude * b.magnitude ∧
      a.magnitude * b.magnitude ≤ ceilProduct a b * 10 ^ productExponent a b := by
  obtain ⟨-, low1, -, -⟩ := operand_spec ha legal na
  obtain ⟨-, low2, -, -⟩ := operand_spec hb legal' nb
  have large : 10 ^ 30 ≤ a.operand.1.toNat * b.operand.1.toNat :=
    Nat.le_trans (by decide) (Nat.mul_le_mul low1 low2)
  unfold ceilProduct productExponent
  rw [product_eq ha hb legal legal' na nb]
  generalize a.operand.1.toNat * b.operand.1.toNat = n at *
  generalize a.operand.2 + b.operand.2 = e at *
  obtain ⟨lower, upper⟩ := ceilDiv_bracket (show 0 < 10 ^ 14 by decide)
  have unit := ten_zpow_pos (e + 14)
  have split : (n : ℚ) * 10 ^ e = n / (10 ^ 14 : ℕ) * 10 ^ (e + 14) := by
    rw [zpow_add₀ (by norm_num)]
    ring
  rw [split]
  refine ⟨?_, mul_lt_mul_of_pos_right lower unit, mul_le_mul_of_nonneg_right upper unit.le⟩
  unfold ceilDiv
  omega

omit ha hb legal legal' na nb in
theorem product_of_large_ceilProduct (large : 2 ^ 64 ≤ ceilProduct a b + 10) :
    10 ^ 33 < a.operand.1.toNat * b.operand.1.toNat := by
  unfold ceilProduct ceilDiv at large
  omega

theorem ceilQuotient_bracket :
    10 ^ 15 ≤ ceilQuotient a b ∧ ceilQuotient a b ≤ 10 ^ 19 ∧
      ((ceilQuotient a b : ℚ) - 1) * 10 ^ quotientExponent a b < a.magnitude / b.magnitude ∧
      a.magnitude / b.magnitude ≤ ceilQuotient a b * 10 ^ quotientExponent a b := by
  obtain ⟨-, low1, high1, -⟩ := operand_spec ha legal na
  obtain ⟨-, low2, high2, -⟩ := operand_spec hb legal' nb
  have exactly := quotient_eq ha hb legal legal' na nb
  unfold ceilQuotient
  generalize a.operand.1.toNat = n at *
  generalize b.operand.1.toNat = d at *
  have positive : 0 < d := by omega
  obtain ⟨lower, upper⟩ := ceilDiv_bracket positive
  have unit := ten_zpow_pos (quotientExponent a b)
  rw [exactly]
  refine ⟨?_, ?_, mul_lt_mul_of_pos_right lower unit, mul_le_mul_of_nonneg_right upper unit.le⟩
  · unfold ceilDiv
    rw [Nat.le_div_iff_mul_le positive]
    omega
  · unfold ceilDiv
    rw [Nat.div_le_iff_le_mul_add_pred positive]
    refine Nat.add_le_add_right ?_ _
    calc n * 10 ^ 17 ≤ 10 ^ 17 * 10 ^ 17 := Nat.mul_le_mul_right _ high1
      _ = 10 ^ 15 * 10 ^ 19 := by decide
      _ ≤ d * 10 ^ 19 := Nat.mul_le_mul_right _ low2

/-- A product that does not fit is the largest number that does, rounded up. -/
theorem saturated_iff (issued : isSWT issue.currency = false) (large : ¬ ceilProduct a b < 2 ^ 64)
    (exponent : productExponent a b = 14) (away : (negative != roundUp) = true) :
    (∀ r, roundedOf issue (ceilProduct a b) (productExponent a b) negative roundUp = .ok r →
      a.magnitude * b.magnitude ≤ r.magnitude) ↔
        a.operand.1.toNat * b.operand.1.toNat ≤ 1844674407370956 * 10 ^ 18 := by
  have all : getuint64 (ceilProduct a b) = 18446744073709551615 := if_neg large
  have rounded : canonicalizeRound false 18446744073709551615 14 true = (1844674407370956, 18) := by
    decide
  have mantissa : (1844674407370956 : UInt64).toNat = 1844674407370956 := rfl
  have exactly : a.magnitude * b.magnitude =
      ((a.operand.1.toNat * b.operand.1.toNat : ℕ) : ℚ) := by
    have none : a.operand.2 + b.operand.2 = 0 := by
      unfold productExponent at exponent
      omega
    rw [product_eq ha hb legal legal' na nb, none, zpow_zero, mul_one]
  have positive : 0 < a.magnitude * b.magnitude := mul_pos (magnitude_pos na) (magnitude_pos nb)
  unfold roundedOf
  rw [all, exponent, away, issued, rounded]
  rw [ofIssue_sixteen_iff issued (by decide) (by decide) positive, exactly]
  constructor
  · rintro ⟨-, h | h⟩
    · exact absurd h (by decide)
    · exact_mod_cast h
  · intro h
    exact ⟨by decide, .inr (by exact_mod_cast h)⟩

omit na nb in
theorem mulRound_sound_iff :
    (∀ r, a.mulRound b issue roundUp = .ok r →
      (roundUp = true → a.value * b.value ≤ r.value) ∧
        (roundUp = false → r.value ≤ a.value * b.value)) ↔ MulRoundCondition a b issue roundUp := by
  unfold MulRoundCondition
  by_cases zero : a.mValue = 0 ∨ b.mValue = 0
  · refine ⟨fun _ na nb => absurd zero (not_or.2 ⟨na, nb⟩), fun _ r made => ?_⟩
    have none : a.value * b.value = 0 := mul_eq_zero.2 (zero.imp value_of_zero value_of_zero)
    have result : r = zeroOf issue := by
      unfold mulRound at made
      rw [if_pos (by simpa [isZero_iff_mValue] using zero)] at made
      exact (Except.ok.inj made).symm
    rw [none, result, value_zeroOf]
    exact ⟨fun _ => le_rfl, fun _ => le_rfl⟩
  obtain ⟨na, nb⟩ := not_or.1 zero
  by_cases both : a.mIsNative = true ∧ b.mIsNative = true ∧ isSWT issue.currency = true
  · refine ⟨fun _ _ _ mixed => absurd both mixed, fun _ r made => ?_⟩
    rw [mulRound_eq_multiply na nb both] at made
    obtain ⟨exactly, -⟩ := multiply_native_exact ha hb legal legal' na nb both made
    rw [exactly]
    exact ⟨fun _ => le_rfl, fun _ => le_rfl⟩
  obtain ⟨-, below, -⟩ := product_bracket ha hb legal legal' na nb
  obtain ⟨low, lt, le⟩ := ceilProduct_bracket ha hb legal legal' na nb
  simp only [na, nb, both, not_false_eq_true, forall_const, Ne]
  rw [mulRound_eq_ofIssue na nb both, value_mul]
  refine roundedOf_directed_iff below fun away => ?_
  by_cases fits : ceilProduct a b < 2 ^ 64
  · rw [if_pos fits]
    refine roundedOf_away_iff away low fits (fun native => ?_) lt le
    -- for a native result one of the operands has only sixteen digits
    by_contra large
    obtain ⟨native1, native2, -⟩ := native_of_large_product ha hb legal legal' na nb
      (product_of_large_ceilProduct (Nat.not_lt.1 large))
    exact both ⟨native1, native2, native⟩
  · rw [if_neg fits]
    obtain ⟨native1, native2, exponent⟩ := native_of_large_product ha hb legal legal' na nb
      (product_of_large_ceilProduct (Nat.le_add_right_of_le (Nat.not_lt.1 fits)))
    have issued : isSWT issue.currency = false :=
      Bool.eq_false_iff.2 fun native => both ⟨native1, native2, native⟩
    exact saturated_iff ha hb legal legal' na nb issued fits exponent away

omit na nb in
theorem divRound_sound_iff :
    (∀ r, a.divRound b issue roundUp = .ok r →
      (roundUp = true → a.value / b.value ≤ r.value) ∧
        (roundUp = false → r.value ≤ a.value / b.value)) ↔ DivRoundCondition a b issue roundUp := by
  unfold DivRoundCondition
  by_cases nb : b.mValue = 0
  · refine ⟨fun _ _ h => absurd nb h, fun _ r made => ?_⟩
    unfold divRound at made
    rw [if_pos (isZero_iff_mValue.2 nb)] at made
    cases made
  by_cases na : a.mValue = 0
  · refine ⟨fun _ h => absurd na h, fun _ r made => ?_⟩
    have result : r = zeroOf issue := by
      unfold divRound at made
      rw [if_neg (not_isZero nb), if_pos (isZero_iff_mValue.2 na)] at made
      exact (Except.ok.inj made).symm
    rw [value_of_zero na, zero_div, result, value_zeroOf]
    exact ⟨fun _ => le_rfl, fun _ => le_rfl⟩
  obtain ⟨-, -, below, -⟩ := quotient_bracket ha hb legal legal' na nb
  obtain ⟨low, high, lt, le⟩ := ceilQuotient_bracket ha hb legal legal' na nb
  simp only [na, nb, not_false_eq_true, forall_const, Ne]
  rw [divRound_eq_ofIssue na nb, value_div]
  refine roundedOf_directed_iff below fun away => ?_
  exact roundedOf_away_iff away low (by omega) (fun _ => by omega) lt le

end Sound

/-- Directed rounding is sound exactly where no digit is lost before the last one that is cut
off, nothing is flushed to zero and nothing wraps. -/
theorem directed_rounding_iff (a b : STAmount) (issue : Issue) (roundUp : Bool) (ha : a.Normal)
    (hb : b.Normal) (legal : a.isLegalNet = true) (legal' : b.isLegalNet = true) :
    ((∀ r, a.mulRound b issue roundUp = .ok r →
      (roundUp = true → a.value * b.value ≤ r.value) ∧
        (roundUp = false → r.value ≤ a.value * b.value)) ↔ MulRoundCondition a b issue roundUp) ∧
    ((∀ r, a.divRound b issue roundUp = .ok r →
      (roundUp = true → a.value / b.value ≤ r.value) ∧
        (roundUp = false → r.value ≤ a.value / b.value)) ↔ DivRoundCondition a b issue roundUp) :=
  ⟨mulRound_sound_iff ha hb legal legal', divRound_sound_iff ha hb legal legal'⟩

/-- The square of the largest mantissa, rounded up, is below the exact square. -/
theorem mulRound_up_is_below :
    Normal ⟨⟨7, 9⟩, cMaxValue, 0, false, false⟩ ∧
      mulRound ⟨⟨7, 9⟩, cMaxValue, 0, false, false⟩ ⟨⟨7, 9⟩, cMaxValue, 0, false, false⟩ ⟨7, 9⟩ true =
        .ok ⟨⟨7, 9⟩, 9999999999999998, 16, false, false⟩ ∧
      value ⟨⟨7, 9⟩, 9999999999999998, 16, false, false⟩ <
        value ⟨⟨7, 9⟩, cMaxValue, 0, false, false⟩ * value ⟨⟨7, 9⟩, cMaxValue, 0, false, false⟩ := by
  refine ⟨by decide, by decide, ?_⟩
  have mantissa : (9999999999999998 : UInt64).toNat = 9999999999999998 := rfl
  rw [value_of_not_negative rfl, value_of_not_negative rfl]
  norm_num [magnitude, toNat_cMaxValue, mantissa]

/-- One unit times one unit, rounded up. -/
theorem directed_rounding_units :
    MulRoundCondition ⟨⟨7, 9⟩, cMinValue, -15, false, false⟩ ⟨⟨7, 9⟩, cMinValue, -15, false, false⟩
        ⟨7, 9⟩ true ∧
      ∀ r, mulRound ⟨⟨7, 9⟩, cMinValue, -15, false, false⟩ ⟨⟨7, 9⟩, cMinValue, -15, false, false⟩
        ⟨7, 9⟩ true = .ok r →
        (true = true → value ⟨⟨7, 9⟩, cMinValue, -15, false, false⟩ *
          value ⟨⟨7, 9⟩, cMinValue, -15, false, false⟩ ≤ r.value) ∧
        (true = false → r.value ≤ value ⟨⟨7, 9⟩, cMinValue, -15, false, false⟩ *
          value ⟨⟨7, 9⟩, cMinValue, -15, false, false⟩) := by
  have condition : MulRoundCondition ⟨⟨7, 9⟩, cMinValue, -15, false, false⟩
      ⟨⟨7, 9⟩, cMinValue, -15, false, false⟩ ⟨7, 9⟩ true := by
    unfold MulRoundCondition AwayCondition KeepsDigits
    decide
  exact ⟨condition, (directed_rounding_iff ⟨⟨7, 9⟩, cMinValue, -15, false, false⟩
    ⟨⟨7, 9⟩, cMinValue, -15, false, false⟩ ⟨7, 9⟩ true (by decide) (by decide) (by decide)
    (by decide)).1.2 condition⟩

end Skywell.STAmount
