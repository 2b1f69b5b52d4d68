import JingtumCore.STAmount
import Mathlib.Tactic.Common

/-!
# Native amounts as integers

A native amount counts drops. The operators of `STAmount` compute with 64-bit
integers; on amounts of the size the wire form can hold they are the operations
on integers.
-/
namespace Skywell.STAmount

/-- The number of drops, with its sign. -/
def drops (a : STAmount) : Int :=
  if a.mIsNegative then -(a.mValue.toNat : Int) else (a.mValue.toNat : Int)

/-- A native amount as entries and transactions hold it: the wire form leaves 62
bits for the value. -/
structure IsDrops (a : STAmount) : Prop where
  native : a.mIsNative = true
  currency : a.mIssue.currency = 0
  offset : a.mOffset = 0
  bound : a.mValue.toNat < 2 ^ 62

variable {a b r : STAmount}

theorem toInt_toInt64 {x : UInt64} (h : x.toNat < 2 ^ 63) : x.toInt64.toInt = x.toNat := by
  have e : x.toInt64.toInt = x.toBitVec.toInt := rfl
  rw [e, BitVec.toInt_eq_toNat_of_lt (by rw [UInt64.toNat_toBitVec]; omega), UInt64.toNat_toBitVec]

theorem toNat_toUInt64 (v : Int64) :
    (v.toUInt64.toNat : Int) = if v.toInt < 0 then 2 ^ 64 + v.toInt else v.toInt := by
  have e : v.toInt = v.toBitVec.toInt := rfl
  have e' : v.toUInt64.toNat = v.toBitVec.toNat := rfl
  rw [e, BitVec.toInt_eq_toNat_cond]
  split <;> split <;> omega

theorem toNat_toUInt64_of_nonneg {v : Int64} (h : 0 ≤ v.toInt) : (v.toUInt64.toNat : Int) = v.toInt :=
  (toNat_toUInt64 v).trans (if_neg (Int.not_lt.2 h))

theorem toNat_neg_toUInt64 {v : Int64} (h : v.toInt < 0) :
    ((-v).toUInt64.toNat : Int) = -v.toInt := by
  have e : v.toInt = v.toBitVec.toInt := rfl
  have e' : (-v).toUInt64.toNat = (-v.toBitVec).toNat := rfl
  rw [e, BitVec.toInt_eq_toNat_cond] at h ⊢
  rw [e', BitVec.toNat_neg]
  split at h <;> omega

theorem drops_ofInt64 (v : Int64) : (ofInt64 v).drops = v.toInt := by
  unfold ofInt64 drops
  by_cases h : v < 0
  · have h' : v.toInt < 0 := by simpa [Int64.lt_iff_toInt_lt] using h
    rw [if_pos h]
    simp only [if_true]
    rw [toNat_neg_toUInt64 h']
    omega
  · have h' : 0 ≤ v.toInt := by simpa [Int64.lt_iff_toInt_lt] using h
    rw [if_neg h]
    exact toNat_toUInt64_of_nonneg h'

theorem createFromInt64_eq (v : Int64) : createFromInt64 v = ofInt64 v := by
  unfold createFromInt64 ofInt64
  by_cases h : v < 0
  · rw [if_neg (by simpa using h), if_pos h]
  · rw [if_pos (by simpa using h), if_neg h]

theorem getSNValue_drops (ha : a.IsDrops) : ∃ n, a.getSNValue = .ok n ∧ n.toInt = a.drops := by
  have hb := ha.bound
  have hn := toInt_toInt64 (x := a.mValue) (by omega)
  refine ⟨_, by simp only [getSNValue, ha.native]; rfl, ?_⟩
  unfold drops
  split
  · rw [Int64.toInt_neg, hn, Int.bmod_eq_of_le (by omega) (by omega)]
  · exact hn

theorem drops_abs_lt (ha : a.IsDrops) : -2 ^ 62 < a.drops ∧ a.drops < 2 ^ 62 := by
  have hb := ha.bound
  unfold drops
  split <;> omega

theorem isZero_iff : a.isZero = true ↔ a.drops = 0 := by
  unfold isZero signum drops
  by_cases h : a.mValue = 0
  · simp [h]
  · have h' : a.mValue.toNat ≠ 0 := fun e => h (UInt64.toNat_inj.1 e)
    cases a.mIsNegative <;> simp [h] <;> omega

section
variable (ha : a.IsDrops) (hb : b.IsDrops)
include ha hb

theorem throwComparable_drops : throwComparable a b = .ok () := by
  simp [throwComparable, isComparable, ha.native, hb.native]

theorem drops_sub (h : a.sub b = .ok r) : r.drops = a.drops - b.drops := by
  obtain ⟨n1, hn1, e1⟩ := getSNValue_drops ha
  obtain ⟨n2, hn2, e2⟩ := getSNValue_drops hb
  have h1 := drops_abs_lt ha
  have h2 := drops_abs_lt hb
  simp only [sub, throwComparable_drops ha hb, hb.native, hn1, hn2] at h
  split at h
  · next hz =>
    cases h
    rw [isZero_iff.1 hz]
    omega
  · cases h
    rw [createFromInt64_eq, drops_ofInt64, Int64.toInt_sub, e1, e2,
      Int.bmod_eq_of_le (by omega) (by omega)]

/-- A sum of drops may start from zero of the other amount's size only, which is
limited then. -/
theorem drops_add (h : a.add b = .ok r) : r.drops = a.drops + b.drops := by
  obtain ⟨n1, hn1, e1⟩ := getSNValue_drops ha
  obtain ⟨n2, hn2, e2⟩ := getSNValue_drops hb
  have h1 := drops_abs_lt ha
  have h2 := drops_abs_lt hb
  simp only [add, throwComparable_drops ha hb, ha.native, hn1, hn2] at h
  split at h
  · next hz =>
    cases h
    rw [isZero_iff.1 hz]
    omega
  split at h
  · next hz' hz =>
    rw [isZero_iff.1 hz, Int.zero_add]
    have hv : b.mValue ≠ 0 := fun e => hz' (by simp [isZero, signum, e])
    simp only [ofIssue, canonicalize, getCurrency, ha.currency, hb.offset, isSWT, beq_self_eq_true,
      if_true, hv, if_false] at h
    split at h
    · cases h
    · cases h
      rfl
  · cases h
    rw [drops_ofInt64, Int64.toInt_add, e1, e2, Int.bmod_eq_of_le (by omega) (by omega)]

theorem gt_drops (h0 : b.drops ≠ 0) : a.gt b = .ok (decide (a.drops > b.drops)) := by
  have hv : b.mValue.toNat ≠ 0 := fun e => h0 (by simp [drops, e])
  have hv' : b.mValue ≠ 0 := fun e => hv (by simp [e])
  have hz : a.mValue = 0 ↔ a.mValue.toNat = 0 := by rw [← UInt64.toNat_inj]; rfl
  simp only [gt, compareWith, throwComparable_drops ha hb, bind, Except.bind, pure, Except.pure,
    compare, ha.offset, hb.offset, drops, hz, gt_iff_lt, UInt64.lt_iff_toNat_lt,
    Except.ok.injEq]
  cases a.mIsNegative <;> cases b.mIsNegative <;> simp only [bne_self_eq_false, Bool.false_eq_true,
    if_false, if_true, Bool.true_bne, Bool.not_false, Bool.false_bne, decide_eq_decide]
  case false.true | true.false => omega
  all_goals split_ifs <;> omega

end

theorem native_of_gt {more : Bool} (h : a.gt b = .ok more)
    (hb : b.isNative = true) : a.isNative = true := by
  unfold gt compareWith throwComparable at h
  split at h
  · next hc =>
    simp only [isComparable, show b.mIsNative = true from hb] at hc
    split at hc
    · next ha => exact ha
    · cases hc
  · cases h

end Skywell.STAmount
