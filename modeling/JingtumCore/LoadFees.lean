import Mathlib.Algebra.Order.Ring.Nat
import Mathlib.Data.List.Induction
import Mathlib.Tactic.Ring

/-!
# Fees under load

`LoadFeeTrack` keeps the load factors of the node, its peers and its cluster in 32 bits and scales
a fee, in 64 bits, by the larger of the first two.
-/
namespace Skywell

def lftNormalFee : Nat := 256
def lftFeeIncFraction : Nat := 4
def lftFeeDecFraction : Nat := 4
def lftFeeMax : Nat := lftNormalFee * 1000000

structure LoadFeeTrack where
  mLocalTxnLoadFee : Nat := lftNormalFee
  mRemoteTxnLoadFee : Nat := lftNormalFee
  mClusterTxnLoadFee : Nat := lftNormalFee
  raiseCount : Nat := 0

namespace LoadFeeTrack

def mulDiv (value mul div : Nat) : Nat :=
  if value > 0xFFFFFFFF then value / div * mul % 2 ^ 64 else value * mul % 2 ^ 64 / div

/-- The load factor of a fee. Admins pay the normal fee until the local load exceeds four times the
remote one. -/
def feeFactor (s : LoadFeeTrack) (bAdmin : Bool) : Nat :=
  let feeFactor := max s.mLocalTxnLoadFee s.mRemoteTxnLoadFee
  let uRemFee := max s.mRemoteTxnLoadFee s.mClusterTxnLoadFee
  if bAdmin ∧ feeFactor > uRemFee ∧ feeFactor < 4 * uRemFee % 2 ^ 32 then uRemFee else feeFactor

def scaleFee (feeFactor fee baseFee referenceFeeUnits : Nat) : Nat :=
  if fee > 0xFFFFFFFF then
    mulDiv (fee / referenceFeeUnits) feeFactor lftNormalFee * baseFee % 2 ^ 64
  else mulDiv (fee * baseFee % 2 ^ 64) feeFactor lftNormalFee / referenceFeeUnits

def scaleFeeLoad (s : LoadFeeTrack) (fee baseFee referenceFeeUnits : Nat) (bAdmin : Bool) : Nat :=
  scaleFee (s.feeFactor bAdmin) fee baseFee referenceFeeUnits

def scaleFeeBase (fee baseFee referenceFeeUnits : Nat) : Nat :=
  mulDiv fee (baseFee % 2 ^ 32) referenceFeeUnits

def raiseLocalFee (s : LoadFeeTrack) : Bool × LoadFeeTrack :=
  let raiseCount := s.raiseCount + 1
  if raiseCount < 2 then (false, { s with raiseCount })
  else
    -- make sure this fee takes effect
    let fee := max s.mLocalTxnLoadFee s.mRemoteTxnLoadFee
    let fee := min ((fee + fee / lftFeeIncFraction) % 2 ^ 32) lftFeeMax
    (fee != s.mLocalTxnLoadFee, { s with mLocalTxnLoadFee := fee, raiseCount })

def lowerLocalFee (s : LoadFeeTrack) : Bool × LoadFeeTrack :=
  let fee := max (s.mLocalTxnLoadFee - s.mLocalTxnLoadFee / lftFeeDecFraction) lftNormalFee
  (fee != s.mLocalTxnLoadFee, { s with mLocalTxnLoadFee := fee, raiseCount := 0 })

inductive Call where
  | setRemoteFee (f : Nat)
  | setClusterFee (fee : Nat)
  | raiseLocalFee
  | lowerLocalFee

def Call.run (s : LoadFeeTrack) : Call → LoadFeeTrack
  | setRemoteFee f => { s with mRemoteTxnLoadFee := f }
  | setClusterFee fee => { s with mClusterTxnLoadFee := fee }
  | raiseLocalFee => s.raiseLocalFee.2
  | lowerLocalFee => s.lowerLocalFee.2

/-- The fee that a call sets has 32 bits and is not below the normal one. -/
def Call.Sane : Call → Prop
  | setRemoteFee f => 256 ≤ f ∧ f < 2 ^ 32
  | setClusterFee fee => 256 ≤ fee ∧ fee < 2 ^ 32
  | _ => True

/-- A quarter more than these remote fees is a little more than 32 bits hold. -/
def Wraps (f : Nat) : Prop := 3435973837 ≤ f ∧ f ≤ 3435974041

/-- A raise of the local factor takes a remote fee over that wraps. -/
def Slips (s : LoadFeeTrack) : Prop := 1 ≤ s.raiseCount ∧ Wraps s.mRemoteTxnLoadFee

def Call.setsFee : Call → Prop
  | setRemoteFee _ | setClusterFee _ => True
  | _ => False

/-- The last of the calls that raise or lower the local factor has slipped. -/
def Slipped (calls : List Call) : Prop :=
  ∃ before after, calls = before ++ .raiseLocalFee :: after ∧ (∀ call ∈ after, call.setsFee) ∧
    (before.foldl Call.run {}).Slips

/-- The remote and the cluster factor are as they were set, and the local one is not too high, nor
too low after it was lowered. -/
structure Sane (s : LoadFeeTrack) : Prop where
  remote : 256 ≤ s.mRemoteTxnLoadFee ∧ s.mRemoteTxnLoadFee < 2 ^ 32
  cluster : 256 ≤ s.mClusterTxnLoadFee
  high : s.mLocalTxnLoadFee ≤ 256000000
  lowered : s.raiseCount = 0 → 256 ≤ s.mLocalTxnLoadFee

section
variable {s : LoadFeeTrack} {calls : List Call} {call : Call}

theorem raised_iff {fee : Nat} (low : 256 ≤ fee) (short : fee < 2 ^ 32) :
    256 ≤ (fee + fee / lftFeeIncFraction) % 2 ^ 32 ↔ ¬Wraps fee := by
  unfold Wraps lftFeeIncFraction
  rcases Nat.lt_or_ge (fee + fee / 4) (2 ^ 32) with fits | wraps
  · omega
  · rw [Nat.mod_eq_sub_mod wraps, Nat.mod_eq_of_lt (by omega)]
    omega

theorem Sane.raise (h : s.Sane) :
    s.raiseLocalFee.2.Sane ∧ (256 ≤ s.raiseLocalFee.2.mLocalTxnLoadFee ↔ ¬s.Slips) := by
  rw [raiseLocalFee]
  by_cases first : s.raiseCount + 1 < 2
  · rw [if_pos first]
    have none : s.raiseCount = 0 := by omega
    exact ⟨{ h with lowered := nofun }, iff_of_true (h.lowered none) fun slips => by
      rw [Slips, none] at slips
      omega⟩
  · rw [if_neg first]
    refine ⟨{ h with high := min_le_right .., lowered := nofun }, ?_⟩
    obtain ⟨low, short⟩ := h.remote
    have high := h.high
    have again : 1 ≤ s.raiseCount := by omega
    have wraps : Wraps (max s.mLocalTxnLoadFee s.mRemoteTxnLoadFee) ↔ Wraps s.mRemoteTxnLoadFee := by
      unfold Wraps
      omega
    rw [Slips, and_iff_right again, ← wraps, ← raised_iff (low.trans (le_max_right ..)) (by omega)]
    exact le_min_iff.trans (and_iff_left (by decide))

theorem Sane.step (h : s.Sane) (sane : call.Sane) : (call.run s).Sane := by
  cases call with
  | setRemoteFee f => exact { h with remote := sane }
  | setClusterFee fee => exact { h with cluster := sane.1 }
  | raiseLocalFee => exact h.raise.1
  | lowerLocalFee =>
    have high := max_le ((Nat.sub_le _ (s.mLocalTxnLoadFee / lftFeeDecFraction)).trans h.high)
      (show lftNormalFee ≤ 256000000 by decide)
    exact { h with high := high, lowered := fun _ => le_max_right .. }

theorem slipped_concat : Slipped (calls ++ [call]) ↔
    call = .raiseLocalFee ∧ (calls.foldl Call.run {}).Slips ∨ call.setsFee ∧ Slipped calls := by
  constructor
  · rintro ⟨before, after, split, sets, slips⟩
    rcases List.eq_nil_or_concat after with rfl | ⟨after, last, rfl⟩
    · obtain ⟨rfl, same⟩ := List.append_inj' split rfl
      exact .inl ⟨List.head_eq_of_cons_eq same, slips⟩
    · rw [List.concat_eq_append] at split sets
      rw [← List.cons_append, ← List.append_assoc] at split
      obtain ⟨rfl, same⟩ := List.append_inj' split rfl
      cases List.head_eq_of_cons_eq same
      exact .inr ⟨sets _ (by simp), before, after, rfl, fun c member => sets c (by simp [member]),
        slips⟩
  · rintro (⟨rfl, slips⟩ | ⟨own, before, after, rfl, sets, slips⟩)
    · exact ⟨calls, [], rfl, nofun, slips⟩
    · refine ⟨before, after ++ [call], by simp, fun c member => ?_, slips⟩
      rcases List.mem_append.1 member with earlier | last
      · exact sets c earlier
      · exact List.mem_singleton.1 last ▸ own

theorem Sane.run (sane : ∀ call ∈ calls, call.Sane) : (calls.foldl Call.run {}).Sane ∧
    (256 ≤ (calls.foldl Call.run {}).mLocalTxnLoadFee ↔ ¬Slipped calls) := by
  induction calls using List.reverseRecOn with
  | nil =>
    refine ⟨⟨by decide, by decide, by decide, by decide⟩, iff_of_true (by decide) ?_⟩
    rintro ⟨before, after, split, -⟩
    simp at split
  | append_singleton calls call ih =>
    obtain ⟨h, low⟩ := ih fun c member => sane c (by simp [member])
    rw [List.foldl_append, slipped_concat]
    refine ⟨h.step (sane call (by simp)), ?_⟩
    cases call with
    | setRemoteFee | setClusterFee =>
      simp only [reduceCtorEq, false_and, false_or, Call.setsFee, true_and]
      exact low
    | raiseLocalFee =>
      simp only [true_and, Call.setsFee, false_and, or_false]
      exact h.raise.2
    | lowerLocalFee =>
      simp only [reduceCtorEq, false_and, Call.setsFee, or_self, not_false_eq_true, iff_true]
      exact le_max_right ..

theorem Sane.normal_le (h : s.Sane) (bAdmin : Bool) : 256 ≤ s.feeFactor bAdmin := by
  have remote := h.remote.1
  unfold feeFactor
  dsimp only
  split_ifs <;> omega

theorem feeFactor_le (bAdmin : Bool) :
    s.feeFactor bAdmin ≤ max s.mLocalTxnLoadFee s.mRemoteTxnLoadFee := by
  unfold feeFactor
  dsimp only
  split_ifs <;> omega

end

section
variable {value value' fee fee' baseFee mul mul' div ref : Nat}

/-- `mulDiv` with no bound on the product. -/
def quotient (value mul div : Nat) : Nat :=
  if value < 2 ^ 32 then value * mul / div else value / div * mul

theorem quotient_of_lt (small : value < 2 ^ 32) : quotient value mul div = value * mul / div :=
  if_pos small

theorem quotient_of_ge (large : 2 ^ 32 ≤ value) : quotient value mul div = value / div * mul :=
  if_neg (not_lt.2 large)

theorem quotient_le : quotient value mul div ≤ value * mul / div := by
  unfold quotient
  split_ifs
  · exact le_rfl
  · rw [Nat.mul_comm, Nat.mul_comm value]
    exact Nat.mul_div_le_mul_div_assoc ..

theorem quotient_mono (le : value ≤ value') :
    quotient value mul lftNormalFee ≤ quotient value' mul lftNormalFee := by
  unfold quotient lftNormalFee
  split_ifs with small small'
  · gcongr
  · -- the two sides of the boundary meet at 2 ^ 24 factors
    have below : value * mul / 256 ≤ 2 ^ 24 * mul := by
      apply Nat.div_le_of_le_mul
      rw [← Nat.mul_assoc]
      gcongr
      omega
    have above : 2 ^ 24 * mul ≤ value' / 256 * mul := by
      gcongr
      omega
    exact below.trans above
  · omega
  · gcongr

theorem le_quotient_iff (normal : 256 ≤ mul) : value ≤ quotient value mul lftNormalFee ↔
    256 < mul ∨ value < 2 ^ 32 ∨ value % 256 = 0 := by
  unfold quotient lftNormalFee
  split_ifs with small
  · refine iff_of_true ?_ (.inr (.inl small))
    rw [Nat.le_div_iff_mul_le (by decide)]
    exact Nat.mul_le_mul_left _ normal
  · rcases normal.eq_or_lt with rfl | more
    · omega
    · refine iff_of_true ?_ (.inl more)
      have larger : value / 256 * 257 ≤ value / 256 * mul := Nat.mul_le_mul_left _ more
      omega

/-- Dividing a fee first loses less than two reference fees. -/
theorem quotient_apart (normal : 256 ≤ mul) (some_ : 1 ≤ ref) (apart : fee + 2 * ref ≤ fee')
    (small' : fee' / ref < 2 ^ 32) :
    quotient (fee * baseFee) mul lftNormalFee / ref ≤
      quotient (fee' / ref) mul lftNormalFee * baseFee := by
  have whole : fee ≤ (fee' / ref - 1) * ref := by
    have := Nat.lt_div_mul_add (a := fee') some_
    rw [Nat.sub_mul]
    omega
  have twice : 2 ≤ fee' / ref := by
    rw [Nat.le_div_iff_mul_le some_]
    omega
  have scaled : (fee' / ref - 1) * mul ≤ fee' / ref * mul / 256 * 256 := by
    have : (fee' / ref - 1) * mul + mul = fee' / ref * mul := by
      rw [← Nat.succ_mul, Nat.succ_eq_add_one, Nat.sub_add_cancel (by omega)]
    omega
  have bound : quotient (fee * baseFee) mul lftNormalFee ≤
      fee' / ref * mul / 256 * baseFee * ref := by
    refine quotient_le.trans (Nat.div_le_of_le_mul ?_)
    calc fee * baseFee * mul ≤ (fee' / ref - 1) * ref * baseFee * mul := by gcongr
      _ = (fee' / ref - 1) * mul * (baseFee * ref) := by ring
      _ ≤ fee' / ref * mul / 256 * 256 * (baseFee * ref) := by gcongr
      _ = lftNormalFee * (fee' / ref * mul / 256 * baseFee * ref) := by
        rw [lftNormalFee]
        ring
  rw [quotient_of_lt small']
  exact Nat.div_le_of_le_mul (bound.trans_eq (Nat.mul_comm ..))

theorem quotient_large (small : fee < 2 ^ 32) (large : 2 ^ 32 ≤ fee' / ref) :
    quotient (fee * baseFee) mul lftNormalFee / ref ≤
      quotient (fee' / ref) mul lftNormalFee * baseFee := by
  have most : 2 ^ 24 ≤ fee' / ref / 256 := by omega
  rw [quotient_of_ge large]
  refine (Nat.div_le_self ..).trans (quotient_le.trans (Nat.div_le_of_le_mul ?_))
  calc fee * baseFee * mul ≤ 2 ^ 32 * baseFee * mul := by gcongr
    _ = 256 * (2 ^ 24 * mul * baseFee) := by ring
    _ ≤ lftNormalFee * (fee' / ref / lftNormalFee * mul * baseFee) := by
      unfold lftNormalFee
      gcongr

theorem mulDiv_eq (fits : value * mul < 2 ^ 64) : mulDiv value mul div = quotient value mul div := by
  have divided : value / div * mul ≤ value * mul := by
    gcongr
    exact Nat.div_le_self ..
  rw [mulDiv, Nat.mod_eq_of_lt fits, Nat.mod_eq_of_lt (divided.trans_lt fits), quotient]
  split_ifs <;> first | rfl | omega

theorem scaleFee_eq (short : baseFee < 2 ^ 32) (fits : fee * baseFee * mul < 2 ^ 64) :
    scaleFee mul fee baseFee ref =
      if fee < 2 ^ 32 then quotient (fee * baseFee) mul lftNormalFee / ref
      else quotient (fee / ref) mul lftNormalFee * baseFee := by
  unfold scaleFee
  by_cases small : fee < 2 ^ 32
  · have whole : fee * baseFee < 2 ^ 32 * 2 ^ 32 := Nat.mul_lt_mul'' small short
    rw [if_neg (by omega), if_pos small, Nat.mod_eq_of_lt (by omega), mulDiv_eq fits]
  · rw [if_pos (by omega), if_neg small]
    rcases Nat.eq_zero_or_pos baseFee with rfl | some_
    · simp
    · have fits' : fee / ref * mul * baseFee < 2 ^ 64 := by
        refine lt_of_le_of_lt ?_ fits
        rw [Nat.mul_right_comm]
        gcongr
        exact Nat.div_le_self ..
      have most : quotient (fee / ref) mul lftNormalFee * baseFee < 2 ^ 64 :=
        (Nat.mul_le_mul_right _ (quotient_le.trans (Nat.div_le_self ..))).trans_lt fits'
      rw [mulDiv_eq ((Nat.le_mul_of_pos_right _ some_).trans_lt fits'), Nat.mod_eq_of_lt most]

theorem scaleFee_le_scaleFee (le : mul ≤ mul') (short : baseFee < 2 ^ 32)
    (fits : fee * baseFee * mul' < 2 ^ 64) :
    scaleFee mul fee baseFee ref ≤ scaleFee mul' fee baseFee ref := by
  have less (value : Nat) : quotient value mul lftNormalFee ≤ quotient value mul' lftNormalFee := by
    unfold quotient
    split_ifs <;> gcongr
  rw [scaleFee_eq short ((Nat.mul_le_mul_left _ le).trans_lt fits), scaleFee_eq short fits]
  split_ifs
  · exact Nat.div_le_div_right (less _)
  · exact Nat.mul_le_mul_right _ (less _)

end

/-- The first fee is multiplied first and the second one divided first, and there are less than
two reference fees between them. -/
def Crosses (fee fee' ref : Nat) : Prop :=
  fee < 2 ^ 32 ∧ 2 ^ 32 ≤ fee' ∧ fee' / ref < 2 ^ 32 ∧ fee' < fee + 2 * ref

/-- What the divisions cut off does not turn two fees around. -/
def InOrder (mul fee fee' baseFee ref : Nat) : Prop :=
  Crosses fee fee' ref →
    quotient (fee * baseFee) mul lftNormalFee / ref ≤ fee' / ref * mul / lftNormalFee * baseFee

/-- A factor above the normal one, or nothing that counts is cut off by the division by it. -/
def NotLowered (mul fee baseFee ref : Nat) : Prop :=
  lftNormalFee < mul ∨ baseFee = 0 ∨
    if fee < 2 ^ 32 then
      fee * baseFee < 2 ^ 32 ∨ fee * baseFee % lftNormalFee ≤ fee * baseFee % ref
    else fee / ref < 2 ^ 32 ∨ fee / ref % lftNormalFee = 0

section
variable {fee fee' baseFee mul ref : Nat} (normal : lftNormalFee ≤ mul) (short : baseFee < 2 ^ 32)
include normal short

theorem scaleFee_le_iff (some_ : 1 ≤ ref) (le : fee ≤ fee')
    (fits : fee' * baseFee * mul < 2 ^ 64) :
    scaleFee mul fee baseFee ref ≤ scaleFee mul fee' baseFee ref ↔
      InOrder mul fee fee' baseFee ref := by
  have less : fee * baseFee * mul ≤ fee' * baseFee * mul := by gcongr
  rw [scaleFee_eq short (less.trans_lt fits), scaleFee_eq short fits]
  by_cases small : fee < 2 ^ 32
  · rw [if_pos small]
    by_cases small' : fee' < 2 ^ 32
    · rw [if_pos small']
      refine iff_of_true ?_ fun crosses => absurd small' (not_lt.2 crosses.2.1)
      exact Nat.div_le_div_right (quotient_mono (Nat.mul_le_mul_right _ le))
    rw [if_neg small']
    by_cases large : fee' / ref < 2 ^ 32
    · by_cases near : fee' < fee + 2 * ref
      · have crosses : Crosses fee fee' ref := ⟨small, not_lt.1 small', large, near⟩
        rw [quotient_of_lt large, InOrder]
        exact ⟨fun h _ => h, fun h => h crosses⟩
      · exact iff_of_true (quotient_apart normal some_ (not_lt.1 near) large) fun crosses =>
          absurd crosses.2.2.2 near
    · exact iff_of_true (quotient_large small (not_lt.1 large)) fun crosses =>
        absurd crosses.2.2.1 large
  · rw [if_neg small, if_neg (by omega)]
    refine iff_of_true ?_ fun crosses => absurd crosses.1 small
    exact Nat.mul_le_mul_right _ (quotient_mono (Nat.div_le_div_right le))

theorem scaleFeeBase_le_iff (some_ : 1 ≤ ref) (fits : fee * baseFee * mul < 2 ^ 64) :
    scaleFeeBase fee baseFee ref ≤ scaleFee mul fee baseFee ref ↔
      NotLowered mul fee baseFee ref := by
  have plain : fee * baseFee < 2 ^ 64 :=
    (Nat.le_mul_of_pos_right _ (lt_of_lt_of_le (by decide) normal)).trans_lt fits
  rw [scaleFeeBase, Nat.mod_eq_of_lt short, mulDiv_eq plain, scaleFee_eq short fits, NotLowered]
  by_cases small : fee < 2 ^ 32
  · rw [quotient_of_lt small, if_pos small, if_pos small]
    by_cases more : fee * baseFee ≤ quotient (fee * baseFee) mul lftNormalFee
    · refine iff_of_true (Nat.div_le_div_right more) ?_
      rcases (le_quotient_iff normal).1 more with raised | fits | exact_
      · exact .inl raised
      · exact .inr (.inr (.inl fits))
      · exact .inr (.inr (.inr (exact_.trans_le (Nat.zero_le _))))
    · -- the normal factor, and a product that is divided first
      have cut := mt (le_quotient_iff normal).2 more
      simp only [not_or, not_lt] at cut
      obtain ⟨least, large, -⟩ := cut
      obtain rfl : mul = lftNormalFee := le_antisymm least normal
      have charged : baseFee ≠ 0 := by
        rintro rfl
        omega
      rw [quotient_of_ge large, Nat.le_div_iff_mul_le some_]
      have whole := Nat.div_add_mod' (fee * baseFee) ref
      have whole' := Nat.div_add_mod' (fee * baseFee) lftNormalFee
      simp only [lt_irrefl, charged, not_lt.2 large, false_or]
      omega
  · rw [quotient_of_ge (not_lt.1 small), if_neg small, if_neg small]
    rcases Nat.eq_zero_or_pos baseFee with rfl | charged
    · simp
    · rw [Nat.mul_le_mul_right_iff charged, le_quotient_iff normal, or_iff_right charged.ne']
      rfl

end

/-- The local factor is in its range unless its last raise slipped, and admins never pay more. Where
load changes the order of two fees or lowers one, a division has cut off too much. -/
theorem fees_sane {calls : List Call} (sane : ∀ call ∈ calls, call.Sane) {s : LoadFeeTrack}
    (run : s = calls.foldl Call.run {}) :
    (256 ≤ s.mLocalTxnLoadFee ∧ s.mLocalTxnLoadFee ≤ 256000000 ↔ ¬Slipped calls) ∧
    ∀ fee fee' baseFee ref, fee ≤ fee' → baseFee < 2 ^ 32 → 1 ≤ ref →
      fee' * baseFee * max s.mLocalTxnLoadFee s.mRemoteTxnLoadFee < 2 ^ 64 →
      s.scaleFeeLoad fee baseFee ref true ≤ s.scaleFeeLoad fee baseFee ref false ∧
      ∀ bAdmin,
        (s.scaleFeeLoad fee baseFee ref bAdmin ≤ s.scaleFeeLoad fee' baseFee ref bAdmin ↔
          InOrder (s.feeFactor bAdmin) fee fee' baseFee ref) ∧
        (scaleFeeBase fee baseFee ref ≤ s.scaleFeeLoad fee baseFee ref bAdmin ↔
          NotLowered (s.feeFactor bAdmin) fee baseFee ref) := by
  obtain ⟨h, low⟩ := Sane.run sane
  rw [← run] at h low
  refine ⟨(and_iff_left h.high).trans low, fun fee fee' baseFee ref le short some_ fits => ⟨?_, fun bAdmin => ?_⟩⟩
  · have whole : s.feeFactor false = max s.mLocalTxnLoadFee s.mRemoteTxnLoadFee := by
      simp [feeFactor]
    apply scaleFee_le_scaleFee (whole ▸ feeFactor_le true) short
    rw [whole]
    exact lt_of_le_of_lt (by gcongr) fits
  · have fits' : fee' * baseFee * s.feeFactor bAdmin < 2 ^ 64 :=
      (Nat.mul_le_mul_left _ (feeFactor_le bAdmin)).trans_lt fits
    have less : fee * baseFee * s.feeFactor bAdmin ≤ fee' * baseFee * s.feeFactor bAdmin := by
      gcongr
    constructor
    · exact scaleFee_le_iff (h.normal_le bAdmin) short some_ le fits'
    · exact scaleFeeBase_le_iff (h.normal_le bAdmin) short some_ (less.trans_lt fits')

/-- A remote fee that wraps makes the local factor zero; a fee of 32 bits costs more than a larger
one, and less than it does without load. -/
theorem fees_insane :
    ([.setRemoteFee 3435973837, .raiseLocalFee, .raiseLocalFee].foldl Call.run
      {}).mLocalTxnLoadFee = 0 ∧
    scaleFeeLoad {} 4294967295 1000 10 false = 429496729497 ∧
    scaleFeeLoad {} 4294967296 1000 10 false = 429496729000 ∧
    scaleFeeBase 4294967295 1000 10 = 429496729500 := by
  decide

theorem fees_sane_raised :
    let s := [.setRemoteFee 300, .raiseLocalFee, .raiseLocalFee].foldl Call.run {}
    (256 ≤ s.mLocalTxnLoadFee ∧ s.mLocalTxnLoadFee ≤ 256000000) ∧
      s.scaleFeeLoad 10000000 1000 10 false ≤ s.scaleFeeLoad 20000000 1000 10 false ∧
      scaleFeeBase 10000000 1000 10 ≤ s.scaleFeeLoad 10000000 1000 10 false := by
  intro s
  have run : s = [.setRemoteFee 300, .raiseLocalFee, .raiseLocalFee].foldl Call.run {} := rfl
  obtain ⟨range, fees⟩ := fees_sane (by simp [Call.Sane]) run
  obtain ⟨-, scaled⟩ := fees 10000000 20000000 1000 10 (by decide) (by decide) (by decide) (by decide)
  have unslipped : ¬Slipped ([.setRemoteFee 300, .raiseLocalFee] ++ [.raiseLocalFee]) := by
    rw [slipped_concat]
    simp [Slips, Wraps, Call.run, raiseLocalFee, Call.setsFee]
  refine ⟨range.2 unslipped, (scaled false).1.2 ?_, (scaled false).2.2 ?_⟩
  · exact fun crosses => absurd crosses.2.1 (by decide)
  · exact .inl (by decide)

end LoadFeeTrack
end Skywell
