import JingtumCore.AmountArithmetic
import JingtumCore.Serializer
import Mathlib.Data.Nat.Bitwise

/-!
# Amounts on the wire

`STAmount::add` and the deserializing constructor. A native amount is one word,
an issued amount a word and two 160-bit identifiers.
-/
namespace Skywell.STAmount
open BigEndian ExceptFold SerialIter

def cNotNative : UInt64 := 0x8000000000000000

def cPosNative : UInt64 := 0x4000000000000000

/-- The first word of an amount. -/
def wireWord (a : STAmount) : UInt64 :=
  if a.mIsNative then if !a.mIsNegative then a.mValue ||| cPosNative else a.mValue
  else if a.isZero then cNotNative
  else if a.mIsNegative then a.mValue ||| UInt64.ofInt (a.mOffset + 512 + 97) <<< (64 - 10)
  else a.mValue ||| UInt64.ofInt (a.mOffset + 512 + 256 + 97) <<< (64 - 10)

/-- `STAmount::add (Serializer&)`. -/
def addToSerializer (a : STAmount) : List UInt8 :=
  if a.mIsNative then toBytes 8 a.wireWord.toNat
  else toBytes 8 a.wireWord.toNat ++ (toBytes 20 a.mIssue.currency ++ toBytes 20 a.mIssue.account)

/-- What the deserializing constructor makes of the word of an issued amount. -/
def ofWireWord (issue : Issue) (value : UInt64) : Except Fault STAmount := do
  let offset := (value >>> (64 - 10)).toNat
  let value := value &&& ~~~((1023 : UInt64) <<< (64 - 10))
  if value ≠ 0 then
    let isNegative := offset &&& 256 == 0
    let offset : Int := (offset &&& 255 : Nat) - 97
    if value < cMinValue || value > cMaxValue || offset < cMinOffset || offset > cMaxOffset then
      throw (.runtimeError "invalid currency value")
    canonicalize ⟨issue, value, offset, false, isNegative⟩
  else
    if offset ≠ 512 then throw (.runtimeError "invalid currency value")
    canonicalize ⟨issue, 0, 0, false, false⟩

/-- `STAmount (SerialIter&, SField const&)`. -/
def ofSerialIter (sit : SerialIter) : Except Fault (STAmount × SerialIter) := do
  let (word, sit) ← getNumber 8 sit
  let value := UInt64.ofNat word
  if value &&& cNotNative = 0 then
    if value &&& cPosNative ≠ 0 then return (⟨{}, value &&& ~~~cPosNative, 0, true, false⟩, sit)
    if value = 0 then throw (.runtimeError "negative zero is not canonical")
    return (⟨{}, value, 0, true, true⟩, sit)
  let (currency, sit) ← getNumber 20 sit
  if isSWT currency then throw (.runtimeError "invalid native currency")
  let (account, sit) ← getNumber 20 sit
  if isSWT account then throw (.runtimeError "invalid native account")
  let a ← ofWireWord ⟨currency, account⟩ value
  return (a, sit)

variable {w v : UInt64} {e : Nat} {issue : Issue} {a : STAmount}

theorem and_eq_zero {k : Nat} (bit : v.toNat = 2 ^ k) : w &&& v = 0 ↔ w.toNat / 2 ^ k % 2 = 0 := by
  rw [← UInt64.toNat_inj, UInt64.toNat_and, bit, Nat.and_two_pow,
    Nat.testBit_eq_decide_div_mod_eq]
  simp

theorem and_cNotNative_eq_zero : w &&& cNotNative = 0 ↔ w.toNat < 2 ^ 63 := by
  have limit := w.toNat_lt
  rw [and_eq_zero (k := 63) (by decide)]
  omega

theorem and_cPosNative_eq_zero (h : w.toNat < 2 ^ 63) :
    w &&& cPosNative = 0 ↔ w.toNat < 2 ^ 62 := by
  rw [and_eq_zero (k := 62) (by decide)]
  omega

theorem toNat_or_cPosNative (h : v.toNat < 2 ^ 62) :
    (v ||| cPosNative).toNat = v.toNat + 2 ^ 62 := by
  have bit : cPosNative.toNat = 2 ^ 62 * 1 := by decide
  rw [UInt64.toNat_or, bit, Nat.or_comm, ← Nat.two_pow_add_eq_or_of_lt h]
  omega

theorem and_not_cPosNative (h : v.toNat < 2 ^ 62) :
    (v ||| cPosNative) &&& ~~~cPosNative = v := by
  have clear : v &&& cPosNative = 0 := (and_cPosNative_eq_zero (by omega)).2 h
  apply UInt64.toBitVec_inj.1
  have clear' : v.toBitVec &&& cPosNative.toBitVec = 0 := congrArg UInt64.toBitVec clear
  apply BitVec.eq_of_getLsbD_eq
  intro i hi
  have bits := congrArg (BitVec.getLsbD · i) clear'
  simp only [BitVec.getLsbD_and] at bits
  cases hv : v.toBitVec.getLsbD i <;> cases hc : cPosNative.toBitVec.getLsbD i <;> simp_all

theorem toNat_low :
    (w &&& ~~~((1023 : UInt64) <<< (64 - 10))).toNat = w.toNat % 2 ^ 54 := by
  have mask : (~~~((1023 : UInt64) <<< (64 - 10))).toNat = 2 ^ 54 - 1 := by decide
  rw [UInt64.toNat_and, mask, Nat.and_two_pow_sub_one_eq_mod]

theorem toNat_high : (w >>> (64 - 10)).toNat = w.toNat / 2 ^ 54 := by
  have shift : ((64 - 10 : UInt64)).toNat % 64 = 54 := by decide
  rw [UInt64.toNat_shiftRight, shift, Nat.shiftRight_eq_div_pow]

theorem toNat_or_shift (hv : v.toNat < 2 ^ 54) (he : e < 1024) :
    (v ||| UInt64.ofInt e <<< (64 - 10)).toNat = v.toNat + e * 2 ^ 54 := by
  have shift : ((64 - 10 : UInt64)).toNat % 64 = 54 := by decide
  have whole : (UInt64.ofInt e).toNat = e := by
    unfold UInt64.ofInt
    rw [UInt64.toNat_ofNat']
    omega
  rw [UInt64.toNat_or, UInt64.toNat_shiftLeft, shift, Nat.shiftLeft_eq,
    Nat.mod_eq_of_lt (by omega), Nat.or_comm, Nat.mul_comm, ← Nat.two_pow_add_eq_or_of_lt hv]
  omega

theorem and_sign : (e &&& 256 == 0) = decide (e / 256 % 2 = 0) := by
  have bit : (256 : Nat) = 2 ^ 8 := rfl
  rw [bit, Nat.and_two_pow, Nat.testBit_eq_decide_div_mod_eq]
  rcases Nat.mod_two_eq_zero_or_one (e / 256) with h | h
  · simp [h]
  · simp [h]

theorem and_exponent : e &&& 255 = e % 256 := Nat.and_two_pow_sub_one_eq_mod e 8

theorem ne_zero_of_cMinValue_le (least : cMinValue ≤ v) : v ≠ 0 := by
  rintro rfl
  exact absurd least (by decide)

theorem toNat_lt_of_le_cMaxValue (most : v ≤ cMaxValue) : v.toNat < 2 ^ 54 :=
  (le_cMaxValue_iff.1 most).trans (by decide)

theorem ofIssue_inRange {value : UInt64} {offset : Int} {negative : Bool}
    (issued : isSWT issue.currency = false) (least : 10 ^ 15 ≤ value.toNat)
    (most : value.toNat < 10 ^ 16) (low : -96 ≤ offset) (high : offset ≤ 80) :
    ofIssue issue value offset negative = .ok ⟨issue, value, offset, false, negative⟩ := by
  have nonzero := ne_zero_of_cMinValue_le (UInt64.le_iff_toNat_le.2 least)
  exact ofIssue_of_truncates issued nonzero (DecimalTruncation.truncates_self least most) low high

/-- An issued amount in range is left as it is. -/
theorem canonicalize_inRange {value : UInt64} {offset : Int} {negative : Bool}
    (issued : isSWT issue.currency = false) (least : cMinValue ≤ value) (most : value ≤ cMaxValue)
    (low : cMinOffset ≤ offset) (high : offset ≤ cMaxOffset) :
    canonicalize ⟨issue, value, offset, false, negative⟩ =
      .ok ⟨issue, value, offset, false, negative⟩ := by
  have made : ofIssue issue value offset negative = _ :=
    ofIssue_inRange issued (UInt64.le_iff_toNat_le.1 least) (le_cMaxValue_iff.1 most) low high
  rwa [ofIssue] at made

/-- Amounts that the wire format has room for. The issue of a native amount is any
issue of the native currency. -/
def Fits (a : STAmount) : Prop :=
  if a.mIsNative then a.mIssue.currency = 0 ∧ a.mValue.toNat < 2 ^ 62
  else (0 < a.mIssue.currency ∧ a.mIssue.currency < 2 ^ 160) ∧
    0 < a.mIssue.account ∧ a.mIssue.account < 2 ^ 160

/-- `operator== (Issue, Issue)`. -/
def Issue.eqv (lhs rhs : Issue) : Bool :=
  lhs.currency == rhs.currency && (isSWT lhs.currency || lhs.account == rhs.account)

/-- What comes back from the wire: the amount with the issue of the native currency, if
it is native. -/
def fromWire (a : STAmount) : STAmount := if a.mIsNative then { a with mIssue := {} } else a

theorem ofSerialIter_native (native : a.mIsNative = true) (form : a.Normal)
    (fits : a.Fits) (rest : List UInt8) :
    ofSerialIter (a.addToSerializer ++ rest) = .ok (a.fromWire, rest) := by
  obtain ⟨issue, value, offset, isNative, negative⟩ := a
  subst native
  obtain ⟨zero, sign⟩ : offset = 0 ∧ (value = 0 → negative = false) := form
  obtain ⟨-, small⟩ : issue.currency = 0 ∧ value.toNat < 2 ^ 62 := fits
  subst zero
  simp only [addToSerializer, if_true, ofSerialIter]
  rw [getNumber_append (UInt64.toNat_lt _), ok_bind, UInt64.ofNat_toNat]
  cases negative with
  | false =>
    have word := toNat_or_cPosNative small
    simp only [wireWord, Bool.not_false, if_true]
    rw [if_pos (and_cNotNative_eq_zero.2 (by omega)), if_pos (mt (and_cPosNative_eq_zero
      (by omega)).1 (by omega)), and_not_cPosNative small]
    rfl
  | true =>
    have nonzero : value ≠ 0 := fun h => absurd (sign h) (by decide)
    simp only [wireWord, Bool.not_true, reduceCtorEq, if_false, if_true]
    rw [if_pos (and_cNotNative_eq_zero.2 (by omega)),
      if_neg (not_not.2 ((and_cPosNative_eq_zero (by omega)).2 small)), if_neg nonzero]
    rfl

/-- A word of a mantissa in range and the ten bits above it. -/
theorem ofWireWord_eq {value : UInt64}
    (issued : isSWT issue.currency = false) (word : w.toNat = value.toNat + e * 2 ^ 54)
    (least : cMinValue ≤ value) (most : value ≤ cMaxValue) (low : 1 ≤ e % 256)
    (high : e % 256 ≤ 177) :
    ofWireWord issue w =
      .ok ⟨issue, value, ((e % 256 : Nat) : Int) - 97, false, decide (e / 256 % 2 = 0)⟩ := by
  have small := toNat_lt_of_le_cMaxValue most
  have top : (w >>> (64 - 10)).toNat = e := by
    rw [toNat_high]
    omega
  have mantissa : w &&& ~~~((1023 : UInt64) <<< (64 - 10)) = value := by
    apply UInt64.toNat_inj.1
    rw [toNat_low]
    omega
  have nonzero := ne_zero_of_cMinValue_le least
  have low' : cMinOffset ≤ ((e % 256 : Nat) : Int) - 97 := by
    change (-96 : Int) ≤ _
    omega
  have high' : ((e % 256 : Nat) : Int) - 97 ≤ cMaxOffset := by
    change _ ≤ (80 : Int)
    omega
  simp only [ofWireWord, top, mantissa, nonzero, and_sign, and_exponent, ne_eq]
  have inRange : ¬ (value < cMinValue || value > cMaxValue ||
      ((e % 256 : Nat) : Int) - 97 < cMinOffset || ((e % 256 : Nat) : Int) - 97 > cMaxOffset) := by
    rw [decide_eq_false (UInt64.not_lt.2 least), decide_eq_false (UInt64.not_lt.2 most),
      decide_eq_false (Int.not_lt.2 low'), decide_eq_false (Int.not_lt.2 high')]
    decide
  rw [if_neg inRange]
  exact canonicalize_inRange issued least most low' high'

/-- The word of an issued amount is read back. -/
theorem ofWireWord_wireWord (issued : a.mIsNative = false) (form : a.Normal)
    (currency : isSWT a.mIssue.currency = false) :
    2 ^ 63 ≤ a.wireWord.toNat ∧ ofWireWord a.mIssue a.wireWord = .ok a := by
  obtain ⟨issue, value, offset, isNative, negative⟩ := a
  subst issued
  rcases form with ⟨zero, exponent, sign⟩ | ⟨least, most, low, high⟩
  · subst zero exponent sign
    have word : wireWord ⟨issue, 0, -100, false, false⟩ = cNotNative := by
      simp [wireWord, isZero, signum]
    have top : (cNotNative >>> (64 - 10)).toNat = 512 := by decide
    have mantissa : cNotNative &&& ~~~((1023 : UInt64) <<< (64 - 10)) = 0 := by decide
    rw [word]
    refine ⟨by decide, ?_⟩
    simp only [ofWireWord, top, mantissa]
    simp [canonicalize, getCurrency, currency]
  · have nonzero := ne_zero_of_cMinValue_le least
    have small := toNat_lt_of_le_cMaxValue most
    have low' : (-96 : Int) ≤ offset := low
    have high' : offset ≤ 80 := high
    have nonzero' : ¬ (isZero ⟨issue, value, offset, false, negative⟩) = true := by
      cases negative <;> simp [isZero, signum, nonzero]
    obtain ⟨e, he⟩ : ∃ e : Nat, (e : Int) = offset + 512 + (if negative then 0 else 256) + 97 :=
      ⟨(offset + 512 + (if negative then 0 else 256) + 97).toNat, by split <;> omega⟩
    have word : (wireWord ⟨issue, value, offset, false, negative⟩).toNat =
        value.toNat + e * 2 ^ 54 := by
      cases negative
      all_goals
        simp only [reduceCtorEq, if_true, if_false, add_zero] at he
        simp only [wireWord, nonzero', ← he]
        exact toNat_or_shift small (by omega)
    have exponent : ((e % 256 : Nat) : Int) - 97 = offset := by
      split at he <;> omega
    have sign : decide (e / 256 % 2 = 0) = negative := by
      cases negative
      · exact decide_eq_false (by simp at he; omega)
      · exact decide_eq_true (by simp at he; omega)
    refine ⟨by split at he <;> omega, ?_⟩
    rw [ofWireWord_eq currency word least most (by split at he <;> omega) (by split at he <;> omega),
      exponent, sign]

theorem ofSerialIter_issued (issued : a.mIsNative = false) (form : a.Normal)
    (fits : a.Fits) (rest : List UInt8) :
    ofSerialIter (a.addToSerializer ++ rest) = .ok (a.fromWire, rest) := by
  unfold Fits at fits
  rw [issued] at fits
  obtain ⟨⟨currency, currency'⟩, account, account'⟩ := fits
  have notNative : isSWT a.mIssue.currency = false := beq_eq_false_iff_ne.2 currency.ne'
  have notNative' : isSWT a.mIssue.account = false := beq_eq_false_iff_ne.2 account.ne'
  obtain ⟨top, read⟩ := ofWireWord_wireWord issued form notNative
  simp only [addToSerializer, issued, reduceCtorEq, if_false, List.append_assoc, ofSerialIter]
  rw [getNumber_append (UInt64.toNat_lt _), ok_bind, UInt64.ofNat_toNat,
    if_neg (mt and_cNotNative_eq_zero.1 (by omega)), getNumber_append currency', ok_bind]
  simp only [notNative]
  rw [getNumber_append account']
  simp only [notNative', read, ok_bind, fromWire, issued]
  rfl

/-- What is accepted as the word of an issued amount is written again as it was. -/
theorem wireWord_of_ofWireWord (issued : isSWT issue.currency = false) (top : 2 ^ 63 ≤ w.toNat)
    (h : ofWireWord issue w = .ok a) :
    a.wireWord = w ∧ a.mIssue = issue ∧ a.mIsNative = false := by
  have limit := w.toNat_lt
  obtain ⟨e, he⟩ : ∃ e, e = w.toNat / 2 ^ 54 := ⟨_, rfl⟩
  obtain ⟨value, hv⟩ : ∃ value, value = w &&& ~~~((1023 : UInt64) <<< (64 - 10)) := ⟨_, rfl⟩
  have mantissa : value.toNat = w.toNat % 2 ^ 54 := by rw [hv, toNat_low]
  simp only [ofWireWord, toNat_high, ← he, ← hv, and_sign, and_exponent] at h
  by_cases nonzero : value = 0
  · rw [if_neg (not_not.2 nonzero)] at h
    obtain ⟨exponent, h⟩ := guard_eq_ok.1 h
    have zero : w.toNat = cNotNative.toNat := by
      rw [nonzero, UInt64.toNat_zero] at mantissa
      have : cNotNative.toNat = 2 ^ 63 := by decide
      omega
    obtain rfl := UInt64.toNat_inj.1 zero
    simp only [canonicalize, getCurrency, issued, if_true] at h
    cases h
    exact ⟨by simp [wireWord, isZero, signum], rfl, rfl⟩
  · rw [if_pos nonzero] at h
    obtain ⟨inRange, h⟩ := guard_eq_ok.1 h
    simp only [Bool.or_eq_true, decide_eq_true_eq, not_or] at inRange
    obtain ⟨⟨⟨least, most⟩, low⟩, high⟩ := inRange
    rw [canonicalize_inRange issued (UInt64.not_lt.1 least) (UInt64.not_lt.1 most)
      (Int.not_lt.1 low) (Int.not_lt.1 high)] at h
    cases h
    refine ⟨?_, rfl, rfl⟩
    have nonzero' (offset : Int) (negative : Bool) :
        ¬ (isZero ⟨issue, value, offset, false, negative⟩) = true := by
      cases negative <;> simp [isZero, signum, nonzero]
    have word : value.toNat + e * 2 ^ 54 = w.toNat := by omega
    have small : value.toNat < 2 ^ 54 := by omega
    apply UInt64.toNat_inj.1
    rw [← word, ← toNat_or_shift small (by omega)]
    by_cases sign : e / 256 % 2 = 0
    · have exponent : ((e % 256 : Nat) : Int) - 97 + 512 + 97 = e := by omega
      simp only [wireWord, nonzero', sign, exponent]
      rfl
    · have exponent : ((e % 256 : Nat) : Int) - 97 + 512 + 256 + 97 = e := by omega
      simp only [wireWord, nonzero', sign, exponent]
      rfl

theorem addToSerializer_of_ofSerialIter {sit rest : SerialIter}
    (h : ofSerialIter sit = .ok (a, rest)) : a.addToSerializer ++ rest = sit := by
  obtain ⟨⟨word, sit'⟩, hw, read⟩ := bind_eq_ok.1 h
  obtain ⟨rfl, small⟩ := getNumber_eq_ok hw
  have value : (UInt64.ofNat word).toNat = word := UInt64.toNat_ofNat_of_lt' small
  obtain ⟨w, hw⟩ : ∃ w, w = UInt64.ofNat word := ⟨_, rfl⟩
  simp only [← hw] at read value
  subst value
  split at read
  · rename_i native
    have native' := and_cNotNative_eq_zero.1 native
    split at read
    · rename_i positive
      cases read
      have large : 2 ^ 62 ≤ w.toNat := Nat.not_lt.1 (mt (and_cPosNative_eq_zero native').2 positive)
      obtain ⟨v, hv⟩ : ∃ v : UInt64, v.toNat = w.toNat - 2 ^ 62 :=
        ⟨UInt64.ofNat (w.toNat - 2 ^ 62), UInt64.toNat_ofNat_of_lt' (by
          change _ < 2 ^ 64
          omega)⟩
      have set_ : v ||| cPosNative = w := by
        apply UInt64.toNat_inj.1
        rw [toNat_or_cPosNative (by omega)]
        omega
      rw [← set_, and_not_cPosNative (by omega)]
      simp [addToSerializer, wireWord]
    · obtain ⟨nonzero, read⟩ := guard_eq_ok.1 read
      cases read
      simp [addToSerializer, wireWord]
  · rename_i issued
    have top := Nat.not_lt.1 (mt and_cNotNative_eq_zero.2 issued)
    obtain ⟨⟨currency, sit2⟩, hc, read⟩ := bind_eq_ok.1 read
    obtain ⟨currencyNotNative, read⟩ := guard_eq_ok.1 read
    obtain ⟨⟨account, sit3⟩, ha, read⟩ := bind_eq_ok.1 read
    obtain ⟨-, read⟩ := guard_eq_ok.1 read
    obtain ⟨b, hb, read⟩ := bind_eq_ok.1 read
    cases read
    obtain ⟨word, issue, native⟩ := wireWord_of_ofWireWord (by simpa using currencyNotNative) top hb
    have tail : sit2 = toBytes 20 account ++ sit3 := (getNumber_eq_ok ha).1
    rw [(getNumber_eq_ok hc).1, tail]
    simp [addToSerializer, native, issue, word]

/-- The wire format is a bijection on its image: an amount is read back from the bytes
written for it, and what is accepted is written again as it was. -/
theorem wire_bijection :
    (∀ (a : STAmount) (rest : List UInt8), a.Normal → a.Fits →
      ∃ b, ofSerialIter (a.addToSerializer ++ rest) = .ok (b, rest) ∧
        b.mIsNative = a.mIsNative ∧ b.mIsNegative = a.mIsNegative ∧ b.mValue = a.mValue ∧
        b.mOffset = a.mOffset ∧ Issue.eqv b.mIssue a.mIssue) ∧
    ∀ (sit rest : SerialIter) (a : STAmount), ofSerialIter sit = .ok (a, rest) →
      a.addToSerializer ++ rest = sit := by
  refine ⟨fun a rest form fits => ?_, fun _ _ _ => addToSerializer_of_ofSerialIter⟩
  cases native : a.mIsNative with
  | true =>
    refine ⟨a.fromWire, ofSerialIter_native native form fits rest, ?_⟩
    unfold Fits at fits
    rw [if_pos native] at fits
    simp [fromWire, native, Issue.eqv, isSWT, fits.1]
  | false =>
    refine ⟨a.fromWire, ofSerialIter_issued native form fits rest, ?_⟩
    simp [fromWire, native, Issue.eqv]

/-- One unit of an issued currency, and what the constructor makes of its bytes. -/
theorem wire_bijection_unit :
    ∃ b, ofSerialIter (addToSerializer ⟨⟨7, 9⟩, cMinValue, -15, false, false⟩) = .ok (b, []) ∧
      b.mValue = cMinValue ∧ b.mOffset = -15 := by
  obtain ⟨b, read, -, -, value, offset, -⟩ := wire_bijection.1 ⟨⟨7, 9⟩, cMinValue, -15, false, false⟩
    [] (by decide) (by unfold Fits; decide)
  rw [List.append_nil] at read
  exact ⟨b, read, value, offset⟩

end Skywell.STAmount
