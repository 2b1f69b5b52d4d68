import JingtumCore.AmountSums

/-!
# Amounts as text

`setValue` reads a number with a regular expression and canonicalizes it in place: where it
fails, the amount keeps what was written to it before. What `getText` writes is read back as
the same amount, in the scientific notation and in the one with a decimal point.
-/
namespace Skywell

/-- The groups of `reNumber`: the sign, the integer portion, the fraction without its point,
and the sign and the number of the exponent. -/
structure NumberMatch where
  negative : Bool
  integer : List Char
  fraction : Option (List Char)
  exponent : Option (Bool × List Char)
  deriving DecidableEq

/-- `[-+]?`, and whether it is a minus sign. -/
def matchSign : List Char → Bool × List Char
  | '-' :: text => (true, text)
  | '+' :: text => (false, text)
  | text => (false, text)

/-- `[0-9]+`. -/
def matchDigits (text : List Char) : Option (List Char × List Char) :=
  let digits := text.takeWhile Char.isDigit
  if digits.isEmpty then none else some (digits, text.dropWhile Char.isDigit)

/-- `(0|[1-9][0-9]*)`. -/
def matchInteger : List Char → Option (List Char × List Char)
  | '0' :: text => some (['0'], text)
  | text => matchDigits text

/-- `(\.([0-9]+))?`. -/
def matchFraction : List Char → Option (Option (List Char) × List Char)
  | '.' :: text => (matchDigits text).map fun (digits, rest) => (some digits, rest)
  | text => some (none, text)

/-- `([eE]([+-]?)([0-9]+))?`. -/
def matchExponent : List Char → Option (Option (Bool × List Char) × List Char)
  | [] => some (none, [])
  | c :: text =>
    if c = 'e' ∨ c = 'E' then
      let (negative, text) := matchSign text
      (matchDigits text).map fun (digits, rest) => (some (negative, digits), rest)
    else some (none, c :: text)

/-- `boost::regex_match (amount, match, reNumber)`. Each part of the expression starts with
a character that the part before it cannot take, so nothing is ever taken back. -/
def matchNumber (text : List Char) : Option NumberMatch := do
  let (negative, text) := matchSign text
  let (integer, text) ← matchInteger text
  let (fraction, text) ← matchFraction text
  let (exponent, text) ← matchExponent text
  if text.isEmpty then some ⟨negative, integer, fraction, exponent⟩ else none

namespace NumberMatch

def digits (number : NumberMatch) : List Char := number.integer ++ number.fraction.getD []

/-- `lexical_cast <std::uint64_t> (match[2] + match[4])`, before the range is checked. -/
def mantissa (number : NumberMatch) : Nat := Nat.ofDigitChars 10 number.digits 0

/-- The digits after the point. -/
def places (number : NumberMatch) : Nat := (number.fraction.getD []).length

/-- `lexical_cast <int> (match[7])`, before the range is checked. -/
def power (number : NumberMatch) : Nat :=
  match number.exponent with
  | some (_, digits) => Nat.ofDigitChars 10 digits 0
  | none => 0

/-- The exponent that the text denotes. -/
def exponent10 (number : NumberMatch) : Int :=
  match number.exponent with
  | some (true, _) => -number.places - number.power
  | _ => -number.places + number.power

/-- `mOffset` after the exponent: an `int`. -/
def offset (number : NumberMatch) : Int := number.exponent10.bmod (2 ^ 32)

end NumberMatch

namespace STAmount

/-- The loop of `shrinkMantissa` up to where it ends or throws. -/
def shrunkMantissa : Nat → UInt64 → Int → UInt64 × Int
  | 0, value, offset => (value, offset)
  | digits + 1, value, offset =>
    if value > cMaxValue ∧ offset < cMaxOffset then shrunkMantissa digits (value / 10) (offset + 1)
    else (value, offset)

/-- What is left of an amount when `canonicalize` throws. -/
def canonicalizeThrown (a : STAmount) : STAmount :=
  if isSWT a.getCurrency then
    let down := (fun v : UInt64 => v / 10)^[(-a.mOffset).toNat] a.mValue
    { a with
      mIsNative := true, mOffset := 0, mValue := (fun v : UInt64 => v * 10)^[a.mOffset.toNat] down }
  else
    let grown := growMantissa (a.mOffset - cMinOffset).toNat a.mValue a.mOffset
    let shrunk := shrunkMantissa 20 grown.1 grown.2
    { a with mIsNative := false, mValue := shrunk.1, mOffset := shrunk.2 }

/-- `setValue`: the amount afterwards, and what is returned. -/
def setValue (a : STAmount) (amount : List Char) : STAmount × Bool :=
  match matchNumber amount with
  | none => (a, false)
  | some number =>
    if number.digits.length > 32 then (a, false)
    else
      let a := { a with mIsNegative := number.negative }
      if a.mIsNative && number.fraction.isSome then (a, false)
      else if number.mantissa ≥ 2 ^ 64 then (a, false)
      else
        let a := { a with mValue := .ofNat number.mantissa, mOffset := -number.places }
        if number.power ≥ 2 ^ 31 then (a, false)
        else
          let a := { a with mOffset := number.offset }
          match a.canonicalize with
          | .ok r => (r, true)
          | .error _ => (a.canonicalizeThrown, false)

end STAmount

namespace NumberMatch

def fractionText : Option (List Char) → List Char
  | some digits => '.' :: digits
  | none => []

def exponentText : Option (Bool × List Char) → List Char
  | some (negative, digits) => 'e' :: ((if negative then ['-'] else []) ++ digits)
  | none => []

/-- The text of a number. -/
def toText (number : NumberMatch) : List Char :=
  (if number.negative then ['-'] else []) ++ number.integer ++
    (fractionText number.fraction ++ exponentText number.exponent)

/-- The parts are such as the regular expression takes. -/
structure WellFormed (number : NumberMatch) : Prop where
  integer : number.integer = ['0'] ∨ number.integer ≠ [] ∧ number.integer.head? ≠ some '0' ∧
    ∀ c ∈ number.integer, c.isDigit = true
  fraction : ∀ digits, number.fraction = some digits →
    digits ≠ [] ∧ ∀ c ∈ digits, c.isDigit = true
  exponent : ∀ negative digits, number.exponent = some (negative, digits) →
    digits ≠ [] ∧ ∀ c ∈ digits, c.isDigit = true

end NumberMatch

section Reading

variable {digits rest : List Char} {c : Char}

/-- Digits are taken up to what is no digit. -/
theorem matchDigits_append (nonempty : digits ≠ []) (all : ∀ c ∈ digits, c.isDigit = true)
    (stop : ∀ c ∈ rest.head?, c.isDigit = false) :
    matchDigits (digits ++ rest) = some (digits, rest) := by
  have none_taken : rest.takeWhile Char.isDigit = [] ∧ rest.dropWhile Char.isDigit = rest := by
    cases rest with
    | nil => exact ⟨rfl, rfl⟩
    | cons c rest =>
      have other : c.isDigit = false := stop c rfl
      rw [List.takeWhile_cons_of_neg (by simp [other]), List.dropWhile_cons_of_neg (by simp [other])]
      exact ⟨rfl, rfl⟩
  unfold matchDigits
  rw [List.takeWhile_append_of_pos all, List.dropWhile_append_of_pos all, none_taken.1, none_taken.2]
  simp [nonempty]

theorem ne_of_isDigit {d : Char} (h : c.isDigit = true) (other : d.isDigit = false) : c ≠ d := by
  rintro rfl
  rw [h] at other
  cases other

theorem matchSign_digit (h : c.isDigit = true) : matchSign (c :: rest) = (false, c :: rest) := by
  have minus : c ≠ '-' := ne_of_isDigit h (by decide)
  have plus : c ≠ '+' := ne_of_isDigit h (by decide)
  unfold matchSign
  split
  · rename_i heq
    exact absurd (List.cons.inj heq).1 minus
  · rename_i heq
    exact absurd (List.cons.inj heq).1 plus
  · rfl

/-- A sign is read back before digits. -/
theorem matchSign_append (negative : Bool) (nonempty : digits ≠ [])
    (all : ∀ c ∈ digits, c.isDigit = true) :
    matchSign ((if negative then ['-'] else []) ++ digits ++ rest) = (negative, digits ++ rest) := by
  cases negative with
  | true => rfl
  | false =>
    cases digits with
    | nil => exact absurd rfl nonempty
    | cons c digits => exact matchSign_digit (all c List.mem_cons_self)

end Reading

namespace NumberMatch

variable {number : NumberMatch}

theorem WellFormed.integer_digits (h : number.WellFormed) :
    number.integer ≠ [] ∧ ∀ c ∈ number.integer, c.isDigit = true := by
  rcases h.integer with zero | ⟨nonempty, -, all⟩
  · rw [zero]
    refine ⟨List.cons_ne_nil _ _, fun c hc => ?_⟩
    rw [List.mem_singleton.1 hc]
    rfl
  · exact ⟨nonempty, all⟩

theorem matchInteger_append (h : number.WellFormed) {rest : List Char}
    (stop : ∀ c ∈ rest.head?, c.isDigit = false) :
    matchInteger (number.integer ++ rest) = some (number.integer, rest) := by
  rcases h.integer with zero | ⟨nonempty, lead, all⟩
  · rw [zero]
    rfl
  · rw [← matchDigits_append nonempty all stop]
    unfold matchInteger
    split
    · rename_i text heq
      cases hi : number.integer with
      | nil => exact absurd hi nonempty
      | cons c digits =>
        rw [hi] at heq lead
        have zero : c = '0' := (List.cons.inj heq).1
        rw [zero] at lead
        exact absurd rfl lead
    · rfl

theorem matchExponent_text (h : number.WellFormed) :
    matchExponent (exponentText number.exponent) = some (number.exponent, []) := by
  cases he : number.exponent with
  | none => rfl
  | some e =>
    obtain ⟨negative, digits⟩ := e
    obtain ⟨nonempty, all⟩ := h.exponent negative digits he
    have sign : matchSign ((if negative then ['-'] else []) ++ digits ++ []) =
        (negative, digits ++ []) := matchSign_append negative nonempty all
    have read : matchDigits (digits ++ []) = some (digits, []) :=
      matchDigits_append nonempty all (by simp)
    rw [List.append_nil, List.append_nil] at sign
    rw [List.append_nil] at read
    simp [exponentText, matchExponent, sign, read]

theorem head_exponentText {c : Char} (h : c ∈ (exponentText number.exponent).head?) : c = 'e' := by
  cases he : number.exponent with
  | none =>
    rw [he] at h
    cases h
  | some e =>
    rw [he] at h
    exact (Option.some.inj h).symm

theorem matchFraction_text (h : number.WellFormed) :
    matchFraction (fractionText number.fraction ++ exponentText number.exponent) =
      some (number.fraction, exponentText number.exponent) := by
  cases hf : number.fraction with
  | none =>
    unfold matchFraction
    split
    · rename_i text heq
      have dot : '.' ∈ (exponentText number.exponent).head? := by
        rw [show exponentText number.exponent = '.' :: text from heq]
        rfl
      exact absurd (head_exponentText dot) (by decide)
    · rfl
  | some digits =>
    obtain ⟨nonempty, all⟩ := h.fraction digits hf
    have stop : ∀ c ∈ (exponentText number.exponent).head?, c.isDigit = false := by
      intro c hc
      rw [head_exponentText hc]
      decide
    have read := matchDigits_append nonempty all stop
    simp [fractionText, matchFraction, read]

theorem matchNumber_toText (h : number.WellFormed) : matchNumber number.toText = some number := by
  obtain ⟨nonempty, all⟩ := h.integer_digits
  have stop : ∀ c ∈ (fractionText number.fraction ++ exponentText number.exponent).head?,
      c.isDigit = false := by
    intro c hc
    cases hf : number.fraction with
    | none =>
      rw [hf] at hc
      rw [head_exponentText hc]
      decide
    | some digits =>
      rw [hf] at hc
      have dot : '.' = c := Option.some.inj hc
      rw [← dot]
      decide
  unfold matchNumber toText
  rw [matchSign_append number.negative nonempty all]
  dsimp only
  rw [matchInteger_append h stop, Option.bind_eq_bind, Option.bind_some]
  rw [matchFraction_text h, Option.bind_eq_bind, Option.bind_some]
  rw [matchExponent_text h, Option.bind_eq_bind]
  rfl

end NumberMatch

variable {e : Int} {n : Nat} {m : UInt64}

theorem head_toDigits_ne_zero (positive : 0 < n) : (Nat.toDigits 10 n).head? ≠ some '0' := by
  induction n using Nat.strong_induction_on with
  | _ n ih =>
    rw [Nat.toDigits_eq_if (by decide)]
    by_cases small : n < 10
    · interval_cases n <;> decide
    · rw [if_neg small]
      have lead := ih (n / 10) (by omega) (by omega)
      cases digits : Nat.toDigits 10 (n / 10) with
      | nil => exact absurd digits Nat.toDigits_ne_nil
      | cons c rest =>
        rw [digits] at lead
        exact lead

theorem dropZeros_spec (text : List Char) :
    ∃ k, text = List.replicate k '0' ++ STAmount.dropZeros text := by
  refine ⟨(text.takeWhile (· == '0')).length, ?_⟩
  have zeros : text.takeWhile (· == '0') = List.replicate (text.takeWhile (· == '0')).length '0' := by
    refine List.eq_replicate_of_mem fun c hc => ?_
    simpa using List.all_eq_true.1 List.all_takeWhile c hc
  rw [← zeros]
  exact List.takeWhile_append_dropWhile.symm

theorem ofDigitChars_dropZeros (text rest : List Char) :
    Nat.ofDigitChars 10 (STAmount.dropZeros text ++ rest) 0 = Nat.ofDigitChars 10 (text ++ rest) 0 := by
  obtain ⟨k, hk⟩ := dropZeros_spec text
  conv_rhs => rw [hk, List.append_assoc, Nat.ofDigitChars_append, Nat.ofDigitChars_replicate_zero,
    Nat.mul_zero]

/-- Zeros that are dropped at the end are a power of ten. -/
theorem ofDigitChars_dropZeros_end (front text : List Char) :
    ∃ k, text.length = (STAmount.dropZeros text.reverse).reverse.length + k ∧
      Nat.ofDigitChars 10 (front ++ text) 0 =
        10 ^ k * Nat.ofDigitChars 10 (front ++ (STAmount.dropZeros text.reverse).reverse) 0 := by
  obtain ⟨k, hk⟩ := dropZeros_spec text.reverse
  have split : text = (STAmount.dropZeros text.reverse).reverse ++ List.replicate k '0' := by
    have := congrArg List.reverse hk
    rwa [List.reverse_reverse, List.reverse_append, List.reverse_replicate] at this
  refine ⟨k, ?_, ?_⟩
  · have := congrArg List.length split
    rwa [List.length_append, List.length_replicate] at this
  · conv_lhs => rw [split]
    rw [← List.append_assoc, Nat.ofDigitChars_append, Nat.ofDigitChars_replicate_zero]

theorem head_dropZeros_ne_zero {text : List Char} : (STAmount.dropZeros text).head? ≠ some '0' := by
  intro h
  have other := List.head?_dropWhile_not (· == '0') text
  unfold STAmount.dropZeros at h
  rw [h] at other
  exact absurd other (by decide)

theorem mem_of_mem_dropZeros {text : List Char} {c : Char} (h : c ∈ STAmount.dropZeros text) :
    c ∈ text :=
  (List.dropWhile_sublist _).mem h

namespace STAmount
open DecimalTruncation

variable {a b r : STAmount} {text : List Char} {number : NumberMatch}

/-- What `lexical_cast` and the limit on the digits let through. -/
structure Readable (number : NumberMatch) : Prop where
  digits : number.digits.length ≤ 32
  mantissa : number.mantissa < 2 ^ 64
  power : number.power < 2 ^ 31

theorem setValue_of_readable (flag : a.FlagAgrees) (h : matchNumber text = some number)
    (readable : Readable number) (places : a.mIsNative = true → number.fraction = none)
    (made : ofIssue a.mIssue (.ofNat number.mantissa) number.offset number.negative = .ok r) :
    a.setValue text = (r, true) := by
  have whole : ¬ (a.mIsNative && number.fraction.isSome) = true := by
    cases native : a.mIsNative with
    | false => simp
    | true => simp [places native]
  unfold setValue
  rw [h]
  dsimp only
  rw [if_neg (Nat.not_lt.2 readable.digits), if_neg whole, if_neg (Nat.not_le.2 readable.mantissa),
    if_neg (Nat.not_le.2 readable.power)]
  unfold ofIssue at made
  rw [← flag] at made
  rw [made]

/-- `setValue` succeeds for the numbers that can be read and that `canonicalize` takes. -/
theorem setValue_iff (flag : a.FlagAgrees) (h : matchNumber text = some number) :
    a.setValue text = (r, true) ↔ Readable number ∧
      (a.mIsNative = true → number.fraction = none) ∧
      ofIssue a.mIssue (.ofNat number.mantissa) number.offset number.negative = .ok r := by
  constructor
  · intro set
    unfold setValue at set
    rw [h] at set
    dsimp only at set
    obtain ⟨-, ⟨⟩⟩ | ⟨long, set⟩ := ite_eq_iff.1 set
    obtain ⟨-, ⟨⟩⟩ | ⟨fraction, set⟩ := ite_eq_iff.1 set
    obtain ⟨-, ⟨⟩⟩ | ⟨large, set⟩ := ite_eq_iff.1 set
    obtain ⟨-, ⟨⟩⟩ | ⟨high, set⟩ := ite_eq_iff.1 set
    refine ⟨⟨Nat.not_lt.1 long, Nat.not_le.1 large, Nat.not_le.1 high⟩, ?_, ?_⟩
    · intro native
      simpa [native] using fraction
    · unfold ofIssue
      rw [← flag]
      split at set
      · rename_i made
        rw [made]
        cases set
        rfl
      · cases set
  · rintro ⟨readable, whole, made⟩
    exact setValue_of_readable flag h readable whole made

/-- A short mantissa is not cut, so that nothing is thrown for it. -/
theorem ofIssue_short {issue : Issue} (negative : Bool) (issued : isSWT issue.currency = false)
    (nonzero : m ≠ 0) (short : m.toNat < 10 ^ 16) (high : e ≤ 80) :
    ∃ r, ofIssue issue m e negative = .ok r := by
  apply (ofIssue_ok_iff issued nonzero).2
  exact_mod_cast mul_zpow_lt (e := 96) short (by omega)

/-- A mantissa with the value of an amount makes that amount. -/
theorem ofIssue_of_magnitude (ha : a.Normal) (flag : a.FlagAgrees) (issued : a.mIsNative = false)
    (nonzero : a.mValue ≠ 0) (same : (m.toNat : ℚ) * 10 ^ e = a.magnitude) :
    ofIssue a.mIssue m e a.mIsNegative = .ok a := by
  have nonzero' : m ≠ 0 := by
    rintro rfl
    have positive := magnitude_pos nonzero
    rw [← same] at positive
    simp at positive
  have truncated := ha.truncates issued nonzero
  rw [← same] at truncated
  obtain ⟨-, -, least, most⟩ := ha.issued issued nonzero
  rw [ofIssue_of_truncates (flag.symm.trans issued) nonzero' truncated least most, ← issued]

theorem toList_toString (n : Int) :
    (toString n).toList = (if n < 0 then ['-'] else []) ++ Nat.toDigits 10 n.natAbs := by
  rw [Int.toString_eq_repr, Int.repr_eq_if]
  by_cases negative : n < 0
  · have digits : (-n).toNat = n.natAbs := by omega
    rw [if_neg (by omega), if_pos negative, String.toList_append, Nat.toList_repr, digits]
    rfl
  · have digits : n.toNat = n.natAbs := by omega
    rw [if_pos (by omega), if_neg negative, Nat.toList_repr, digits]
    rfl

theorem isDigit_toDigits : ∀ c ∈ Nat.toDigits 10 n, c.isDigit = true :=
  fun _ h => Nat.isDigit_of_mem_toDigits (by decide) (by decide) h

/-- The number of the scientific notation. -/
def scientificNumber (a : STAmount) : NumberMatch :=
  ⟨a.mIsNegative, Nat.toDigits 10 a.mValue.toNat, none,
    some (decide (a.mOffset < 0), Nat.toDigits 10 a.mOffset.natAbs)⟩

theorem getText_scientific (nonzero : a.mValue ≠ 0)
    (scientific : a.mOffset ≠ 0 ∧ (a.mOffset < -25 ∨ a.mOffset > -5)) :
    a.getText = a.scientificNumber.toText := by
  unfold getText
  rw [if_neg (not_isZero nonzero)]
  rw [if_pos (.inr scientific), if_pos scientific, toList_toString]
  cases sign : a.mIsNegative <;> simp [sign, scientificNumber, NumberMatch.toText,
    NumberMatch.fractionText, NumberMatch.exponentText]

theorem scientificNumber_wellFormed (nonzero : a.mValue ≠ 0) : a.scientificNumber.WellFormed where
  integer := .inr ⟨Nat.toDigits_ne_nil, head_toDigits_ne_zero (toNat_pos_of_ne_zero nonzero),
    isDigit_toDigits⟩
  fraction := by
    intro digits h
    cases h
  exponent := by
    intro negative digits h
    cases h
    exact ⟨Nat.toDigits_ne_nil, isDigit_toDigits⟩

theorem length_toDigits (low : 10 ^ 15 ≤ n) (high : n < 10 ^ 16) :
    (Nat.toDigits 10 n).length = 16 := by
  have most := (Nat.length_toDigits_le_iff (by decide) (by decide)).2 high
  have least := mt (Nat.length_toDigits_le_iff (by decide) (by decide)).1
    (Nat.not_lt.2 low)
  omega

theorem length_padded (low : 10 ^ 15 ≤ n) (high : n < 10 ^ 16) :
    (List.replicate 27 '0' ++ Nat.toDigits 10 n).length = 43 := by
  rw [List.length_append, List.length_replicate, length_toDigits low high]

/-- A mantissa in the scientific notation is read with its exponent. -/
theorem scientificNumber_readable (ha : a.Normal) (issued : a.mIsNative = false)
    (nonzero : a.mValue ≠ 0) :
    Readable a.scientificNumber ∧ a.scientificNumber.mantissa = a.mValue.toNat ∧
      a.scientificNumber.offset = a.mOffset := by
  obtain ⟨low, high, least, most⟩ := ha.issued issued nonzero
  have mantissa : a.scientificNumber.mantissa = a.mValue.toNat := by
    simp [NumberMatch.mantissa, NumberMatch.digits, scientificNumber]
  have power : a.scientificNumber.power = a.mOffset.natAbs := by
    simp [NumberMatch.power, scientificNumber]
  have exponent : a.scientificNumber.exponent10 = a.mOffset := by
    unfold NumberMatch.exponent10
    rw [power]
    by_cases negative : a.mOffset < 0
    · simp only [scientificNumber, decide_eq_true negative, NumberMatch.places, Option.getD_none,
        List.length_nil]
      omega
    · simp only [scientificNumber, decide_eq_false negative, NumberMatch.places, Option.getD_none,
        List.length_nil]
      omega
  refine ⟨⟨?_, ?_, ?_⟩, mantissa, ?_⟩
  · simp [NumberMatch.digits, scientificNumber, length_toDigits low high]
  · omega
  · omega
  · rw [NumberMatch.offset, exponent]
    exact Int.bmod_eq_of_le (by omega) (by omega)

theorem dropZeros_replicate :
    dropZeros (List.replicate n '0' ++ text) = dropZeros text := by
  exact List.dropWhile_append_of_pos (by simp +contextual)

/-- The digits before the point: those of the mantissa padded to the left. -/
def before (a : STAmount) : List Char :=
  dropZeros ((List.replicate 27 '0' ++ Nat.toDigits 10 a.mValue.toNat).take (a.mOffset + 43).toNat)

/-- The digits after the point. -/
def after (a : STAmount) : List Char :=
  (dropZeros ((List.replicate 27 '0' ++ Nat.toDigits 10 a.mValue.toNat).drop
    (a.mOffset + 43).toNat).reverse).reverse

/-- The number of the notation with a point. -/
def plainNumber (a : STAmount) : NumberMatch :=
  ⟨a.mIsNegative, if a.before.isEmpty then ['0'] else a.before,
    if a.after.isEmpty then none else some a.after, none⟩

theorem getD_after : (if a.after.isEmpty then none else some a.after).getD [] = a.after := by
  by_cases none : a.after.isEmpty = true
  · rw [List.isEmpty_iff.1 none]
    rfl
  · rw [if_neg none]
    rfl

theorem isDigit_padded : ∀ c ∈ List.replicate 27 '0' ++ Nat.toDigits 10 a.mValue.toNat,
    c.isDigit = true := by
  intro c h
  rcases List.mem_append.1 h with zero | digit
  · rw [List.eq_of_mem_replicate zero]
    decide
  · exact isDigit_toDigits c digit

theorem plainNumber_wellFormed : a.plainNumber.WellFormed where
  integer := by
    unfold plainNumber
    by_cases none : a.before.isEmpty = true
    · exact .inl (if_pos none)
    · right
      rw [if_neg none]
      refine ⟨fun nothing => none (List.isEmpty_iff.2 nothing), head_dropZeros_ne_zero, ?_⟩
      intro c h
      exact isDigit_padded c (List.mem_of_mem_take (mem_of_mem_dropZeros h))
  fraction := by
    intro digits h
    obtain ⟨-, ⟨⟩⟩ | ⟨none, h⟩ := ite_eq_iff.1 h
    · cases h
      refine ⟨fun nothing => none (List.isEmpty_iff.2 nothing), ?_⟩
      intro c h
      have mem := mem_of_mem_dropZeros (List.mem_reverse.1 h)
      exact isDigit_padded c (List.mem_of_mem_drop (List.mem_reverse.1 mem))
  exponent := by
    intro negative digits h
    cases h

section Plain

variable (ha : a.Normal) (issued : a.mIsNative = false) (nonzero : a.mValue ≠ 0)
  (plain : -25 ≤ a.mOffset ∧ a.mOffset ≤ 0)
include ha issued nonzero plain

theorem getText_plain (scientific : ¬ (a.mOffset ≠ 0 ∧ (a.mOffset < -25 ∨ a.mOffset > -5))) :
    a.getText = a.plainNumber.toText := by
  obtain ⟨low, high, -, -⟩ := ha.issued issued nonzero
  have length := length_padded low high
  have within : (a.mOffset + 43).toNat ≤
      (List.replicate 27 '0' ++ Nat.toDigits 10 a.mValue.toNat).length := by
    omega
  unfold getText
  rw [if_neg (not_isZero nonzero)]
  dsimp only
  rw [if_neg (by simp [issued, scientific]), List.take_append_of_le_length within,
    List.drop_append_of_le_length within, List.reverse_append, List.reverse_replicate]
  unfold plainNumber NumberMatch.toText
  change _ ++ (if a.before.isEmpty then ['0'] else a.before) ++
    (if a.after.isEmpty then [] else '.' :: a.after) = _
  by_cases none : a.after.isEmpty = true
  · rw [if_pos none, if_pos none]
    rfl
  · rw [if_neg none, if_neg none]
    simp [NumberMatch.fractionText, NumberMatch.exponentText]

theorem plainNumber_mantissa : ∃ k, a.after.length + k = (-a.mOffset).toNat ∧
    a.mValue.toNat = 10 ^ k * a.plainNumber.mantissa := by
  obtain ⟨low, high, -, -⟩ := ha.issued issued nonzero
  have length := length_padded low high
  obtain ⟨k, rest, split⟩ := ofDigitChars_dropZeros_end
    (if a.before.isEmpty then ['0'] else a.before)
    ((List.replicate 27 '0' ++ Nat.toDigits 10 a.mValue.toNat).drop (a.mOffset + 43).toNat)
  rw [List.length_drop] at rest
  refine ⟨k, ?_, ?_⟩
  · change _ = a.after.length + k at rest
    omega
  · have integer (text : List Char) :
        Nat.ofDigitChars 10 ((if a.before.isEmpty then ['0'] else a.before) ++ text) 0 =
          Nat.ofDigitChars 10 (a.before ++ text) 0 := by
      by_cases none : a.before.isEmpty = true
      · rw [List.isEmpty_iff.1 none]
        rfl
      · rw [if_neg none]
    have whole : Nat.ofDigitChars 10 (List.replicate 27 '0' ++ Nat.toDigits 10 a.mValue.toNat) 0 =
        a.mValue.toNat := by
      rw [Nat.ofDigitChars_append, Nat.ofDigitChars_replicate_zero,
        Nat.ofDigitChars_toDigits (by decide) (by decide)]
    rw [integer, before, ofDigitChars_dropZeros, List.take_append_drop, whole] at split
    rw [split]
    congr 1
    unfold NumberMatch.mantissa NumberMatch.digits plainNumber
    rw [getD_after]
    rfl

theorem plainNumber_length : a.plainNumber.digits.length ≤ 32 := by
  obtain ⟨low, high, -, -⟩ := ha.issued issued nonzero
  have digits := length_toDigits low high
  have after_le : a.after.length ≤ 43 - (a.mOffset + 43).toNat := by
    unfold after
    rw [List.length_reverse]
    apply (List.dropWhile_sublist _).length_le.trans
    simp [digits]
  have before_le : a.before.length ≤ (a.mOffset + 43).toNat - 27 := by
    unfold before
    rw [List.take_append, List.take_replicate, dropZeros_replicate]
    apply (List.dropWhile_sublist _).length_le.trans
    rw [List.length_take]
    exact Nat.min_le_left _ _
  have integer_le : (if a.before.isEmpty then ['0'] else a.before).length ≤
      max 1 a.before.length := by
    by_cases none : a.before.isEmpty = true
    · rw [if_pos none]
      exact Nat.le_max_left _ _
    · rw [if_neg none]
      exact Nat.le_max_right _ _
  unfold NumberMatch.digits plainNumber
  dsimp only
  rw [getD_after, List.length_append]
  omega

/-- A number with a point has the value of the amount. -/
theorem plainNumber_readable :
    Readable a.plainNumber ∧ a.plainNumber.mantissa < 10 ^ 16 ∧ a.plainNumber.offset ≤ 0 ∧
      (a.plainNumber.mantissa : ℚ) * 10 ^ a.plainNumber.offset = a.magnitude := by
  obtain ⟨low, high, -, -⟩ := ha.issued issued nonzero
  obtain ⟨k, rest, split⟩ := plainNumber_mantissa ha issued nonzero plain
  have small : a.plainNumber.mantissa ≤ a.mValue.toNat := by
    rw [split]
    exact Nat.le_mul_of_pos_left _ (Nat.pow_pos (by decide))
  have places : a.plainNumber.places = a.after.length := by
    unfold NumberMatch.places plainNumber
    rw [getD_after]
  have power : a.plainNumber.power = 0 := rfl
  have exponent : a.plainNumber.exponent10 = -(a.after.length : Int) := by
    unfold NumberMatch.exponent10
    rw [places]
    change -(a.after.length : Int) + 0 = _
    omega
  have offset : a.plainNumber.offset = -(a.after.length : Int) := by
    rw [NumberMatch.offset, exponent]
    exact Int.bmod_eq_of_le (by omega) (by omega)
  refine ⟨⟨plainNumber_length ha issued nonzero plain, by omega, by rw [power]; decide⟩, by omega,
    by omega, ?_⟩
  have shifted := shift_digits a.plainNumber.mantissa k (-a.after.length)
  have digits : -(a.after.length : Int) - k = a.mOffset := by omega
  rw [digits, Nat.mul_comm, ← split] at shifted
  rw [offset, ← shifted, magnitude]

end Plain

theorem setValue_getText (ha : a.Normal) (issued : a.mIsNative = false) (flag : a.FlagAgrees)
    (flag' : b.FlagAgrees) (same : b.mIssue = a.mIssue) : b.setValue a.getText = (a, true) := by
  have issued' : b.mIsNative = false := by
    rw [flag', same, ← flag, issued]
  have places (number : NumberMatch) : b.mIsNative = true → number.fraction = none := by
    intro native
    rw [issued'] at native
    cases native
  by_cases zero : a.mValue = 0
  · have text : a.getText = ['0'] := if_pos (isZero_iff_mValue.2 zero)
    have number : matchNumber ['0'] = some ⟨false, ['0'], none, none⟩ := rfl
    have made : ofIssue b.mIssue 0 0 false = .ok a := by
      have currency : isSWT a.mIssue.currency = false := flag.symm.trans issued
      obtain ⟨sign, offset⟩ := ha.of_zero zero
      rw [if_neg (by simp [issued])] at offset
      unfold ofIssue canonicalize getCurrency
      rw [same, if_neg (by simp [currency]), if_pos rfl]
      obtain ⟨issue, value, exponent, native, negative⟩ := a
      simp only at issued zero sign offset
      rw [issued, zero, sign, offset]
    rw [text]
    exact setValue_of_readable flag' number ⟨by decide, by decide, by decide⟩ (places _) made
  by_cases scientific : a.mOffset ≠ 0 ∧ (a.mOffset < -25 ∨ a.mOffset > -5)
  · obtain ⟨-, high, -, most⟩ := ha.issued issued zero
    obtain ⟨readable, mantissa, offset⟩ := scientificNumber_readable ha issued zero
    have made := ofIssue_of_magnitude ha flag issued zero rfl
    rw [getText_scientific zero scientific]
    refine setValue_of_readable flag'
      (NumberMatch.matchNumber_toText (scientificNumber_wellFormed zero)) readable (places _) ?_
    rw [mantissa, offset, UInt64.ofNat_toNat, same]
    exact made
  · have plain : -25 ≤ a.mOffset ∧ a.mOffset ≤ 0 := by omega
    obtain ⟨readable, short, high, value⟩ := plainNumber_readable ha issued zero plain
    have mantissa : (UInt64.ofNat a.plainNumber.mantissa).toNat = a.plainNumber.mantissa :=
      UInt64.toNat_ofNat_of_lt' (by have := readable.mantissa; exact this)
    rw [← mantissa] at short value
    have made := ofIssue_of_magnitude ha flag issued zero value
    rw [getText_plain ha issued zero plain scientific]
    refine setValue_of_readable flag' (NumberMatch.matchNumber_toText plainNumber_wellFormed)
      readable (places _) ?_
    rw [same]
    exact made

end STAmount
end Skywell
