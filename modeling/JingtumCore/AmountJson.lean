import JingtumCore.NativeRange

/-!
# Amounts from JSON

`amountFromJson` takes the value, the currency and the issuer out of an object, an array or a
string, and makes an amount of them. The value of an issued amount is set from its text by
`setValue`, whose result is not looked at; an unsigned value is read from the whole JSON value
and not from its value field.
-/
namespace Skywell

/-- `Json::Value`. Of a real number only its type is read here. -/
inductive Json where
  | null
  | int (n : Int32)
  | uint (n : UInt32)
  | real
  | string (text : List Char)
  | boolean (b : Bool)
  | array (values : List Json)
  | object (members : List (String × Json))

namespace Json

def isArray : Json → Bool
  | array _ => true
  | _ => false

/-- `isObject ()`, which also holds for null. -/
def isObject : Json → Bool
  | null => true
  | object _ => true
  | _ => false

/-- `operator[]` of an object. -/
def member (members : List (String × Json)) (key : String) : Json :=
  (members.lookup key).getD null

/-- `asString ()` where it is called: on a string. -/
def asString : Json → List Char
  | string text => text
  | _ => []

/-- `asUInt ()` where it is called: on an unsigned integer, an array or an object. -/
def asUInt : Json → Except Fault UInt32
  | uint n => .ok n
  | _ => .error (.runtimeError "Type is not convertible to uint")

end Json

/-- `boost::is_any_of ("\t\n\r ,/")`. -/
def isSeparator (c : Char) : Bool := "\t\n\r ,/".toList.contains c

/-- `boost::split` without compression: one element more than there are separators. -/
def split : List Char → List (List Char)
  | [] => [[]]
  | c :: text =>
    if isSeparator c then [] :: split text
    else match split text with
      | [] => [[c]]
      | word :: words => (c :: word) :: words

/-- An optional sign and digits. -/
def lexicalInteger (text : List Char) : Option Int :=
  let (negative, digits) := matchSign text
  if digits.isEmpty || !digits.all Char.isDigit then none
  else if negative then some (-Nat.ofDigitChars 10 digits 0)
  else some (Nat.ofDigitChars 10 digits 0)

/-- `boost::lexical_cast <std::int64_t>`. -/
def lexicalCastI64 (text : List Char) : Except Fault Int64 :=
  match lexicalInteger text with
  | some n =>
    if -2 ^ 63 ≤ n ∧ n < 2 ^ 63 then .ok (.ofInt n) else .error (.runtimeError "bad lexical cast")
  | none => .error (.runtimeError "bad lexical cast")

/-- `charUnHex`. -/
def charUnHex (c : Char) : Option Nat :=
  if c.isDigit then some (c.toNat - '0'.toNat)
  else if 'A' ≤ c ∧ c ≤ 'F' then some (c.toNat - 'A'.toNat + 10)
  else if 'a' ≤ c ∧ c ≤ 'f' then some (c.toNat - 'a'.toNat + 10)
  else none

/-- `isspace`: a blank, or one of the characters from the tab to the carriage return. -/
def isSpace (c : Char) : Bool := c == ' ' || (9 ≤ c.toNat && c.toNat ≤ 13)

/-- `SetHex` of a text of at most 40 characters: the number, and whether all was read. A
character zero ends the text. -/
def setHex (text : List Char) : Nat × Bool :=
  let text := text.dropWhile isSpace
  let text := match text with
    | '0' :: c :: rest => if c = 'x' ∨ c = 'X' then rest else text
    | _ => text
  let digits := text.takeWhile fun c => (charUnHex c).isSome
  (digits.foldl (fun n c => 16 * n + (charUnHex c).getD 0) 0,
    (text.drop digits.length).head?.all fun c => c.toNat == 0)

def systemCurrencyCode : List Char := "SWT".toList

/-- `to_currency`. A code of three characters stands before five of the twenty bytes. -/
def toCurrency (code : List Char) : Option Currency :=
  if code.isEmpty ∨ code = systemCurrencyCode then some 0
  else if code.length = 3 then
    some ((code.map Char.toUpper).foldl (fun n c => 256 * n + c.toNat % 256) 0 * 256 ^ 5)
  else if code.length = 40 then
    let (currency, read) := setHex code
    if read then some currency else none
  else none

section Issuer

-- the account of a nonempty Base58 text whose version and checksum are right
variable (base58 : List Char → Option Account)

/-- `to_issuer`. -/
def toIssuer (text : List Char) : Option Account :=
  if text.length = 40 then some (setHex text).1
  else if text.isEmpty then some 0
  else base58 text

namespace Json

/-- The value, the currency and the issuer. -/
def amountFields : Json → Except Fault (Json × Json × Json)
  | null => .ok (null, null, null)
  | object members =>
    .ok (member members "value", member members "currency", member members "issuer")
  | array values => .ok (values[0]?.getD (int 0), values[1]?.getD null, values[2]?.getD null)
  | string text =>
    match split text with
    | [value] => .ok (string value, null, null)
    | [value, currency] => .ok (string value, string currency, null)
    | [value, currency, issuer] => .ok (string value, string currency, string issuer)
    | _ => .error (.runtimeError "invalid amount string")
  | v => .ok (v, null, null)

/-- A currency that means the native one. -/
def isNative : Json → Bool
  | string code => code.isEmpty || code == systemCurrencyCode
  | _ => true

/-- The issue of an amount that is not native. -/
def issuedIssue (code : List Char) (issuer : Json) : Except Fault Issue :=
  match toCurrency code with
  | none => .error (.runtimeError "invalid currency")
  | some currency =>
    match issuer with
    | string text =>
      match toIssuer base58 text with
      | none => .error (.runtimeError "invalid issuer")
      | some account =>
        if isSWT currency then .error (.runtimeError "invalid issuer") else .ok ⟨currency, account⟩
    | _ => .error (.runtimeError "invalid issuer")

/-- The value field, whether the amount is native, and its issue. -/
def amountHeader (v : Json) : Except Fault (Json × Bool × Issue) := do
  let (value, currency, issuer) ← v.amountFields
  if currency.isNative then
    if v.isObject then .error (.runtimeError "SWT may not be specified as an object")
    else .ok (value, true, {})
  else
    let issue ← issuedIssue base58 currency.asString issuer
    .ok (value, false, issue)

/-- The amount of a value field of `v`. -/
def amountOf (v value : Json) (native : Bool) (issue : Issue) : Except Fault STAmount :=
  match value with
  | int n =>
    if n ≥ 0 then STAmount.canonicalize ⟨issue, n.toInt64.toUInt64, 0, native, false⟩
    else STAmount.canonicalize ⟨issue, (-n).toInt64.toUInt64, 0, native, true⟩
  | uint _ => do
    let mantissa ← v.asUInt
    STAmount.canonicalize ⟨issue, mantissa.toUInt64, 0, native, false⟩
  | string text =>
    if native then do
      let val ← lexicalCastI64 text
      if val ≥ 0 then STAmount.canonicalize ⟨issue, val.toUInt64, 0, native, false⟩
      else STAmount.canonicalize ⟨issue, (-val).toUInt64, 0, native, true⟩
    else .ok ((⟨issue, 0, 0, native, false⟩ : STAmount).setValue text).1
  | _ => .error (.runtimeError "invalid amount type")

end Json

def amountFromJson (v : Json) : Except Fault STAmount := do
  let (value, native, issue) ← v.amountHeader base58
  v.amountOf value native issue

end Issuer

open ExceptFold STAmount DecimalTruncation

variable {base58 : List Char → Option Account} {v value : Json} {native : Bool} {issue : Issue}
  {r : STAmount} {text : List Char}

namespace Json

theorem issuedIssue_ok {code : List Char} {issuer : Json}
    (h : issuedIssue base58 code issuer = .ok issue) : isSWT issue.currency = false := by
  unfold issuedIssue at h
  split at h
  · cases h
  · rename_i currency _
    split at h
    · split at h
      · cases h
      · obtain ⟨-, ⟨⟩⟩ | ⟨zero, h⟩ := ite_eq_iff.1 h
        · cases h
          exact Bool.eq_false_iff.2 zero
    · cases h

theorem amountHeader_fields (h : v.amountHeader base58 = .ok (value, native, issue)) :
    ∃ currency issuer, v.amountFields = .ok (value, currency, issuer) := by
  obtain ⟨⟨value', currency, issuer⟩, fields, rest⟩ := bind_eq_ok.1 h
  refine ⟨currency, issuer, ?_⟩
  dsimp only at rest
  split at rest
  · split at rest
    · cases rest
    · cases rest
      exact fields
  · obtain ⟨issue', -, rest⟩ := bind_eq_ok.1 rest
    cases rest
    exact fields

theorem amountHeader_native (h : v.amountHeader base58 = .ok (value, native, issue)) :
    native = isSWT issue.currency ∧ (native = true → issue = {}) := by
  obtain ⟨⟨value', currency, issuer⟩, -, rest⟩ := bind_eq_ok.1 h
  dsimp only at rest
  split at rest
  · split at rest
    · cases rest
    · cases rest
      exact ⟨rfl, fun _ => rfl⟩
  · obtain ⟨issue', made, rest⟩ := bind_eq_ok.1 rest
    cases rest
    exact ⟨(issuedIssue_ok made).symm, nofun⟩

end Json

namespace STAmount

/-- An amount is a number cut after sixteen digits, or a whole number of drops. -/
def IsTruncation (r : STAmount) (x : ℚ) : Prop :=
  if r.mIsNative then r.value = x
  else if x = 0 then r.value = 0
  else Truncates 15 |x| r.mValue.toNat r.mOffset ∧ r.mIsNegative = decide (x < 0)

theorem signed_zero (negative : Bool) : signed negative 0 = 0 := by
  cases negative <;> simp

theorem decide_signed_neg {negative : Bool} {x : ℚ} (positive : 0 < x) :
    decide (signed negative x < 0) = negative := by
  cases negative with
  | true => simpa using positive
  | false => exact decide_eq_false (not_lt.2 positive.le)

variable {m : UInt64} {e : Int} {negative : Bool}

theorem ofIssue_drops (h : ofIssue {} m 0 negative = .ok r) :
    r.Normal ∧ r.IsTruncation (signed negative m.toNat) := by
  by_cases zero : m = 0
  · rw [zero] at h ⊢
    rw [ofIssue_zero h]
    refine ⟨zeroOf_normal, ?_⟩
    change (zeroOf {}).value = signed negative ((0 : Nat) : ℚ)
    rw [value_zeroOf, Nat.cast_zero, signed_zero]
  · rw [ofIssue_drops_eq rfl zero] at h
    split at h
    · cases h
    · cases h
      refine ⟨⟨rfl, fun none => absurd none zero⟩, ?_⟩
      change value ⟨{}, m, 0, true, negative⟩ = _
      unfold value magnitude
      simp

/-- An issued amount that is not too small is cut after sixteen digits. -/
theorem ofIssue_truncation (issued : isSWT issue.currency = false)
    (h : ofIssue issue m e negative = .ok r)
    (large : m = 0 ∨ (10 : ℚ) ^ (-81 : ℤ) ≤ m.toNat * 10 ^ e) :
    r.Normal ∧ r.IsTruncation (signed negative (m.toNat * 10 ^ e)) := by
  by_cases zero : m = 0
  · rw [zero] at h ⊢
    rw [ofIssue_zero h]
    refine ⟨zeroOf_normal, ?_⟩
    have none : (zeroOf issue).mIsNative = false := by simp [zeroOf, issued]
    have nothing : signed negative (((0 : UInt64).toNat : ℚ) * 10 ^ e) = 0 := by
      rw [UInt64.toNat_zero, Nat.cast_zero, zero_mul, signed_zero]
    unfold IsTruncation
    rw [if_neg (by simp [none]), if_pos nothing]
    exact value_zeroOf
  · have large := large.resolve_left zero
    have positive : (0 : ℚ) < m.toNat * 10 ^ e := (ten_zpow_pos _).trans_le large
    obtain ⟨-, flag, sign, ⟨tiny, -⟩ | ⟨truncated, -⟩⟩ := ofIssue_issued issued zero h
    · exact absurd large (not_le.2 tiny)
    · refine ⟨(ofIssue_normal_iff h).2 ((largeEnough_issued issued zero).2 large), ?_⟩
      have nonzero : signed negative ((m.toNat : ℚ) * 10 ^ e) ≠ 0 := by
        rw [← abs_pos, abs_signed positive.le]
        exact positive
      unfold IsTruncation
      rw [if_neg (by simp [flag]), if_neg nonzero, abs_signed positive.le,
        decide_signed_neg positive]
      exact ⟨truncated, sign⟩

end STAmount

theorem toNat_toUInt64 (n : Int64) : (n.toUInt64.toNat : Int) = n.toInt % 2 ^ 64 := by
  have bits : n.toInt = (n.toUInt64.toNat : Int).bmod (2 ^ 64) := BitVec.toInt_eq_toNat_bmod _
  have limit := n.toUInt64.toNat_lt
  have back : ((n.toUInt64.toNat : Int).bmod (2 ^ 64)) % ((2 ^ 64 : Nat) : Int) = _ := Int.bmod_emod
  omega

theorem toNat_int (n : Int32) : (n.toInt64.toUInt64.toNat : Int) = n.toInt % 2 ^ 64 := by
  rw [toNat_toUInt64, Int32.toInt_toInt64]

theorem toInt_neg_int {n : Int32} (h : n ≠ .minValue) : (-n).toInt = -n.toInt := by
  have low := n.le_toInt
  have high := n.toInt_lt
  have least : n.toInt ≠ -2 ^ 31 := by
    intro same
    exact h (Int32.toInt_inj.1 (same.trans Int32.toInt_minValue.symm))
  rw [Int32.toInt_neg]
  exact Int.bmod_eq_of_le (by omega) (by omega)

theorem lexicalCastI64_ok {val : Int64} (h : lexicalCastI64 text = .ok val) :
    lexicalInteger text = some val.toInt := by
  unfold lexicalCastI64 at h
  split at h
  · rename_i n read
    obtain ⟨range, ⟨⟩⟩ | ⟨-, h⟩ := ite_eq_iff.1 h
    · rw [read, Int64.toInt_ofInt_of_le range.1 range.2]
    · cases h
  · cases h

theorem lexicalInteger_some {n : Int} (h : lexicalInteger text = some n) :
    ∃ negative digits, matchSign text = (negative, digits) ∧ digits ≠ [] ∧
      (∀ c ∈ digits, c.isDigit = true) ∧
      n = if negative then -(Nat.ofDigitChars 10 digits 0 : Int) else Nat.ofDigitChars 10 digits 0 := by
  unfold lexicalInteger at h
  cases sign : matchSign text with
  | mk negative digits =>
  rw [sign] at h
  dsimp only at h
  obtain ⟨-, ⟨⟩⟩ | ⟨written, h⟩ := ite_eq_iff.1 h
  simp only [Bool.or_eq_true, List.isEmpty_iff, Bool.not_eq_true', not_or, Bool.not_eq_false,
    List.all_eq_true] at written
  refine ⟨negative, digits, rfl, written.1, written.2, ?_⟩
  cases negative with
  | true => exact (Option.some.inj h).symm
  | false => exact (Option.some.inj h).symm

/-- A zero before other digits. -/
def Padded (text : List Char) : Prop := ∃ c rest, (matchSign text).2 = '0' :: c :: rest

theorem matchNumber_padded {negative : Bool} {c : Char} {rest : List Char}
    (sign : matchSign text = (negative, '0' :: c :: rest)) (digit : c.isDigit = true) :
    matchNumber text = none := by
  have dot : c ≠ '.' := ne_of_isDigit digit (by decide)
  have exponent : ¬ (c = 'e' ∨ c = 'E') :=
    not_or.2 ⟨ne_of_isDigit digit (by decide), ne_of_isDigit digit (by decide)⟩
  have fraction : matchFraction (c :: rest) = some (none, c :: rest) := by
    unfold matchFraction
    split
    · rename_i same
      exact absurd (List.cons.inj same).1 dot
    · rfl
  unfold matchNumber
  rw [sign]
  dsimp only [matchInteger]
  simp only [Option.bind_eq_bind, Option.bind_some, fraction, matchExponent, if_neg exponent]
  rfl

theorem matchNumber_digits {negative : Bool} {digits : List Char}
    (sign : matchSign text = (negative, digits)) (nonempty : digits ≠ [])
    (all : ∀ c ∈ digits, c.isDigit = true) (unpadded : ¬Padded text) :
    matchNumber text = some ⟨negative, digits, none, none⟩ := by
  have lead : digits = ['0'] ∨ digits.head? ≠ some '0' := by
    by_contra none
    obtain ⟨other, zero⟩ := not_or.1 none
    rw [not_not] at zero
    obtain ⟨rest, rfl⟩ : ∃ rest, digits = '0' :: rest := List.head?_eq_some_iff.1 zero
    cases rest with
    | nil => exact other rfl
    | cons c rest => exact unpadded ⟨c, rest, congrArg Prod.snd sign⟩
  have wellFormed : NumberMatch.WellFormed ⟨negative, digits, none, none⟩ :=
    ⟨lead.imp_right fun zero => ⟨nonempty, zero, all⟩, nofun, nofun⟩
  have integer : matchInteger (digits ++ []) = some (digits, []) :=
    NumberMatch.matchInteger_append wellFormed nofun
  rw [List.append_nil] at integer
  unfold matchNumber
  rw [sign]
  dsimp only
  rw [integer]
  rfl

/-- Without leading zeros a number has as many digits as it is large. -/
theorem length_le_of_unpadded {digits : List Char} {k : Nat} (nonempty : digits ≠ [])
    (all : ∀ c ∈ digits, c.isDigit = true) (lead : digits.head? ≠ some '0')
    (small : Nat.ofDigitChars 10 digits 0 < 10 ^ k) : digits.length ≤ k := by
  cases digits with
  | nil => exact absurd rfl nonempty
  | cons c digits =>
    have digit := all c List.mem_cons_self
    have nonzero : c.toNat ≠ '0'.toNat := fun same => lead (by rw [Char.toNat_inj.1 same]; rfl)
    have low : '0'.toNat ≤ c.toNat := by
      simp only [Char.isDigit, Bool.and_eq_true, decide_eq_true_eq] at digit
      exact digit.1
    have positive : 1 ≤ c.toNat - '0'.toNat := by omega
    rw [Nat.ofDigitChars_cons, Nat.ofDigitChars_eq_ofDigitChars_zero] at small
    have power : 10 ^ digits.length < 10 ^ k := by
      refine lt_of_le_of_lt ?_ small
      rw [Nat.mul_zero, Nat.zero_add]
      exact (Nat.le_mul_of_pos_right _ positive).trans (Nat.le_add_right ..)
    exact (Nat.pow_lt_pow_iff_right (by decide)).1 power

namespace NumberMatch

/-- The number that a text denotes. -/
def denoted (number : NumberMatch) : ℚ :=
  signed number.negative (number.mantissa * 10 ^ number.exponent10)

/-- The exponent is an `int`, which only wraps far below the smallest amount. -/
theorem offset_cases {number : NumberMatch} (readable : Readable number) :
    number.offset = number.exponent10 ∨ number.exponent10 < -101 ∧ 96 ≤ number.offset := by
  have places : number.places ≤ 32 := by
    have := readable.digits
    unfold digits at this
    rw [List.length_append] at this
    unfold places
    omega
  have limit := readable.power
  unfold offset
  have bounds : -2 ^ 31 - 31 ≤ number.exponent10 ∧ number.exponent10 < 2 ^ 31 := by
    unfold exponent10
    split <;> omega
  by_cases low : number.exponent10 < -2 ^ 31
  · right
    have wrapped : number.exponent10.bmod (2 ^ 32) = number.exponent10 + 2 ^ 32 := by
      rw [← Int.add_bmod_right]
      exact Int.bmod_eq_of_le (by omega) (by omega)
    omega
  · exact .inl (Int.bmod_eq_of_le (by omega) (by omega))

/-- A number that `setValue` takes, and that is zero or not below the smallest amount. -/
def InRange (number : NumberMatch) : Prop :=
  Readable number ∧ (number.mantissa = 0 ∨
    (10 : ℚ) ^ (-81 : ℤ) ≤ number.mantissa * 10 ^ number.exponent10 ∧
      (number.mantissa : ℚ) * 10 ^ number.exponent10 < 10 ^ 96)

end NumberMatch

section Issued

variable {number : NumberMatch} (issued : isSWT issue.currency = false)
  (h : matchNumber text = some number)
include issued h

theorem setValue_of_inRange (range : number.InRange) :
    ∃ r, (⟨issue, 0, 0, false, false⟩ : STAmount).setValue text = (r, true) ∧
      r.Normal ∧ r.IsTruncation number.denoted := by
  obtain ⟨readable, limits⟩ := range
  have read : (UInt64.ofNat number.mantissa).toNat = number.mantissa :=
    UInt64.toNat_ofNat_of_lt' readable.mantissa
  have flag : (⟨issue, 0, 0, false, false⟩ : STAmount).FlagAgrees := issued.symm
  by_cases zero : number.mantissa = 0
  · have made := ofIssue_zero_ok issue number.offset number.negative
    have none : number.denoted = signed number.negative ((0 : UInt64).toNat * 10 ^ number.offset) := by
      unfold NumberMatch.denoted
      rw [zero, UInt64.toNat_zero, Nat.cast_zero, zero_mul, zero_mul]
    rw [none]
    refine ⟨_, setValue_of_readable flag h readable nofun ?_, ofIssue_truncation issued made (.inl rfl)⟩
    rw [zero]
    exact made
  · obtain ⟨low, high⟩ := limits.resolve_left zero
    have nonzero := ofNat_ne_zero zero readable.mantissa
    have offset : number.offset = number.exponent10 := by
      rcases NumberMatch.offset_cases readable with same | ⟨deep, -⟩
      · exact same
      · -- far below the smallest amount
        have short : number.mantissa < 10 ^ 20 := readable.mantissa.trans (by decide)
        exact absurd low (not_le.2 (mul_zpow_lt short (by omega)))
    have fits : ((UInt64.ofNat number.mantissa).toNat : ℚ) * 10 ^ number.offset < 10 ^ 96 := by
      rw [read, offset]
      exact high
    obtain ⟨r, made⟩ : ∃ r, ofIssue issue (.ofNat number.mantissa) number.offset number.negative =
        .ok r := (ofIssue_ok_iff issued nonzero).2 fits
    have result := ofIssue_truncation issued made (.inr (by rw [read, offset]; exact low))
    rw [read, offset] at result
    exact ⟨r, setValue_of_readable flag h readable nofun made, result⟩

theorem inRange_of_setValue (set : (⟨issue, 0, 0, false, false⟩ : STAmount).setValue text = (r, true))
    (normal : r.Normal) : number.InRange := by
  have flag : (⟨issue, 0, 0, false, false⟩ : STAmount).FlagAgrees := issued.symm
  obtain ⟨readable, -, made⟩ := (setValue_iff flag h).1 set
  refine ⟨readable, ?_⟩
  by_cases zero : number.mantissa = 0
  · exact .inl zero
  right
  have read : (UInt64.ofNat number.mantissa).toNat = number.mantissa :=
    UInt64.toNat_ofNat_of_lt' readable.mantissa
  have nonzero := ofNat_ne_zero zero readable.mantissa
  have below := (ofIssue_ok_iff issued nonzero).1 ⟨r, made⟩
  rw [read] at below
  have offset : number.offset = number.exponent10 := by
    rcases NumberMatch.offset_cases readable with same | ⟨-, high⟩
    · exact same
    · have positive : 10 ^ 0 ≤ number.mantissa := Nat.pos_of_ne_zero zero
      have exceeds : (10 : ℚ) ^ 96 ≤ number.mantissa * 10 ^ number.offset := by
        exact_mod_cast ten_zpow_le (e := 96) positive (by omega)
      exact absurd below (not_lt.2 exceeds)
  rw [offset] at below made
  have large := (largeEnough_issued issued nonzero).1 ((ofIssue_normal_iff made).1 normal)
  rw [read] at large
  exact ⟨large, below⟩

end Issued

namespace Json

/-- The number of a value field. -/
def denoted (native : Bool) : Json → Option ℚ
  | int n => some n.toInt
  | uint n => some n.toNat
  | string text =>
    if native then (lexicalInteger text).map (Int.cast : Int → ℚ)
    else (matchNumber text).map NumberMatch.denoted
  | _ => none

variable (base58) in
/-- What is read of a JSON value is a normal amount, the number of the value field up to what
lies below sixteen digits; a text that `setValue` refuses is refused, and a large unsigned value
inside an array or an object is taken. -/
structure Faithful (v : Json) : Prop where
  normal : ∀ r, amountFromJson base58 v = .ok r → r.Normal ∧ ∃ value native issue x,
    v.amountHeader base58 = .ok (value, native, issue) ∧ value.denoted native = some x ∧
      r.IsTruncation x
  refuses : ∀ text native issue, v.amountHeader base58 = .ok (string text, native, issue) →
    ((⟨issue, 0, 0, native, false⟩ : STAmount).setValue text).2 = false →
      ∃ fault, amountFromJson base58 v = .error fault
  accepts : ∀ n native issue, v.amountHeader base58 = .ok (uint n, native, issue) →
    v.isArray ∨ v.isObject → 2 ^ 31 < n.toNat → ∃ r, amountFromJson base58 v = .ok r

/-- A value field that is read as the number it denotes. -/
def ReadValue (v : Json) (native : Bool) : Json → Prop
  | int n => native = true ∨ n ≠ .minValue
  | uint n => v.isArray ∨ v.isObject → n.toNat ≤ 2 ^ 31
  | string text =>
    if native then ∀ n, lexicalInteger text = some n → |n| ≤ 10 ^ 17 → ¬Padded text
    else ∃ number, matchNumber text = some number ∧ number.InRange
  | _ => True

theorem amountFromJson_eq (h : v.amountHeader base58 = .ok (value, native, issue)) :
    amountFromJson base58 v = v.amountOf value native issue := by
  unfold amountFromJson
  rw [h, ok_bind]

/-- With the fields at hand only the value is left. -/
theorem faithful_iff (h : v.amountHeader base58 = .ok (value, native, issue)) :
    v.Faithful base58 ↔
      (∀ r, v.amountOf value native issue = .ok r → r.Normal ∧
        ∃ x, value.denoted native = some x ∧ r.IsTruncation x) ∧
      (∀ text, value = string text →
        ((⟨issue, 0, 0, native, false⟩ : STAmount).setValue text).2 = false →
          ∃ fault, v.amountOf value native issue = .error fault) ∧
      (∀ n, value = uint n → v.isArray ∨ v.isObject → 2 ^ 31 < n.toNat →
        ∃ r, v.amountOf value native issue = .ok r) := by
  rw [← amountFromJson_eq h]
  constructor
  · intro faithful
    refine ⟨fun r made => ?_, ?_, ?_⟩
    · obtain ⟨normal, value', native', issue', x, h', denoted, truncation⟩ := faithful.normal r made
      rw [h] at h'
      cases h'
      exact ⟨normal, x, denoted, truncation⟩
    · rintro text rfl refused
      exact faithful.refuses text native issue h refused
    · rintro n rfl
      exact faithful.accepts n native issue h
  · rintro ⟨normal, refuses, accepts⟩
    refine ⟨fun r made => ?_, ?_, ?_⟩
    · obtain ⟨normal', x, denoted, truncation⟩ := normal r made
      exact ⟨normal', value, native, issue, x, h, denoted, truncation⟩
    · intro text native' issue' h' refused
      rw [h] at h'
      cases h'
      exact refuses text rfl refused
    · intro n native' issue' h'
      rw [h] at h'
      cases h'
      exact accepts n rfl

section Values

variable (flag : native = isSWT issue.currency) (bare : native = true → issue = {})
include flag bare

/-- An integer mantissa is read as the integer. -/
theorem canonicalize_integer {m : UInt64} {negative : Bool} {n : Int}
    (same : (m.toNat : Int) = if negative then -n else n)
    (h : STAmount.canonicalize ⟨issue, m, 0, native, negative⟩ = .ok r) :
    r.Normal ∧ r.IsTruncation n := by
  have size : (n : ℚ) = signed negative m.toNat := by
    rw [← Int.cast_natCast, same]
    cases negative <;> simp
  rw [size]
  cases native with
  | true =>
    rw [bare rfl] at h
    exact ofIssue_drops h
  | false =>
    have large : m = 0 ∨ (10 : ℚ) ^ (-81 : ℤ) ≤ m.toNat * 10 ^ (0 : ℤ) := by
      by_cases zero : m = 0
      · exact .inl zero
      · right
        have positive : (1 : ℚ) ≤ m.toNat := by exact_mod_cast toNat_pos_of_ne_zero zero
        rw [zpow_zero, mul_one]
        refine le_trans ?_ positive
        norm_num
    have result := ofIssue_truncation flag.symm h large
    rwa [zpow_zero, mul_one] at result

theorem int_truncation {n : Int32} (wraps : native = true ∨ n ≠ .minValue)
    (made : v.amountOf (int n) native issue = .ok r) : r.Normal ∧ r.IsTruncation n.toInt := by
  have high := n.toInt_lt
  unfold amountOf at made
  obtain ⟨positive, made⟩ | ⟨positive, made⟩ := ite_eq_iff.1 made
  · have low : 0 ≤ n.toInt := Int32.le_iff_toInt_le.1 positive
    have same : (n.toInt64.toUInt64.toNat : Int) = n.toInt := by
      rw [toNat_int]
      omega
    exact canonicalize_integer flag bare same made
  · have low : n.toInt < (0 : Int32).toInt := Int32.lt_iff_toInt_lt.1 (Int32.not_le.1 positive)
    rw [Int32.toInt_zero] at low
    have high := n.le_toInt
    by_cases least : n = .minValue
    · -- the negation stays negative: as a mantissa it is out of the range of drops
      have drops := wraps.resolve_right (not_not.2 least)
      rw [least, bare drops] at made
      cases made
    · have same : ((-n).toInt64.toUInt64.toNat : Int) = -n.toInt := by
        rw [toNat_int, toInt_neg_int least]
        omega
      exact canonicalize_integer flag bare same made

theorem int_faithful_iff {n : Int32} (h : v.amountHeader base58 = .ok (int n, native, issue)) :
    v.Faithful base58 ↔ native = true ∨ n ≠ .minValue := by
  rw [faithful_iff h]
  constructor
  · rintro ⟨normal, -, -⟩
    by_contra none
    obtain ⟨issued, least⟩ := not_or.1 none
    have least : n = .minValue := not_not.1 least
    have issued : native = false := Bool.eq_false_iff.2 issued
    subst issued least
    have mantissa : (18446744071562067968 : UInt64) ≠ 0 := by decide
    have size : ((18446744071562067968 : UInt64).toNat : ℚ) * 10 ^ (0 : ℤ) = 18446744071562067968 := by
      rw [zpow_zero, mul_one]
      rfl
    obtain ⟨r, made⟩ : ∃ r, ofIssue issue 18446744071562067968 0 true = .ok r := by
      rw [ofIssue_ok_iff flag.symm mantissa, size]
      norm_num
    have read : v.amountOf (int .minValue) false issue = .ok r := by
      rw [← made]
      unfold ofIssue
      rfl
    obtain ⟨-, x, denoted, truncation⟩ := normal r read
    cases denoted
    obtain ⟨-, native, -, ⟨tiny, -⟩ | ⟨truncated, -⟩⟩ := ofIssue_issued flag.symm mantissa made
    · rw [size] at tiny
      exact absurd tiny (by norm_num)
    · unfold IsTruncation at truncation
      rw [Int32.toInt_minValue, if_neg (by simp [native])] at truncation
      obtain ⟨other, -⟩ := truncation
      have first := truncated.lt
      have second := other.le
      have digits : (1 : ℚ) ≤ r.mValue.toNat := by
        have := truncated.low
        exact_mod_cast this.trans' (by decide)
      have value : |((-2 ^ 31 : ℤ) : ℚ)| = 2147483648 := by norm_num
      nlinarith
  · intro wraps
    refine ⟨fun r made => ?_, nofun, nofun⟩
    obtain ⟨normal, truncation⟩ := int_truncation flag bare wraps made
    exact ⟨normal, _, rfl, truncation⟩

omit flag bare in
/-- An unsigned value field is the JSON value itself, or inside of one that is no number. -/
theorem amountHeader_uint {n : UInt32} (h : v.amountHeader base58 = .ok (uint n, native, issue)) :
    v = uint n ∨ (v.isArray ∨ v.isObject) ∧
      v.asUInt = .error (.runtimeError "Type is not convertible to uint") := by
  obtain ⟨currency, issuer, fields⟩ := amountHeader_fields h
  cases v with
  | uint m =>
    cases fields
    exact .inl rfl
  | array values => exact .inr ⟨.inl rfl, rfl⟩
  | object members => exact .inr ⟨.inr rfl, rfl⟩
  | null => exact .inr ⟨.inr rfl, rfl⟩
  | int m => cases fields
  | real => cases fields
  | boolean b => cases fields
  | string text =>
    unfold amountFields at fields
    dsimp only at fields
    split at fields
    all_goals cases fields

theorem uint_faithful_iff {n : UInt32} (h : v.amountHeader base58 = .ok (uint n, native, issue)) :
    v.Faithful base58 ↔ (v.isArray ∨ v.isObject → n.toNat ≤ 2 ^ 31) := by
  rw [faithful_iff h]
  obtain rfl | ⟨inside, unread⟩ := amountHeader_uint h
  · refine iff_of_true ⟨fun r made => ?_, nofun, nofun⟩ nofun
    obtain ⟨normal, truncation⟩ := canonicalize_integer flag bare rfl made
    exact ⟨normal, _, rfl, truncation⟩
  · have thrown : v.amountOf (uint n) native issue =
        .error (.runtimeError "Type is not convertible to uint") := by
      unfold amountOf
      rw [unread]
      rfl
    rw [thrown]
    constructor
    · rintro ⟨-, -, accepts⟩ -
      by_contra large
      obtain ⟨r, made⟩ := accepts n rfl inside (not_le.1 large)
      cases made
    · intro small
      refine ⟨nofun, nofun, fun m same _ large => ?_⟩
      cases same
      exact absurd (small inside) (not_le.2 large)

omit flag bare

theorem ofIssue_drops_ok {m : UInt64} {negative : Bool} :
    (∃ r, ofIssue {} m 0 negative = .ok r) ↔ m.toNat ≤ 10 ^ 17 := by
  by_cases zero : m = 0
  · rw [zero, ofIssue_zero_ok]
    exact iff_of_true ⟨_, rfl⟩ (by decide)
  · rw [ofIssue_drops_eq rfl zero]
    split_ifs with large
    · exact iff_of_false nofun (not_le.2 large)
    · exact iff_of_true ⟨_, rfl⟩ (not_lt.1 large)

/-- The mantissa and the sign of a native text. -/
theorem amountOf_drops {val : Int64} (read : lexicalCastI64 text = .ok val) :
    ∃ m negative, v.amountOf (string text) true {} = ofIssue {} m 0 negative ∧
      (m.toNat : Int) = (if negative then -val.toInt else val.toInt) ∧ (m.toNat : Int) = |val.toInt| := by
  have high := val.toInt_lt
  unfold amountOf
  dsimp only
  rw [if_pos rfl, read, ok_bind]
  by_cases positive : val ≥ 0
  · have low : 0 ≤ val.toInt := Int64.le_iff_toInt_le.1 positive
    have same : (val.toUInt64.toNat : Int) = val.toInt := by
      rw [toNat_toUInt64]
      omega
    rw [if_pos positive]
    exact ⟨_, false, rfl, same, same.trans (abs_of_nonneg low).symm⟩
  · have low : val.toInt < (0 : Int64).toInt := Int64.lt_iff_toInt_lt.1 (Int64.not_le.1 positive)
    have same := toNat_neg_toUInt64 low
    rw [if_neg positive]
    exact ⟨_, true, rfl, same, same.trans (abs_of_neg low).symm⟩

/-- A native text that is read as a number of drops is refused by `setValue` if it is padded. -/
theorem setValue_drops {n : Int} (read : lexicalInteger text = some n) (range : |n| ≤ 10 ^ 17) :
    ((⟨{}, 0, 0, true, false⟩ : STAmount).setValue text).2 = false ↔ Padded text := by
  obtain ⟨negative, digits, sign, nonempty, all, rfl⟩ := lexicalInteger_some read
  constructor
  · intro refused
    by_contra unpadded
    have matched := matchNumber_digits sign nonempty all unpadded
    have small : Nat.ofDigitChars 10 digits 0 ≤ 10 ^ 17 := by
      cases negative with
      | true => simpa using range
      | false => simpa using range
    have short : digits.length ≤ 18 := by
      by_cases lead : digits.head? = some '0'
      · obtain ⟨rest, rfl⟩ := List.head?_eq_some_iff.1 lead
        cases rest with
        | nil => decide
        | cons c rest => exact absurd ⟨c, rest, congrArg Prod.snd sign⟩ unpadded
      · exact length_le_of_unpadded nonempty all lead (by omega)
    have same : NumberMatch.digits ⟨negative, digits, none, none⟩ = digits := List.append_nil _
    have mantissa : NumberMatch.mantissa ⟨negative, digits, none, none⟩ =
        Nat.ofDigitChars 10 digits 0 := congrArg (Nat.ofDigitChars 10 · 0) same
    have fits : Nat.ofDigitChars 10 digits 0 < 2 ^ 64 := by omega
    have readable : Readable ⟨negative, digits, none, none⟩ :=
      ⟨by rw [same]; omega, mantissa.trans_lt fits, Nat.two_pow_pos 31⟩
    have limit : (UInt64.ofNat (Nat.ofDigitChars 10 digits 0)).toNat ≤ 10 ^ 17 := by
      rw [UInt64.toNat_ofNat_of_lt' fits]
      exact small
    have offset : NumberMatch.offset ⟨negative, digits, none, none⟩ = 0 := by
      simp [NumberMatch.offset, NumberMatch.exponent10, NumberMatch.places, NumberMatch.power]
    obtain ⟨r, made⟩ : ∃ r, ofIssue {} (.ofNat (NumberMatch.mantissa ⟨negative, digits, none, none⟩))
        (NumberMatch.offset ⟨negative, digits, none, none⟩) negative = .ok r := by
      rw [mantissa, offset]
      exact ofIssue_drops_ok.2 limit
    have flag : (⟨{}, 0, 0, true, false⟩ : STAmount).FlagAgrees := by decide
    rw [setValue_of_readable flag matched readable (fun _ => rfl) made] at refused
    cases refused
  · rintro ⟨c, rest, padded⟩
    rw [sign] at padded
    obtain rfl : digits = '0' :: c :: rest := padded
    have none : matchNumber text = none := matchNumber_padded sign (all c (by simp))
    unfold setValue
    rw [none]

theorem string_native_faithful_iff
    (h : v.amountHeader base58 = .ok (string text, true, {})) :
    v.Faithful base58 ↔ ∀ n, lexicalInteger text = some n → |n| ≤ 10 ^ 17 → ¬Padded text := by
  rw [faithful_iff h]
  constructor
  · rintro ⟨-, refuses, -⟩ n read range padded
    obtain ⟨fault, thrown⟩ := refuses text rfl ((setValue_drops read range).2 padded)
    have bounds := abs_le.1 range
    have cast : lexicalCastI64 text = .ok (.ofInt n) := by
      unfold lexicalCastI64
      rw [read]
      exact if_pos (by omega)
    obtain ⟨m, negative, same, -, size⟩ := amountOf_drops (v := v) cast
    rw [Int64.toInt_ofInt_of_le (by omega) (by omega)] at size
    obtain ⟨r, made⟩ : ∃ r, ofIssue {} m 0 negative = .ok r := ofIssue_drops_ok.2 (by omega)
    rw [same, made] at thrown
    cases thrown
  · intro unpadded
    have read (r : STAmount) (made : v.amountOf (string text) true {} = .ok r) :
        ∃ val m negative, lexicalCastI64 text = .ok val ∧ ofIssue {} m 0 negative = .ok r ∧
          (m.toNat : Int) = (if negative then -val.toInt else val.toInt) ∧
          (m.toNat : Int) = |val.toInt| := by
      obtain ⟨val, cast, -⟩ := bind_eq_ok.1 made
      obtain ⟨m, negative, same, number, size⟩ := amountOf_drops (v := v) cast
      exact ⟨val, m, negative, cast, same ▸ made, number, size⟩
    refine ⟨fun r made => ?_, fun text' same refused => ?_, nofun⟩
    · obtain ⟨val, m, negative, cast, made, number, -⟩ := read r made
      obtain ⟨normal, truncation⟩ :=
        canonicalize_integer (show true = isSWT ({} : Issue).currency from rfl) (fun _ => rfl) number made
      refine ⟨normal, val.toInt, ?_, truncation⟩
      change (lexicalInteger text).map _ = _
      rw [lexicalCastI64_ok cast]
      rfl
    · cases same
      cases made : v.amountOf (string text) true {} with
      | error fault => exact ⟨fault, rfl⟩
      | ok r =>
        obtain ⟨val, m, negative, cast, made, -, size⟩ := read r made
        have small := ofIssue_drops_ok.1 ⟨r, made⟩
        have range : |val.toInt| ≤ 10 ^ 17 := by omega
        have number := lexicalCastI64_ok cast
        exact absurd ((setValue_drops number range).1 refused) (unpadded _ number range)

theorem string_issued_faithful_iff (issued : isSWT issue.currency = false)
    (h : v.amountHeader base58 = .ok (string text, false, issue)) :
    v.Faithful base58 ↔ ∃ number, matchNumber text = some number ∧ number.InRange := by
  rw [faithful_iff h]
  constructor
  · rintro ⟨normal, refuses, -⟩
    obtain ⟨normal, -⟩ := normal _ rfl
    cases set : (⟨issue, 0, 0, false, false⟩ : STAmount).setValue text with
    | mk r taken =>
    rw [set] at normal
    cases taken with
    | false =>
      obtain ⟨fault, none⟩ := refuses text rfl (by rw [set])
      cases none
    | true =>
      cases number : matchNumber text with
      | none =>
        unfold setValue at set
        rw [number] at set
        cases set
      | some number' => exact ⟨number', rfl, inRange_of_setValue issued number set normal⟩
  · rintro ⟨number, matched, range⟩
    obtain ⟨r, set, normal, truncation⟩ := setValue_of_inRange issued matched range
    refine ⟨fun r' made => ?_, ?_, nofun⟩
    · change Except.ok (setValue _ text).1 = _ at made
      rw [set] at made
      cases made
      refine ⟨normal, number.denoted, ?_, truncation⟩
      change (matchNumber text).map _ = _
      rw [matched]
      rfl
    · intro text' same refused
      cases same
      rw [set] at refused
      cases refused

end Values

/-- A JSON value is read faithfully exactly if its value field is: an integer of an issued
amount is not the least one, a large unsigned value is not inside an array or an object, the
text of a native amount has no leading zeros and that of an issued one is a number in range. -/
theorem amountFromJson_faithful_iff (base58 : List Char → Option Account) (v : Json) :
    v.Faithful base58 ↔ ∀ value native issue,
      v.amountHeader base58 = .ok (value, native, issue) → v.ReadValue native value := by
  cases header : v.amountHeader base58 with
  | error fault =>
    have thrown : amountFromJson base58 v = .error fault := by
      unfold amountFromJson
      rw [header]
      rfl
    refine ⟨nofun, fun _ => ⟨?_, ?_, ?_⟩⟩
    · intro r made
      rw [thrown] at made
      cases made
    · intro text native issue h
      rw [header] at h
      cases h
    · intro n native issue h
      rw [header] at h
      cases h
  | ok fields =>
    obtain ⟨value, native, issue⟩ := fields
    obtain ⟨flag, bare⟩ := amountHeader_native header
    have only : (∀ value' native' issue', (.ok (value, native, issue) : Except Fault _) =
        .ok (value', native', issue') → v.ReadValue native' value') ↔ v.ReadValue native value := by
      refine ⟨fun h => h _ _ _ rfl, ?_⟩
      intro h value' native' issue' same
      cases same
      exact h
    rw [only]
    -- a value of another kind is an invalid amount type
    have thrown (other : ∃ fault, v.amountOf value native issue = .error fault)
        (no_uint : ∀ n, value ≠ uint n) : v.Faithful base58 := by
      obtain ⟨fault, other⟩ := other
      rw [faithful_iff header, other]
      exact ⟨nofun, fun _ _ _ => ⟨fault, rfl⟩, fun n same => absurd same (no_uint n)⟩
    cases value with
    | int n => exact int_faithful_iff flag bare header
    | uint n => exact uint_faithful_iff flag bare header
    | string text =>
      cases native with
      | true =>
        obtain rfl := bare rfl
        exact string_native_faithful_iff header
      | false => exact string_issued_faithful_iff flag.symm header
    | null => exact iff_of_true (thrown ⟨_, rfl⟩ nofun) trivial
    | real => exact iff_of_true (thrown ⟨_, rfl⟩ nofun) trivial
    | boolean b => exact iff_of_true (thrown ⟨_, rfl⟩ nofun) trivial
    | array values => exact iff_of_true (thrown ⟨_, rfl⟩ nofun) trivial
    | object members => exact iff_of_true (thrown ⟨_, rfl⟩ nofun) trivial

/-- A value that is no number gives an amount with the exponent of no amount, three thousand
million is refused, and seven drops are read from a text that `setValue` refuses. -/
theorem malformed_amount :
    let issuer := string (List.replicate 39 '0' ++ ['1'])
    let text := object
      [("value", string "abc".toList), ("currency", string "USD".toList), ("issuer", issuer)]
    let unsigned := array [uint 3000000000, string "USD".toList, issuer]
    (∃ r, amountFromJson (fun _ => none) text = .ok r ∧ ¬ r.Normal) ∧
      amountFromJson (fun _ => none) unsigned =
        .error (.runtimeError "Type is not convertible to uint") ∧
      amountFromJson (fun _ => none) (string "007".toList) = .ok ⟨{}, 7, 0, true, false⟩ ∧
      ((⟨{}, 0, 0, true, false⟩ : STAmount).setValue "007".toList).2 = false :=
  ⟨⟨⟨⟨0x5553440000000000, 1⟩, 0, 0, false, false⟩, rfl, by decide⟩, rfl, rfl, rfl⟩

end Json

theorem split_word (h : ∀ c ∈ text, isSeparator c = false) : split text = [text] := by
  induction text with
  | nil => rfl
  | cons c text ih =>
    have rest := ih fun d hd => h d (List.mem_cons_of_mem c hd)
    unfold split
    rw [if_neg (by simp [h c List.mem_cons_self]), rest]

theorem isSeparator_of_isDigit {c : Char} (h : c.isDigit = true) : isSeparator c = false := by
  have none : "\t\n\r ,/".toList.all (fun d => !d.isDigit) = true := rfl
  unfold isSeparator
  rw [Bool.eq_false_iff, ne_eq, List.contains_iff_mem]
  intro mem
  have other := List.all_eq_true.1 none c mem
  rw [h] at other
  cases other

theorem lexicalInteger_text (negative : Bool) (n : Nat) :
    lexicalInteger ((if negative then ['-'] else []) ++ Nat.toDigits 10 n) =
      some (if negative then -(n : Int) else n) := by
  have sign : matchSign ((if negative then ['-'] else []) ++ Nat.toDigits 10 n ++ []) =
      (negative, Nat.toDigits 10 n ++ []) :=
    matchSign_append negative Nat.toDigits_ne_nil isDigit_toDigits
  rw [List.append_nil, List.append_nil] at sign
  have digits : ¬ ((Nat.toDigits 10 n).isEmpty || !(Nat.toDigits 10 n).all Char.isDigit) = true := by
    have all : (Nat.toDigits 10 n).all Char.isDigit = true := List.all_eq_true.2 isDigit_toDigits
    simp [all]
  unfold lexicalInteger
  rw [sign]
  dsimp only
  rw [if_neg digits, Nat.ofDigitChars_toDigits (by decide) (by decide)]
  cases negative <;> rfl

namespace STAmount

variable {a : STAmount}

theorem getText_native (ha : a.Normal) (native : a.mIsNative = true) (nonzero : a.mValue ≠ 0) :
    a.getText = (if a.mIsNegative then ['-'] else []) ++ Nat.toDigits 10 a.mValue.toNat := by
  have offset := ha.offset_of_native native
  unfold getText
  rw [if_neg (not_isZero nonzero)]
  simp [native, offset]

theorem amountFromJson_getText (ha : a.Normal)
    (native : a.mIsNative = true) (range : a.mValue ≤ cMaxNativeN) :
    amountFromJson base58 (.string a.getText) = .ok { a with mIssue := {} } := by
  have offset := ha.offset_of_native native
  by_cases zero : a.mValue = 0
  · have text : a.getText = ['0'] := if_pos (isZero_iff_mValue.2 zero)
    rw [text, native, offset, zero, (ha.of_zero zero).1]
    rfl
  · have limit : a.mValue.toNat ≤ 10 ^ 17 := UInt64.le_iff_toNat_le.1 range
    have positive := toNat_pos_of_ne_zero zero
    have text := getText_native ha native zero
    have word : split a.getText = [a.getText] := by
      refine split_word fun c mem => ?_
      rw [text] at mem
      rcases List.mem_append.1 mem with sign | digit
      · cases negative : a.mIsNegative with
        | false =>
          rw [negative] at sign
          cases sign
        | true =>
          rw [negative] at sign
          rw [List.mem_singleton.1 sign]
          decide
      · exact isSeparator_of_isDigit (isDigit_toDigits c digit)
    have header : (Json.string a.getText).amountHeader base58 = .ok (.string a.getText, true, {}) := by
      unfold Json.amountHeader Json.amountFields
      dsimp only
      rw [word]
      rfl
    have made : ofIssue {} a.mValue 0 a.mIsNegative = .ok { a with mIssue := {} } := by
      rw [ofIssue_drops_eq rfl zero, if_neg (Nat.not_lt.2 limit)]
      simp [native, offset]
    have cast : ∃ val : Int64, lexicalCastI64 a.getText = .ok val ∧
        val.toInt = if a.mIsNegative then -(a.mValue.toNat : Int) else a.mValue.toNat := by
      have least : -2 ^ 63 ≤ if a.mIsNegative then -(a.mValue.toNat : Int) else a.mValue.toNat := by
        split <;> omega
      have most : (if a.mIsNegative then -(a.mValue.toNat : Int) else a.mValue.toNat) < 2 ^ 63 := by
        split <;> omega
      refine ⟨_, ?_, Int64.toInt_ofInt_of_le least most⟩
      unfold lexicalCastI64
      rw [text, lexicalInteger_text]
      exact if_pos ⟨least, most⟩
    obtain ⟨val, cast, number⟩ := cast
    rw [Json.amountFromJson_eq header]
    unfold Json.amountOf
    dsimp only
    rw [cast, ok_bind, ← made]
    cases negative : a.mIsNegative with
    | false =>
      rw [negative, if_neg (by decide)] at number
      have above : val ≥ 0 := Int64.le_iff_toInt_le.2 (by rw [Int64.toInt_zero]; omega)
      have same : val.toUInt64 = a.mValue := by
        have := toNat_toUInt64 val
        rw [← UInt64.toNat_inj]
        omega
      rw [if_pos above, same]
      rfl
    | true =>
      rw [negative, if_pos rfl] at number
      have below : ¬ val ≥ 0 :=
        Int64.not_le.2 (Int64.lt_iff_toInt_lt.2 (by rw [Int64.toInt_zero]; omega))
      have same : (-val).toUInt64 = a.mValue := by
        have := toNat_neg_toUInt64 (show val.toInt < 0 by omega)
        rw [← UInt64.toNat_inj]
        omega
      rw [if_neg below, same]
      rfl

/-- What `getText` writes is read back: an issued amount by `setValue` into any amount of its
issue, a native one from JSON. -/
theorem text_round_trip (base58 : List Char → Option Account) (ha : a.Normal)
    (flag : a.FlagAgrees) :
    (a.mIsNative = false → ∀ b : STAmount, b.FlagAgrees → b.mIssue = a.mIssue →
      b.setValue a.getText = (a, true)) ∧
    (a.mIsNative = true → a.mValue ≤ cMaxNativeN →
      amountFromJson base58 (.string a.getText) = .ok { a with mIssue := {} }) :=
  ⟨fun issued _ flag' same => setValue_getText ha issued flag flag' same,
    amountFromJson_getText ha⟩

theorem text_round_trip_units :
    (⟨⟨2, 3⟩, 0, 0, false, false⟩ : STAmount).setValue
        (⟨⟨2, 3⟩, 1500000000000000, -15, false, true⟩ : STAmount).getText =
      (⟨⟨2, 3⟩, 1500000000000000, -15, false, true⟩, true) ∧
    amountFromJson (fun _ => none) (.string (⟨{}, 25, 0, true, true⟩ : STAmount).getText) =
      .ok ⟨{}, 25, 0, true, true⟩ :=
  ⟨(text_round_trip (fun _ => none) (by decide) (by decide)).1 rfl _ (by decide) rfl,
    (text_round_trip (fun _ => none) (by decide) (by decide)).2 rfl (by decide)⟩

end STAmount

end Skywell
