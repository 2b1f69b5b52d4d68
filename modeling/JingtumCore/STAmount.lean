import Mathlib.Algebra.Group.Int.Defs
import Mathlib.Algebra.GroupWithZero.Nat
import Mathlib.Logic.Function.Iterate

/-!
# Amounts

`STAmount` as the code keeps it: a 64-bit mantissa, an exponent, a sign, an
issue and the cached native flag. Every operation that may throw returns in
`Except Fault`; the name an `STBase` carries is left out. 160-bit identifiers
are numbers, of which only equality, order and zero matter.
-/
namespace Skywell

/-- What ends a call without a result: a thrown exception, a null pointer
dereference, or a loop that never ends. -/
inductive Fault where
  | runtimeError (what : String)
  | nullPointer
  | endlessLoop
  deriving DecidableEq, Repr

abbrev Account := Nat

abbrev Currency := Nat

def noAccount : Account := 1

def noCurrency : Currency := 1

def badCurrency : Currency := 0x5852500000000000

def isSWT (c : Nat) : Bool := c == 0

structure Issue where
  currency : Currency := 0
  account : Account := 0
  deriving DecidableEq, Repr

def noIssue : Issue := ⟨noCurrency, noAccount⟩

structure STAmount where
  mIssue : Issue := {}
  mValue : UInt64 := 0
  mOffset : Int := 0
  mIsNative : Bool := true
  mIsNegative : Bool := false
  deriving DecidableEq

namespace STAmount

def cMinOffset : Int := -96

def cMaxOffset : Int := 80

def cMinValue : UInt64 := 1000000000000000

def cMaxValue : UInt64 := 9999999999999999

def cMaxNativeN : UInt64 := 100000000000000000

def getCurrency (a : STAmount) : Currency := a.mIssue.currency

def getIssuer (a : STAmount) : Account := a.mIssue.account

def isNative (a : STAmount) : Bool := a.mIsNative

def signum (a : STAmount) : Int :=
  if a.mValue ≠ 0 then if a.mIsNegative then -1 else 1 else 0

/-- Comparison with `zero` goes through the sign. -/
def isZero (a : STAmount) : Bool := a.signum == 0

/-- `while (mValue < cMinValue && mOffset > cMinOffset)`, where the argument is
the room left above `cMinOffset`. -/
def growMantissa : Nat → UInt64 → Int → UInt64 × Int
  | 0, value, offset => (value, offset)
  | room + 1, value, offset =>
    if value < cMinValue then growMantissa room (value * 10) (offset - 1) else (value, offset)

/-- `while (mValue > cMaxValue)`; a 64-bit value has at most twenty digits. -/
def shrinkMantissa : Nat → UInt64 → Int → Except Fault (UInt64 × Int)
  | 0, value, offset => .ok (value, offset)
  | digits + 1, value, offset =>
    if value > cMaxValue then
      if offset ≥ cMaxOffset then .error (.runtimeError "value overflow")
      else shrinkMantissa digits (value / 10) (offset + 1)
    else .ok (value, offset)

def canonicalize (a : STAmount) : Except Fault STAmount :=
  if isSWT a.getCurrency then
    if a.mValue = 0 then
      .ok { a with mIsNative := true, mOffset := 0, mIsNegative := false }
    else
      let down := (fun v : UInt64 => v / 10)^[(-a.mOffset).toNat] a.mValue
      let value := (fun v : UInt64 => v * 10)^[a.mOffset.toNat] down
      if value > cMaxNativeN then .error (.runtimeError "Native currency amount out of range")
      else .ok { a with mIsNative := true, mOffset := 0, mValue := value }
  else if a.mValue = 0 then
    .ok { a with mIsNative := false, mOffset := -100, mIsNegative := false }
  else do
    let grown := growMantissa (a.mOffset - cMinOffset).toNat a.mValue a.mOffset
    let (value, offset) ← shrinkMantissa 20 grown.1 grown.2
    let (value, offset) :=
      if offset < cMinOffset ∨ value < cMinValue then (0, 0) else (value, offset)
    if offset > cMaxOffset then .error (.runtimeError "value overflow")
    else .ok { a with mIsNative := false, mValue := value, mOffset := offset }

/-- `STAmount (Issue const&, uint64_t, int, bool)`. -/
def ofIssue (issue : Issue) (mantissa : UInt64) (exponent : Int) (negative : Bool) :
    Except Fault STAmount :=
  canonicalize ⟨issue, mantissa, exponent, isSWT issue.currency, negative⟩

/-- `STAmount (Issue const&)`: zero of an issue. -/
def zeroOf (issue : Issue) : STAmount :=
  if isSWT issue.currency then ⟨issue, 0, 0, true, false⟩ else ⟨issue, 0, -100, false, false⟩

/-- `STAmount (uint64_t, bool)`. -/
def ofNative (mantissa : UInt64) (negative : Bool := false) : STAmount :=
  ⟨{}, mantissa, 0, true, mantissa != 0 && negative⟩

/-- `STAmount (SField const&, int64_t)`. -/
def ofInt64 (v : Int64) : STAmount :=
  if v < 0 then ⟨{}, (-v).toUInt64, 0, true, true⟩ else ⟨{}, v.toUInt64, 0, true, false⟩

def createFromInt64 (v : Int64) : STAmount :=
  if v ≥ 0 then ⟨{}, v.toUInt64, 0, true, false⟩ else ⟨{}, (-v).toUInt64, 0, true, true⟩

def zeroed (a : STAmount) : STAmount := zeroOf a.mIssue

def amountFromRate (rate : UInt64) : Except Fault STAmount := ofIssue noIssue rate (-9) false

def clear (a : STAmount) : STAmount :=
  { a with mOffset := if a.mIsNative then 0 else -100, mValue := 0, mIsNegative := false }

def setIssue (a : STAmount) (issue : Issue) : STAmount :=
  { a with mIssue := issue, mIsNative := isSWT issue.currency }

def clearIssue (a : STAmount) (issue : Issue) : STAmount := (a.setIssue issue).clear

def setIssuer (a : STAmount) (issuer : Account) : STAmount :=
  a.setIssue { a.mIssue with account := issuer }

def negate (a : STAmount) : STAmount :=
  if a.isZero then a else { a with mIsNegative := !a.mIsNegative }

/-- Unary minus. -/
def neg (a : STAmount) : STAmount :=
  if a.mValue = 0 then a else { a with mIsNegative := !a.mIsNegative }

def getSNValue (a : STAmount) : Except Fault Int64 :=
  if !a.mIsNative then .error (.runtimeError "amount is not native!")
  else
    let ret := a.mValue.toInt64
    .ok (if a.mIsNegative then -ret else ret)

def isComparable (a t : STAmount) : Bool :=
  if a.mIsNative then t.mIsNative
  else if t.mIsNative then false
  else a.getCurrency == t.getCurrency

def throwComparable (a t : STAmount) : Except Fault Unit :=
  if a.isComparable t then .ok () else .error (.runtimeError "amounts are not comparable")

/-- The signed mantissa, divided by ten until its exponent has grown to `offset`. -/
def scaled (a : STAmount) (offset : Int) : Int64 :=
  let v := a.mValue.toInt64
  (fun v : Int64 => v / 10)^[(offset - a.mOffset).toNat] (if a.mIsNegative then -v else v)

/-- The tail of `operator+` and `operator-` for issued amounts. -/
def ofSum (issue : Issue) (fv : Int64) (offset : Int) : Except Fault STAmount :=
  if fv ≥ -10 ∧ fv ≤ 10 then .ok (zeroOf issue)
  else if fv ≥ 0 then ofIssue issue fv.toUInt64 offset false
  else ofIssue issue (-fv).toUInt64 offset true

def add (v1 v2 : STAmount) : Except Fault STAmount := do
  throwComparable v1 v2
  if v2.isZero then return v1
  if v1.isZero then return ← ofIssue v1.mIssue v2.mValue v2.mOffset v2.mIsNegative
  if v1.mIsNative then
    let n1 ← getSNValue v1
    let n2 ← getSNValue v2
    return ofInt64 (n1 + n2)
  let offset := max v1.mOffset v2.mOffset
  ofSum v1.mIssue (v1.scaled offset + v2.scaled offset) offset

def sub (v1 v2 : STAmount) : Except Fault STAmount := do
  throwComparable v1 v2
  if v2.isZero then return v1
  if v2.mIsNative then
    let n1 ← getSNValue v1
    let n2 ← getSNValue v2
    return createFromInt64 (n1 - n2)
  let offset := max v1.mOffset v2.mOffset
  ofSum v1.mIssue (v1.scaled offset - v2.scaled offset) offset

def compare (lhs rhs : STAmount) : Int :=
  if lhs.mIsNegative != rhs.mIsNegative then if lhs.mIsNegative then -1 else 1
  else if lhs.mValue = 0 then
    if rhs.mIsNegative then 1 else if rhs.mValue ≠ 0 then -1 else 0
  else if rhs.mValue = 0 then 1
  else if lhs.mOffset > rhs.mOffset then if lhs.mIsNegative then -1 else 1
  else if lhs.mOffset < rhs.mOffset then if lhs.mIsNegative then 1 else -1
  else if lhs.mValue > rhs.mValue then if lhs.mIsNegative then -1 else 1
  else if lhs.mValue < rhs.mValue then if lhs.mIsNegative then 1 else -1
  else 0

/-- `operator==`. -/
def eqv (lhs rhs : STAmount) : Bool :=
  lhs.isComparable rhs && lhs.mIsNegative == rhs.mIsNegative && lhs.mOffset == rhs.mOffset &&
    lhs.mValue == rhs.mValue

def compareWith (test : Int → Bool) (lhs rhs : STAmount) : Except Fault Bool := do
  throwComparable lhs rhs
  return test (compare lhs rhs)

def lt : STAmount → STAmount → Except Fault Bool := compareWith fun c => decide (c < 0)

def gt : STAmount → STAmount → Except Fault Bool := compareWith fun c => decide (c > 0)

def le : STAmount → STAmount → Except Fault Bool := compareWith fun c => decide (c ≤ 0)

def ge : STAmount → STAmount → Except Fault Bool := compareWith fun c => decide (c ≥ 0)

/-- `operator< (STAmount const&, uint64_t)`, for native amounts only. -/
def ltNative (lhs : STAmount) (rhs : UInt64) : Except Fault Bool := do
  let n ← getSNValue lhs
  return decide (n < rhs.toInt64)

def subNative (lhs : STAmount) (rhs : UInt64) : Except Fault STAmount := do
  let n ← getSNValue lhs
  return ofInt64 (n - rhs.toInt64)

def addNative (lhs : STAmount) (rhs : UInt64) : Except Fault STAmount := do
  let n ← getSNValue lhs
  return ofInt64 (n + rhs.toInt64)

def isLegalNet (a : STAmount) : Bool := !a.mIsNative || a.mValue ≤ cMaxNativeN

def isDefault (a : STAmount) : Bool := a.mValue == 0 && a.mIsNative

/-- `while (value < cMinValue) value *= 10`, for the native operand of a product;
a nonzero value needs at most fifteen steps. -/
def nativeMantissa : Nat → UInt64 → Int → UInt64 × Int
  | 0, value, offset => (value, offset)
  | steps + 1, value, offset =>
    if value < cMinValue then nativeMantissa steps (value * 10) (offset - 1) else (value, offset)

def operand (a : STAmount) : UInt64 × Int :=
  if a.mIsNative then nativeMantissa 15 a.mValue a.mOffset else (a.mValue, a.mOffset)

/-- `CBigNum::getuint64`: `BN_get_word` answers all ones for a number that does not fit. -/
def getuint64 (v : Nat) : UInt64 := if v < 2 ^ 64 then UInt64.ofNat v else UInt64.ofNat (2 ^ 64 - 1)

def multiply (v1 v2 : STAmount) (issue : Issue) : Except Fault STAmount := do
  if v1.isZero || v2.isZero then return zeroOf issue
  if v1.mIsNative && v2.mIsNative && isSWT issue.currency then
    let n1 ← getSNValue v1
    let n2 ← getSNValue v2
    let minV := (if n1 < n2 then n1 else n2).toUInt64
    let maxV := (if n1 < n2 then n2 else n1).toUInt64
    if minV > 3000000000 then throw (.runtimeError "Native value overflow")
    if (maxV >>> 32) * minV > 2095475792 then throw (.runtimeError "Native value overflow")
    return ⟨{}, minV * maxV, 0, true, false⟩
  let (value1, offset1) := v1.operand
  let (value2, offset2) := v2.operand
  let v := value1.toNat * value2.toNat / 10 ^ 14
  ofIssue issue (getuint64 v + 7) (offset1 + offset2 + 14) (v1.mIsNegative != v2.mIsNegative)

def dropZeros (text : List Char) : List Char := text.dropWhile (· == '0')

/-- `getText`. The digits around the point are cut out of the mantissa padded
with 27 zeros before and 23 after. -/
def getText (a : STAmount) : List Char :=
  if a.isZero then ['0']
  else
    let raw := Nat.toDigits 10 a.mValue.toNat
    let sign := if a.mIsNegative then ['-'] else []
    let scientific := a.mOffset ≠ 0 ∧ (a.mOffset < -25 ∨ a.mOffset > -5)
    if a.mIsNative ∨ scientific then
      sign ++ raw ++ if scientific then 'e' :: (toString a.mOffset).toList else []
    else
      let val := List.replicate 27 '0' ++ raw ++ List.replicate 23 '0'
      let offset := (a.mOffset + 43).toNat
      let pre := dropZeros (val.take offset)
      let post := (dropZeros (val.drop offset).reverse).reverse
      sign ++ (if pre.isEmpty then ['0'] else pre) ++
        if post.isEmpty then [] else '.' :: post

end STAmount

/-- `boost::lexical_cast<std::uint32_t>`: an optional sign and digits; a minus
sign negates modulo 2^32. -/
def lexicalCastU32 (text : List Char) : Except Fault UInt32 :=
  let digits := match text with
    | '-' :: rest => rest
    | '+' :: rest => rest
    | _ => text
  let value := digits.foldl (fun n c => 10 * n + (c.toNat - '0'.toNat)) 0
  if digits.isEmpty || !digits.all Char.isDigit || value ≥ 2 ^ 32 then
    .error (.runtimeError "bad lexical cast")
  else if text.head? = some '-' then .ok (-UInt32.ofNat value)
  else .ok (UInt32.ofNat value)

end Skywell
