import JingtumCore.BigEndian
import JingtumCore.ExceptFold
import JingtumCore.STAmount

/-!
# Serializer

Numbers of a fixed width, length prefixes and field identifiers on the wire. A
`SerialIter` is the bytes that are left.
-/
namespace BigEndian

/-- A number in `width` bytes. -/
def toBytes : Nat → Nat → List UInt8
  | 0, _ => []
  | width + 1, n => toBytes width (n / 256) ++ [UInt8.ofNat n]

@[simp] theorem toBytes_length (width n : Nat) : (toBytes width n).length = width := by
  induction width generalizing n with
  | zero => rfl
  | succ width ih => simp [toBytes, ih]

theorem bin2bn_concat (bytes : List UInt8) (b : UInt8) :
    bin2bn (bytes ++ [b]) = 256 * bin2bn bytes + b.toNat := by
  simp [bin2bn]

theorem bin2bn_toBytes {width n : Nat} (h : n < 256 ^ width) : bin2bn (toBytes width n) = n := by
  induction width generalizing n with
  | zero =>
    obtain rfl : n = 0 := by simpa using h
    rfl
  | succ width ih =>
    have shorter : n / 256 < 256 ^ width := by
      rw [Nat.div_lt_iff_lt_mul (by decide)]
      exact h
    rw [toBytes, bin2bn_concat, ih shorter, UInt8.toNat_ofNat']
    omega

theorem toBytes_bin2bn (bytes : List UInt8) : toBytes bytes.length (bin2bn bytes) = bytes := by
  induction bytes using List.reverseRecOn with
  | nil => rfl
  | append_singleton bytes b ih =>
    have byte := b.toNat_lt
    have quotient : (256 * bin2bn bytes + b.toNat) / 256 = bin2bn bytes := by omega
    have last : UInt8.ofNat (256 * bin2bn bytes + b.toNat) = b := by
      apply UInt8.toNat_inj.1
      rw [UInt8.toNat_ofNat']
      omega
    rw [List.length_append, List.length_singleton, bin2bn_concat, toBytes, quotient, ih, last]

end BigEndian

namespace Skywell
open BigEndian ExceptFold

abbrev SerialIter := List UInt8

namespace SerialIter

/-- `getRaw`. -/
def getRaw (size : Nat) (sit : SerialIter) : Except Fault (List UInt8 × SerialIter) :=
  if sit.length < size then .error (.runtimeError "invalid SerialIter getRaw")
  else .ok (sit.take size, sit.drop size)

/-- `get8` to `get64` and `getBitString`: a number of `width` bytes. -/
def getNumber (width : Nat) (sit : SerialIter) : Except Fault (Nat × SerialIter) := do
  let (bytes, sit) ← getRaw width sit
  return (bin2bn bytes, sit)

theorem getRaw_append (bytes rest : List UInt8) :
    getRaw bytes.length (bytes ++ rest) = .ok (bytes, rest) := by
  simp [getRaw]

theorem getRaw_eq_ok {size : Nat} {sit rest : SerialIter} {bytes : List UInt8}
    (h : getRaw size sit = .ok (bytes, rest)) : sit = bytes ++ rest ∧ bytes.length = size := by
  unfold getRaw at h
  split at h
  · cases h
  · rename_i enough
    cases h
    refine ⟨(List.take_append_drop size sit).symm, ?_⟩
    rw [List.length_take]
    omega

theorem getNumber_append {width n : Nat} (h : n < 256 ^ width) (rest : List UInt8) :
    getNumber width (toBytes width n ++ rest) = .ok (n, rest) := by
  have raw := getRaw_append (toBytes width n) rest
  rw [toBytes_length] at raw
  rw [getNumber, raw]
  change Except.ok (bin2bn (toBytes width n), rest) = _
  rw [bin2bn_toBytes h]

theorem getNumber_eq_ok {width n : Nat} {sit rest : SerialIter}
    (h : getNumber width sit = .ok (n, rest)) :
    sit = toBytes width n ++ rest ∧ n < 256 ^ width := by
  obtain ⟨⟨bytes, rest'⟩, raw, h⟩ := bind_eq_ok.1 h
  cases h
  obtain ⟨whole, rfl⟩ := getRaw_eq_ok raw
  rw [toBytes_bin2bn]
  exact ⟨whole, bin2bn_lt bytes⟩

end SerialIter

/-- `addEncoded`. -/
def addEncoded (length : Nat) : Except Fault (List UInt8) :=
  if length ≤ 192 then .ok [UInt8.ofNat length]
  else if length ≤ 12480 then
    let length := length - 193
    .ok [193 + UInt8.ofNat (length / 256), UInt8.ofNat length]
  else if length ≤ 918744 then
    let length := length - 12481
    .ok [241 + UInt8.ofNat (length / 65536), UInt8.ofNat (length / 256), UInt8.ofNat length]
  else .error (.runtimeError "lenlen")

/-- `getVLDataLength`. -/
def SerialIter.getVLDataLength (sit : SerialIter) : Except Fault (Nat × SerialIter) := do
  let (b1, sit) ← getNumber 1 sit
  if b1 ≤ 192 then return (b1, sit)
  else if b1 ≤ 240 then
    let (b2, sit) ← getNumber 1 sit
    return (193 + (b1 - 193) * 256 + b2, sit)
  else if b1 ≤ 254 then
    let (b2, sit) ← getNumber 1 sit
    let (b3, sit) ← getNumber 1 sit
    return (12481 + (b1 - 241) * 65536 + b2 * 256 + b3, sit)
  else throw (.runtimeError "b1>254")

/-- `addVL`. -/
def addVL (bytes : List UInt8) : Except Fault (List UInt8) := do
  let encoded ← addEncoded bytes.length
  return encoded ++ bytes

/-- `getVL` and `getVLBuffer`. -/
def SerialIter.getVL (sit : SerialIter) : Except Fault (List UInt8 × SerialIter) := do
  let (length, sit) ← getVLDataLength sit
  getRaw length sit

variable {bytes encoded : List UInt8} {n : Nat}

theorem SerialIter.getNumber_cons (b : UInt8) (rest : List UInt8) :
    getNumber 1 (b :: rest) = .ok (b.toNat, rest) := by
  simp [getNumber, getRaw, bin2bn]

theorem toNat_ofNat_of_lt (h : n < 256) : (UInt8.ofNat n).toNat = n := by
  exact Nat.mod_eq_of_lt h

theorem toNat_marker (marker : UInt8) (h : marker.toNat + n < 256) :
    (marker + UInt8.ofNat n).toNat = marker.toNat + n := by
  rw [UInt8.toNat_add, toNat_ofNat_of_lt (by omega)]
  exact Nat.mod_eq_of_lt h

theorem SerialIter.getVLDataLength_append {length : Nat} (h : addEncoded length = .ok encoded)
    (rest : List UInt8) : getVLDataLength (encoded ++ rest) = .ok (length, rest) := by
  unfold addEncoded at h
  split at h
  · rename_i short
    cases h
    simp only [getVLDataLength, List.singleton_append, getNumber_cons, ok_bind,
      toNat_ofNat_of_lt (by omega : length < 256), if_pos short]
    rfl
  rename_i long
  split at h
  · cases h
    obtain ⟨n, rfl⟩ : ∃ n, length = 193 + n := Nat.exists_eq_add_of_le (by omega)
    have first : (193 + UInt8.ofNat (n / 256)).toNat = 193 + n / 256 :=
      toNat_marker 193 (by change 193 + n / 256 < 256; omega)
    have second : (UInt8.ofNat n).toNat = n % 256 := UInt8.toNat_ofNat'
    simp only [Nat.add_sub_cancel_left, List.cons_append, getVLDataLength,
      getNumber_cons, ok_bind, first, second]
    rw [if_neg (by omega), if_pos (by omega), Nat.add_assoc, Nat.div_add_mod']
    rfl
  rename_i long'
  split at h
  · cases h
    obtain ⟨n, rfl⟩ : ∃ n, length = 12481 + n := Nat.exists_eq_add_of_le (by omega)
    have first : (241 + UInt8.ofNat (n / 65536)).toNat = 241 + n / 65536 :=
      toNat_marker 241 (by change 241 + n / 65536 < 256; omega)
    have second : (UInt8.ofNat (n / 256)).toNat = n / 256 % 256 := UInt8.toNat_ofNat'
    have third : (UInt8.ofNat n).toNat = n % 256 := UInt8.toNat_ofNat'
    have digits : n / 65536 * 65536 + n / 256 % 256 * 256 + n % 256 = n := by omega
    simp only [Nat.add_sub_cancel_left, List.cons_append, List.nil_append, getVLDataLength,
      getNumber_cons, ok_bind, first, second, third]
    rw [if_neg (by omega), if_neg (by omega), if_pos (by omega), Nat.add_assoc, Nat.add_assoc,
      ← Nat.add_assoc (n / 65536 * 65536), digits]
    rfl
  · cases h

theorem SerialIter.getVL_append (h : addVL bytes = .ok encoded) (rest : List UInt8) :
    getVL (encoded ++ rest) = .ok (bytes, rest) := by
  obtain ⟨lengthBytes, hl, h⟩ := bind_eq_ok.1 h
  cases h
  rw [getVL, List.append_assoc, getVLDataLength_append hl]
  exact getRaw_append bytes rest

theorem addVL_of_length (h : bytes.length ≤ 918744) :
    ∃ encoded, addVL bytes = .ok encoded ∧ encoded ≠ [] := by
  unfold addVL addEncoded
  split
  · exact ⟨_, rfl, by simp⟩
  split
  · exact ⟨_, rfl, by simp⟩
  · exact ⟨_, rfl, by simp⟩

/-- `addFieldID`. -/
def addFieldID (type name : Nat) : List UInt8 :=
  if type < 16 then
    if name < 16 then [UInt8.ofNat (type * 16 + name)]
    else [UInt8.ofNat (type * 16), UInt8.ofNat name]
  else if name < 16 then [UInt8.ofNat name, UInt8.ofNat type]
  else [0, UInt8.ofNat type, UInt8.ofNat name]

/-- `getFieldID`. -/
def SerialIter.getFieldID (sit : SerialIter) : Except Fault ((Nat × Nat) × SerialIter) := do
  let (first, sit) ← getNumber 1 sit
  let (type, sit) ← if first / 16 = 0 then getNumber 1 sit else pure (first / 16, sit)
  if first / 16 = 0 && type < 16 then throw (.runtimeError "gFID: uncommon type out of range")
  let (name, sit) ← if first % 16 = 0 then getNumber 1 sit else pure (first % 16, sit)
  if first % 16 = 0 && name < 16 then throw (.runtimeError "gFID: uncommon name out of range")
  return ((type, name), sit)

theorem addFieldID_ne_nil (type name : Nat) : addFieldID type name ≠ [] := by
  unfold addFieldID
  split
  · split
    · simp
    · simp
  · split
    · simp
    · simp

/-- A field identifier that is written is read back. -/
theorem SerialIter.getFieldID_append {type name : Nat} (ht : 0 < type) (ht' : type < 256)
    (hn : 0 < name) (hn' : name < 256) (rest : List UInt8) :
    getFieldID (addFieldID type name ++ rest) = .ok ((type, name), rest) := by
  have byte {n : Nat} (h : n < 256) : (UInt8.ofNat n).toNat = n := by
    rw [UInt8.toNat_ofNat']
    omega
  unfold addFieldID getFieldID
  split
  · rename_i common
    split
    · rename_i common'
      have high : (type * 16 + name) / 16 = type := by omega
      have low : (type * 16 + name) % 16 = name := by omega
      simp only [List.singleton_append, getNumber_cons, ok_bind, byte (by omega : type * 16 + name < 256),
        high, low, ht.ne', hn.ne']
      rfl
    · rename_i uncommon'
      have high : type * 16 / 16 = type := by omega
      have low : type * 16 % 16 = 0 := by omega
      have large : ¬ name < 16 := by omega
      simp only [List.cons_append, getNumber_cons, ok_bind, pure_bind,
        byte (by omega : type * 16 < 256), byte hn', high, low, ht.ne', large]
      rfl
  · rename_i uncommon
    have large : ¬ type < 16 := by omega
    split
    · rename_i common'
      have high : name / 16 = 0 := by omega
      have low : name % 16 = name := by omega
      simp only [List.cons_append, getNumber_cons, ok_bind, byte ht', byte hn', high,
        low, hn.ne', large]
      rfl
    · rename_i uncommon'
      have large' : ¬ name < 16 := by omega
      have zero : (0 : UInt8).toNat = 0 := rfl
      simp only [List.cons_append, getNumber_cons, ok_bind, byte ht', byte hn', large, large',
        decide_false, Bool.and_false]
      rfl

end Skywell
