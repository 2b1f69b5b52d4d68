import JingtumCore.SHAMapTree

/-!
# The codec of node objects

`nodeobject_compress` writes the hashes of an inner node that are not zero behind a mask, and
leaves every other object to LZ4.
-/
namespace Skywell.NodeStore
open BigEndian

/-- LZ4 and the varints before the data, which are taken to be right. -/
structure Coders where
  lz4_compress : List UInt8 → List UInt8
  lz4_decompress : List UInt8 → Except String (List UInt8)
  write_varint : Nat → List UInt8
  read_varint : List UInt8 → Option (Nat × List UInt8)
  lz4 : ∀ x, lz4_decompress (lz4_compress x) = .ok x
  varint : ∀ type < 4, ∀ rest, read_varint (write_varint type ++ rest) = some (type, rest)

/-- The object has the size and the prefix of an inner node. -/
def isInner (x : List UInt8) : Bool :=
  x.length = 525 && (x.drop 9).take 4 = SHAMapTree.hashPrefix 'M' 'I' 'N'

def filter_inner (x : List UInt8) : List UInt8 :=
  if isInner x then .replicate 9 0 ++ x.drop 9 else x

def zero32 : List UInt8 := .replicate 32 0

/-- The mask of the hashes that are not zero, with the highest bit for the first, and those
hashes. -/
def packHashes : Nat → List UInt8 → Nat × List (List UInt8)
  | 0, _ => (0, [])
  | bit + 1, is =>
    let rest := packHashes bit (is.drop 32)
    if is.take 32 = zero32 then rest else (2 ^ bit ||| rest.1, is.take 32 :: rest.2)

def nodeobject_compress (c : Coders) (x : List UInt8) : List UInt8 :=
  if isInner x then
    let packed := packHashes 16 (x.drop 13)
    if packed.2.length < 16 then c.write_varint 2 ++ (toBytes 2 packed.1 ++ packed.2.flatten)
    else c.write_varint 3 ++ packed.2.flatten
  else c.write_varint 1 ++ c.lz4_compress x

def unpackHashes (mask : Nat) : Nat → List UInt8 → Except String (List UInt8)
  | 0, is => if is.length > 0 then throw "nodeobject codec: long inner node" else return []
  | bit + 1, is => do
    if mask.testBit bit then
      if is.length < 32 then throw "nodeobject codec: short inner node"
      return is.take 32 ++ (← unpackHashes mask bit (is.drop 32))
    else return zero32 ++ (← unpackHashes mask bit is)

def nodeobject_decompress (c : Coders) (is : List UInt8) : Except String (List UInt8) :=
  let start := .replicate 9 0 ++ SHAMapTree.hashPrefix 'M' 'I' 'N'
  match c.read_varint is with
  | none => throw "nodeobject decompress"
  | some (0, p) => return p
  | some (1, p) => c.lz4_decompress p
  | some (2, p) => do
    if p.length < 2 + 32 then throw "nodeobject codec: short inner node"
    let mask := bin2bn (p.take 2)
    if mask = 0 then throw "nodeobject codec: empty inner node"
    return start ++ (← unpackHashes mask 16 (p.drop 2))
  | some (3, p) => do
    if p.length ≠ 16 * 32 then throw "nodeobject codec: short full inner node"
    return start ++ p
  | some (type, _) => throw ("nodeobject codec: bad type=" ++ toString type)

theorem packHashes_lt (bit : Nat) (is : List UInt8) : (packHashes bit is).1 < 2 ^ bit := by
  induction bit generalizing is with
  | zero => exact Nat.one_pos
  | succ bit ih =>
    have more : 2 ^ bit < 2 ^ (bit + 1) := Nat.pow_lt_pow_succ Nat.one_lt_two
    simp only [packHashes]
    split
    · exact (ih _).trans more
    · exact Nat.or_lt_two_pow more ((ih _).trans more)

variable {bit : Nat} {is : List UInt8}

/-- Nothing is lost if no hash is zero, and only zeros are lost if none is left. -/
theorem packHashes_spec (size : is.length = 32 * bit) :
    (packHashes bit is).2.flatten.length = 32 * (packHashes bit is).2.length ∧
    (packHashes bit is).2.length ≤ bit ∧
    ((packHashes bit is).2.length = bit → (packHashes bit is).2.flatten = is) ∧
    ((packHashes bit is).1 = 0 ∨ (packHashes bit is).2 = [] → is = .replicate (32 * bit) 0) := by
  induction bit generalizing is with
  | zero => simp_all [packHashes]
  | succ bit ih =>
    have rest : (is.drop 32).length = 32 * bit := by simp; omega
    obtain ⟨length, most, full, empty⟩ := ih rest
    have both := List.take_append_drop 32 is
    simp only [packHashes]
    split
    · next zero =>
      refine ⟨length, by omega, fun all => by omega, fun none => ?_⟩
      rw [← both, zero, empty none, zero32, List.replicate_append_replicate]
      congr 1
      omega
    · refine ⟨?_, by simpa using most, fun all => ?_, by simp⟩
      · simp [length]
        omega
      · rw [List.flatten_cons, full (by simpa using all), both]

/-- The hashes are read back with any mask that has the same bits for them. -/
theorem unpackHashes_packHashes (size : is.length = 32 * bit) {mask : Nat}
    (same : ∀ j < bit, mask.testBit j = (packHashes bit is).1.testBit j) :
    unpackHashes mask bit (packHashes bit is).2.flatten = .ok is := by
  induction bit generalizing is with
  | zero =>
    obtain rfl : is = [] := by simpa using size
    rfl
  | succ bit ih =>
    have rest : (is.drop 32).length = 32 * bit := by simp; omega
    have both := List.take_append_drop 32 is
    have first : (is.take 32).length = 32 := by simp [size]
    simp only [packHashes] at same ⊢
    have here := same bit (Nat.lt_succ_self bit)
    by_cases zero : is.take 32 = zero32
    · rw [if_pos zero] at same here ⊢
      rw [Nat.testBit_lt_two_pow (packHashes_lt bit _)] at here
      rw [unpackHashes, if_neg (by simp [here]), ih rest fun j lt => same j (by omega)]
      exact congrArg Except.ok (zero ▸ both)
    · rw [if_neg zero] at same here ⊢
      have agree : ∀ j < bit, mask.testBit j = (packHashes bit (is.drop 32)).1.testBit j := by
        intro j lt
        rw [same j (by omega), Nat.testBit_or, Nat.testBit_two_pow_of_ne (by omega), Bool.false_or]
      rw [Nat.testBit_or, Nat.testBit_two_pow_self, Bool.true_or] at here
      rw [List.flatten_cons, unpackHashes, if_pos here, if_neg (by simp [size]),
        List.take_left' first, List.drop_left' first, ih rest agree]
      exact congrArg Except.ok both

/-- What was compressed is read back, up to what `filter_inner` erases. -/
theorem nodeobject_decompress_compress (c : Coders) (x : List UInt8)
    (nonzero : ¬(isInner x = true ∧ x.drop 13 = .replicate 512 0)) :
    nodeobject_decompress c (nodeobject_compress c x) = .ok (filter_inner x) := by
  unfold nodeobject_compress filter_inner
  cases inner : isInner x with
  | false => simp [nodeobject_decompress, c.varint, c.lz4]
  | true =>
    obtain ⟨size, hash⟩ : x.length = 525 ∧
        (x.drop 9).take 4 = SHAMapTree.hashPrefix 'M' 'I' 'N' := by simpa [isInner] using inner
    have hashes : (x.drop 13).length = 32 * 16 := by simp [size]
    have whole : SHAMapTree.hashPrefix 'M' 'I' 'N' ++ x.drop 13 = x.drop 9 := by
      have both := List.take_append_drop 4 (x.drop 9)
      rwa [hash, List.drop_drop] at both
    obtain ⟨length, most, full, empty⟩ := packHashes_spec hashes
    obtain ⟨some_, some'⟩ := not_or.1 fun none => nonzero ⟨inner, empty none⟩
    have back := unpackHashes_packHashes hashes fun _ _ => rfl
    have short := packHashes_lt 16 (x.drop 13)
    generalize packHashes 16 (x.drop 13) = packed at *
    rw [if_pos rfl, ← whole]
    by_cases few : packed.2.length < 16
    · have more := List.length_pos_iff.2 some'
      simp only [if_pos few, nodeobject_decompress, c.varint 2 (by decide)]
      rw [if_neg (by rw [List.length_append, toBytes_length]; omega),
        List.take_left' (toBytes_length 2 _), List.drop_left' (toBytes_length 2 _),
        bin2bn_toBytes short, if_neg some_, back]
      rfl
    · simp only [if_neg few, nodeobject_decompress, c.varint 3 (by decide)]
      rw [full (by omega), if_neg (by simp [size])]
      rfl

/-- Coders that copy. -/
def plainCoders : Coders where
  lz4_compress x := x
  lz4_decompress x := .ok x
  write_varint type := [.ofNat type]
  read_varint
    | [] => none
    | type :: rest => some (type.toNat, rest)
  lz4 _ := rfl
  varint type small rest := by
    have byte : (UInt8.ofNat type).toNat = type :=
      UInt8.toNat_ofNat_of_lt' (small.trans (by decide))
    simp [byte]

/-- An inner node with one hash. -/
theorem nodeobject_decompress_compress_one :
    let x := .replicate 9 1 ++ SHAMapTree.hashPrefix 'M' 'I' 'N' ++ .replicate 480 0 ++
      .replicate 32 5
    nodeobject_decompress plainCoders (nodeobject_compress plainCoders x) = .ok (filter_inner x) :=
  nodeobject_decompress_compress plainCoders _ (by decide +kernel)

end Skywell.NodeStore
