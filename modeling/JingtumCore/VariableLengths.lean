import JingtumCore.Serializer

/-!
# Fields of variable length

`Serializer::getVL` and `Serializer::getVLLength` read the length at the start of a field that
`addVL` writes, as `SerialIter::getVL` does. The first byte says in how many bytes the length is
written; the longest length that can be read so is above the longest that is written.
-/
namespace Skywell
open ExceptFold

namespace Serializer

/-- `get8`; `none` stands for false, here and below. -/
def get8 (mData : List UInt8) (offset : Nat) : Option Nat := mData[offset]?.map UInt8.toNat

def getRaw (mData : List UInt8) (offset length : Nat) : Option (List UInt8) :=
  if offset + length > mData.length then none else some ((mData.drop offset).take length)

def decodeLengthLength (b1 : Nat) : Except Fault Nat :=
  if b1 ≤ 192 then .ok 1
  else if b1 ≤ 240 then .ok 2
  else if b1 ≤ 254 then .ok 3
  else .error (.runtimeError "b1>254")

theorem decodeLengthLength_two {b1 : Nat} (low : 192 < b1) (high : b1 ≤ 240) :
    decodeLengthLength b1 = .ok 2 := by
  rw [decodeLengthLength, if_neg (by omega), if_pos high]

theorem decodeLengthLength_three {b1 : Nat} (low : 240 < b1) (high : b1 ≤ 254) :
    decodeLengthLength b1 = .ok 3 := by
  rw [decodeLengthLength, if_neg (by omega), if_neg (by omega), if_pos high]

/-- `decodeVLLength (b1)`. -/
def decodeVLLength1 (b1 : Nat) : Except Fault Nat :=
  if b1 > 254 then .error (.runtimeError "b1>254") else .ok b1

/-- `decodeVLLength (b1, b2)`. -/
def decodeVLLength2 (b1 b2 : Nat) : Except Fault Nat :=
  if b1 < 193 then .error (.runtimeError "b1<193")
  else if b1 > 240 then .error (.runtimeError "b1>240")
  else .ok (193 + (b1 - 193) * 256 + b2)

/-- `decodeVLLength (b1, b2, b3)`. -/
def decodeVLLength3 (b1 b2 b3 : Nat) : Except Fault Nat :=
  if b1 < 241 then .error (.runtimeError "b1<241")
  else if b1 > 254 then .error (.runtimeError "b1>254")
  else .ok (12481 + (b1 - 241) * 65536 + b2 * 256 + b3)

/-- The part that `getVL` and `getVLLength` have in common: the length, in how many bytes it is
written, and the offset after it. What is thrown in the `try` block becomes false; the first byte
is looked at before it. -/
def decodeLength (mData : List UInt8) (offset : Nat) : Except Fault (Option (Nat × Nat × Nat)) :=
  match get8 mData offset with
  | none => .ok none
  | some b1 => do
    let lenLen ← decodeLengthLength b1
    if lenLen = 1 then
      return (decodeVLLength1 b1).toOption.map (·, lenLen, offset + 1)
    else if lenLen = 2 then
      match get8 mData (offset + 1) with
      | none => return none
      | some b2 => return (decodeVLLength2 b1 b2).toOption.map (·, lenLen, offset + 2)
    else if lenLen = 3 then
      match get8 mData (offset + 1), get8 mData (offset + 2) with
      | some b2, some b3 => return (decodeVLLength3 b1 b2 b3).toOption.map (·, lenLen, offset + 3)
      | _, _ => return none
    else return none

/-- The field and the number of bytes it takes. -/
def getVL (mData : List UInt8) (offset : Nat) : Except Fault (Option (List UInt8 × Nat)) := do
  match ← decodeLength mData offset with
  | none => return none
  | some (datLen, lenLen, offset) => return (getRaw mData offset datLen).map (·, lenLen + datLen)

def getVLLength (mData : List UInt8) (offset : Nat) : Except Fault (Option Nat) := do
  return (← decodeLength mData offset).map (·.1)

end Serializer

/-- The first `k` bytes are there and say that `n` bytes follow. -/
inductive Announces : List UInt8 → Nat → Nat → Prop
  | one {b1 : UInt8} {rest : List UInt8} (short : b1.toNat ≤ 192) :
      Announces (b1 :: rest) 1 b1.toNat
  | two {b1 b2 : UInt8} {rest : List UInt8} (low : 192 < b1.toNat) (high : b1.toNat ≤ 240) :
      Announces (b1 :: b2 :: rest) 2 (193 + (b1.toNat - 193) * 256 + b2.toNat)
  | three {b1 b2 b3 : UInt8} {rest : List UInt8} (low : 240 < b1.toNat) (high : b1.toNat ≤ 254) :
      Announces (b1 :: b2 :: b3 :: rest) 3
        (12481 + (b1.toNat - 241) * 65536 + b2.toNat * 256 + b3.toNat)

/-- A field that was written, and whatever follows it. -/
def Encoded (bytes : List UInt8) : Prop :=
  ∃ blob encoded rest, addVL blob = .ok encoded ∧ bytes = encoded ++ rest

/-- The field is all there, and longer than any that is written. -/
def Overlong (bytes : List UInt8) : Prop :=
  ∃ k n, Announces bytes k n ∧ 918744 < n ∧ k + n ≤ bytes.length

/-- The length is there, and the field is not. -/
def CutOff (bytes : List UInt8) : Prop := ∃ k n, Announces bytes k n ∧ bytes.length < k + n

variable {bytes blob rest : List UInt8} {k n : Nat}

namespace Announces

theorem getVLDataLength (h : Announces bytes k n) :
    SerialIter.getVLDataLength bytes = .ok (n, bytes.drop k) := by
  cases h with
  | one short =>
    simp only [SerialIter.getVLDataLength, SerialIter.getNumber_cons, ok_bind]
    rw [if_pos short]
    rfl
  | two low high =>
    simp only [SerialIter.getVLDataLength, SerialIter.getNumber_cons, ok_bind]
    rw [if_neg (by omega), if_pos high]
    rfl
  | three low high =>
    simp only [SerialIter.getVLDataLength, SerialIter.getNumber_cons, ok_bind]
    rw [if_neg (by omega), if_neg (by omega), if_pos high]
    rfl

theorem length_le (h : Announces bytes k n) : k ≤ bytes.length := by
  cases h <;> simp

theorem unique (h : Announces bytes k n) {k' n' : Nat} (h' : Announces bytes k' n') :
    k = k' ∧ n = n' := by
  have same := h.getVLDataLength.symm.trans h'.getVLDataLength
  have lengths := congrArg List.length (congrArg Prod.snd (Except.ok.inj same))
  have enough := h.length_le
  have enough' := h'.length_le
  rw [List.length_drop, List.length_drop] at lengths
  exact ⟨by omega, congrArg Prod.fst (Except.ok.inj same)⟩

/-- A length that can be written is written in the bytes that announce it. -/
theorem addEncoded (h : Announces bytes k n) (short : n ≤ 918744) :
    Skywell.addEncoded n = .ok (bytes.take k) := by
  have byte {b : UInt8} {m : Nat} (same : m % 256 = b.toNat) : UInt8.ofNat m = b := by
    rw [← UInt8.toNat_inj, UInt8.toNat_ofNat', same]
  have marker {b c : UInt8} {m : Nat} (same : c.toNat + m = b.toNat) : c + UInt8.ofNat m = b := by
    rw [← UInt8.toNat_inj, toNat_marker c (same ▸ b.toNat_lt), same]
  cases h with
  | @one b1 _ one =>
    rw [Skywell.addEncoded, if_pos one, byte (Nat.mod_eq_of_lt b1.toNat_lt)]
    rfl
  | @two b1 b2 _ low high =>
    have lt := b2.toNat_lt
    rw [Skywell.addEncoded, if_neg (by omega), if_pos (by omega)]
    dsimp only
    rw [marker (b := b1) (by change 193 + _ = _; omega), byte (b := b2) (by omega)]
    rfl
  | @three b1 b2 b3 _ low high =>
    have lt2 := b2.toNat_lt
    have lt3 := b3.toNat_lt
    rw [Skywell.addEncoded, if_neg (by omega), if_neg (by omega), if_pos short]
    dsimp only
    rw [marker (b := b1) (by change 241 + _ = _; omega), byte (b := b2) (by omega),
      byte (b := b3) (by omega)]
    rfl

end Announces

theorem get8_append (before bytes : List UInt8) (i : Nat) :
    Serializer.get8 (before ++ bytes) (before.length + i) = bytes[i]?.map UInt8.toNat := by
  rw [Serializer.get8, List.getElem?_append_right (by omega), Nat.add_sub_cancel_left]

theorem Announces.decodeLength (h : Announces bytes k n) (before : List UInt8) :
    Serializer.decodeLength (before ++ bytes) before.length =
      .ok (some (n, k, before.length + k)) := by
  have at0 := get8_append before bytes 0
  have at1 := get8_append before bytes 1
  have at2 := get8_append before bytes 2
  rw [Nat.add_zero] at at0
  rw [Serializer.decodeLength, at0]
  cases h with
  | @one b1 _ short =>
    have lengthLength : Serializer.decodeLengthLength b1.toNat = .ok 1 := if_pos short
    have length : Serializer.decodeVLLength1 b1.toNat = .ok b1.toNat := if_neg (by omega)
    simp only [List.getElem?_cons_zero, Option.map_some, lengthLength, ok_bind, if_true, length]
    rfl
  | @two b1 b2 _ low high =>
    have lengthLength := Serializer.decodeLengthLength_two low high
    have length : Serializer.decodeVLLength2 b1.toNat b2.toNat =
        .ok (193 + (b1.toNat - 193) * 256 + b2.toNat) := by
      rw [Serializer.decodeVLLength2, if_neg (by omega), if_neg (by omega)]
    simp only [List.getElem?_cons_zero, List.getElem?_cons_succ, Option.map_some, lengthLength,
      ok_bind, at1, length]
    rfl
  | @three b1 b2 b3 _ low high =>
    have lengthLength := Serializer.decodeLengthLength_three low high
    have length : Serializer.decodeVLLength3 b1.toNat b2.toNat b3.toNat =
        .ok (12481 + (b1.toNat - 241) * 65536 + b2.toNat * 256 + b3.toNat) := by
      rw [Serializer.decodeVLLength3, if_neg (by omega), if_neg (by omega)]
    simp only [List.getElem?_cons_zero, List.getElem?_cons_succ, Option.map_some, lengthLength,
      ok_bind, at1, at2, length]
    rfl

/-- Where no length is announced the bytes end inside it, or the first of them is 255. -/
theorem decodeLength_of_not_announces (unannounced : ∀ k n, ¬Announces bytes k n) :
    (∃ fault, SerialIter.getVLDataLength bytes = .error fault) ∧
      ∀ before, Serializer.decodeLength (before ++ bytes) before.length =
        if bytes.head? = some 255 then .error (.runtimeError "b1>254") else .ok none := by
  have at0 := fun before => get8_append before bytes 0
  have at1 := fun before => get8_append before bytes 1
  have at2 := fun before => get8_append before bytes 2
  simp only [Nat.add_zero] at at0
  simp only [Serializer.decodeLength, at0]
  cases bytes with
  | nil => exact ⟨⟨_, rfl⟩, fun _ => rfl⟩
  | cons b1 rest =>
    have long : ¬b1.toNat ≤ 192 := fun short => unannounced _ _ (.one short)
    simp only [List.getElem?_cons_zero, Option.map_some, List.head?_cons, Option.some.injEq,
      SerialIter.getVLDataLength, SerialIter.getNumber_cons, ok_bind, if_neg long]
    by_cases two : b1.toNat ≤ 240
    · have lengthLength := Serializer.decodeLengthLength_two (Nat.lt_of_not_le long) two
      have ne : b1 ≠ 255 := by rintro rfl; exact absurd two (by decide)
      cases rest with
      | nil =>
        simp only [if_pos two, if_neg ne, lengthLength, ok_bind, at1]
        exact ⟨⟨_, rfl⟩, fun _ => rfl⟩
      | cons b2 rest => exact absurd (.two (by omega) two) (unannounced _ _)
    by_cases three : b1.toNat ≤ 254
    · have lengthLength := Serializer.decodeLengthLength_three (Nat.lt_of_not_le two) three
      have ne : b1 ≠ 255 := by rintro rfl; exact absurd three (by decide)
      simp only [if_neg two, if_pos three, if_neg ne, lengthLength, ok_bind, at1, at2]
      rcases rest with _ | ⟨b2, _ | ⟨b3, rest⟩⟩
      · exact ⟨⟨_, rfl⟩, fun _ => rfl⟩
      · exact ⟨⟨_, rfl⟩, fun _ => rfl⟩
      · exact absurd (.three (by omega) three) (unannounced _ _)
    · have eq : b1 = 255 := by
        have lt := b1.toNat_lt
        rw [← UInt8.toNat_inj]
        change b1.toNat = 255
        omega
      subst eq
      exact ⟨⟨_, rfl⟩, fun _ => rfl⟩

namespace Announces

theorem serialIter_getVL (h : Announces bytes k n) :
    SerialIter.getVL bytes =
      if bytes.length < k + n then .error (.runtimeError "invalid SerialIter getRaw")
      else .ok ((bytes.drop k).take n, bytes.drop (k + n)) := by
  have enough := h.length_le
  rw [SerialIter.getVL, h.getVLDataLength, ok_bind]
  dsimp only
  rw [SerialIter.getRaw, List.length_drop, List.drop_drop]
  exact if_congr (by omega) rfl rfl

theorem getVL (h : Announces bytes k n) (before : List UInt8) :
    Serializer.getVL (before ++ bytes) before.length =
      .ok (if bytes.length < k + n then none else some ((bytes.drop k).take n, k + n)) := by
  rw [Serializer.getVL, h.decodeLength, ok_bind]
  dsimp only
  rw [Serializer.getRaw, List.length_append]
  by_cases short : bytes.length < k + n
  · rw [if_pos short, if_pos (by omega)]
    rfl
  · rw [if_neg short, if_neg (by omega), List.drop_append, List.drop_eq_nil_of_le (by omega),
      Nat.add_sub_cancel_left]
    rfl

theorem getVLLength (h : Announces bytes k n) (before : List UInt8) :
    Serializer.getVLLength (before ++ bytes) before.length = .ok (some n) := by
  rw [Serializer.getVLLength, h.decodeLength]
  rfl

end Announces

theorem length_le_of_addVL {blob encoded : List UInt8} (h : addVL blob = .ok encoded) :
    blob.length ≤ 918744 := by
  by_contra long
  rw [addVL, addEncoded, if_neg (by omega), if_neg (by omega), if_neg long] at h
  cases h

theorem encoded_iff :
    Encoded bytes ↔ ∃ k n, Announces bytes k n ∧ n ≤ 918744 ∧ k + n ≤ bytes.length := by
  constructor
  · rintro ⟨blob, encoded, rest, added, rfl⟩
    have read := SerialIter.getVL_append added rest
    by_cases announced : ∃ k n, Announces (encoded ++ rest) k n
    · obtain ⟨k, n, h⟩ := announced
      have all : k + n ≤ (encoded ++ rest).length := by
        by_contra short
        rw [h.serialIter_getVL, if_pos (by omega)] at read
        cases read
      rw [h.serialIter_getVL, if_neg (by omega)] at read
      have length : ((List.drop k (encoded ++ rest)).take n).length = blob.length :=
        congrArg List.length (congrArg Prod.fst (Except.ok.inj read))
      rw [List.length_take, List.length_drop] at length
      have short := length_le_of_addVL added
      exact ⟨k, n, h, by omega, all⟩
    · obtain ⟨fault, thrown⟩ :=
        (decodeLength_of_not_announces fun k n h => announced ⟨k, n, h⟩).1
      rw [SerialIter.getVL, thrown] at read
      cases read
  · rintro ⟨k, n, h, short, all⟩
    have length : ((bytes.drop k).take n).length = n := by
      rw [List.length_take, List.length_drop]
      omega
    refine ⟨(bytes.drop k).take n, bytes.take k ++ (bytes.drop k).take n, bytes.drop (k + n), ?_, ?_⟩
    · rw [addVL, length, h.addEncoded short]
      rfl
    · rw [List.append_assoc, ← List.drop_drop, List.take_append_drop, List.take_append_drop]

theorem Announces.head_ne (h : Announces bytes k n) : bytes.head? ≠ some 255 := by
  intro head
  cases h <;> cases head
  · rename_i short
    exact absurd short (by decide)
  · rename_i high
    exact absurd high (by decide)
  · rename_i high
    exact absurd high (by decide)

theorem Overlong.not_encoded (h : Overlong bytes) : ¬Encoded bytes := by
  rw [encoded_iff]
  rintro ⟨k, n, announced, short, -⟩
  obtain ⟨k', n', announced', long, -⟩ := h
  have same := (announced.unique announced').2
  omega

theorem CutOff.not_encoded (h : CutOff bytes) : ¬Encoded bytes := by
  rw [encoded_iff]
  rintro ⟨k, n, announced, -, all⟩
  obtain ⟨k', n', announced', short⟩ := h
  have same := announced.unique announced'
  omega

theorem encoded_or (bytes : List UInt8) :
    Encoded bytes ∨ Overlong bytes ∨ CutOff bytes ∨ ∀ k n, ¬Announces bytes k n := by
  by_cases announced : ∃ k n, Announces bytes k n
  · obtain ⟨k, n, h⟩ := announced
    by_cases all : k + n ≤ bytes.length
    · by_cases short : n ≤ 918744
      · exact .inl (encoded_iff.2 ⟨k, n, h, short, all⟩)
      · exact .inr (.inl ⟨k, n, h, by omega, all⟩)
    · exact .inr (.inr (.inl ⟨k, n, h, by omega⟩))
  · exact .inr (.inr (.inr fun k n h => announced ⟨k, n, h⟩))

theorem addVL_getVL (short : blob.length ≤ 918744) :
    ∃ encoded, addVL blob = .ok encoded ∧
      SerialIter.getVL (encoded ++ rest) = .ok (blob, rest) ∧
      ∀ before, Serializer.getVL (before ++ (encoded ++ rest)) before.length =
        .ok (some (blob, encoded.length)) := by
  obtain ⟨encoded, added, -⟩ := addVL_of_length short
  have read := SerialIter.getVL_append added rest
  refine ⟨encoded, added, read, fun before => ?_⟩
  obtain ⟨k, n, h, -, all⟩ := encoded_iff.1 ⟨blob, encoded, rest, added, rfl⟩
  rw [h.serialIter_getVL, if_neg (by omega)] at read
  obtain ⟨same, left⟩ := Prod.mk.inj (Except.ok.inj read)
  have length := congrArg List.length left
  rw [List.length_drop, List.length_append] at length
  rw [List.length_append] at all
  rw [h.getVL, if_neg (by rw [List.length_append]; omega), same, show k + n = encoded.length by omega]

theorem getVL_reencodes_iff :
    (∀ blob rest, SerialIter.getVL bytes = .ok (blob, rest) →
        ∃ encoded, addVL blob = .ok encoded ∧ bytes = encoded ++ rest) ↔ ¬Overlong bytes := by
  constructor
  · rintro reencodes ⟨k, n, h, long, all⟩
    obtain ⟨encoded, added, -⟩ :=
      reencodes _ _ (h.serialIter_getVL.trans (if_neg (by omega)))
    have short := length_le_of_addVL added
    rw [List.length_take, List.length_drop] at short
    omega
  · intro fits blob rest read
    rcases encoded_or bytes with ⟨_, encoded, _, added, rfl⟩ | long | ⟨k, n, h, short⟩ | unannounced
    · rw [SerialIter.getVL_append added] at read
      cases read
      exact ⟨encoded, added, rfl⟩
    · exact absurd long fits
    · rw [h.serialIter_getVL, if_pos short] at read
      cases read
    · obtain ⟨fault, thrown⟩ := (decodeLength_of_not_announces unannounced).1
      rw [SerialIter.getVL, thrown] at read
      cases read

/-- A reader that begins with the length and gives up without it refuses what was not written
unless the first byte is 255, if it refuses the fields that are too long and those cut off. -/
theorem refuses_iff {α : Type}
    {next : List UInt8 → Option (Nat × Nat × Nat) → Except Fault (Option α)}
    (gives_up : ∀ before, next before none = .ok none) :
    (¬Encoded bytes → ∀ before,
        (Serializer.decodeLength (before ++ bytes) before.length >>= next before) = .ok none) ↔
      bytes.head? ≠ some 255 ∧ (Overlong bytes ∨ CutOff bytes → ∀ before,
        (Serializer.decodeLength (before ++ bytes) before.length >>= next before) = .ok none) := by
  constructor
  · intro refuses
    refine ⟨fun head => ?_, ?_⟩
    · have unannounced : ∀ k n, ¬Announces bytes k n := fun k n h => h.head_ne head
      have refused := refuses (fun valid => ?_) []
      · rw [(decodeLength_of_not_announces unannounced).2, if_pos head] at refused
        cases refused
      · obtain ⟨k, n, h, -⟩ := encoded_iff.1 valid
        exact unannounced k n h
    · rintro (long | cut)
      · exact refuses long.not_encoded
      · exact refuses cut.not_encoded
  · rintro ⟨head, refuses⟩ invalid before
    rcases encoded_or bytes with valid | long | cut | unannounced
    · exact absurd valid invalid
    · exact refuses (.inl long) before
    · exact refuses (.inr cut) before
    · rw [(decodeLength_of_not_announces unannounced).2, if_neg head]
      exact gives_up before

theorem getVL_false_iff :
    (¬Encoded bytes → ∀ before, Serializer.getVL (before ++ bytes) before.length = .ok none) ↔
      bytes.head? ≠ some 255 ∧ ¬Overlong bytes := by
  unfold Serializer.getVL
  refine (refuses_iff fun _ => ?_).trans (and_congr_right fun _ => ⟨?_, ?_⟩)
  · rfl
  · rintro refuses ⟨k, n, h, long, all⟩
    have refused := (h.getVL []).symm.trans (refuses (.inl ⟨k, n, h, long, all⟩) [])
    rw [if_neg (by omega)] at refused
    cases refused
  · rintro fits (long | ⟨k, n, h, short⟩) before
    · exact absurd long fits
    · exact (h.getVL before).trans (by rw [if_pos short])

theorem getVLLength_false_iff :
    (¬Encoded bytes → ∀ before, Serializer.getVLLength (before ++ bytes) before.length = .ok none) ↔
      bytes.head? ≠ some 255 ∧ ¬Overlong bytes ∧ ¬CutOff bytes := by
  unfold Serializer.getVLLength
  rw [← not_or]
  refine (refuses_iff fun _ => ?_).trans (and_congr_right fun _ => ⟨?_, ?_⟩)
  · rfl
  · intro refuses announced
    obtain ⟨k, n, h⟩ : ∃ k n, Announces bytes k n := by
      obtain ⟨k, n, h, -⟩ | ⟨k, n, h, -⟩ := announced <;> exact ⟨k, n, h⟩
    cases (h.getVLLength []).symm.trans (refuses announced [])
  · exact fun unannounced announced => absurd announced unannounced

/-- What is written is read back by both readers, and what is read can be written again. The
readers of `Serializer` refuse what was not written; `getVLLength` does not look at the field, so
it gives the length of one that is cut off. -/
theorem variable_length_canonical (blob rest bytes : List UInt8) :
    (blob.length ≤ 918744 → ∃ encoded, addVL blob = .ok encoded ∧
      SerialIter.getVL (encoded ++ rest) = .ok (blob, rest) ∧
      ∀ before, Serializer.getVL (before ++ (encoded ++ rest)) before.length =
        .ok (some (blob, encoded.length))) ∧
    (¬Overlong bytes → ∀ blob rest, SerialIter.getVL bytes = .ok (blob, rest) →
      ∃ encoded, addVL blob = .ok encoded ∧ bytes = encoded ++ rest) ∧
    (bytes.head? ≠ some 255 → ¬Overlong bytes → ¬Encoded bytes → ∀ before,
      Serializer.getVL (before ++ bytes) before.length = .ok none ∧
      (¬CutOff bytes → Serializer.getVLLength (before ++ bytes) before.length = .ok none)) ∧
    ∀ k n, Announces bytes k n → ∀ before,
      Serializer.getVLLength (before ++ bytes) before.length = .ok (some n) := by
  refine ⟨addVL_getVL, getVL_reencodes_iff.2, fun head fits invalid before => ⟨?_, fun all => ?_⟩,
    fun k n h => h.getVLLength⟩
  · exact getVL_false_iff.2 ⟨head, fits⟩ invalid before
  · exact getVLLength_false_iff.2 ⟨head, fits, all⟩ invalid before

/-- One byte more than `addVL` takes. -/
def longBlob : List UInt8 := List.replicate 918745 0

theorem longBlob_length : longBlob.length = 918745 := List.length_replicate ..

theorem getVL_long {blob : List UInt8} (length : blob.length = 918745) :
    SerialIter.getVL ([254, 212, 24] ++ blob) = .ok (blob, []) := by
  have announced : Announces ([254, 212, 24] ++ blob) 3 blob.length := by
    rw [length]
    exact .three (by decide) (by decide)
  have all : ¬([254, 212, 24] ++ blob).length < 3 + blob.length := by
    simp only [List.length_append, List.length_cons, List.length_nil]
    omega
  have dropped : ([254, 212, 24] ++ blob).drop 3 = blob := rfl
  rw [announced.serialIter_getVL, if_neg all, ← List.drop_drop, dropped, List.take_length,
    List.drop_length]

/-- A first byte of 255 throws, a length without its field is taken for an encoding, and a field
one byte too long is read that cannot be written. -/
theorem variable_length_not_canonical :
    (¬Encoded [255] ∧ Serializer.getVL [255] 0 = .error (.runtimeError "b1>254") ∧
      Serializer.getVLLength [255] 0 = .error (.runtimeError "b1>254")) ∧
    (¬Encoded [5] ∧ Serializer.getVLLength [5] 0 = .ok (some 5)) ∧
    SerialIter.getVL ([254, 212, 24] ++ longBlob) = .ok (longBlob, []) ∧
    addVL longBlob = .error (.runtimeError "lenlen") := by
  have invalid : ¬Encoded [255] := fun valid => by
    obtain ⟨k, n, h, -⟩ := encoded_iff.1 valid
    exact h.head_ne rfl
  have cut : CutOff [5] := ⟨1, 5, .one (by decide), by decide⟩
  refine ⟨⟨invalid, rfl, rfl⟩, ⟨cut.not_encoded, rfl⟩,
    getVL_long longBlob_length, ?_⟩
  rw [addVL, addEncoded, longBlob_length]
  rfl

end Skywell
