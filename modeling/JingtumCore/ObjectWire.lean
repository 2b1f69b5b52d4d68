import JingtumCore.AmountWire

/-!
# Objects on the wire

`STObject::add` and `STObject::set (SerialIter&, int)` with all serialized types.
The writer sorts the fields of an object by their codes; the reader keeps the
order of the wire. Objects and arrays inside others end with a marker.
-/
namespace Skywell
open BigEndian ExceptFold SerialIter

/-- The types that have a binary encoding. -/
inductive STI where
  | uint16 | uint32 | uint64 | hash128 | hash256 | amount | vl | account | object | array | uint8
  | hash160 | pathset | vector256
  deriving DecidableEq

namespace STI

def code : STI → Nat
  | uint16 => 1 | uint32 => 2 | uint64 => 3 | hash128 => 4 | hash256 => 5 | amount => 6 | vl => 7
  | account => 8 | object => 14 | array => 15 | uint8 => 16 | hash160 => 17 | pathset => 18
  | vector256 => 19

def ofCode : Nat → Option STI
  | 1 => some uint16 | 2 => some uint32 | 3 => some uint64 | 4 => some hash128 | 5 => some hash256
  | 6 => some amount | 7 => some vl | 8 => some account | 14 => some object | 15 => some array
  | 16 => some uint8 | 17 => some hash160 | 18 => some pathset | 19 => some vector256
  | _ => none

@[simp] theorem ofCode_code (t : STI) : ofCode t.code = some t := by
  cases t with
  | _ => rfl

theorem code_pos (t : STI) : 0 < t.code := by
  cases t with
  | _ => decide

theorem code_lt (t : STI) : t.code < 20 := by
  cases t with
  | _ => decide

end STI

/-- The name of a field: its type and its number in the type. -/
structure FieldName where
  fieldType : STI
  fieldValue : Nat
  deriving DecidableEq

namespace FieldName

def fieldCode (f : FieldName) : Nat := f.fieldType.code * 2 ^ 16 + f.fieldValue

/-- `SField::getField`: every number of a type has a field, which is made if there is none. -/
def getField (type field : Nat) : Option FieldName := (STI.ofCode type).map fun t => ⟨t, field⟩

/-- `shouldInclude (true)`. -/
def shouldInclude (f : FieldName) : Bool := f.fieldValue < 256

def addFieldID (f : FieldName) : List UInt8 := Skywell.addFieldID f.fieldType.code f.fieldValue

theorem addFieldID_ne_nil (f : FieldName) : f.addFieldID ≠ [] := Skywell.addFieldID_ne_nil _ _

/-- A field with a binary encoding. The first object and the first array field are the
end markers, and not fields. -/
def Binary (f : FieldName) : Prop :=
  0 < f.fieldValue ∧ f.fieldValue < 256 ∧
    ¬ (f.fieldValue = 1 ∧ (f.fieldType = .object ∨ f.fieldType = .array))

end FieldName

namespace Wire

/-- An element of a path, with the type it is written with. -/
structure PathElement where
  typeAccount : Bool
  typeCurrency : Bool
  typeIssuer : Bool
  account : Account
  currency : Currency
  issuer : Account
  deriving DecidableEq

inductive STValue where
  | notPresent
  | uint8 (value : UInt8)
  | uint16 (value : UInt16)
  | uint32 (value : UInt32)
  | uint64 (value : UInt64)
  | hash128 (value : Nat)
  | hash160 (value : Nat)
  | hash256 (value : Nat)
  | amount (value : STAmount)
  | vl (value : List UInt8)
  | account (value : List UInt8)
  | pathset (value : List (List PathElement))
  | vector256 (value : List Nat)
  | object (fields : List (FieldName × STValue))
  | array (elements : List (FieldName × List (FieldName × STValue)))

/-- The fields of an object. -/
abbrev STObject := List (FieldName × STValue)

namespace PathElement

/-- `STPathElement (Account const&, Currency const&, Account const&, bool)`. -/
def make (account : Account) (currency : Currency) (issuer : Account) (forceCurrency : Bool) :
    PathElement :=
  ⟨!isSWT account, forceCurrency || !isSWT currency, !isSWT issuer, account, currency, issuer⟩

def getNodeType (e : PathElement) : Nat :=
  (if e.typeAccount then 0x01 else 0) + (if e.typeCurrency then 0x10 else 0) +
    if e.typeIssuer then 0x20 else 0

/-- `operator==`. -/
def eqv (e e' : PathElement) : Bool :=
  e.typeAccount == e'.typeAccount && e.account == e'.account && e.currency == e'.currency &&
    e.issuer == e'.issuer

def add (e : PathElement) : List UInt8 :=
  UInt8.ofNat e.getNodeType ::
    ((if e.typeAccount then toBytes 20 e.account else []) ++
      ((if e.typeCurrency then toBytes 20 e.currency else []) ++
        if e.typeIssuer then toBytes 20 e.issuer else []))

end PathElement

/-- `STPathSet::add` after the first path. -/
def addPaths : List (List PathElement) → List UInt8
  | [] => [0x00]
  | path :: rest => 0xff :: (path.flatMap PathElement.add ++ addPaths rest)

def addPathSet : List (List PathElement) → List UInt8
  | [] => [0x00]
  | path :: rest => path.flatMap PathElement.add ++ addPaths rest

/-- `std::map::insert`: what is there stays. -/
def insertField {β : Type} (code : Nat) (value : β) : List (Nat × β) → List (Nat × β)
  | [] => [(code, value)]
  | (code', value') :: rest =>
    if code < code' then (code, value) :: (code', value') :: rest
    else if code = code' then (code', value') :: rest
    else (code', value') :: insertField code value rest

/-- Pairs in the order of their codes. -/
def sortFields {β : Type} (fields : List (Nat × β)) : List (Nat × β) :=
  fields.foldl (fun sorted f => insertField f.1 f.2 sorted) []

def isPresent (f : FieldName × STValue) : Bool :=
  match f.2 with
  | .notPresent => false
  | _ => f.1.shouldInclude

mutual

/-- `add` of a value without its field's identifier, with the marker that ends it. -/
def add : STValue → Except Fault (List UInt8)
  | .notPresent => .ok []
  | .uint8 value => .ok (toBytes 1 value.toNat)
  | .uint16 value => .ok (toBytes 2 value.toNat)
  | .uint32 value => .ok (toBytes 4 value.toNat)
  | .uint64 value => .ok (toBytes 8 value.toNat)
  | .hash128 value => .ok (toBytes 16 value)
  | .hash160 value => .ok (toBytes 20 value)
  | .hash256 value => .ok (toBytes 32 value)
  | .amount value => .ok value.addToSerializer
  | .vl value | .account value => addVL value
  | .pathset value => .ok (addPathSet value)
  | .vector256 value => addVL (value.flatMap (toBytes 32))
  | .object fields => do
    let encoded ← addFields fields
    return ((sortFields encoded).flatMap Prod.snd) ++ addFieldID STI.object.code 1
  | .array elements => do
    let encoded ← addElements elements
    return encoded ++ addFieldID STI.array.code 1

/-- The present fields of an object with their codes. -/
def addFields : List (FieldName × STValue) → Except Fault (List (Nat × List UInt8))
  | [] => .ok []
  | (name, value) :: rest => do
    let encoded ← addFields rest
    if !isPresent (name, value) then return encoded
    let bytes ← add value
    return (name.fieldCode, name.addFieldID ++ bytes) :: encoded

/-- `STArray::add`. -/
def addElements : List (FieldName × List (FieldName × STValue)) → Except Fault (List UInt8)
  | [] => .ok []
  | (name, fields) :: rest => do
    let encoded ← addFields fields
    let elements ← addElements rest
    return name.addFieldID ++ ((sortFields encoded).flatMap Prod.snd ++
      (addFieldID STI.object.code 1 ++ elements))

end

/-- `STObject::add`. -/
def STObject.add (o : STObject) : Except Fault (List UInt8) := do
  let encoded ← addFields o
  return (sortFields encoded).flatMap Prod.snd

/-- One element of a path after its type byte. -/
def getPathElement (iType : Nat) (sit : SerialIter) : Except Fault (PathElement × SerialIter) := do
  let (account, sit) ← if iType % 2 = 1 then getNumber 20 sit else pure (0, sit)
  let (currency, sit) ← if iType / 16 % 2 = 1 then getNumber 20 sit else pure (0, sit)
  let (issuer, sit) ← if iType / 32 % 2 = 1 then getNumber 20 sit else pure (0, sit)
  return (.make account currency issuer (iType / 16 % 2 = 1), sit)

/-- `STPathSet (SerialIter&, SField const&)`, with the path read so far and the paths
before it. Each pass reads a byte, so that a pass for each byte is enough. -/
def getPathSet : Nat → List PathElement → List (List PathElement) → SerialIter →
    Except Fault (List (List PathElement) × SerialIter)
  | 0, _, _, _ => .error .endlessLoop
  | fuel + 1, path, paths, sit => do
    let (iType, sit) ← getNumber 1 sit
    if iType = 0x00 || iType = 0xff then
      if path.isEmpty then throw (.runtimeError "empty path")
      if iType = 0x00 then return (paths ++ [path], sit)
      getPathSet fuel [] (paths ++ [path]) sit
    else
      if iType / 2 % 8 ≠ 0 || iType / 64 ≠ 0 then throw (.runtimeError "bad path element")
      let (element, sit) ← getPathElement iType sit
      getPathSet fuel (path ++ [element]) paths sit

/-- The 256-bit numbers of a byte string; bytes left over at its end are dropped. -/
def chunks : Nat → List UInt8 → List Nat
  | 0, _ => []
  | count + 1, bytes => bin2bn (bytes.take 32) :: chunks count (bytes.drop 32)

/-- `STVar (SerialIter&, SField const&)`, given the readers of objects and arrays. -/
def getValue (getObject : SerialIter → Except Fault ((STObject × Bool) × SerialIter))
    (getArray : SerialIter → Except Fault (List (FieldName × STObject) × SerialIter)) (type : STI)
    (sit : SerialIter) : Except Fault (STValue × SerialIter) :=
  match type with
  | .uint8 => do
    let (value, sit) ← getNumber 1 sit
    return (.uint8 (.ofNat value), sit)
  | .uint16 => do
    let (value, sit) ← getNumber 2 sit
    return (.uint16 (.ofNat value), sit)
  | .uint32 => do
    let (value, sit) ← getNumber 4 sit
    return (.uint32 (.ofNat value), sit)
  | .uint64 => do
    let (value, sit) ← getNumber 8 sit
    return (.uint64 (.ofNat value), sit)
  | .hash128 => do
    let (value, sit) ← getNumber 16 sit
    return (.hash128 value, sit)
  | .hash160 => do
    let (value, sit) ← getNumber 20 sit
    return (.hash160 value, sit)
  | .hash256 => do
    let (value, sit) ← getNumber 32 sit
    return (.hash256 value, sit)
  | .amount => do
    let (value, sit) ← STAmount.ofSerialIter sit
    return (.amount value, sit)
  | .vl => do
    let (value, sit) ← getVL sit
    return (.vl value, sit)
  | .account => do
    let (value, sit) ← getVL sit
    return (.account value, sit)
  | .pathset => do
    let (value, sit) ← getPathSet (sit.length + 1) [] [] sit
    return (.pathset value, sit)
  | .vector256 => do
    let (value, sit) ← getVL sit
    return (.vector256 (chunks (value.length / 32) value), sit)
  | .object => do
    let ((fields, _), sit) ← getObject sit
    return (.object fields, sit)
  | .array => do
    let (elements, sit) ← getArray sit
    return (.array elements, sit)

mutual

/-- `STObject::set (SerialIter&, int)`: the fields, and whether the end marker was reached.
Each pass reads a byte. -/
def getObject : Nat → SerialIter → Except Fault ((STObject × Bool) × SerialIter)
  | 0, _ => .error .endlessLoop
  | fuel + 1, sit =>
    if sit.isEmpty then .ok (([], false), sit)
    else do
      let ((type, field), sit) ← getFieldID sit
      if type = STI.object.code && field = 1 then return (([], true), sit)
      if type = STI.array.code && field = 1 then
        throw (.runtimeError "Illegal terminator in object")
      match FieldName.getField type field with
      | none => throw (.runtimeError "Unknown field")
      | some name =>
        let (value, sit) ← getValue (getObject fuel) (getArray fuel) name.fieldType sit
        let ((fields, ended), sit) ← getObject fuel sit
        return (((name, value) :: fields, ended), sit)

/-- `STArray (SerialIter&, SField const&)`. -/
def getArray : Nat → SerialIter → Except Fault (List (FieldName × STObject) × SerialIter)
  | 0, _ => .error .endlessLoop
  | fuel + 1, sit =>
    if sit.isEmpty then .ok ([], sit)
    else do
      let ((type, field), sit) ← getFieldID sit
      if type = STI.array.code && field = 1 then return ([], sit)
      if type = STI.object.code && field = 1 then
        throw (.runtimeError "Illegal terminator in array")
      match FieldName.getField type field with
      | none => throw (.runtimeError "Unknown field")
      | some name =>
        if name.fieldType ≠ .object then throw (.runtimeError "Non-object in array")
        let ((fields, _), sit) ← getObject fuel sit
        let (elements, sit) ← getArray fuel sit
        return ((name, fields) :: elements, sit)

end

def STObject.set (sit : SerialIter) : Except Fault ((STObject × Bool) × SerialIter) :=
  getObject (sit.length + 1) sit

section
variable {β γ : Type}

theorem insertField_map (f : β → γ) (code : Nat) (value : β) (l : List (Nat × β)) :
    insertField code (f value) (l.map fun e => (e.1, f e.2)) =
      (insertField code value l).map fun e => (e.1, f e.2) := by
  induction l with
  | nil => rfl
  | cons e l ih =>
    simp only [List.map_cons, insertField]
    split
    · rfl
    split
    · rfl
    · rw [ih]
      rfl

theorem sortFields_map (f : β → γ) (l : List (Nat × β)) :
    sortFields (l.map fun e => (e.1, f e.2)) = (sortFields l).map fun e => (e.1, f e.2) := by
  unfold sortFields
  rw [List.foldl_map]
  have step (sorted : List (Nat × β)) (e : Nat × β) := insertField_map f e.1 e.2 sorted
  exact @List.foldl_hom _ _ _ (List.map fun e : Nat × β => (e.1, f e.2))
    (fun sorted e => insertField e.1 e.2 sorted) (fun sorted e => insertField e.1 (f e.2) sorted) l []
    step

/-- Things sorted by a code, and then what is made of them. -/
theorem sortFields_by (code : β → Nat) (f : β → γ) (l : List β) :
    (sortFields (l.map fun x => (code x, f x))).map Prod.snd =
      ((sortFields (l.map fun x => (code x, x))).map Prod.snd).map f := by
  have same := sortFields_map f (l.map fun x => (code x, x))
  rw [List.map_map] at same
  rw [List.map_map]
  refine (congrArg (List.map Prod.snd) same).trans ?_
  rw [List.map_map]
  rfl

variable {l : List (Nat × β)}

theorem insertField_perm {code : Nat} {value : β}
    (new : code ∉ l.map Prod.fst) : (insertField code value l).Perm ((code, value) :: l) := by
  induction l with
  | nil => rfl
  | cons e l ih =>
    simp only [List.map_cons, List.mem_cons, not_or] at new
    unfold insertField
    split
    · rfl
    rw [if_neg new.1]
    exact ((ih new.2).cons e).trans (List.Perm.swap _ _ _)

theorem foldl_insertField_perm {acc : List (Nat × β)}
    (distinct : ((acc ++ l).map Prod.fst).Nodup) :
    (l.foldl (fun sorted f => insertField f.1 f.2 sorted) acc).Perm (acc ++ l) := by
  induction l generalizing acc with
  | nil => simp
  | cons e l ih =>
    have moved : (acc ++ e :: l).Perm (e :: acc ++ l) := List.perm_middle
    have distinct' : ((e :: acc ++ l).map Prod.fst).Nodup := (moved.map _).nodup_iff.1 distinct
    have new : e.1 ∉ acc.map Prod.fst := by
      rw [List.cons_append, List.map_cons, List.nodup_cons, List.map_append] at distinct'
      exact fun h => distinct'.1 (List.mem_append_left _ h)
    have inserted : (insertField e.1 e.2 acc).Perm (e :: acc) := insertField_perm new
    refine (ih ?_).trans ((inserted.append_right l).trans moved.symm)
    exact ((inserted.append_right l).map _).nodup_iff.2 distinct'

theorem sortFields_perm (distinct : (l.map Prod.fst).Nodup) :
    (sortFields l).Perm l :=
  @foldl_insertField_perm β l [] distinct

theorem insertField_comm {a b : Nat} (hab : a ≠ b) (x y : β) (l : List (Nat × β)) :
    insertField a x (insertField b y l) = insertField b y (insertField a x l) := by
  induction l with
  | nil => grind [insertField]
  | cons e l ih => grind [insertField]

theorem sortFields_eq_of_perm {l' : List (Nat × β)} (h : l.Perm l')
    (distinct : (l.map Prod.fst).Nodup) : sortFields l = sortFields l' := by
  refine List.Perm.foldl_eq' h (fun x hx y hy sorted => ?_) []
  by_cases same : x.1 = y.1
  · rw [List.inj_on_of_nodup_map distinct hx hy same]
  · exact insertField_comm (Ne.symm same) y.2 x.2 sorted

end

/-- The type of field that holds a value. -/
def STValue.typeOf : STValue → Option STI
  | .notPresent => none
  | .uint8 _ => some .uint8
  | .uint16 _ => some .uint16
  | .uint32 _ => some .uint32
  | .uint64 _ => some .uint64
  | .hash128 _ => some .hash128
  | .hash160 _ => some .hash160
  | .hash256 _ => some .hash256
  | .amount _ => some .amount
  | .vl _ => some .vl
  | .account _ => some .account
  | .pathset _ => some .pathset
  | .vector256 _ => some .vector256
  | .object _ => some .object
  | .array _ => some .array

/-- An element that is not empty: its type announces the identifiers it has, and an
account that is announced is there. -/
def PathElement.Written (e : PathElement) : Prop :=
  e.getNodeType ≠ 0 ∧ (e.typeAccount = true ↔ e.account ≠ 0) ∧
    (e.typeCurrency = false → e.currency = 0) ∧ (e.typeIssuer = false → e.issuer = 0) ∧
    e.account < 2 ^ 160 ∧ e.currency < 2 ^ 160 ∧ e.issuer < 2 ^ 160

def presentFields (o : STObject) : STObject := o.filter isPresent

/-- The codes of the present fields of an object are distinct. -/
def DistinctCodes (o : STObject) : Prop := ((presentFields o).map fun f => f.1.fieldCode).Nodup

mutual

/-- Values with a serializable form. -/
def Serializable : STValue → Prop
  | .hash128 value => value < 2 ^ 128
  | .hash160 value => value < 2 ^ 160
  | .hash256 value => value < 2 ^ 256
  | .amount value => value.Normal ∧ value.Fits
  | .vl value | .account value => value.length ≤ 918744
  | .pathset value => value ≠ [] ∧ ∀ path ∈ value, path ≠ [] ∧ ∀ e ∈ path, e.Written
  | .vector256 value => 32 * value.length ≤ 918744 ∧ ∀ n ∈ value, n < 2 ^ 256
  | .object fields => DistinctCodes fields ∧ SerializableFields fields
  | .array elements => SerializableElements elements
  | _ => True

def SerializableFields : List (FieldName × STValue) → Prop
  | [] => True
  | (name, value) :: rest =>
    (value.typeOf = none ∨ (name.Binary ∧ value.typeOf = some name.fieldType ∧
      Serializable value)) ∧ SerializableFields rest

def SerializableElements : List (FieldName × List (FieldName × STValue)) → Prop
  | [] => True
  | (name, fields) :: rest =>
    (name.Binary ∧ name.fieldType = .object ∧ DistinctCodes fields ∧ SerializableFields fields) ∧
      SerializableElements rest

end

/-- An element as the reader makes it. -/
def PathElement.canon (e : PathElement) : PathElement :=
  .make e.account e.currency e.issuer e.typeCurrency

mutual

/-- A value as the reader makes it: the present fields of its objects, by their codes. -/
def canon : STValue → STValue
  | .amount value => .amount value.fromWire
  | .pathset value => .pathset (value.map (List.map PathElement.canon))
  | .object fields => .object ((sortFields (canonFields fields)).map Prod.snd)
  | .array elements => .array (canonElements elements)
  | value => value

def canonFields : List (FieldName × STValue) → List (Nat × FieldName × STValue)
  | [] => []
  | (name, value) :: rest =>
    if !isPresent (name, value) then canonFields rest
    else (name.fieldCode, name, canon value) :: canonFields rest

def canonElements : List (FieldName × List (FieldName × STValue)) →
    List (FieldName × List (FieldName × STValue))
  | [] => []
  | (name, fields) :: rest =>
    (name, (sortFields (canonFields fields)).map Prod.snd) :: canonElements rest

end

/-- The bytes of a value are read back, whatever follows them. -/
def ReadsBack (type : STI) (bytes : List UInt8) (value : STValue) : Prop :=
  ∀ fuel rest, bytes.length < fuel →
    getValue (getObject fuel) (getArray fuel) type (bytes ++ rest) = .ok (value, rest)

/-- The end of an object: a marker, or the end of the bytes. -/
def Ends (bytes : List UInt8) (ended : Bool) (rest : List UInt8) : Prop :=
  ∀ fuel, 0 < fuel → getObject fuel bytes = .ok (([], ended), rest)

variable {a : STAmount} {type : STI} {value : STValue}

theorem ends_nil : Ends [] false [] := by
  intro fuel positive
  cases fuel with
  | zero => omega
  | succ fuel => rfl

theorem isEmpty_append {a b : List UInt8} (h : a ≠ []) : (a ++ b).isEmpty = false := by
  cases a with
  | nil => exact absurd rfl h
  | cons x a => rfl

theorem ends_marker (rest : List UInt8) : Ends (addFieldID STI.object.code 1 ++ rest) true rest := by
  intro fuel positive
  cases fuel with
  | zero => omega
  | succ fuel =>
    rw [getObject]
    rw [getFieldID_append (by decide) (by decide) (by decide) (by decide)]
    rfl

/-- A field as it is written, with its value as it is read. -/
structure Field where
  name : FieldName
  value : STValue
  bytes : List UInt8

def Field.Reads (f : Field) : Prop :=
  f.name.Binary ∧ ReadsBack f.name.fieldType f.bytes f.value

def Field.written (f : Field) : List UInt8 := f.name.addFieldID ++ f.bytes

variable {name : FieldName} {fuel : Nat} {bytes : List UInt8} {e : PathElement}
  {ps : List (List PathElement)} {fields : STObject}

theorem getFieldID_name (h : name.Binary) (rest : List UInt8) :
    getFieldID (name.addFieldID ++ rest) = .ok ((name.fieldType.code, name.fieldValue), rest) :=
  getFieldID_append name.fieldType.code_pos (name.fieldType.code_lt.trans (by decide)) h.1 h.2.1 rest

theorem notMarker (h : name.Binary) :
    (name.fieldType.code = STI.object.code && name.fieldValue = 1) = false ∧
      (name.fieldType.code = STI.array.code && name.fieldValue = 1) = false := by
  obtain ⟨type, value⟩ := name
  have marker := h.2.2
  by_cases one : value = 1
  · subst one
    cases type with
    | object => exact absurd ⟨rfl, .inl rfl⟩ marker
    | array => exact absurd ⟨rfl, .inr rfl⟩ marker
    | _ => exact ⟨rfl, rfl⟩
  · simp [one]

/-- One field is read, then those that follow. -/
theorem getObject_field {f : Field} (h : f.Reads) (enough : f.bytes.length < fuel)
    (rest : List UInt8) :
    getObject (fuel + 1) (f.written ++ rest) =
      getObject fuel rest >>= fun r => pure (((f.name, f.value) :: r.1.1, r.1.2), r.2) := by
  obtain ⟨binary, reads⟩ := h
  obtain ⟨notObject, notArray⟩ := notMarker binary
  rw [getObject, Field.written, List.append_assoc, isEmpty_append f.name.addFieldID_ne_nil,
    getFieldID_name binary]
  simp only [Bool.false_eq_true, if_false, ok_bind, notObject, notArray, FieldName.getField,
    STI.ofCode_code, Option.map_some, reads fuel rest enough]

theorem getObject_fields {fs : List Field} (h : ∀ f ∈ fs, f.Reads) {rest : List UInt8}
    {ended : Bool} (ends : Ends bytes ended rest)
    (enough : (fs.flatMap Field.written).length < fuel) :
    getObject fuel (fs.flatMap Field.written ++ bytes) =
      .ok ((fs.map fun f => (f.name, f.value), ended), rest) := by
  induction fs generalizing fuel with
  | nil => exact ends fuel (by omega)
  | cons f fs ih =>
    cases fuel with
    | zero => omega
    | succ fuel =>
      have identifier : 0 < f.name.addFieldID.length :=
        List.length_pos_iff.2 f.name.addFieldID_ne_nil
      simp only [List.flatMap_cons, List.length_append, Field.written] at enough
      rw [List.flatMap_cons, List.append_assoc,
        getObject_field (h f List.mem_cons_self) (by omega),
        ih (fun f hf => h f (List.mem_cons_of_mem _ hf)) (by omega)]
      rfl

/-- An element of an array as it is written. -/
structure Element where
  name : FieldName
  fields : List Field

def Element.Reads (e : Element) : Prop :=
  e.name.Binary ∧ e.name.fieldType = .object ∧ ∀ f ∈ e.fields, f.Reads

def Element.written (e : Element) : List UInt8 :=
  e.name.addFieldID ++ (e.fields.flatMap Field.written ++ addFieldID STI.object.code 1)

theorem getArray_element {e : Element} (h : e.Reads)
    (enough : (e.fields.flatMap Field.written).length < fuel) (rest : List UInt8) :
    getArray (fuel + 1) (e.written ++ rest) = getArray fuel rest >>= fun r =>
      pure ((e.name, e.fields.map fun f => (f.name, f.value)) :: r.1, r.2) := by
  obtain ⟨binary, object, reads⟩ := h
  obtain ⟨notObject, notArray⟩ := notMarker binary
  have inner := getObject_fields reads (ends_marker rest) enough
  rw [getArray, Element.written, List.append_assoc, List.append_assoc,
    isEmpty_append e.name.addFieldID_ne_nil, getFieldID_name binary]
  simp only [Bool.false_eq_true, ok_bind, notObject, notArray, FieldName.getField,
    STI.ofCode_code, Option.map_some]
  simp only [object, ne_eq, not_true_eq_false, if_false, inner, ok_bind]
  rw [← object]

theorem getArray_elements {es : List Element} (h : ∀ e ∈ es, e.Reads) (rest : List UInt8)
    (enough : (es.flatMap Element.written).length < fuel) :
    getArray fuel (es.flatMap Element.written ++ (addFieldID STI.array.code 1 ++ rest)) =
      .ok (es.map fun e => (e.name, e.fields.map fun f => (f.name, f.value)), rest) := by
  induction es generalizing fuel with
  | nil =>
    cases fuel with
    | zero => omega
    | succ fuel =>
      rw [List.flatMap_nil, List.nil_append, getArray, getFieldID_append (by decide) (by decide)
        (by decide) (by decide)]
      rfl
  | cons e es ih =>
    cases fuel with
    | zero => omega
    | succ fuel =>
      have identifier : 0 < e.name.addFieldID.length :=
        List.length_pos_iff.2 e.name.addFieldID_ne_nil
      simp only [List.flatMap_cons, List.length_append, Element.written] at enough
      rw [List.flatMap_cons, List.append_assoc,
        getArray_element (h e List.mem_cons_self) (by omega),
        ih (fun e he => h e (List.mem_cons_of_mem _ he))
          (by omega)]
      rfl

theorem getPathElement_add (h : e.Written) (rest : List UInt8) :
    getPathElement e.getNodeType
      ((if e.typeAccount then toBytes 20 e.account else []) ++
        ((if e.typeCurrency then toBytes 20 e.currency else []) ++
          ((if e.typeIssuer then toBytes 20 e.issuer else []) ++ rest))) = .ok (e.canon, rest) := by
  obtain ⟨typeAccount, typeCurrency, typeIssuer, account, currency, issuer⟩ := e
  obtain ⟨nonzero, hAccount, hCurrency, hIssuer, aLimit, cLimit, iLimit⟩ := h
  unfold getPathElement PathElement.canon
  cases typeAccount <;> cases typeCurrency <;> cases typeIssuer <;>
    simp_all [PathElement.getNodeType, getNumber_append]

theorem getPathSet_element (h : e.Written) (fuel : Nat) (path : List PathElement)
    (paths : List (List PathElement)) (rest : List UInt8) :
    getPathSet (fuel + 1) path paths (e.add ++ rest) =
      getPathSet fuel (path ++ [e.canon]) paths rest := by
  have type : (UInt8.ofNat e.getNodeType).toNat = e.getNodeType ∧ e.getNodeType ≠ 0xff ∧
      e.getNodeType / 2 % 8 = 0 ∧ e.getNodeType / 64 = 0 := by
    unfold PathElement.getNodeType
    cases e.typeAccount <;> cases e.typeCurrency <;> cases e.typeIssuer <;> decide
  obtain ⟨byte, boundary, low, high⟩ := type
  have element := getPathElement_add h rest
  simp only [getPathSet, PathElement.add, List.cons_append, getNumber_cons, ok_bind, byte, h.1,
    boundary, low, high, List.append_assoc, element]
  simp

theorem getPathSet_path {es : List PathElement} (h : ∀ e ∈ es, e.Written)
    (enough : es.length ≤ fuel) (path : List PathElement) (paths : List (List PathElement))
    (rest : List UInt8) :
    getPathSet fuel path paths (es.flatMap PathElement.add ++ rest) =
      getPathSet (fuel - es.length) (path ++ es.map PathElement.canon) paths rest := by
  induction es generalizing fuel path with
  | nil => simp
  | cons e es ih =>
    cases fuel with
    | zero => simp at enough
    | succ fuel =>
      rw [List.flatMap_cons, List.append_assoc, getPathSet_element (h e List.mem_cons_self),
        ih (fun e he => h e (List.mem_cons_of_mem _ he)) (by simpa using enough)]
      simp

theorem length_le_flatMap_add (es : List PathElement) :
    es.length ≤ (es.flatMap PathElement.add).length := by
  induction es with
  | nil => simp
  | cons e es ih =>
    simp only [List.flatMap_cons, List.length_append, List.length_cons, PathElement.add]
    omega

theorem getPathSet_paths (h : ∀ path ∈ ps, path ≠ [] ∧ ∀ e ∈ path, e.Written)
    (enough : (addPaths ps).length ≤ fuel) {path : List PathElement} (nonempty : path ≠ [])
    (paths : List (List PathElement)) (rest : List UInt8) :
    getPathSet fuel path paths (addPaths ps ++ rest) =
      .ok (paths ++ path :: ps.map (List.map PathElement.canon), rest) := by
  have notEmpty {path : List PathElement} (h : path ≠ []) : path.isEmpty = false := by
    simpa using h
  induction ps generalizing fuel path paths with
  | nil =>
    cases fuel with
    | zero => simp [addPaths] at enough
    | succ fuel =>
      simp only [getPathSet, notEmpty nonempty]
      rfl
  | cons p ps ih =>
    cases fuel with
    | zero => simp [addPaths] at enough
    | succ fuel =>
      have byte : (0xff : UInt8).toNat = 0xff := by decide
      obtain ⟨nonempty', written⟩ := h p List.mem_cons_self
      have shorter := length_le_flatMap_add p
      simp only [addPaths, List.length_cons, List.length_append] at enough
      simp only [addPaths, List.cons_append, getPathSet, getNumber_cons, ok_bind, byte,
        notEmpty nonempty, List.append_assoc]
      simp only [decide_true, Bool.or_true, if_true]
      rw [getPathSet_path written (by omega), ih (fun path hp => h path (List.mem_cons_of_mem _ hp))
        (by omega) (by simpa using nonempty')]
      simp

theorem getPathSet_add (some_ : ps ≠ [])
    (h : ∀ path ∈ ps, path ≠ [] ∧ ∀ e ∈ path, e.Written)
    (enough : (addPathSet ps).length ≤ fuel) (rest : List UInt8) :
    getPathSet fuel [] [] (addPathSet ps ++ rest) =
      .ok (ps.map (List.map PathElement.canon), rest) := by
  cases ps with
  | nil => exact absurd rfl some_
  | cons p ps =>
    obtain ⟨nonempty, written⟩ := h p List.mem_cons_self
    have shorter := length_le_flatMap_add p
    simp only [addPathSet, List.length_append] at enough
    rw [addPathSet, List.append_assoc, getPathSet_path written (by omega),
        getPathSet_paths (fun path hp => h path (List.mem_cons_of_mem _ hp)) (by omega)
        (by simpa using nonempty)]
    rfl

theorem chunks_flatMap {ns : List Nat} (h : ∀ n ∈ ns, n < 2 ^ 256) :
    chunks ((ns.flatMap (toBytes 32)).length / 32) (ns.flatMap (toBytes 32)) = ns := by
  induction ns with
  | nil => rfl
  | cons n ns ih =>
    have count : ((n :: ns).flatMap (toBytes 32)).length / 32 =
        (ns.flatMap (toBytes 32)).length / 32 + 1 := by
      simp only [List.flatMap_cons, List.length_append, toBytes_length]
      omega
    have first : ((n :: ns).flatMap (toBytes 32)).take 32 = toBytes 32 n := by
      rw [List.flatMap_cons, List.take_left' (toBytes_length 32 n)]
    have others : ((n :: ns).flatMap (toBytes 32)).drop 32 = ns.flatMap (toBytes 32) := by
      rw [List.flatMap_cons, List.drop_left' (toBytes_length 32 n)]
    rw [count, chunks, first, others, ih fun n hn => h n (List.mem_cons_of_mem _ hn),
      bin2bn_toBytes (h n List.mem_cons_self)]

theorem mem_insertField {β : Type} {code : Nat} {value : β} {l : List (Nat × β)} {e : Nat × β}
    (h : e ∈ insertField code value l) : e = (code, value) ∨ e ∈ l := by
  induction l with
  | nil => simpa [insertField] using h
  | cons a l ih => grind [insertField]

theorem mem_sortFields {β : Type} {l : List (Nat × β)} {e : Nat × β} (h : e ∈ sortFields l) :
    e ∈ l := by
  refine List.foldlRecOn (motive := fun sorted : List (Nat × β) => ∀ e ∈ sorted, e ∈ l) l _
    (by simp) (fun sorted ih a ha e he => ?_) e h
  rcases mem_insertField he with rfl | old
  · exact ha
  · exact ih e old

/-- The fields of an object in the order they are written and read. -/
theorem sorted_reads {l : List Field} (h : ∀ f ∈ l, f.Reads) :
    ∃ s : List Field, (∀ f ∈ s, f.Reads) ∧
      (sortFields (l.map fun f => (f.name.fieldCode, f.written))).flatMap Prod.snd =
        s.flatMap Field.written ∧
      (sortFields (l.map fun f => (f.name.fieldCode, f.name, f.value))).map Prod.snd =
        s.map fun f => (f.name, f.value) := by
  refine ⟨(sortFields (l.map fun f => (f.name.fieldCode, f))).map Prod.snd, ?_, ?_,
    sortFields_by _ _ l⟩
  · intro f hf
    obtain ⟨e, he, rfl⟩ := List.mem_map.1 hf
    obtain ⟨g, hg, rfl⟩ := List.mem_map.1 (mem_sortFields he)
    exact h g hg
  · rw [List.flatMap_def, sortFields_by, ← List.flatMap_def]

theorem readsBack_number {width n : Nat} (make : Nat → STValue)
    (read : ∀ fuel sit, getValue (getObject fuel) (getArray fuel) type sit =
      getNumber width sit >>= fun r => pure (make r.1, r.2)) (small : n < 256 ^ width)
    (made : make n = value) : ReadsBack type (toBytes width n) value := by
  intro fuel rest _
  rw [read, getNumber_append small, ← made]
  rfl

theorem readsBack_blob {encoded : List UInt8} (make : List UInt8 → STValue)
    (read : ∀ fuel sit, getValue (getObject fuel) (getArray fuel) type sit =
      getVL sit >>= fun r => pure (make r.1, r.2)) (written : addVL bytes = .ok encoded) :
    ReadsBack type encoded (make bytes) := by
  intro fuel rest _
  rw [read, getVL_append written]
  rfl

theorem readsBack_amount (form : a.Normal) (fits : a.Fits) :
    ReadsBack .amount a.addToSerializer (.amount a.fromWire) := by
  intro fuel rest _
  have read : STAmount.ofSerialIter (a.addToSerializer ++ rest) = .ok (a.fromWire, rest) := by
    cases native : a.mIsNative with
    | true => exact STAmount.ofSerialIter_native native form fits rest
    | false => exact STAmount.ofSerialIter_issued native form fits rest
  rw [getValue, read]
  rfl

theorem readsBack_pathset (some_ : ps ≠ [])
    (h : ∀ path ∈ ps, path ≠ [] ∧ ∀ e ∈ path, e.Written) :
    ReadsBack .pathset (addPathSet ps) (.pathset (ps.map (List.map PathElement.canon))) := by
  intro fuel rest _
  rw [getValue, getPathSet_add some_ h (by simp only [List.length_append]; omega)]
  rfl

theorem readsBack_object {s : List Field} (h : ∀ f ∈ s, f.Reads) :
    ReadsBack .object (s.flatMap Field.written ++ addFieldID STI.object.code 1)
      (.object (s.map fun f => (f.name, f.value))) := by
  intro fuel rest enough
  rw [List.length_append] at enough
  rw [getValue, List.append_assoc, getObject_fields h (ends_marker rest) (by omega)]
  rfl

theorem readsBack_array {es : List Element} (h : ∀ e ∈ es, e.Reads) :
    ReadsBack .array (es.flatMap Element.written ++ addFieldID STI.array.code 1)
      (.array (es.map fun e => (e.name, e.fields.map fun f => (f.name, f.value)))) := by
  intro fuel rest enough
  rw [List.length_append] at enough
  rw [getValue, List.append_assoc, getArray_elements h rest (by omega)]
  rfl

theorem typeOf_present (h : isPresent (name, value) = true) : value.typeOf ≠ none := by
  cases value with
  | notPresent => cases h
  | _ => nofun

mutual

theorem add_readsBack : ∀ (v : STValue) {type : STI}, v.typeOf = some type → Serializable v →
    ∃ bytes, add v = .ok bytes ∧ ReadsBack type bytes (canon v)
  | .uint8 value, _, rfl, _ => by
    refine ⟨_, add.eq_2 value, readsBack_number (fun n => .uint8 (.ofNat n)) (fun _ _ => rfl)
      value.toNat_lt ?_⟩
    exact congrArg STValue.uint8 value.ofNat_toNat
  | .uint16 value, _, rfl, _ => by
    refine ⟨_, add.eq_3 value, readsBack_number (fun n => .uint16 (.ofNat n)) (fun _ _ => rfl)
      value.toNat_lt ?_⟩
    exact congrArg STValue.uint16 value.ofNat_toNat
  | .uint32 value, _, rfl, _ => by
    refine ⟨_, add.eq_4 value, readsBack_number (fun n => .uint32 (.ofNat n)) (fun _ _ => rfl)
      value.toNat_lt ?_⟩
    exact congrArg STValue.uint32 value.ofNat_toNat
  | .uint64 value, _, rfl, _ => by
    refine ⟨_, add.eq_5 value, readsBack_number (fun n => .uint64 (.ofNat n)) (fun _ _ => rfl)
      value.toNat_lt ?_⟩
    exact congrArg STValue.uint64 value.ofNat_toNat
  | .hash128 value, _, rfl, h => by
    refine ⟨_, add.eq_6 value, readsBack_number .hash128 (fun _ _ => rfl) ?_ rfl⟩
    simpa [Serializable] using h
  | .hash160 value, _, rfl, h => by
    refine ⟨_, add.eq_7 value, readsBack_number .hash160 (fun _ _ => rfl) ?_ rfl⟩
    simpa [Serializable] using h
  | .hash256 value, _, rfl, h => by
    refine ⟨_, add.eq_8 value, readsBack_number .hash256 (fun _ _ => rfl) ?_ rfl⟩
    simpa [Serializable] using h
  | .amount value, _, rfl, h => by
    exact ⟨_, add.eq_9 value, readsBack_amount h.1 h.2⟩
  | .vl value, _, rfl, h => by
    obtain ⟨encoded, written, -⟩ := addVL_of_length h
    exact ⟨encoded, written, readsBack_blob .vl (fun _ _ => rfl) written⟩
  | .account value, _, rfl, h => by
    obtain ⟨encoded, written, -⟩ := addVL_of_length h
    exact ⟨encoded, written, readsBack_blob .account (fun _ _ => rfl) written⟩
  | .pathset value, _, rfl, h => by
    exact ⟨_, add.eq_12 value, readsBack_pathset h.1 h.2⟩
  | .vector256 value, _, rfl, h => by
    have length : (value.flatMap (toBytes 32)).length = 32 * value.length := by
      simp [Nat.mul_comm]
    obtain ⟨encoded, written, -⟩ := addVL_of_length (length.trans_le h.1)
    have read : ReadsBack .vector256 encoded _ :=
      readsBack_blob (fun bytes => .vector256 (chunks (bytes.length / 32) bytes)) (fun _ _ => rfl)
        written
    rw [chunks_flatMap h.2] at read
    exact ⟨encoded, written, read⟩
  | .object fields, _, rfl, h => by
    obtain ⟨l, reads, written, canonical⟩ := addFields_reads fields h.2
    obtain ⟨s, reads', bytes, values⟩ := sorted_reads reads
    refine ⟨s.flatMap Field.written ++ addFieldID STI.object.code 1, ?_, ?_⟩
    · rw [add, written, ok_bind, bytes]
      rfl
    · rw [canon, canonical, values]
      exact readsBack_object reads'
  | .array elements, _, rfl, h => by
    obtain ⟨l, reads, written, canonical⟩ := addElements_reads elements h
    refine ⟨l.flatMap Element.written ++ addFieldID STI.array.code 1, ?_, ?_⟩
    · rw [add, written]
      rfl
    · rw [canon, canonical]
      exact readsBack_array reads

theorem addFields_reads : ∀ fields : List (FieldName × STValue), SerializableFields fields →
    ∃ l : List Field, (∀ f ∈ l, f.Reads) ∧
      addFields fields = .ok (l.map fun f => (f.name.fieldCode, f.written)) ∧
      canonFields fields = l.map fun f => (f.name.fieldCode, f.name, f.value)
  | [], _ => ⟨[], by simp, by rw [addFields]; rfl, by rw [canonFields]; rfl⟩
  | (name, value) :: rest, h => by
    obtain ⟨l, reads, written, canonical⟩ := addFields_reads rest h.2
    cases present : isPresent (name, value) with
    | false =>
      refine ⟨l, reads, ?_, ?_⟩
      · rw [addFields, written, present]
        rfl
      · rw [canonFields, present, canonical]
        rfl
    | true =>
      obtain ⟨binary, type, form⟩ := h.1.resolve_left (typeOf_present present)
      obtain ⟨bytes, added, read⟩ := add_readsBack value type form
      refine ⟨⟨name, canon value, bytes⟩ :: l, ?_, ?_, ?_⟩
      · simpa using ⟨⟨binary, read⟩, reads⟩
      · rw [addFields, written, present, added]
        rfl
      · rw [canonFields, present, canonical]
        rfl

theorem addElements_reads : ∀ elements : List (FieldName × List (FieldName × STValue)),
    SerializableElements elements →
    ∃ l : List Element, (∀ e ∈ l, e.Reads) ∧ addElements elements = .ok (l.flatMap Element.written) ∧
      canonElements elements = l.map fun e => (e.name, e.fields.map fun f => (f.name, f.value))
  | [], _ => ⟨[], by simp, by rw [addElements]; rfl, by rw [canonElements]; rfl⟩
  | (name, fields) :: rest, h => by
    obtain ⟨⟨binary, type, -, form⟩, others⟩ := h
    obtain ⟨l, reads, written, canonical⟩ := addFields_reads fields form
    obtain ⟨s, reads', bytes, values⟩ := sorted_reads reads
    obtain ⟨es, readsAll, writtenAll, canonicalAll⟩ := addElements_reads rest others
    refine ⟨⟨name, s⟩ :: es, ?_, ?_, ?_⟩
    · simpa using ⟨⟨binary, type, reads'⟩, readsAll⟩
    · rw [addElements, written, writtenAll, ok_bind, bytes]
      simp [Element.written]
    · rw [canonElements, canonical, values, canonicalAll]
      rfl

end

section
variable (leaf : STValue → STValue → Prop)

mutual

/-- Values whose objects, at every depth, have the same present fields in some order,
with alike values in them. -/
inductive Alike : STValue → STValue → Prop
  | leaf {v w : STValue} : leaf v w → Alike v w
  | object {fields fields' moved : STObject} : (presentFields fields).Perm moved →
      AlikeFields moved (presentFields fields') → Alike (.object fields) (.object fields')
  | array {elements elements' : List (FieldName × STObject)} : AlikeElements elements elements' →
      Alike (.array elements) (.array elements')

inductive AlikeFields : STObject → STObject → Prop
  | nil : AlikeFields [] []
  | cons {name : FieldName} {v w : STValue} {rest rest' : STObject} : Alike v w →
      AlikeFields rest rest' → AlikeFields ((name, v) :: rest) ((name, w) :: rest')

inductive AlikeElements : List (FieldName × STObject) → List (FieldName × STObject) → Prop
  | nil : AlikeElements [] []
  | cons {name : FieldName} {fields fields' moved : STObject}
      {rest rest' : List (FieldName × STObject)} : (presentFields fields).Perm moved →
      AlikeFields moved (presentFields fields') → AlikeElements rest rest' →
      AlikeElements ((name, fields) :: rest) ((name, fields') :: rest')

end

/-- The same present fields in some order, with alike values in them. -/
def STObject.Alike (o o' : STObject) : Prop :=
  ∃ moved, (presentFields o).Perm moved ∧ AlikeFields leaf moved (presentFields o')

end

/-- Values that are the same: amounts and path elements by their own equalities. -/
inductive SameLeaf : STValue → STValue → Prop
  | refl (v : STValue) : SameLeaf v v
  | amount {a b : STAmount} : a.mIsNative = b.mIsNative → a.mIsNegative = b.mIsNegative →
      a.mValue = b.mValue → a.mOffset = b.mOffset → STAmount.Issue.eqv a.mIssue b.mIssue →
      SameLeaf (.amount a) (.amount b)
  | pathset {ps ps' : List (List PathElement)} :
      List.Forall₂ (List.Forall₂ fun e e' => e.eqv e') ps ps' → SameLeaf (.pathset ps) (.pathset ps')

theorem sameLeaf_fromWire (fits : a.Fits) : SameLeaf (.amount a) (.amount a.fromWire) := by
  cases native : a.mIsNative with
  | true =>
    unfold STAmount.Fits at fits
    rw [if_pos native] at fits
    refine .amount ?_ ?_ ?_ ?_ ?_ <;>
      simp [STAmount.fromWire, native, STAmount.Issue.eqv, isSWT, fits.1]
  | false =>
    have same : a.fromWire = a := by simp [STAmount.fromWire, native]
    rw [same]
    exact .refl _

theorem eqv_canon (h : e.Written) : e.eqv e.canon = true := by
  have announced : e.typeAccount = !isSWT e.account := by
    rw [Bool.eq_iff_iff, h.2.1]
    simp [isSWT]
  simp [PathElement.eqv, PathElement.canon, PathElement.make, ← announced]

theorem eqv_map_canon (h : ∀ path ∈ ps, path ≠ [] ∧ ∀ e ∈ path, e.Written) :
    List.Forall₂ (List.Forall₂ fun e e' => e.eqv e') ps (ps.map (List.map PathElement.canon)) := by
  refine List.forall₂_map_right_iff.2 (List.forall₂_same.2 fun path hp => ?_)
  exact List.forall₂_map_right_iff.2 (List.forall₂_same.2 fun e he => eqv_canon ((h path hp).2 e he))

theorem canonFields_eq (fields : STObject) : canonFields fields =
    (presentFields fields).map fun f => (f.1.fieldCode, f.1, canon f.2) := by
  induction fields with
  | nil => rw [canonFields]; rfl
  | cons f fields ih =>
    obtain ⟨name, value⟩ := f
    simp only [canonFields, ih, presentFields, List.filter_cons]
    cases isPresent (name, value) with
    | true => rfl
    | false => rfl

theorem isPresent_canon (h : isPresent (name, value) = true) :
    isPresent (name, canon value) = true := by
  cases value with
  | notPresent => cases h
  | _ => rw [canon] <;> first | exact h | simp

theorem alikeFields_map {l : STObject} (h : ∀ f ∈ l, Alike SameLeaf f.2 (canon f.2)) :
    AlikeFields SameLeaf l (l.map fun f => (f.1, canon f.2)) := by
  induction l with
  | nil => exact .nil
  | cons f l ih =>
    exact .cons (h f List.mem_cons_self) (ih fun g hg => h g (List.mem_cons_of_mem _ hg))

/-- An object whose fields are like their canonical values is like the sorted object. -/
theorem alike_sorted (distinct : DistinctCodes fields)
    (h : ∀ f ∈ fields, Alike SameLeaf f.2 (canon f.2)) :
    STObject.Alike SameLeaf fields ((sortFields (canonFields fields)).map Prod.snd) := by
  let coded := (presentFields fields).map fun f => (f.1.fieldCode, f)
  have codes : (coded.map Prod.fst).Nodup := by
    rw [List.map_map]
    exact distinct
  have sorted : (sortFields (canonFields fields)).map Prod.snd =
      ((sortFields coded).map Prod.snd).map fun f => (f.1, canon f.2) := by
    rw [canonFields_eq]
    exact sortFields_by _ _ _
  have perm : (presentFields fields).Perm ((sortFields coded).map Prod.snd) := by
    have moved := (sortFields_perm codes).map Prod.snd
    have back : coded.map Prod.snd = presentFields fields := by
      rw [List.map_map]
      exact List.map_id _
    rw [back] at moved
    exact moved.symm
  refine ⟨_, perm, ?_⟩
  rw [sorted]
  have members : ∀ f ∈ (sortFields coded).map Prod.snd, f ∈ presentFields fields :=
    fun f hf => perm.mem_iff.2 hf
  have present : presentFields (((sortFields coded).map Prod.snd).map fun f => (f.1, canon f.2)) =
      ((sortFields coded).map Prod.snd).map fun f => (f.1, canon f.2) := by
    refine List.filter_eq_self.2 fun g hg => ?_
    obtain ⟨f, hf, rfl⟩ := List.mem_map.1 hg
    exact isPresent_canon (List.mem_filter.1 (members f hf)).2
  rw [present]
  exact alikeFields_map fun f hf => h f (List.mem_filter.1 (members f hf)).1

mutual

theorem alike_canon : ∀ v : STValue, Serializable v → Alike SameLeaf v (canon v)
  | .amount value, h => by
    exact .leaf (sameLeaf_fromWire h.2)
  | .pathset value, h => by
    exact .leaf (.pathset (eqv_map_canon h.2))
  | .object fields, h => by
    obtain ⟨moved, perm, alike⟩ := alike_sorted h.1 (alike_canonFields fields h.2)
    exact .object perm alike
  | .array elements, h => by
    exact .array (alike_canonElements elements h)
  | .notPresent, _ | .uint8 _, _ | .uint16 _, _ | .uint32 _, _ | .uint64 _, _ | .hash128 _, _
  | .hash160 _, _ | .hash256 _, _ | .vl _, _ | .account _, _ | .vector256 _, _ => by
    rw [canon] <;> first | exact .leaf (.refl _) | simp

theorem alike_canonFields : ∀ fields : List (FieldName × STValue), SerializableFields fields →
    ∀ f ∈ fields, Alike SameLeaf f.2 (canon f.2)
  | [], _, _, hf => by cases hf
  | (name, value) :: rest, h, f, hf => by
    rcases List.mem_cons.1 hf with rfl | later
    · obtain none | ⟨-, -, form⟩ := h.1
      · cases value with
        | notPresent => rw [canon]; exacts [.leaf (.refl _), by simp, by simp, by simp, by simp]
        | _ => cases none
      · exact alike_canon value form
    · exact alike_canonFields rest h.2 f later

theorem alike_canonElements : ∀ elements : List (FieldName × List (FieldName × STValue)),
    SerializableElements elements → AlikeElements SameLeaf elements (canonElements elements)
  | [], _ => by
    exact .nil
  | (name, fields) :: rest, h => by
    obtain ⟨⟨-, -, distinct, form⟩, others⟩ := h
    obtain ⟨moved, perm, alike⟩ := alike_sorted distinct (alike_canonFields fields form)
    exact .cons perm alike (alike_canonElements rest others)

end

/-- The bytes of a value; none if it cannot be written. -/
def bytesOf (value : STValue) : List UInt8 :=
  match add value with
  | .ok bytes => bytes
  | .error _ => []

theorem bytesOf_eq (h : add value = .ok bytes) : bytesOf value = bytes := by
  rw [bytesOf, h]

/-- The fields of an object with their codes and bytes, in the order they are in. -/
def encoded (o : STObject) : List (Nat × List UInt8) :=
  o.map fun f => (f.1.fieldCode, f.1.addFieldID ++ bytesOf f.2)

def Writable (o : STObject) : Prop := ∀ f ∈ o, ∃ bytes, add f.2 = .ok bytes

theorem addFields_eq (h : Writable (presentFields fields)) :
    addFields fields = .ok (encoded (presentFields fields)) := by
  induction fields with
  | nil => rw [addFields]; rfl
  | cons f fields ih =>
    obtain ⟨name, value⟩ := f
    rw [presentFields, List.filter_cons] at h ⊢
    cases present : isPresent (name, value) with
    | false =>
      rw [present] at h
      rw [addFields, ih h, present]
      rfl
    | true =>
      rw [present] at h
      obtain ⟨bytes, written⟩ := h (name, value) List.mem_cons_self
      rw [addFields, ih fun f hf => h f (List.mem_cons_of_mem _ hf), present, written]
      simp [encoded, bytesOf_eq written, presentFields]

theorem serializableFields_iff : SerializableFields fields ↔
    ∀ f ∈ fields, f.2.typeOf = none ∨
      (f.1.Binary ∧ f.2.typeOf = some f.1.fieldType ∧ Serializable f.2) := by
  induction fields with
  | nil => simp [SerializableFields]
  | cons f fields ih =>
    obtain ⟨name, value⟩ := f
    simp [SerializableFields, ih]

theorem writable_present (h : SerializableFields fields) :
    ∀ f ∈ presentFields fields, (∃ bytes, add f.2 = .ok bytes) ∧ Serializable f.2 := by
  intro f hf
  obtain ⟨member, present⟩ := List.mem_filter.1 hf
  obtain ⟨name, value⟩ := f
  obtain ⟨-, type, form⟩ :=
    (serializableFields_iff.1 h _ member).resolve_left (typeOf_present present)
  obtain ⟨bytes, written, -⟩ := add_readsBack value type form
  exact ⟨⟨bytes, written⟩, form⟩

/-- Objects with the same present fields in some order are written the same. -/
theorem encoded_sorted {fields' moved : STObject} (distinct : DistinctCodes fields)
    (form : SerializableFields fields) (perm : (presentFields fields).Perm moved)
    (alike : (∀ f ∈ moved, (∃ bytes, add f.2 = .ok bytes) ∧ Serializable f.2) →
      encoded moved = encoded (presentFields fields') ∧ Writable (presentFields fields')) :
    ∃ l l', addFields fields = .ok l ∧ addFields fields' = .ok l' ∧
      sortFields l = sortFields l' := by
  have codes : ((encoded (presentFields fields)).map Prod.fst).Nodup := by
    rw [encoded, List.map_map]
    exact distinct
  have present := writable_present form
  obtain ⟨same, writable⟩ := alike fun f hf => present f (perm.mem_iff.2 hf)
  refine ⟨_, _, addFields_eq fun f hf => (present f hf).1, addFields_eq writable, ?_⟩
  rw [← same]
  exact sortFields_eq_of_perm (perm.map _) codes

mutual

theorem add_alike : ∀ {v w : STValue}, Alike (· = ·) v w → Serializable v → add v = add w
  | _, _, .leaf same, _ => by rw [same]
  | _, _, @Alike.object _ fields fields' _ perm alike, h => by
    obtain ⟨l, l', written, written', sorted⟩ := encoded_sorted h.1 h.2 perm (encoded_alike alike)
    rw [add, add, written, written', ok_bind, ok_bind, sorted]
  | _, _, .array alike, h => by
    rw [add, add, addElements_alike alike h]

theorem encoded_alike : ∀ {fields fields' : STObject}, AlikeFields (· = ·) fields fields' →
    (∀ f ∈ fields, (∃ bytes, add f.2 = .ok bytes) ∧ Serializable f.2) →
    encoded fields = encoded fields' ∧ Writable fields'
  | _, _, .nil, _ => ⟨rfl, fun _ hf => by cases hf⟩
  | _, _, @AlikeFields.cons _ name v w rest rest' alike others, h => by
    obtain ⟨⟨bytes, written⟩, form⟩ := h (name, v) List.mem_cons_self
    have same := add_alike alike form
    obtain ⟨same', writable⟩ := encoded_alike others fun f hf => h f (List.mem_cons_of_mem _ hf)
    refine ⟨?_, ?_⟩
    · unfold encoded at same' ⊢
      rw [List.map_cons, List.map_cons, same', bytesOf, bytesOf, same]
    · exact List.forall_mem_cons.2 ⟨⟨bytes, same ▸ written⟩, writable⟩

theorem addElements_alike : ∀ {elements elements' : List (FieldName × STObject)},
    AlikeElements (· = ·) elements elements' → SerializableElements elements →
    addElements elements = addElements elements'
  | _, _, .nil, _ => rfl
  | _, _, .cons perm alike others, h => by
    obtain ⟨⟨-, -, distinct, form⟩, rest⟩ := h
    obtain ⟨l, l', written, written', sorted⟩ :=
      encoded_sorted distinct form perm (encoded_alike alike)
    rw [addElements, addElements, written, written', ok_bind, ok_bind, sorted,
      addElements_alike others rest]

end

theorem SerializableFields.add_eq {o o' : STObject} (form : SerializableFields o)
    (distinct : DistinctCodes o) (h : STObject.Alike (· = ·) o o') : o.add = o'.add := by
  obtain ⟨moved, perm, alike⟩ := h
  obtain ⟨l, l', written, written', sorted⟩ :=
    encoded_sorted distinct form perm (encoded_alike alike)
  rw [STObject.add, STObject.add, written, written', ok_bind, ok_bind, sorted]

/-- An object is read back from its bytes with the present fields and values it had, and the
order of the fields of objects, at every depth, does not change the bytes. -/
theorem STObject.set_add_and_add_order (o : STObject) (distinct : DistinctCodes o)
    (form : SerializableFields o) :
    (∃ bytes o', o.add = .ok bytes ∧ STObject.set bytes = .ok ((o', false), []) ∧
      o.Alike SameLeaf o') ∧
    ∀ o' : STObject, o.Alike (· = ·) o' → o.add = o'.add := by
  refine ⟨?_, fun o' h => form.add_eq distinct h⟩
  obtain ⟨l, reads, written, canonical⟩ := addFields_reads o form
  obtain ⟨s, reads', bytes, values⟩ := sorted_reads reads
  refine ⟨s.flatMap Field.written, s.map fun f => (f.name, f.value), ?_, ?_, ?_⟩
  · rw [STObject.add, written, ok_bind, bytes]
    rfl
  · have read := getObject_fields reads' ends_nil (Nat.lt_succ_self _)
    rwa [List.append_nil] at read
  · rw [← values, ← canonical]
    exact alike_sorted distinct (alike_canonFields o form)

theorem STObject.set_add_nested :
    let inner : STObject := [(⟨.uint32, 4⟩, .uint32 7), (⟨.vl, 4⟩, .vl [1, 2])]
    let o : STObject := [(⟨.array, 9⟩, .array [(⟨.object, 10⟩, inner)]), (⟨.uint16, 2⟩, .uint16 3)]
    (DistinctCodes o ∧ SerializableFields o) ∧
      ∃ bytes o', o.add = .ok bytes ∧ STObject.set bytes = .ok ((o', false), []) ∧
        o.Alike SameLeaf o' := by
  intro inner o
  have distinct : DistinctCodes o := by
    unfold DistinctCodes
    decide
  have distinct' : DistinctCodes inner := by
    unfold DistinctCodes
    decide
  have form : SerializableFields o := by
    simp [o, inner, SerializableFields, Serializable, SerializableElements, STValue.typeOf,
      FieldName.Binary]
    exact distinct'
  exact ⟨⟨distinct, form⟩, (STObject.set_add_and_add_order o distinct form).1⟩

/-- An object with one path of one element. -/
def STObject.ofElement (e : PathElement) : STObject := [(⟨.pathset, 1⟩, .pathset [[e]])]

theorem eqv_of_alike {e e' : PathElement}
    (h : (STObject.ofElement e).Alike SameLeaf (.ofElement e')) : e.eqv e' = true := by
  obtain ⟨moved, perm, alike⟩ := h
  have present : presentFields (.ofElement e) = .ofElement e := rfl
  rw [present, STObject.ofElement, List.singleton_perm] at perm
  subst perm
  cases alike with
  | cons alike _ =>
  cases alike with
  | leaf same =>
  cases same with
  | refl => simp [PathElement.eqv]
  | pathset same =>
    cases same with
    | cons path _ =>
    cases path with
    | cons element _ => exact element

/-- An object with the element is written, and another one is read. -/
def STObject.Loses (e : PathElement) : Prop :=
  DistinctCodes (.ofElement e) ∧ e.getNodeType ≠ 0 ∧
    ∃ bytes o', (STObject.ofElement e).add = .ok bytes ∧ STObject.set bytes = .ok ((o', false), []) ∧
      ¬(STObject.ofElement e).Alike SameLeaf o'

theorem STObject.loses_of_read {e : PathElement} {bytes : List UInt8} (e' : PathElement)
    (announced : e.getNodeType ≠ 0) (written : (STObject.ofElement e).add = .ok bytes)
    (read : STObject.set bytes = .ok ((.ofElement e', false), [])) (other : e.eqv e' = false) :
    STObject.Loses e := by
  refine ⟨List.nodup_singleton _, announced, bytes, .ofElement e', written, read, fun alike => ?_⟩
  rw [eqv_of_alike alike] at other
  cases other

/-- Identifiers that the type of an element does not announce are lost, and an account that is
announced and zero is read as none. The first element is of the form that `Pathfinder` makes. -/
theorem STObject.set_add_unannounced :
    STObject.Loses ⟨true, false, false, 5, 7, 5⟩ ∧ STObject.Loses ⟨true, true, false, 0, 7, 0⟩ ∧
      STObject.Loses ⟨false, true, false, 5, 7, 0⟩ :=
  ⟨loses_of_read ⟨true, false, false, 5, 0, 0⟩ (by decide) rfl rfl rfl,
    loses_of_read ⟨false, true, false, 0, 7, 0⟩ (by decide) rfl rfl rfl,
    loses_of_read ⟨false, true, false, 0, 7, 0⟩ (by decide) rfl rfl rfl⟩

end Wire

end Skywell
