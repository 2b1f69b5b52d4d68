import JingtumCore.ObjectWire

/-!
# Path sets on the wire

The type byte of a path element is made anew when the element is written. An element that was
announced with identifiers that are zero is written as the byte that ends the set.
-/

namespace Skywell.Wire
open BigEndian ExceptFold SerialIter

variable {fuel : Nat} {path : List PathElement} {paths ps qs : List (List PathElement)}
  {e : PathElement} {sit rest : SerialIter} {iType : Nat}

/-- After the type byte: no currency follows, and the identifiers that follow are zero. -/
def Blank (iType : Nat) (sit : SerialIter) : Prop :=
  iType / 16 % 2 = 0 ∧ ∀ b ∈ sit.take (20 * (iType % 2 + iType / 32 % 2)), b = 0

/-- No element of the bytes of a path set is blank. -/
def NoBlank : Nat → SerialIter → Prop
  | 0, _ => True
  | _, [] => True
  | fuel + 1, iType :: sit =>
    if iType = 0x00 then True
    else if iType = 0xff then NoBlank fuel sit
    else ¬ Blank iType.toNat sit ∧
      ∀ e rest, getPathElement iType.toNat sit = .ok (e, rest) → NoBlank fuel rest

theorem toBytes_zero (width : Nat) : toBytes width 0 = List.replicate width 0 := by
  induction width with
  | zero => rfl
  | succ width ih =>
    rw [List.replicate_succ', ← ih]
    rfl

theorem zero_bytes_iff {width n : Nat} (h : n < 256 ^ width) :
    (∀ b ∈ toBytes width n, b = 0) ↔ n = 0 := by
  constructor
  · intro zero
    have same := List.eq_replicate_iff.2 ⟨toBytes_length width n, zero⟩
    rw [← toBytes_zero] at same
    rw [← bin2bn_toBytes h, same, bin2bn_toBytes (Nat.pow_pos (by decide))]
  · rintro rfl b member
    rw [toBytes_zero] at member
    exact List.eq_of_mem_replicate member

/-- One identifier of an element. -/
def getIdentifier (announced : Bool) (sit : SerialIter) : Except Fault (Nat × SerialIter) :=
  if announced then getNumber 20 sit else .ok (0, sit)

theorem getIdentifier_eq_ok {announced : Bool} {n : Nat}
    (read : getIdentifier announced sit = .ok (n, rest)) :
    n < 256 ^ 20 ∧ (announced = false → n = 0) ∧ ∃ bytes, sit = bytes ++ rest ∧
      bytes.length = (if announced then 20 else 0) ∧ ((∀ b ∈ bytes, b = 0) ↔ n = 0) := by
  cases announced with
  | true =>
    obtain ⟨whole, small⟩ := getNumber_eq_ok read
    exact ⟨small, nofun, _, whole, toBytes_length _ _, zero_bytes_iff small⟩
  | false =>
    cases read
    exact ⟨Nat.pow_pos (by decide), fun _ => rfl, [], rfl, rfl, by simp⟩

theorem getPathElement_eq :
    getPathElement iType sit = (do
      let (account, sit) ← getIdentifier (iType % 2 = 1) sit
      let (currency, sit) ← getIdentifier (iType / 16 % 2 = 1) sit
      let (issuer, sit) ← getIdentifier (iType / 32 % 2 = 1) sit
      return (.make account currency issuer (iType / 16 % 2 = 1), sit)) := by
  unfold getPathElement getIdentifier
  simp only [decide_eq_true_eq]
  split_ifs <;> rfl

theorem getPathElement_eq_ok (read : getPathElement iType sit = .ok (e, rest)) :
    (e.getNodeType = 0 ↔ Blank iType sit) ∧ (e.getNodeType ≠ 0 → e.Written) ∧ e.canon = e := by
  rw [getPathElement_eq] at read
  obtain ⟨⟨account, sit1⟩, read1, read⟩ := bind_eq_ok.1 read
  obtain ⟨⟨currency, sit2⟩, read2, read⟩ := bind_eq_ok.1 read
  obtain ⟨⟨issuer, sit3⟩, read3, read⟩ := bind_eq_ok.1 read
  cases read
  obtain ⟨small1, -, bytes1, rfl, length1, zero1⟩ := getIdentifier_eq_ok read1
  obtain ⟨small2, none2, bytes2, rfl, length2, -⟩ := getIdentifier_eq_ok read2
  obtain ⟨small3, -, bytes3, rfl, length3, zero3⟩ := getIdentifier_eq_ok read3
  have type : (PathElement.make account currency issuer (iType / 16 % 2 = 1)).getNodeType = 0 ↔
      ¬ iType / 16 % 2 = 1 ∧ account = 0 ∧ currency = 0 ∧ issuer = 0 := by
    simp only [PathElement.make, PathElement.getNodeType, isSWT]
    by_cases h1 : account = 0 <;> by_cases h2 : currency = 0 <;> by_cases h3 : issuer = 0 <;>
      by_cases force : iType / 16 % 2 = 1 <;> simp [h3, force]
  have limit : (256 : Nat) ^ 20 = 2 ^ 160 := by norm_num
  refine ⟨?_, fun typed => ⟨typed, ?_, ?_, ?_, limit ▸ small1, limit ▸ small2, limit ▸ small3⟩, ?_⟩
  rotate_left
  · simp [PathElement.make, isSWT]
  · simp [PathElement.make, isSWT]
  · simp [PathElement.make, isSWT]
  · by_cases force : iType / 16 % 2 = 1 <;> simp [PathElement.make, PathElement.canon]
  rw [type, Blank, ← Nat.mod_two_ne_one]
  refine and_congr_right fun none => ?_
  obtain rfl : bytes2 = [] := List.length_eq_zero_iff.1 (by simpa [none] using length2)
  have all : (bytes1 ++ bytes3).length = 20 * (iType % 2 + iType / 32 % 2) := by
    rw [List.length_append, length1, length3]
    simp only [decide_eq_true_eq]
    split_ifs <;> omega
  rw [List.nil_append, ← List.append_assoc, List.take_left' all, List.forall_mem_append, zero1, zero3]
  simp [none2 (by simp [none])]

theorem getPathSet_end : getPathSet (fuel + 1) path paths (0x00 :: rest) =
      if path.isEmpty then .error (.runtimeError "empty path") else .ok (paths ++ [path], rest) := by
  cases path <;> rfl

theorem getPathSet_boundary : getPathSet (fuel + 1) path paths (0xff :: rest) =
      if path.isEmpty then .error (.runtimeError "empty path")
      else getPathSet fuel [] (paths ++ [path]) rest := by
  cases path <;> rfl

/-- An element as the reader makes it. -/
def Made (e : PathElement) : Prop := (e.getNodeType ≠ 0 → e.Written) ∧ e.canon = e

/-- The elements of a set that was read; whether one has the type zero shows in the bytes. -/
theorem getPathSet_eq_ok (read : getPathSet fuel path paths sit = .ok (ps, rest)) :
    ∃ new path', ps = paths ++ (path ++ path') :: new ∧ path ++ path' ≠ [] ∧ (∀ p ∈ new, p ≠ []) ∧
      (∀ e ∈ path' ++ new.flatten, Made e) ∧
      ((∀ e ∈ path' ++ new.flatten, e.getNodeType ≠ 0) ↔ NoBlank fuel sit) := by
  induction fuel generalizing path paths sit with
  | zero => cases read
  | succ fuel ih =>
    cases sit with
    | nil => cases read
    | cons iType sit =>
      by_cases last : iType = 0x00
      · subst last
        rw [getPathSet_end] at read
        split at read
        · cases read
        · next nonempty =>
          cases read
          exact ⟨[], [], by simp, by simpa using nonempty, by simp, by simp, by simp [NoBlank]⟩
      by_cases boundary : iType = 0xff
      · subst boundary
        rw [getPathSet_boundary] at read
        split at read
        · cases read
        · next nonempty =>
          obtain ⟨new, path', rfl, some_, rest', made, blank⟩ := ih read
          refine ⟨path' :: new, [], by simp, by simpa using nonempty, ?_, by simpa using made, ?_⟩
          · simpa using ⟨some_, rest'⟩
          · simpa [NoBlank] using blank
      · have other : ¬ ((iType.toNat = 0x00 || iType.toNat = 0xff) = true) := by
          simpa [← UInt8.toNat_inj] using And.intro last boundary
        simp only [getPathSet, getNumber_cons, ok_bind, if_neg other] at read
        split at read
        · cases read
        obtain ⟨⟨e, sit'⟩, element, read⟩ := bind_eq_ok.1 read
        obtain ⟨type, written, canon⟩ := getPathElement_eq_ok element
        obtain ⟨new, path', rfl, some_, rest', made, blank⟩ := ih read
        refine ⟨new, e :: path', by simp, by simp, rest', ?_, ?_⟩
        · exact List.forall_mem_cons.2 ⟨⟨written, canon⟩, made⟩
        · rw [List.cons_append, List.forall_mem_cons, blank, NoBlank, if_neg last, if_neg boundary,
            element, Ne, type]
          simp

/-- A written set ends at its first element of the type zero. -/
theorem getPathSet_short {p : List PathElement} (made : ∀ e ∈ (p :: ps).flatten, Made e)
    (blank : ∃ e ∈ (p :: ps).flatten, e.getNodeType = 0)
    (read : getPathSet fuel path paths (addPathSet (p :: ps)) = .ok (qs, rest)) :
    qs.flatten.length < paths.flatten.length + path.length + (p :: ps).flatten.length := by
  induction fuel generalizing path paths p ps with
  | zero => cases read
  | succ fuel ih =>
    cases p with
    | nil =>
      cases ps with
      | nil => simp at blank
      | cons p ps =>
        rw [addPathSet, List.flatMap_nil, List.nil_append, addPaths, getPathSet_boundary] at read
        split at read
        · cases read
        have := ih (by simpa using made) (by simpa using blank) read
        simp at this ⊢
        omega
    | cons e p =>
      obtain ⟨here, made⟩ := List.forall_mem_cons.1 made
      rw [addPathSet, List.flatMap_cons, List.append_assoc] at read
      by_cases type : e.getNodeType = 0
      · have ends : e.add = [0x00] := by
          unfold PathElement.getNodeType at type
          unfold PathElement.add PathElement.getNodeType
          split_ifs at type ⊢ <;> simp_all
        rw [ends, List.singleton_append, getPathSet_end] at read
        split at read
        · cases read
        · cases read
          simp
      · rw [getPathSet_element (here.1 type)] at read
        have := ih made (by simpa [type] using blank) read
        simp at this ⊢
        omega

/-- A set that was read comes back, unless an element of the bytes is blank. -/
theorem pathSet_roundTrip_iff (bytes : List UInt8) (ps : List (List PathElement))
    (rest : SerialIter) (read : getPathSet (bytes.length + 1) [] [] bytes = .ok (ps, rest)) :
    (∃ qs rest', getPathSet ((addPathSet ps).length + 1) [] [] (addPathSet ps) = .ok (qs, rest') ∧
      List.Forall₂ (List.Forall₂ fun e e' => e.eqv e') ps qs) ↔ NoBlank (bytes.length + 1) bytes := by
  obtain ⟨new, path, rfl, some_, others, made, blank⟩ := getPathSet_eq_ok read
  rw [← blank]
  constructor
  · rintro ⟨qs, rest', again, same⟩ e member type
    have short := getPathSet_short made ⟨e, member, type⟩ again
    have count := (List.rel_flatten same).length_eq
    simp at short count
    omega
  · intro types
    have written : ∀ p ∈ path :: new, p ≠ [] ∧ ∀ e ∈ p, e.Written := by
      intro p member
      refine ⟨?_, fun e he => (made e ?_).1 (types e ?_)⟩
      · exact (List.forall_mem_cons (p := (· ≠ []))).2 ⟨some_, others⟩ p member
      all_goals exact List.mem_flatten_of_mem member he
    refine ⟨_, [], ?_, eqv_map_canon written⟩
    have back := getPathSet_add (List.cons_ne_nil path new) written
      (Nat.le_succ (addPathSet (path :: new)).length) []
    rwa [List.append_nil] at back

/-- An account that is announced and zero is written as the end of the set. -/
theorem pathSet_blank_lost :
    getPathSet 23 [] [] (0x01 :: List.replicate 20 0 ++ [0x00]) =
      .ok ([[.make 0 0 0 false]], []) ∧
    getPathSet 3 [] [] (addPathSet [[.make 0 0 0 false]]) = .error (.runtimeError "empty path") :=
  ⟨rfl, rfl⟩

theorem pathSet_roundTrip_native :
    ∃ qs rest', getPathSet ((addPathSet [[.make 0 0 0 true]]).length + 1) [] []
        (addPathSet [[.make 0 0 0 true]]) = .ok (qs, rest') ∧
      List.Forall₂ (List.Forall₂ fun e e' => PathElement.eqv e e') [[.make 0 0 0 true]] qs := by
  refine (pathSet_roundTrip_iff (0x10 :: List.replicate 20 0 ++ [0x00]) _ [] rfl).2 ?_
  refine ⟨fun blank => absurd blank.1 (by decide), fun e rest read => ?_⟩
  cases read
  trivial

end Skywell.Wire
