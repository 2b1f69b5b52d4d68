import JingtumCore.SHAMapSync

/-!
# Nodes written and read

`SHAMapTreeNode::addRaw` in the formats of the wire and of the database. Both give back the
node, and the second is what is hashed.
-/

namespace Skywell.SHAMapSync
open SHAMapTree BigEndian TreeNode

def TreeNode.content : TreeNode → Option Content
  | null => none
  | leaf item type _ => some (.item item type)
  | innerNode isBranch hashes _ _ _ => some (.branches isBranch hashes)

/-- All hashes of an inner node. -/
def addHashes (hashes : Fin 16 → Nat) : List UInt8 :=
  (List.finRange 16).flatMap fun i => toBytes 32 (hashes i)

/-- The hashes of some branches, each with its position. -/
def addBranches (hashes : Fin 16 → Nat) (branches : List (Fin 16)) : List UInt8 :=
  branches.flatMap fun i => toBytes 32 (hashes i) ++ [UInt8.ofNat i]

namespace Content

def addTagged (item : SHAMapItem) : List UInt8 := item.data ++ toBytes 32 item.tag.toNat

def addPrefix : Content → List UInt8
  | branches _ hashes => hashPrefix 'M' 'I' 'N' ++ addHashes hashes
  | item i .tnACCOUNT_STATE => hashPrefix 'M' 'L' 'N' ++ addTagged i
  | item i .tnTRANSACTION_NM => hashPrefix 'T' 'X' 'N' ++ i.data
  | item i .tnTRANSACTION_MD => hashPrefix 'S' 'N' 'D' ++ addTagged i

def addWire : Content → List UInt8
  | branches isBranch hashes =>
    let branches := (List.finRange 16).filter fun i => isBranch i
    if branches.length < 12 then addBranches hashes branches ++ [3] else addHashes hashes ++ [2]
  | item i .tnACCOUNT_STATE => addTagged i ++ [1]
  | item i .tnTRANSACTION_NM => i.data ++ [0]
  | item i .tnTRANSACTION_MD => addTagged i ++ [4]

end Content

def addRaw (node : TreeNode) (format : SHANodeFormat) : Except Fault (List UInt8) :=
  match node.content, format with
  | none, _ => .error (.runtimeError "invalid I node type")
  | some _, .snfHASH => .ok (toBytes 32 node.getNodeHash)
  | some content, .snfPREFIX => .ok content.addPrefix
  | some content, .snfWIRE => .ok content.addWire

variable {content : Content} {hashes : Fin 16 → Nat} {invalid : String}

theorem get256_toBytes {n : Nat} (small : n < 2 ^ 256) (rest : List UInt8) :
    get256 (toBytes 32 n ++ rest) = n := by
  rw [get256, List.take_left' (toBytes_length 32 n), bin2bn_toBytes small]

theorem get256_flatMap {ns : List Nat} (small : ∀ n ∈ ns, n < 2 ^ 256) {k : Nat}
    (inside : k < ns.length) : get256 ((ns.flatMap (toBytes 32)).drop (k * 32)) = ns[k] := by
  induction ns generalizing k with
  | nil => simp at inside
  | cons n ns ih =>
    obtain ⟨here, small⟩ := List.forall_mem_cons.1 small
    cases k with
    | zero => simpa using get256_toBytes here _
    | succ k =>
      have next : (k + 1) * 32 = (toBytes 32 n).length + k * 32 := by
        rw [toBytes_length]
        omega
      rw [List.flatMap_cons, next, ← List.drop_drop, List.drop_left]
      exact ih small (by simpa using inside)

theorem length_addHashes (hashes : Fin 16 → Nat) : (addHashes hashes).length = 512 := by
  simp [addHashes]

theorem readFull_addHashes {isBranch : Fin 16 → Bool}
    (valid : ∀ i, (isBranch i = true ↔ hashes i ≠ 0) ∧ hashes i < 2 ^ 256) :
    readFull invalid (addHashes hashes) = .ok (.branches isBranch hashes) := by
  have read (i : Fin 16) : get256 ((addHashes hashes).drop (i * 32)) = hashes i := by
    have small : ∀ n ∈ (List.finRange 16).map hashes, n < 2 ^ 256 :=
      List.forall_mem_map.2 fun i _ => (valid i).2
    have whole : addHashes hashes = ((List.finRange 16).map hashes).flatMap (toBytes 32) := by
      rw [addHashes, List.flatMap_map]
    rw [whole, get256_flatMap small (k := i) (by simp)]
    simp
  rw [readFull, if_neg (not_not.2 (length_addHashes hashes))]
  simp only [read]
  congr 2
  funext i
  rw [Bool.eq_iff_iff, decide_eq_true_iff, (valid i).1]

theorem readCompressed_succ {n : Nat} {bytes : List UInt8} {isBranch : Fin 16 → Bool} :
    readCompressed (n + 1) bytes isBranch hashes =
      match bytes.drop 32 with
      | [] => .error (.runtimeError "short CI node")
      | b :: rest =>
        let pos := Fin.ofNat 16 b.toNat
        if b.toNat ≥ 16 then .error (.runtimeError "invalid CI node")
        else readCompressed n rest (Function.update isBranch pos (isBranch pos || get256 bytes ≠ 0))
          (Function.update hashes pos (get256 bytes)) :=
  rfl

/-- The branches that are read replace what was there. -/
theorem readCompressed_addBranches {branches : List (Fin 16)}
    (valid : ∀ i ∈ branches, hashes i ≠ 0 ∧ hashes i < 2 ^ 256) (isBranch' : Fin 16 → Bool)
    (hashes' : Fin 16 → Nat) :
    readCompressed branches.length (addBranches hashes branches) isBranch' hashes' =
      .ok (.branches (fun i => decide (i ∈ branches) || isBranch' i)
        fun i => if i ∈ branches then hashes i else hashes' i) := by
  induction branches generalizing isBranch' hashes' with
  | nil =>
    change Except.ok (Content.branches isBranch' hashes') = _
    simp
  | cons b branches ih =>
    obtain ⟨⟨nonzero, small⟩, valid⟩ := List.forall_mem_cons.1 valid
    have bytes : addBranches hashes (b :: branches) =
        toBytes 32 (hashes b) ++ (UInt8.ofNat b :: addBranches hashes branches) := by
      simp [addBranches]
    have position : (UInt8.ofNat b).toNat = b := toNat_ofNat_of_lt (by omega)
    have after : (addBranches hashes (b :: branches)).drop 32 =
        UInt8.ofNat b :: addBranches hashes branches := by
      rw [bytes, List.drop_left' (toBytes_length 32 _)]
    rw [List.length_cons, readCompressed_succ, after, bytes, get256_toBytes small]
    dsimp only
    rw [position, if_neg (by omega), ih valid]
    refine congrArg _ (congrArg₂ _ (funext fun i => ?_) (funext fun i => ?_))
    · by_cases same : i = b
      · simp [same, nonzero]
      · simp [same]
    · by_cases same : i = b
      · simp [same]
      · simp [same]

theorem chopTag_addTagged (short : String) (i : SHAMapItem) :
    chopTag short (Content.addTagged i) = .ok i := by
  have length : (Content.addTagged i).length - 32 = i.data.length := by simp [Content.addTagged]
  have tag : get256 (toBytes 32 i.tag.toNat) = i.tag.toNat := by
    simpa using get256_toBytes i.tag.isLt []
  rw [chopTag, if_neg (by simp [Content.addTagged]), length, Content.addTagged, List.drop_left,
    List.take_left, tag, BitVec.ofNat_toNat, BitVec.setWidth_eq]

theorem readTagged_addTagged {type : TNType} {short : String} {i : SHAMapItem} (nonzero : i.tag ≠ 0) :
    readTagged type short invalid (Content.addTagged i) = .ok (.item i type) := by
  rw [readTagged, chopTag_addTagged]
  exact if_neg nonzero

section
variable [Sha512]
open Sha512

def updateHash (node : TreeNode) : Nat :=
  match node.content with
  | none => 0
  | some content => content.toNode.getNodeHash

/-- The content of a node that is not empty: the hash of a branch is not zero, and a
transaction's tag is its hash. -/
def Content.Valid : Content → Prop
  | .branches isBranch hashes => (∃ i, isBranch i = true) ∧
      ∀ i, (isBranch i = true ↔ hashes i ≠ 0) ∧ hashes i < 2 ^ 256
  | .item i .tnTRANSACTION_NM =>
    i.tag = BitVec.ofNat 256 (getSHA512Half (hashPrefix 'T' 'X' 'N' ++ i.data))
  | .item i _ => i.tag ≠ 0

theorem readPrefix_addPrefix (valid : content.Valid) :
    readPrefix content.addPrefix = .ok content := by
  have long (a b c : Char) (s : List UInt8) : ¬ (hashPrefix a b c ++ s).length < 4 := by
    simp [hashPrefix]
  have first (a b c : Char) (s : List UInt8) : (hashPrefix a b c ++ s).take 4 = hashPrefix a b c :=
    List.take_left' rfl
  have after (a b c : Char) (s : List UInt8) : (hashPrefix a b c ++ s).drop 4 = s :=
    List.drop_left' rfl
  rcases content with ⟨i, type⟩ | ⟨isBranch, hashes⟩
  · cases type with
    | tnTRANSACTION_NM =>
      simp only [Content.addPrefix, readPrefix, long, first, after, if_true, if_false,
        readTransaction]
      rw [← valid]
    | tnACCOUNT_STATE =>
      simp only [Content.addPrefix, readPrefix, long, first, after, if_true, if_false]
      rw [if_neg (by decide), readTagged_addTagged valid]
    | tnTRANSACTION_MD =>
      simp only [Content.addPrefix, readPrefix, long, first, after, chopTag_addTagged]
      rfl
  · simp only [Content.addPrefix, readPrefix, long, first, after, if_true, if_false]
    rw [if_neg (by decide), if_neg (by decide), readFull_addHashes valid.2]

theorem readWire_addWire (valid : content.Valid) : readWire content.addWire = .ok content := by
  have last (s : List UInt8) (b : UInt8) : (s ++ [b]).getLast? = some b := List.getLast?_concat
  have init (s : List UInt8) (b : UInt8) : (s ++ [b]).dropLast = s := List.dropLast_concat
  rcases content with ⟨i, type⟩ | ⟨isBranch, hashes⟩
  · cases type with
    | tnTRANSACTION_NM =>
      simp only [Content.addWire, readWire, last, init, readTransaction]
      rw [← valid]
      rfl
    | tnACCOUNT_STATE =>
      simp only [Content.addWire, readWire, last, init]
      exact readTagged_addTagged valid
    | tnTRANSACTION_MD =>
      simp only [Content.addWire, readWire, last, init]
      exact readTagged_addTagged valid
  · simp only [Content.addWire]
    have count (branches : List (Fin 16)) :
        (addBranches hashes branches).length / 33 = branches.length := by
      simp [addBranches]
    split
    · simp only [readWire, last, init]
      rw [count, readCompressed_addBranches fun i member =>
        ⟨((valid.2 i).1).1 (by simpa using member), (valid.2 i).2⟩]
      refine congrArg _ (congrArg₂ _ (funext fun i => by simp) (funext fun i => ?_))
      by_cases branch : isBranch i = true
      · simp [branch]
      · have := mt (valid.2 i).1.2 branch
        simp_all
    · simp only [readWire, last, init]
      exact readFull_addHashes valid.2

theorem addRaw_roundTrip (node : TreeNode) (content : Content) (kind : node.content = some content)
    (valid : content.Valid) :
    (∀ format, format ≠ .snfHASH → ∃ bytes node', addRaw node format = .ok bytes ∧
      makeNode bytes format = .ok node' ∧ node'.content = some content ∧
      updateHash node' = updateHash node ∧ node'.getNodeHash = updateHash node) ∧
    ∃ bytes, addRaw node .snfPREFIX = .ok bytes ∧ getSHA512Half bytes = updateHash node := by
  have made : content.toNode.content = some content := by cases content <;> rfl
  have hash : updateHash node = content.toNode.getNodeHash := by rw [updateHash, kind]
  have hash' : updateHash content.toNode = content.toNode.getNodeHash := by rw [updateHash, made]
  refine ⟨fun format formed => ?_, content.addPrefix, by simp [addRaw, kind], ?_⟩
  · cases format with
    | snfHASH => exact absurd rfl formed
    | snfPREFIX =>
      refine ⟨content.addPrefix, content.toNode, by simp [addRaw, kind], ?_, made, hash'.trans hash.symm,
        hash.symm⟩
      rw [makeNode, readPrefix_addPrefix valid]
      rfl
    | snfWIRE =>
      refine ⟨content.addWire, content.toNode, by simp [addRaw, kind], ?_, made, hash'.trans hash.symm,
        hash.symm⟩
      rw [makeNode, readWire_addWire valid]
      rfl
  · rw [hash]
    rcases content with ⟨i, type⟩ | ⟨isBranch, hashes⟩
    · cases type <;> rfl
    · exact (if_pos valid.1).symm

end

/-- An inner node with two branches. -/
def twoBranches : TreeNode :=
  innerNode (fun i => i.val == 3 || i.val == 9)
    (fun i => if i.val = 3 then 5 else if i.val = 9 then 2 ^ 255 else 0) (fun _ => null) 0 0

theorem addRaw_roundTrip_inner : ∃ (_ : Sha512) (bytes : List UInt8) (node' : TreeNode),
    addRaw twoBranches .snfWIRE = .ok bytes ∧ makeNode bytes .snfWIRE = .ok node' ∧
      node'.content = twoBranches.content ∧ node'.getNodeHash = updateHash twoBranches := by
  let _ : Sha512 := ⟨fun _ => 7⟩
  obtain ⟨bytes, node', written, read, content, -, hash⟩ :=
    (addRaw_roundTrip twoBranches _ rfl ⟨⟨3, rfl⟩, by decide⟩).1 .snfWIRE (by decide)
  exact ⟨_, bytes, node', written, read, content, hash⟩

end Skywell.SHAMapSync
