import JingtumCore.SHAMapTree

/-!
# Maps that are filled from the network

`SHAMap::addRootNode` and `addKnownNode` link nodes that come as bytes into the tree
of a map. An inner node records the hashes of all its branches; the children that
are not there yet are null. What the full below cache, the node cache, the database
and the sync filter answer during a call is a parameter of the call.

At depth 64 and below the source would read past the end of an identifier; here
`selectBranch` repeats the last branch there.
-/
namespace Skywell.SHAMapSync
open SHAMapTree BigEndian

inductive TreeNode where
  | null
  | leaf (mItem : SHAMapItem) (mType : TNType) (mHash : Nat)
  | innerNode (mIsBranch : Fin 16 → Bool) (mHashes : Fin 16 → Nat) (mChildren : Fin 16 → TreeNode)
      (mHash mFullBelowGen : Nat)

structure SHAMapNodeID where
  mNodeID : Tag
  mDepth : Int
  deriving DecidableEq

namespace SHAMapNodeID

def root : SHAMapNodeID := ⟨0, 0⟩

/-- `Masks`. -/
def masks (depth : Nat) : Tag := BitVec.ofNat 256 (2 ^ 256 - 16 ^ (64 - depth))

def getChildNodeID (id : SHAMapNodeID) (m : Fin 16) : SHAMapNodeID :=
  let child := id.mNodeID ||| BitVec.ofNat 256 (m * 16 ^ (63 - id.mDepth.toNat))
  ⟨child &&& masks (id.mDepth.toNat + 1), id.mDepth + 1⟩

def selectBranch (id : SHAMapNodeID) (hash : Tag) : Fin 16 :=
  SHAMapTree.selectBranch id.mDepth.toNat hash

end SHAMapNodeID

namespace TreeNode

def isNull : TreeNode → Bool
  | null => true
  | _ => false

def isInner : TreeNode → Bool
  | innerNode .. => true
  | _ => false

def isLeaf : TreeNode → Bool
  | leaf .. => true
  | _ => false

/-- Nodes at depth 64 must be leaves. -/
def isInBounds (node : TreeNode) (id : SHAMapNodeID) : Bool := !node.isInner || id.mDepth < 64

def getNodeHash : TreeNode → Nat
  | null => 0
  | leaf _ _ h => h
  | innerNode _ _ _ h _ => h

end TreeNode
open TreeNode

inductive SHANodeFormat where
  | snfPREFIX | snfWIRE | snfHASH
  deriving DecidableEq

/-- What the bytes of a node say. -/
inductive Content where
  | item (item : SHAMapItem) (type : TNType)
  | branches (isBranch : Fin 16 → Bool) (hashes : Fin 16 → Nat)

def get256 (bytes : List UInt8) : Nat := bin2bn (bytes.take 32)

/-- The tag at the end of the bytes, and the bytes without it. -/
def chopTag (short : String) (bytes : List UInt8) : Except Fault SHAMapItem :=
  if bytes.length < 32 then .error (.runtimeError short)
  else .ok ⟨BitVec.ofNat 256 (get256 (bytes.drop (bytes.length - 32))),
    bytes.take (bytes.length - 32)⟩

def readTagged (type : TNType) (short invalid : String) (bytes : List UInt8) :
    Except Fault Content := do
  let item ← chopTag short bytes
  if item.tag = 0 then throw (.runtimeError invalid)
  return .item item type

def readFull (invalid : String) (bytes : List UInt8) : Except Fault Content :=
  if bytes.length ≠ 512 then .error (.runtimeError invalid)
  else
    let hashes (i : Fin 16) := get256 (bytes.drop (i * 32))
    .ok (.branches (fun i => hashes i ≠ 0) hashes)

/-- A branch that comes twice keeps its mark even if the second hash is zero. -/
def readCompressed : Nat → List UInt8 → (Fin 16 → Bool) → (Fin 16 → Nat) → Except Fault Content
  | 0, _, isBranch, hashes => .ok (.branches isBranch hashes)
  | n + 1, bytes, isBranch, hashes =>
    match bytes.drop 32 with
    | [] => .error (.runtimeError "short CI node")
    | pos :: rest =>
      if pos.toNat ≥ 16 then .error (.runtimeError "invalid CI node")
      else
        let pos := Fin.ofNat 16 pos.toNat
        readCompressed n rest
          (Function.update isBranch pos (isBranch pos || get256 bytes ≠ 0))
          (Function.update hashes pos (get256 bytes))

section
variable [Sha512]
open Sha512

def readTransaction (bytes : List UInt8) : Content :=
  .item ⟨BitVec.ofNat 256 (getSHA512Half (hashPrefix 'T' 'X' 'N' ++ bytes)), bytes⟩
    .tnTRANSACTION_NM

def readWire (rawNode : List UInt8) : Except Fault Content :=
  match rawNode.getLast? with
  | none => .error (.runtimeError "invalid node AW type")
  | some type =>
    let s := rawNode.dropLast
    match type.toNat with
    | 0 => .ok (readTransaction s)
    | 1 => readTagged .tnACCOUNT_STATE "short AS node" "invalid AS node" s
    | 2 => readFull "invalid FI node" s
    | 3 => readCompressed (s.length / 33) s (fun _ => false) fun _ => 0
    | 4 => readTagged .tnTRANSACTION_MD "short TM node" "invalid TM node" s
    | _ => .error (.runtimeError "invalid node AW type")

/-- A transaction with metadata may have the tag zero here. -/
def readPrefix (rawNode : List UInt8) : Except Fault Content :=
  let hashPrefixes := rawNode.take 4
  let s := rawNode.drop 4
  if rawNode.length < 4 then .error (.runtimeError "invalid P node")
  else if hashPrefixes = hashPrefix 'T' 'X' 'N' then .ok (readTransaction s)
  else if hashPrefixes = hashPrefix 'M' 'L' 'N' then
    readTagged .tnACCOUNT_STATE "short PLN node" "invalid PLN node" s
  else if hashPrefixes = hashPrefix 'M' 'I' 'N' then readFull "invalid PIN node" s
  else if hashPrefixes = hashPrefix 'S' 'N' 'D' then do
    let item ← chopTag "short TXN node" s
    return .item item .tnTRANSACTION_MD
  else .error (.runtimeError "invalid node prefix")

/-- A node without children, with its hash. -/
def Content.toNode : Content → TreeNode
  | .item i type => leaf i type (leafHash i type)
  | .branches isBranch hashes =>
    innerNode isBranch hashes (fun _ => null)
      (if ∃ i, isBranch i = true then innerHash hashes else 0) 0

/-- The constructor of a node from bytes. -/
def makeNode (rawNode : List UInt8) : SHANodeFormat → Except Fault TreeNode
  | .snfWIRE => (readWire rawNode).map Content.toNode
  | .snfPREFIX => (readPrefix rawNode).map Content.toNode
  | .snfHASH => .error (.runtimeError "Unknown format")

end

/-- A linked child belongs to a branch that is there and has the hash recorded for it. -/
def Recorded : TreeNode → Prop
  | null => True
  | leaf _ _ _ => True
  | innerNode isBranch hashes children _ _ => ∀ b,
    (children b).isNull = true ∨
      (isBranch b = true ∧ (children b).getNodeHash = hashes b ∧ Recorded (children b))

/-- What is given for a hash: nothing, or a node that has it. -/
def Given (hash : Nat) (node : TreeNode) : Prop :=
  node.isNull = true ∨ (node.getNodeHash = hash ∧ Recorded node)

/-- The caches, the database and the sync filter. -/
structure Family where
  generation : Nat
  touchIfExists : Nat → Bool
  getCache : Nat → TreeNode
  fetchNodeFromDB : Nat → TreeNode
  checkFilter : SHAMapNodeID → Nat → TreeNode
  getCache_given : ∀ hash, Given hash (getCache hash)
  fetchNodeFromDB_given : ∀ hash, Given hash (fetchNodeFromDB hash)
  checkFilter_given : ∀ id hash, Given hash (checkFilter id hash)

def TreeNode.orElse (node other : TreeNode) : TreeNode := if node.isNull then other else node

namespace Family

def canonicalize (f : Family) (backed : Bool) (hash : Nat) (node : TreeNode) : TreeNode :=
  if backed then (f.getCache hash).orElse node else node

/-- `fetchNodeNT` without a filter. -/
def fetchStored (f : Family) (backed : Bool) (hash : Nat) : TreeNode :=
  (f.getCache hash).orElse (if backed then f.fetchNodeFromDB hash else null)

def fetchNodeNT (f : Family) (backed : Bool) (id : SHAMapNodeID) (hash : Nat) : TreeNode :=
  (f.fetchStored backed hash).orElse (f.checkFilter id hash)

end Family

inductive SHAMapState where
  | Modifying | Immutable | Synching | Floating | Invalid
  deriving DecidableEq

inductive SHAMapAddNode where
  | invalid | useful | duplicate
  deriving DecidableEq

structure SHAMap where
  root_ : TreeNode
  state_ : SHAMapState
  backed_ : Bool

/-- A map that waits for its root. -/
def SHAMap.new (backed : Bool) : SHAMap where
  root_ := innerNode (fun _ => false) (fun _ => 0) (fun _ => null) 0 0
  state_ := .Synching
  backed_ := backed

def SHAMap.isSynching (map : SHAMap) : Bool := map.state_ = .Floating ∨ map.state_ = .Synching

section
variable [Sha512] (f : Family)

/-- `addRootNode` with the hash of the root. -/
def SHAMap.addRootNode (map : SHAMap) (hash : Nat) (rootNode : List UInt8)
    (format : SHANodeFormat) : SHAMap × Except Fault SHAMapAddNode :=
  if map.root_.getNodeHash ≠ 0 then (map, .ok .duplicate)
  else
    match makeNode rootNode format with
    | .error e => (map, .error e)
    | .ok node =>
      if node.getNodeHash ≠ hash then (map, .ok .invalid)
      else
        let node := f.canonicalize map.backed_ hash node
        ({ map with
            root_ := node
            state_ := if node.isLeaf then .Modifying else map.state_ }, .ok .useful)

/-- The loop of `addKnownNode`, with the number of levels between the node it is at and the
depth of the new node: what has become of the node, the answer, and whether the map turned
out to be invalid. -/
def walk (backed : Bool) (node : SHAMapNodeID) (rawNode : List UInt8) :
    Nat → TreeNode → SHAMapNodeID → TreeNode × Except Fault SHAMapAddNode × Bool
  | levels + 1, innerNode isBranch hashes children h gen, iNodeID =>
    let iNode := innerNode isBranch hashes children h gen
    let branch := iNodeID.selectBranch node.mNodeID
    let childHash := hashes branch
    if gen = f.generation then (iNode, .ok .duplicate, false)
    else if isBranch branch = false then (iNode, .ok .invalid, false)
    else if f.touchIfExists childHash then (iNode, .ok .duplicate, false)
    else
      let childID := iNodeID.getChildNodeID branch
      let link child := innerNode isBranch hashes (Function.update children branch child) h gen
      -- `descend`
      let child := (children branch).orElse (f.fetchNodeNT backed childID childHash)
      if child.isNull then
        if childID ≠ node then (iNode, .ok .invalid, false)
        else
          match makeNode rawNode .snfWIRE with
          | .error e => (iNode, .error e, false)
          | .ok newNode =>
            if newNode.isInBounds childID = false then (iNode, .ok .useful, true)
            else if childHash ≠ newNode.getNodeHash then (iNode, .ok .invalid, false)
            else (link (f.canonicalize backed childHash newNode), .ok .useful, false)
      else
        let (child, answer) := walk backed node rawNode levels child childID
        (link child, answer)
  | _, iNode, _ => (iNode, .ok .duplicate, false)

def SHAMap.addKnownNode (map : SHAMap) (node : SHAMapNodeID) (rawNode : List UInt8) :
    SHAMap × Except Fault SHAMapAddNode :=
  if map.isSynching = false then (map, .ok .duplicate)
  else
    let (root, answer, invalid) :=
      walk f map.backed_ node rawNode node.mDepth.toNat map.root_ .root
    ({ map with root_ := root, state_ := if invalid then .Invalid else map.state_ }, answer)

end

/-- `walkToPointer`, which throws if a node is missing. -/
def walkToPointer (f : Family) (backed : Bool) (id : Tag) :
    Nat → TreeNode → SHAMapNodeID → Option (Option SHAMapItem)
  | _, leaf item _ _, _ => some (if item.tag = id then some item else none)
  | levels + 1, innerNode isBranch hashes children _ _, nodeID =>
    let branch := nodeID.selectBranch id
    if isBranch branch = false then some none
    else
      let child := (children branch).orElse
        (if backed then f.fetchStored backed (hashes branch) else null)
      walkToPointer f backed id levels child (nodeID.getChildNodeID branch)
  | _, _, _ => none

def SHAMap.peekItem (f : Family) (map : SHAMap) (id : Tag) : Option (Option SHAMapItem) :=
  walkToPointer f map.backed_ id 64 map.root_ .root

end Skywell.SHAMapSync
