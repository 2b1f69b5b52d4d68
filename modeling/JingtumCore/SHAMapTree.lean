import JingtumCore.RadixTree
import JingtumCore.Serializer

/-!
# The tree of a map

`SHAMap::addGiveItem`, `updateGiveItem`, `delItem`, `peekItem` and `getHash` on a map
that shares no nodes. All its nodes carry the map's own sequence number, so that
`unshareNode` copies none and a change of a node is a change in place. A null child
and an empty branch are the same here: every branch of such a map is linked. Of a
node's identifier the functions read its depth only.
-/
namespace Skywell.SHAMapTree
open BigEndian

abbrev Tag := BitVec 256

structure SHAMapItem where
  tag : Tag
  data : List UInt8
  deriving DecidableEq

/-- The types of leaves. -/
inductive TNType where
  | tnTRANSACTION_NM | tnTRANSACTION_MD | tnACCOUNT_STATE
  deriving DecidableEq

/-- SHA-512 half. -/
class Sha512 where
  getSHA512Half : List UInt8 → Nat

inductive Node where
  | null
  | leaf (mItem : SHAMapItem) (mType : TNType) (mHash : Nat)
  | innerNode (mChildren : Fin 16 → Node) (mHash : Nat)

section
variable [Sha512]
open Sha512

/-- `HashPrefix`. -/
def hashPrefix (a b c : Char) : List UInt8 := [a.toUInt8, b.toUInt8, c.toUInt8, 0]

/-- `updateHash` of a leaf. -/
def leafHash (item : SHAMapItem) : TNType → Nat
  | .tnTRANSACTION_NM => getSHA512Half (hashPrefix 'T' 'X' 'N' ++ item.data)
  | .tnTRANSACTION_MD =>
    getSHA512Half (hashPrefix 'S' 'N' 'D' ++ (item.data ++ toBytes 32 item.tag.toNat))
  | .tnACCOUNT_STATE =>
    getSHA512Half (hashPrefix 'M' 'L' 'N' ++ (item.data ++ toBytes 32 item.tag.toNat))

/-- `updateHash` of an inner node that has a branch. -/
def innerHash (mHashes : Fin 16 → Nat) : Nat :=
  getSHA512Half (hashPrefix 'M' 'I' 'N' ++
    (List.finRange 16).flatMap fun i => toBytes 32 (mHashes i))

end

/-- Which branch the tag goes to at a depth. -/
def selectBranch (depth : Nat) (tag : Tag) : Fin 16 := Fin.ofNat 16 (tag.toNat / 16 ^ (63 - depth))

namespace Node

def isEmptyBranch (child : Node) : Bool :=
  match child with
  | null => true
  | _ => false

def getNodeHash : Node → Nat
  | null => 0
  | leaf _ _ h => h
  | innerNode _ h => h

def getBranchCount : Node → Nat
  | innerNode f _ => ((List.finRange 16).filter fun i => !(f i).isEmptyBranch).length
  | _ => 0

/-- A new inner node. -/
def makeInner : Node := innerNode (fun _ => null) 0

def setChild (node : Node) (m : Fin 16) (child : Node) : Node :=
  match node with
  | innerNode f _ => innerNode (Function.update f m child) 0
  | node => node

end Node

open Node

section
variable [Sha512]

/-- A leaf made of an item, with its hash. -/
def newLeaf (item : SHAMapItem) (type : TNType) : Node := leaf item type (leafHash item type)

/-- The nodes on the way to an identifier, with their depths, the last one on top; a leaf
that does not match is included. -/
def getStack (id : Tag) : Node → Nat → List (Node × Nat) → List (Node × Nat)
  | null, _, stack => stack
  | leaf item type h, depth, stack => (leaf item type h, depth) :: stack
  | innerNode f h, depth, stack =>
    getStack id (f (selectBranch depth id)) (depth + 1) ((innerNode f h, depth) :: stack)

/-- `walkToPointer`. -/
def walkToPointer (id : Tag) : Node → Nat → Option SHAMapItem
  | null, _ => none
  | leaf item _ _, _ => if item.tag = id then some item else none
  | innerNode f _, depth => walkToPointer id (f (selectBranch depth id)) (depth + 1)

def peekItem (root : Node) (id : Tag) : Option SHAMapItem := walkToPointer id root 0

def hasItem (root : Node) (id : Tag) : Bool := (walkToPointer id root 0).isSome

/-- Links a changed node to those above it, and gives the root. -/
def dirtyUp (target : Tag) : List (Node × Nat) → Node → Node
  | [], child => child
  | (node, depth) :: stack, child =>
    dirtyUp target stack (node.setChild (selectBranch depth target) child)

/-- The loop that makes inner nodes as long as two tags go to one branch. -/
def splitLoop (tag other : Tag) : Nat → Node → Nat → List (Node × Nat) →
    Except Fault (Node × Nat × List (Node × Nat))
  | 0, _, _, _ => .error .endlessLoop
  | fuel + 1, node, depth, stack =>
    if selectBranch depth tag = selectBranch depth other then
      splitLoop tag other fuel makeInner (depth + 1) ((node, depth) :: stack)
    else .ok (node, depth, stack)

/-- Whether the item was added, and the root. -/
def addGiveItem (type : TNType) (item : SHAMapItem) (root : Node) : Except Fault (Bool × Node) := do
  match getStack item.tag root 0 [] with
  | [] => throw (.runtimeError "missing node")
  | (node, depth) :: stack =>
    match node with
    | leaf otherItem _ _ =>
      if otherItem.tag = item.tag then return (false, root)
      -- the leaf becomes an inner node that holds both items, as far down as their tags agree
      let (node, depth, stack) ← splitLoop item.tag otherItem.tag 65 makeInner depth stack
      let node := node.setChild (selectBranch depth item.tag) (newLeaf item type)
      let node := node.setChild (selectBranch depth otherItem.tag) (newLeaf otherItem type)
      return (true, dirtyUp item.tag stack node)
    | node =>
      let node := node.setChild (selectBranch depth item.tag) (newLeaf item type)
      return (true, dirtyUp item.tag stack node)

/-- A leaf is changed in place: the nodes above it stay as they are. -/
def changeInPlace (target : Tag) : List (Node × Nat) → Node → Node
  | [], child => child
  | (innerNode f h, depth) :: stack, child =>
    changeInPlace target stack (innerNode (Function.update f (selectBranch depth target) child) h)
  | (_, _) :: stack, child => changeInPlace target stack child

def updateGiveItem (type : TNType) (item : SHAMapItem) (root : Node) :
    Except Fault (Bool × Node) := do
  match getStack item.tag root 0 [] with
  | [] => throw (.runtimeError "missing node")
  | (leaf old _ h, _) :: stack =>
    if old.tag ≠ item.tag then return (false, root)
    -- `setItem` says whether the hash has changed
    if leafHash item type = h then return (true, changeInPlace item.tag stack (newLeaf item type))
    return (true, dirtyUp item.tag stack (newLeaf item type))
  | _ => return (false, root)

/-- The only item below a node, if there is just one. -/
def onlyBelow : Node → Option SHAMapItem
  | null => none
  | leaf item _ _ => some item
  | innerNode f _ =>
    match (List.finRange 16).filter fun i => !(f i).isEmptyBranch with
    | [i] => onlyBelow (f i)
    | _ => none

/-- What takes the place of an inner node below the root that has lost an item. -/
def pullUp (type : TNType) (node : Node) : Node :=
  match node.getBranchCount with
  | 0 => null
  | 1 =>
    match onlyBelow node with
    | some item => newLeaf item type
    | none => node
  | _ => node

/-- The loop of `delItem`, from what is attached to the end of the chain. -/
def delLoop (type : TNType) (id : Tag) : List (Node × Nat) → Node → Node
  | [], prevNode => prevNode
  | (node, depth) :: stack, prevNode =>
    let node := node.setChild (selectBranch depth id) prevNode
    delLoop type id stack (if depth = 0 then node else pullUp type node)

def delItem (id : Tag) (root : Node) : Except Fault (Bool × Node) :=
  match getStack id root 0 [] with
  | [] => .error (.runtimeError "missing node")
  | (leaf item type _, _) :: stack =>
    if item.tag ≠ id then .ok (false, root) else .ok (true, delLoop type id stack null)
  | _ => .ok (false, root)

/-- `walkSubTree` without writing: the hashes of all nodes from the leaves up. -/
def updateHashes : Node → Node
  | null => null
  | leaf item type _ => newLeaf item type
  | innerNode f h =>
    let children := fun i => updateHashes (f i)
    let node := innerNode children h
    if node.getBranchCount = 0 then innerNode children 0
    else innerNode children (innerHash fun i => (children i).getNodeHash)

/-- `unshare`: an empty root is left as it is. -/
def unshare (root : Node) : Node := if root.getBranchCount = 0 then root else updateHashes root

/-- The hash, and the root with the hashes that were computed for it. -/
def getHash (root : Node) : Nat × Node :=
  if root.getNodeHash = 0 then ((unshare root).getNodeHash, unshare root)
  else (root.getNodeHash, root)

end

end Skywell.SHAMapTree
