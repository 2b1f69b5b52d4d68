import JingtumCore.SHAMapTree

/-!
# Maps that share nodes

The nodes of all maps lie in one store and are known by their addresses. A map may
write to a node if the node carries the map's own sequence number; `unshareNode` and
`preFlushNode` copy any other node first. A null child and an empty branch are the
same here, and the recorded hash of a branch is the hash of its child: every branch
of a map that was made by `addItem` and `snapShot` is linked.
-/
namespace Skywell.SHAMapStore
open SHAMapTree

abbrev Addr := Nat

inductive Data where
  | leaf (mItem : SHAMapItem) (mType : TNType)
  | inner (mChildren : Fin 16 → Option Addr)

structure SHAMapTreeNode where
  mData : Data
  mHash : Nat
  mSeq : Nat

structure Store where
  nodes : Addr → SHAMapTreeNode
  next : Addr

namespace Store

def set (s : Store) (a : Addr) (node : SHAMapTreeNode) : Store :=
  { s with nodes := Function.update s.nodes a node }

def push (s : Store) (node : SHAMapTreeNode) : Store :=
  { nodes := Function.update s.nodes s.next node, next := s.next + 1 }

@[simp] theorem nodes_set_self (s : Store) (a : Addr) (node : SHAMapTreeNode) :
    (s.set a node).nodes a = node := Function.update_self ..

theorem nodes_set_of_ne {s : Store} {a b : Addr} (ne : b ≠ a) (node : SHAMapTreeNode) :
    (s.set a node).nodes b = s.nodes b := Function.update_of_ne ne ..

@[simp] theorem nodes_push_self (s : Store) (node : SHAMapTreeNode) :
    (s.push node).nodes s.next = node := Function.update_self ..

theorem nodes_push_of_ne {s : Store} {b : Addr} (ne : b ≠ s.next) (node : SHAMapTreeNode) :
    (s.push node).nodes b = s.nodes b := Function.update_of_ne ne ..

end Store

/-- Code that works on the store; what it wrote stays if it throws. -/
abbrev Act := ExceptT Fault (StateM Store)

structure SHAMap where
  root_ : Addr
  seq_ : Nat
  immutable : Bool

def Data.children : Data → Fin 16 → Option Addr
  | .leaf _ _ => fun _ => none
  | .inner mChildren => mChildren

def Data.isInner : Data → Bool
  | .inner _ => true
  | .leaf _ _ => false

/-- `mIsBranch == 0`, which also holds for a leaf. -/
def Data.isEmpty (data : Data) : Bool := ∀ i, (data.children i).isNone

def Data.getBranchCount (data : Data) : Nat :=
  ((List.finRange 16).filter fun i => (data.children i).isSome).length

def peek (a : Addr) : Act SHAMapTreeNode := do
  return (← get).nodes a

def write (a : Addr) (node : SHAMapTreeNode) : Act Unit :=
  modify fun s => s.set a node

def makeShared (node : SHAMapTreeNode) : Act Addr := do
  let s ← get
  set (s.push node)
  return s.next

/-- A new inner node. -/
def newInner (seq : Nat) : SHAMapTreeNode := ⟨.inner fun _ => none, 0, seq⟩

def makeInner (a : Addr) : Act Unit := do
  let node ← peek a
  write a { node with mData := .inner fun _ => none, mHash := 0 }

def setChild (a : Addr) (m : Fin 16) (child : Option Addr) : Act Unit := do
  let node ← peek a
  write a { node with mData := .inner (Function.update node.mData.children m child), mHash := 0 }

def shareChild (a : Addr) (m : Fin 16) (child : Addr) : Act Unit := do
  let node ← peek a
  write a { node with mData := .inner (Function.update node.mData.children m (some child)) }

section
variable [Sha512]

def newLeaf (item : SHAMapItem) (type : TNType) (seq : Nat) : SHAMapTreeNode :=
  ⟨.leaf item type, leafHash item type, seq⟩

/-- Whether the hash has changed. -/
def setItem (a : Addr) (item : SHAMapItem) (type : TNType) : Act Bool := do
  let node ← peek a
  write a { node with mData := .leaf item type, mHash := leafHash item type }
  return leafHash item type ≠ node.mHash

/-- The hash of a branch, which is zero if there is no child. -/
def branchHash (s : Store) : Option Addr → Nat
  | none => 0
  | some child => (s.nodes child).mHash

/-- The hash of a node, from the hashes of its children. -/
def hashOf (s : Store) : Data → Nat
  | .leaf item type => leafHash item type
  | .inner mChildren =>
    if (Data.inner mChildren).isEmpty then 0
    else innerHash fun i => branchHash s (mChildren i)

/-- `updateHash` of a leaf and `updateHashDeep` of an inner node. -/
def updateHash (a : Addr) : Act Unit := do
  let s ← get
  write a { s.nodes a with mHash := hashOf s (s.nodes a).mData }

end

/-- The node itself if it is the map's own, or a copy that is, with the root of the map. -/
def unshareNode (seq : Nat) (a : Addr) (depth : Nat) (root : Addr) : Act (Addr × Addr) := do
  let node ← peek a
  if node.mSeq ≠ seq then
    let copy ← makeShared { node with mSeq := seq }
    return (copy, if depth = 0 then copy else root)
  else return (a, root)

def preFlushNode (seq : Nat) (a : Addr) : Act Addr := do
  let node ← peek a
  if node.mSeq ≠ seq then makeShared { node with mSeq := seq } else return a

def getStack (id : Tag) : Nat → Addr → Nat → List (Addr × Nat) → Act (List (Addr × Nat))
  | 0, _, _, _ => throw .endlessLoop
  | fuel + 1, a, depth, stack => do
    let node ← peek a
    match node.mData.children (selectBranch depth id) with
    | none => return (a, depth) :: stack
    | some child => getStack id fuel child (depth + 1) ((a, depth) :: stack)

def dirtyUp (seq : Nat) (target : Tag) : List (Addr × Nat) → Addr → Addr → Act Addr
  | [], root, _ => return root
  | (node, depth) :: stack, root, child => do
    let (node, root) ← unshareNode seq node depth root
    setChild node (selectBranch depth target) (some child)
    dirtyUp seq target stack root node

def splitLoop (seq : Nat) (tag other : Tag) : Nat → Addr → Nat → List (Addr × Nat) →
    Act (Addr × Nat × List (Addr × Nat))
  | 0, _, _, _ => throw .endlessLoop
  | fuel + 1, node, depth, stack => do
    if selectBranch depth tag = selectBranch depth other then
      let below ← makeShared (newInner seq)
      splitLoop seq tag other fuel below (depth + 1) ((node, depth) :: stack)
    else return (node, depth, stack)

section
variable [Sha512]

def addGiveItem (item : SHAMapItem) (type : TNType) (map : SHAMap) : Act (Bool × SHAMap) := do
  let stack ← getStack item.tag 65 map.root_ 0 []
  match stack with
  | [] => throw (.runtimeError "missing node")
  | (top, depth) :: stack =>
    let node ← peek top
    match node.mData with
    | .inner _ =>
      let (top, root) ← unshareNode map.seq_ top depth map.root_
      let new ← makeShared (newLeaf item type map.seq_)
      setChild top (selectBranch depth item.tag) (some new)
      let root ← dirtyUp map.seq_ item.tag stack root top
      return (true, { map with root_ := root })
    | .leaf otherItem _ =>
      if otherItem.tag = item.tag then return (false, map)
      let (top, root) ← unshareNode map.seq_ top depth map.root_
      makeInner top
      let (top, depth, stack) ← splitLoop map.seq_ item.tag otherItem.tag 65 top depth stack
      let new ← makeShared (newLeaf item type map.seq_)
      setChild top (selectBranch depth item.tag) (some new)
      let new ← makeShared (newLeaf otherItem type map.seq_)
      setChild top (selectBranch depth otherItem.tag) (some new)
      let root ← dirtyUp map.seq_ item.tag stack root top
      return (true, { map with root_ := root })

def updateGiveItem (item : SHAMapItem) (type : TNType) (map : SHAMap) : Act (Bool × SHAMap) := do
  let stack ← getStack item.tag 65 map.root_ 0 []
  match stack with
  | [] => throw (.runtimeError "missing node")
  | (top, depth) :: stack =>
    let node ← peek top
    match node.mData with
    | .inner _ => return (false, map)
    | .leaf old _ =>
      if old.tag ≠ item.tag then return (false, map)
      let (top, root) ← unshareNode map.seq_ top depth map.root_
      let changed ← setItem top item type
      -- a copy of the leaf is dropped if the hash is the same
      if changed = false then return (true, { map with root_ := root })
      let root ← dirtyUp map.seq_ item.tag stack root top
      return (true, { map with root_ := root })

/-- The only item below a node. -/
def onlyBelow : Nat → Addr → Act (Option SHAMapItem)
  | 0, _ => throw .endlessLoop
  | fuel + 1, a => do
    let node ← peek a
    match node.mData with
    | .leaf item _ => return some item
    | .inner mChildren =>
      match (List.finRange 16).filterMap mChildren with
      | [child] => onlyBelow fuel child
      | _ => return none

/-- The loop of `delItem`, from what is attached to the end of the chain. -/
def delLoop (seq : Nat) (type : TNType) (id : Tag) :
    List (Addr × Nat) → Addr → Option Addr → Act Addr
  | [], root, _ => return root
  | (node, depth) :: stack, root, prevNode => do
    let (node, root) ← unshareNode seq node depth root
    setChild node (selectBranch depth id) prevNode
    if depth = 0 then delLoop seq type id stack root prevNode
    else
      let data := (← peek node).mData
      if data.getBranchCount = 0 then delLoop seq type id stack root none
      else if data.getBranchCount = 1 then
        match ← onlyBelow 65 node with
        | none => delLoop seq type id stack root (some node)
        | some item =>
          let _ ← setItem node item type
          delLoop seq type id stack root (some node)
      else delLoop seq type id stack root (some node)

def delItem (id : Tag) (map : SHAMap) : Act (Bool × SHAMap) := do
  let stack ← getStack id 65 map.root_ 0 []
  match stack with
  | [] => throw (.runtimeError "missing node")
  | (top, _) :: stack =>
    let node ← peek top
    match node.mData with
    | .inner _ => return (false, map)
    | .leaf item type =>
      if item.tag ≠ id then return (false, map)
      let root ← delLoop map.seq_ type id stack map.root_ none
      return (true, { map with root_ := root })

/-- A leaf that takes the place of another one, with its hash. -/
def flushLeaf (seq : Nat) (a : Addr) : Act Addr := do
  let a ← preFlushNode seq a
  updateHash a
  return a

/-- The children of a node that `walkSubTree` is at, in order. -/
def flushChildren (seq : Nat) (flush : Addr → Act Addr) (a : Addr) : List (Fin 16) → Act Unit
  | [] => return
  | i :: rest => do
    let node ← peek a
    match node.mData.children i with
    | none => flushChildren seq flush a rest
    | some child =>
      let below ← peek child
      if below.mSeq = 0 then flushChildren seq flush a rest
      else
        let child ← (if below.mData.isInner then flush child else flushLeaf seq child : Act Addr)
        shareChild a i child
        flushChildren seq flush a rest

/-- `walkSubTree` at an inner node: the node that takes its place, with its hash. -/
def flushInner (seq : Nat) : Nat → Addr → Act Addr
  | 0, _ => throw .endlessLoop
  | fuel + 1, a => do
    let a ← preFlushNode seq a
    flushChildren seq (flushInner seq fuel) a (List.finRange 16)
    updateHash a
    return a

/-- `walkSubTree` without writing to the database. A root that is a leaf counts as empty. -/
def unshare (map : SHAMap) : Act SHAMap := do
  let root ← peek map.root_
  if root.mSeq = 0 ∨ root.mData.isEmpty then return map
  let root ← flushInner map.seq_ 65 map.root_
  return { map with root_ := root }

def getHash (map : SHAMap) : Act (Nat × SHAMap) := do
  let root ← peek map.root_
  if root.mHash = 0 then
    let map ← unshare map
    let root ← peek map.root_
    return (root.mHash, map)
  else return (root.mHash, map)

/-- The new map. The number after the last one is zero. -/
def snapShot (isMutable : Bool) (map : SHAMap) : Act SHAMap := do
  let newMap : SHAMap := ⟨map.root_, (map.seq_ + 1) % 2 ^ 32, !isMutable⟩
  if !map.immutable || !isMutable then unshare newMap else return newMap

end

end Skywell.SHAMapStore
