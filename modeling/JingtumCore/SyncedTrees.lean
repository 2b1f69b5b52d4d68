import JingtumCore.SHAMapSync
import JingtumCore.SHAMapHistory

/-!
# What untrusted nodes do to a tree

Every node that is linked has the hash that was recorded for it, and an inner node that
came as bytes lies above depth 64. Nothing compares the tag of a leaf with the place
where the leaf is linked.
-/
namespace Skywell.SHAMapSync
open SHAMapTree RadixTree TreeNode

/-- The linked part of a tree. -/
def shape : TreeNode → Trie (Fin 16) SHAMapItem
  | null => .empty
  | leaf item _ _ => .leaf item
  | innerNode _ _ children _ _ => .inner fun b => shape (children b)

/-- The items of the linked leaves. -/
abbrev Holds (node : TreeNode) (item : SHAMapItem) : Prop := Has (shape node) item

/-- No inner node lies at depth 64 or below. -/
def Shallow : Nat → TreeNode → Prop
  | _, null => True
  | _, leaf _ _ _ => True
  | d, innerNode _ _ children _ _ => d < 64 ∧ ∀ b, Shallow (d + 1) (children b)

structure WellFormed (root : TreeNode) : Prop where
  placed : Placed digit 0 (shape root)
  recorded : Recorded root
  shallow : Shallow 0 root

/-- The tag goes the way of another one down to a depth. -/
def OnPath (path : Tag) (d : Nat) (tag : Tag) : Prop :=
  ∀ k, k < d → selectBranch k tag = selectBranch k path

/-- A tree that may hang at a depth on the way to an identifier. -/
structure Fits (path : Tag) (d : Nat) (node : TreeNode) : Prop where
  placed : Placed digit d (shape node)
  shallow : Shallow d node
  onPath : ∀ i, Holds node i → OnPath path d i.tag

variable {d : Nat} {node : TreeNode} {item : SHAMapItem} {child t : TreeNode}

theorem fits_of_isNull {path : Tag} (h : node.isNull = true) :
    Fits path d node := by
  cases node with
  | null => exact ⟨trivial, trivial, fun i held => absurd held (not_has_empty i)⟩
  | leaf item type hash => cases h
  | innerNode isBranch hashes children hash gen => cases h

/-- The same for a branch of a node on the way, which need not be on it. -/
structure BranchFits (path : Tag) (d : Nat) (b : Fin 16) (child : TreeNode) : Prop where
  placed : Placed digit (d + 1) (shape child)
  shallow : Shallow (d + 1) child
  onPath : ∀ i, Holds child i → OnPath path d i.tag ∧ selectBranch d i.tag = b

theorem branchFits_iff {path : Tag} :
    BranchFits path d (selectBranch d path) child ↔ Fits path (d + 1) child := by
  constructor
  · rintro ⟨placed, shallow, onPath⟩
    refine ⟨placed, shallow, fun i held k low => ?_⟩
    rcases Nat.lt_succ_iff_lt_or_eq.1 low with low | rfl
    · exact (onPath i held).1 k low
    · exact (onPath i held).2
  · rintro ⟨placed, shallow, onPath⟩
    refine ⟨placed, shallow, fun i held => ⟨fun k low => ?_, ?_⟩⟩
    · exact onPath i held k (Nat.lt_succ_of_lt low)
    · exact onPath i held d (Nat.lt_succ_self d)

section
variable {path : Tag} {d h gen : Nat} {isBranch : Fin 16 → Bool} {hashes : Fin 16 → Nat}
  {children : Fin 16 → TreeNode}

theorem fits_innerNode : Fits path d (innerNode isBranch hashes children h gen) ↔
    d < 64 ∧ ∀ b, BranchFits path d b (children b) := by
  constructor
  · rintro ⟨placed, ⟨low, shallow⟩, onPath⟩
    refine ⟨low, fun b => ⟨placed.2 b, shallow b, fun i held => ?_⟩⟩
    exact ⟨onPath i (.inner held), placed.1 b i held⟩
  · rintro ⟨low, fits⟩
    refine ⟨⟨fun b i held => ((fits b).onPath i held).2, fun b => (fits b).placed⟩,
      ⟨low, fun b => (fits b).shallow⟩, fun i held => ?_⟩
    obtain ⟨b, held⟩ := has_inner.1 held
    exact ((fits b).onPath i held).1

/-- A child on the way is exchanged. -/
theorem fits_link : Fits path d (innerNode isBranch hashes
      (Function.update children (selectBranch d path) child) h gen) ↔
    d < 64 ∧ Fits path (d + 1) child ∧
      ∀ b, b ≠ selectBranch d path → BranchFits path d b (children b) := by
  rw [fits_innerNode, ← branchFits_iff]
  rw [Function.forall_update_iff]

theorem fits_split : Fits path d (innerNode isBranch hashes children h gen) ↔
    d < 64 ∧ Fits path (d + 1) (children (selectBranch d path)) ∧
      ∀ b, b ≠ selectBranch d path → BranchFits path d b (children b) := by
  conv_lhs => rw [← Function.update_eq_self (selectBranch d path) children]
  exact fits_link

end

theorem wellFormed_iff (path : Tag) {root : TreeNode} :
    WellFormed root ↔ Recorded root ∧ Fits path 0 root := by
  constructor
  · rintro ⟨placed, recorded, shallow⟩
    exact ⟨recorded, placed, shallow, fun i _ k low => absurd low (Nat.not_lt_zero k)⟩
  · rintro ⟨recorded, placed, shallow, -⟩
    exact ⟨placed, recorded, shallow⟩

theorem given_orElse {hash : Nat} {other : TreeNode} (h : Given hash node)
    (h' : Given hash other) : Given hash (node.orElse other) := by
  rw [orElse]
  split
  · exact h'
  · exact h

theorem Family.fetchStored_given (f : Family) (backed : Bool) (hash : Nat) :
    Given hash (f.fetchStored backed hash) := by
  apply given_orElse (f.getCache_given hash)
  split
  · exact f.fetchNodeFromDB_given hash
  · exact .inl rfl

theorem Family.fetchNodeNT_given (f : Family) (backed : Bool) (id : SHAMapNodeID) (hash : Nat) :
    Given hash (f.fetchNodeNT backed id hash) :=
  given_orElse (f.fetchStored_given backed hash) (f.checkFilter_given id hash)

theorem recorded_of_given {hash : Nat} (h : Given hash node) : Recorded node := by
  rcases h with h | h
  · cases node with
    | null => trivial
    | leaf item type hash => cases h
    | innerNode isBranch hashes children hash gen => cases h
  · exact h.2

section
variable [Sha512]

theorem toNode_recorded (content : Content) : Recorded content.toNode := by
  cases content with
  | item item type => trivial
  | branches isBranch hashes => exact fun b => .inl rfl

variable {content : Content} {hash d : Nat} {map : SHAMap}

theorem canonicalize_given (f : Family) (backed : Bool)
    (same : content.toNode.getNodeHash = hash) :
    Given hash (f.canonicalize backed hash content.toNode) := by
  have new : Given hash content.toNode := .inr ⟨same, toNode_recorded content⟩
  rw [Family.canonicalize]
  split
  · exact given_orElse (f.getCache_given hash) new
  · exact new

/-- A node that came as bytes may be linked at a depth on the way to an identifier: a leaf
has to lie on the way, and if the cache has a node in its place, that one has to fit. -/
def FitsNew (f : Family) (backed : Bool) (path : Tag) (d hash : Nat) (content : Content) : Prop :=
  if backed && !(f.getCache hash).isNull then Fits path d (f.getCache hash)
  else ∀ item type, content = .item item type → OnPath path d item.tag

theorem fits_toNode {path : Tag}
    (bounds : content.toNode.isInner = false ∨ d < 64) :
    Fits path d content.toNode ↔
      ∀ item type, content = .item item type → OnPath path d item.tag := by
  cases content with
  | item item type =>
    constructor
    · rintro fits _ _ ⟨⟩
      exact fits.onPath item (.leaf item)
    · intro onPath
      refine ⟨trivial, trivial, fun i held => ?_⟩
      rw [has_leaf.1 held]
      exact onPath item type rfl
  | branches isBranch hashes =>
    refine iff_of_true ?_ (fun _ _ h => by cases h)
    have low : d < 64 := bounds.resolve_left Bool.noConfusion
    refine fits_innerNode.2 ⟨low, fun b => ⟨trivial, trivial, fun i held => ?_⟩⟩
    exact absurd held (not_has_empty i)

theorem fits_canonicalize {f : Family} {backed : Bool} {path : Tag}
    (bounds : content.toNode.isInner = false ∨ d < 64) :
    Fits path d (f.canonicalize backed hash content.toNode) ↔
      FitsNew f backed path d hash content := by
  rw [FitsNew, Family.canonicalize, orElse]
  cases backed with
  | false => exact fits_toNode bounds
  | true =>
    cases cached : (f.getCache hash).isNull with
    | true => exact fits_toNode bounds
    | false => rfl

/-- Whatever `addKnownNode` links on its way fits where it is linked. -/
def WalkFits (f : Family) (backed : Bool) (node : SHAMapNodeID) (rawNode : List UInt8) :
    Nat → TreeNode → SHAMapNodeID → Prop
  | levels + 1, innerNode isBranch hashes children _ gen, iNodeID =>
    let branch := iNodeID.selectBranch node.mNodeID
    let childHash := hashes branch
    let childID := iNodeID.getChildNodeID branch
    let fetched := f.fetchNodeNT backed childID childHash
    if gen = f.generation ∨ isBranch branch = false ∨ f.touchIfExists childHash then True
    else if (children branch).isNull = false then
      WalkFits f backed node rawNode levels (children branch) childID
    else if fetched.isNull = false then
      Fits node.mNodeID childID.mDepth.toNat fetched ∧
        WalkFits f backed node rawNode levels fetched childID
    else childID = node → ∀ content, readWire rawNode = .ok content →
      content.toNode.isInBounds childID = true → childHash = content.toNode.getNodeHash →
        FitsNew f backed node.mNodeID childID.mDepth.toNat childHash content
  | _, _, _ => True

theorem walk_fits (f : Family) (backed : Bool) (node : SHAMapNodeID) (rawNode : List UInt8)
    (levels : Nat) (t : TreeNode) (id : SHAMapNodeID) (depth : id.mDepth = d) :
    Fits node.mNodeID d (walk f backed node rawNode levels t id).1 ↔
      Fits node.mNodeID d t ∧ WalkFits f backed node rawNode levels t id := by
  induction levels generalizing t id d with
  | zero => exact (and_iff_left trivial).symm
  | succ levels ih =>
    cases t with
    | null => exact (and_iff_left trivial).symm
    | leaf item type hash => exact (and_iff_left trivial).symm
    | innerNode isBranch hashes children h gen =>
      have here : id.selectBranch node.mNodeID = selectBranch d node.mNodeID := by
        rw [SHAMapNodeID.selectBranch, depth, Int.toNat_natCast]
      rw [walk, WalkFits]
      simp only [here]
      generalize childID_eq : id.getChildNodeID (selectBranch d node.mNodeID) = childID
      have below : childID.mDepth = ((d + 1 : Nat) : Int) := by
        rw [← childID_eq, SHAMapNodeID.getChildNodeID, depth]
        rfl
      have below' : childID.mDepth.toNat = d + 1 := by rw [below, Int.toNat_natCast]
      generalize branch_eq : selectBranch d node.mNodeID = b at *
      by_cases full : gen = f.generation
      · rw [if_pos full, if_pos (.inl full)]
        exact (and_iff_left trivial).symm
      by_cases empty : isBranch b = false
      · rw [if_neg full, if_pos empty, if_pos (.inr (.inl empty))]
        exact (and_iff_left trivial).symm
      by_cases touched : f.touchIfExists (hashes b) = true
      · rw [if_neg full, if_neg empty, if_pos touched, if_pos (.inr (.inr touched))]
        exact (and_iff_left trivial).symm
      have going : ¬ (gen = f.generation ∨ isBranch b = false ∨
          f.touchIfExists (hashes b) = true) := by tauto
      rw [if_neg full, if_neg empty, if_neg touched, if_neg going]
      have split := @fits_split node.mNodeID d h gen isBranch hashes children
      have link (child : TreeNode) := @fits_link child node.mNodeID d h gen isBranch hashes children
      rw [branch_eq] at split link
      have differ : ¬ true = false := Bool.noConfusion
      cases linked : (children b).isNull with
      | false =>
        have child : (children b).orElse (f.fetchNodeNT backed childID (hashes b)) = children b := by
          rw [orElse, linked, if_neg Bool.false_ne_true]
        rw [child, linked, if_neg Bool.false_ne_true, link, ih _ _ below]
        tauto
      | true =>
        have nothing : Fits node.mNodeID (d + 1) (children b) := fits_of_isNull linked
        have child : (children b).orElse (f.fetchNodeNT backed childID (hashes b)) =
            f.fetchNodeNT backed childID (hashes b) := by
          rw [orElse, linked, if_pos rfl]
        rw [child, if_neg differ]
        cases fetched : (f.fetchNodeNT backed childID (hashes b)).isNull with
        | false =>
          rw [if_neg Bool.false_ne_true, if_pos rfl, link, ih _ _ below, below']
          tauto
        | true =>
          rw [if_pos rfl]
          by_cases target : childID = node
          · rw [if_neg (not_not.2 target), makeNode]
            cases read : readWire rawNode with
            | error e => exact (and_iff_left nofun).symm
            | ok content =>
              have only (p : Content → Prop) : (childID = node → ∀ c, (.ok content : Except Fault
                  Content) = .ok c → p c) ↔ p content :=
                ⟨fun all => all target content rfl, fun h _ _ same => by cases same; exact h⟩
              rw [only]
              simp only [Except.map]
              by_cases bounds : content.toNode.isInBounds childID = false
              · rw [if_pos bounds]
                exact (and_iff_left fun h => absurd bounds (by rw [h]; decide)).symm
              by_cases same : hashes b = content.toNode.getNodeHash
              · have bounds' : content.toNode.isInBounds childID = true := eq_true_of_ne_false bounds
                rw [if_neg bounds, if_neg (not_not.2 same), link, below', fits_canonicalize]
                · tauto
                · rw [isInBounds, Bool.or_eq_true, decide_eq_true_iff, Bool.not_eq_true'] at bounds'
                  exact bounds'.imp_right fun low => by omega
              · rw [if_neg bounds, if_pos same]
                exact (and_iff_left fun _ h => absurd h same).symm
          · rw [if_pos target]
            exact (and_iff_left fun same => absurd same target).symm

/-- Whatever is linked has the hash recorded for it. -/
theorem walk_given (f : Family) (backed : Bool) (node : SHAMapNodeID) (rawNode : List UInt8)
    (levels : Nat) (id : SHAMapNodeID) (given : Given hash t) :
    Given hash (walk f backed node rawNode levels t id).1 := by
  induction levels generalizing t id hash with
  | zero => exact given
  | succ levels ih =>
    cases t with
    | null => exact given
    | leaf item type h => exact given
    | innerNode isBranch hashes children h gen =>
      obtain ⟨same, recorded⟩ := given.resolve_left Bool.false_ne_true
      rw [walk]
      generalize id.selectBranch node.mNodeID = b
      dsimp only
      have step {child : TreeNode} (branch : ¬ isBranch b = false) (h' : Given (hashes b) child) :
          Given hash (innerNode isBranch hashes (Function.update children b child) h gen) := by
        refine .inr ⟨same, fun c => ?_⟩
        by_cases here : c = b
        · rw [here, Function.update_self]
          exact h'.imp_right fun h => ⟨eq_true_of_ne_false branch, h⟩
        · rw [Function.update_of_ne here]
          exact recorded c
      split_ifs with full empty touched missing elsewhere
      · exact given
      · exact given
      · exact given
      · exact given
      · rw [makeNode]
        cases readWire rawNode with
        | error e => exact given
        | ok content =>
          simp only [Except.map]
          split_ifs with bounds differ
          · exact given
          · exact given
          · exact step empty (canonicalize_given f backed (not_not.1 differ).symm)
      · have child : Given (hashes b) ((children b).orElse
            (f.fetchNodeNT backed (id.getChildNodeID b) (hashes b))) := by
          refine given_orElse ?_ (f.fetchNodeNT_given _ _ _)
          exact (recorded b).imp_right And.right
        exact step empty (ih _ child)

inductive Call where
  | addRootNode (f : Family) (hash : Nat) (rootNode : List UInt8) (format : SHANodeFormat)
  | addKnownNode (f : Family) (node : SHAMapNodeID) (rawNode : List UInt8)

/-- The map after a call, whatever the answer. -/
def Call.run : Call → SHAMap → SHAMap
  | .addRootNode f hash rootNode format, map => (map.addRootNode f hash rootNode format).1
  | .addKnownNode f node rawNode, map => (map.addKnownNode f node rawNode).1

def run (calls : List Call) (map : SHAMap) : SHAMap := calls.foldl (fun map call => call.run map) map

/-- Whatever the call links fits where it is linked. A root without children does anyway. -/
def Call.Fitting : Call → SHAMap → Prop
  | .addRootNode f hash rootNode format, map =>
    map.root_.getNodeHash = 0 → ∀ node, makeNode rootNode format = .ok node →
      node.getNodeHash = hash → map.backed_ = true → (f.getCache hash).isNull = false →
      Fits 0 0 (f.getCache hash)
  | .addKnownNode f node rawNode, map =>
    map.isSynching = true →
      WalkFits f map.backed_ node rawNode node.mDepth.toNat map.root_ .root

def Fitting : List Call → SHAMap → Prop
  | [], _ => True
  | call :: calls, map => call.Fitting map ∧ Fitting calls (call.run map)

theorem makeNode_toNode {raw : List UInt8} {format : SHANodeFormat}
    (h : makeNode raw format = .ok node) : ∃ content, node = Content.toNode content := by
  cases format with
  | snfWIRE =>
    obtain ⟨content, -, rfl⟩ := ExceptFold.map_eq_ok.1 h
    exact ⟨content, rfl⟩
  | snfPREFIX =>
    obtain ⟨content, -, rfl⟩ := ExceptFold.map_eq_ok.1 h
    exact ⟨content, rfl⟩
  | snfHASH => cases h

section
variable (well : WellFormed map.root_)
include well

theorem addKnownNode_wellFormed_iff (f : Family) (node : SHAMapNodeID) (rawNode : List UInt8) :
    WellFormed (map.addKnownNode f node rawNode).1.root_ ↔
      (Call.addKnownNode f node rawNode).Fitting map := by
  rw [Call.Fitting, SHAMap.addKnownNode]
  cases synching : map.isSynching with
  | false => exact iff_of_true well nofun
  | true =>
    have fits := walk_fits f map.backed_ node rawNode node.mDepth.toNat map.root_ .root
      rfl
    have old := (wellFormed_iff node.mNodeID).1 well
    have before : Given map.root_.getNodeHash map.root_ := .inr ⟨rfl, old.1⟩
    have given := walk_given f map.backed_ node rawNode node.mDepth.toNat .root before
    change WellFormed (walk f map.backed_ node rawNode node.mDepth.toNat map.root_ .root).1 ↔ _
    rw [wellFormed_iff, fits, and_iff_right (recorded_of_given given),
      and_iff_right old.2]
    exact ⟨fun h _ => h, fun h => h rfl⟩

theorem addRootNode_wellFormed_iff (f : Family) (hash : Nat) (rootNode : List UInt8)
    (format : SHANodeFormat) : WellFormed (map.addRootNode f hash rootNode format).1.root_ ↔
      (Call.addRootNode f hash rootNode format).Fitting map := by
  rw [Call.Fitting, SHAMap.addRootNode]
  by_cases zero : map.root_.getNodeHash = 0
  · rw [if_neg (not_not.2 zero)]
    cases made : makeNode rootNode format with
    | error e => exact iff_of_true well nofun
    | ok node =>
      obtain ⟨content, rfl⟩ := makeNode_toNode made
      by_cases same : content.toNode.getNodeHash = hash
      · simp only [if_neg (not_not.2 same)]
        have given := canonicalize_given f map.backed_ same
        have new : FitsNew f map.backed_ 0 0 hash content ↔
            (map.backed_ = true → (f.getCache hash).isNull = false → Fits 0 0 (f.getCache hash)) := by
          rw [FitsNew]
          split_ifs with cached
          · rw [Bool.and_eq_true, Bool.not_eq_true'] at cached
            exact ⟨fun h _ _ => h, fun h => h cached.1 cached.2⟩
          · refine iff_of_true (fun _ _ _ k low => absurd low (Nat.not_lt_zero k)) ?_
            intro backed found
            exact absurd (by rw [backed, found]; rfl) cached
        rw [wellFormed_iff, and_iff_right (recorded_of_given given),
          fits_canonicalize (.inr (by decide)), new]
        exact ⟨fun h _ _ made' _ => by cases made'; exact h,
          fun h => h zero _ rfl same⟩
      · simp only [if_pos same]
        exact iff_of_true well fun _ _ made' same' => by cases made'; exact absurd same' same
  · rw [if_pos zero]
    exact iff_of_true well fun h => absurd h zero

theorem Call.run_wellFormed_iff (call : Call) :
    WellFormed (call.run map).root_ ↔ call.Fitting map := by
  cases call with
  | addRootNode f hash rootNode format => exact addRootNode_wellFormed_iff well f hash rootNode format
  | addKnownNode f node rawNode => exact addKnownNode_wellFormed_iff well f node rawNode

theorem run_wellFormed {calls : List Call} (fitting : Fitting calls map) :
    WellFormed (run calls map).root_ := by
  induction calls generalizing map with
  | nil => exact well
  | cons call calls ih => exact ih ((call.run_wellFormed_iff well).2 fitting.1) fitting.2

end

end

theorem wellFormed_new (backed : Bool) : WellFormed (SHAMap.new backed).root_ where
  placed := ⟨fun _ i held => absurd held (not_has_empty i), fun _ => trivial⟩
  recorded _ := .inl rfl
  shallow := ⟨by decide, fun _ => trivial⟩

theorem walkToPointer_of_holds (f : Family) (backed : Bool) {levels : Nat} {id : SHAMapNodeID}
    (depth : id.mDepth = d) (enough : 64 ≤ levels + d) (placed : Placed digit d (shape t))
    (recorded : Recorded t) (shallow : Shallow d t) (held : Holds t item) :
    walkToPointer f backed item.tag levels t id = some (some item) := by
  induction t generalizing levels id d with
  | null => exact absurd held (not_has_empty item)
  | leaf it type hash =>
    rw [has_leaf.1 held, walkToPointer, if_pos rfl]
  | innerNode isBranch hashes children h gen ih =>
    have low : d < 64 := shallow.1
    obtain ⟨levels, rfl⟩ := Nat.exists_eq_add_one_of_ne_zero (n := levels) (by omega)
    obtain ⟨b, below⟩ := has_inner.1 held
    have here : id.selectBranch item.tag = b := by
      rw [SHAMapNodeID.selectBranch, depth]
      exact placed.1 b item below
    have linked : (children b).isNull = false := by
      cases child : children b with
      | null =>
        rw [child] at below
        exact absurd below (not_has_empty item)
      | leaf it type hash => rfl
      | innerNode isBranch hashes children h gen => rfl
    obtain ⟨branch, -, recorded'⟩ := (recorded b).resolve_left (by rw [linked]; decide)
    rw [walkToPointer]
    simp only [here]
    rw [if_neg (by rw [branch]; decide), orElse, linked]
    refine ih b ?_ (by omega) (placed.2 b) recorded' (shallow.2 b) below
    rw [SHAMapNodeID.getChildNodeID, depth]
    rfl

theorem WellFormed.peekItem {map : SHAMap} (well : WellFormed map.root_) (f : Family)
    (held : Holds map.root_ item) : map.peekItem f item.tag = some (some item) :=
  walkToPointer_of_holds f map.backed_ rfl (by decide) well.placed well.recorded
    well.shallow held

/-- A call keeps a tree well formed if and only if what it links fits. -/
theorem wellFormed_iff_fitting [Sha512] :
    (∀ backed calls, Fitting calls (SHAMap.new backed) →
      WellFormed (run calls (SHAMap.new backed)).root_ ∧
      ∀ f item, Holds (run calls (SHAMap.new backed)).root_ item →
        (run calls (SHAMap.new backed)).peekItem f item.tag = some (some item)) ∧
    ∀ map : SHAMap, WellFormed map.root_ →
      ∀ call : Call, WellFormed (call.run map).root_ ↔ call.Fitting map := by
  refine ⟨fun backed calls fitting => ?_, fun map well call => call.run_wellFormed_iff well⟩
  have well := run_wellFormed (wellFormed_new backed) fitting
  exact ⟨well, fun f item held => well.peekItem f held⟩

/-- Nothing is cached or stored, and there is no filter. -/
def emptyFamily : Family where
  generation := 1
  touchIfExists _ := false
  getCache _ := null
  fetchNodeFromDB _ := null
  checkFilter _ _ := null
  getCache_given _ := .inl rfl
  fetchNodeFromDB_given _ := .inl rfl
  checkFilter_given _ _ := .inl rfl

/-- A root with a branch 0, and then the leaf of that branch: the map finds its item. -/
theorem addKnownNode_on_path : ∃ (_ : Sha512) (calls : List Call) (item : SHAMapItem),
    Fitting calls (SHAMap.new false) ∧ Holds (run calls (SHAMap.new false)).root_ item ∧
    (run calls (SHAMap.new false)).peekItem emptyFamily item.tag = some (some item) := by
  let hash : Sha512 := ⟨fun _ => 7⟩
  let calls : List Call := [.addRootNode emptyFamily 7 (List.replicate 31 0 ++ [7, 0, 3]) .snfWIRE,
    .addKnownNode emptyFamily ⟨0, 1⟩ [1, 2, 3, 0]]
  have fitting : Fitting calls (SHAMap.new false) := by
    refine ⟨fun _ _ _ _ backed => absurd backed Bool.false_ne_true, fun _ => ?_, trivial⟩
    have new : ∀ content, readWire [1, 2, 3, 0] = .ok content →
        FitsNew emptyFamily false 0 1 7 content := by
      rintro _ ⟨⟩ item type ⟨⟩ k low
      obtain rfl : k = 0 := by omega
      decide +kernel
    change WalkFits emptyFamily false ⟨0, 1⟩ [1, 2, 3, 0] (0 + 1) (innerNode _ _ _ _ _) .root
    rw [WalkFits]
    dsimp only
    rw [if_neg, if_neg, if_neg]
    · exact fun _ content read _ _ => new content read
    all_goals decide
  have held : Holds (run calls (SHAMap.new false)).root_ ⟨7, [1, 2, 3]⟩ := .inner (b := 0) (.leaf _)
  exact ⟨hash, calls, ⟨7, [1, 2, 3]⟩, fitting, held,
    (wellFormed_iff_fitting.1 false calls fitting).2 emptyFamily _ held⟩

/-- A root whose branch 5 has the hash of a leaf with a tag that goes to branch 0, and then
that leaf: the map takes both, and cannot find the item. -/
theorem addKnownNode_off_path : ∃ (_ : Sha512) (calls : List Call) (item : SHAMapItem),
    (run calls (SHAMap.new false)).state_ = .Synching ∧
    Holds (run calls (SHAMap.new false)).root_ item ∧
    (run calls (SHAMap.new false)).peekItem emptyFamily item.tag = some none := by
  let hash : Sha512 := ⟨fun _ => 7⟩
  refine ⟨hash, [.addRootNode emptyFamily 7 (List.replicate 31 0 ++ [7, 5, 3]) .snfWIRE,
    .addKnownNode emptyFamily ⟨BitVec.ofNat 256 (5 * 16 ^ 63), 1⟩ [1, 2, 3, 0]],
    ⟨7, [1, 2, 3]⟩, ?_, ?_, ?_⟩
  · decide +kernel
  · exact .inner (b := 5) (.leaf _)
  · decide +kernel

end Skywell.SHAMapSync
