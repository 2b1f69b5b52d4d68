import JingtumCore.RadixOrder
import JingtumCore.SyncedTrees

/-!
# Ordered search in a map

`SHAMap::peekNextItem` and `peekPrevItem` walk towards an identifier, keep the nodes on the way
on a stack and go back along it until a branch on the side they look to is not empty. A branch
may be linked, or the node lies in the cache or the database under the hash that is recorded
for it; linking what was fetched does not change what is reached and is left out.
-/
namespace Skywell.SHAMapSync
open SHAMapTree RadixTree TreeNode ExceptFold

namespace TreeNode

def isEmptyBranch : TreeNode → Fin 16 → Bool
  | innerNode isBranch _ _ _ _, branch => !isBranch branch
  | _, _ => true

end TreeNode

/-- Where the items of a map are looked for: in memory first, then in the store. -/
structure Source where
  family : Family
  backed_ : Bool

namespace Source
variable (s : Source)

/-- `descend`, without a filter. -/
def descend : TreeNode → Fin 16 → TreeNode
  | innerNode _ hashes children _ _, branch =>
    (children branch).orElse
      (if s.backed_ then s.family.fetchStored s.backed_ (hashes branch) else null)
  | _, _ => null

def descendThrow (parent : TreeNode) (branch : Fin 16) : Except Fault TreeNode :=
  let ret := s.descend parent branch
  if ret.isNull && !parent.isEmptyBranch branch then .error (.runtimeError "missing node")
  else .ok ret

/-- The nodes on the way to an identifier with their depths, the last one on top, a leaf that does
not match included. The levels are those that a tree can have from the node on. -/
def getStack (id : Tag) :
    Nat → TreeNode → Nat → List (TreeNode × Nat) → Except Fault (List (TreeNode × Nat))
  | 0, _, _, _ => .error .endlessLoop
  | levels + 1, node, depth, stack =>
    if node.isLeaf then .ok ((node, depth) :: stack)
    else
      let branch := selectBranch depth id
      if node.isEmptyBranch branch then .ok ((node, depth) :: stack)
      else do
        let child ← s.descendThrow node branch
        getStack id levels child (depth + 1) ((node, depth) :: stack)

end Source

/-- One of the two directions: how branches and tags lie, in which order the loops go through
the branches, and what becomes of a subtree in which no item is found. -/
structure Direction where
  before : Fin 16 → Fin 16 → Bool
  past : Tag → Tag → Bool
  order : List (Fin 16)
  corrupt : Fault

def Direction.next : Direction where
  before a b := a < b
  past a b := a < b
  order := List.finRange 16
  corrupt := .runtimeError "missing/corrupt node"

/-- The item of the null pointer is asked for. -/
def Direction.prev : Direction where
  before a b := b < a
  past a b := b < a
  order := (List.finRange 16).reverse
  corrupt := .nullPointer

namespace Source
variable (s : Source) (dir : Direction)

/-- `firstBelow`, and `lastBelow` in the other direction: the outermost item below a node. -/
def outermostBelow : Nat → TreeNode → Except Fault (Option SHAMapItem)
  | 0, _ => .error .endlessLoop
  | _ + 1, leaf item _ _ => .ok (some item)
  | levels + 1, node =>
    match dir.order.find? fun i => !node.isEmptyBranch i with
    | none => .ok none
    | some i => do
      let child ← s.descendThrow node i
      outermostBelow levels child

/-- The loop over the stack. -/
def searchFrom (id : Tag) : List (TreeNode × Nat) → Except Fault (Option SHAMapItem)
  | [] => .ok none
  | (leaf item _ _, _) :: stack =>
    if dir.past id item.tag then .ok (some item) else searchFrom id stack
  | (node, depth) :: stack =>
    match dir.order.find? fun i => dir.before (selectBranch depth id) i && !node.isEmptyBranch i with
    | none => searchFrom id stack
    | some i => do
      let child ← s.descendThrow node i
      match ← s.outermostBelow dir 64 child with
      | some item => return some item
      | none => throw dir.corrupt

def peekItemPast (root : TreeNode) (id : Tag) : Except Fault (Option SHAMapItem) := do
  let stack ← s.getStack id 65 root 0 []
  s.searchFrom dir id stack

def peekNextItem := s.peekItemPast .next

def peekPrevItem := s.peekItemPast .prev

end Source

/-- What the loops rely on. -/
structure Direction.Sound (dir : Direction) : Prop where
  past_asymm : ∀ {a b}, dir.past a b = true → ¬dir.past b a = true
  before_asymm : ∀ {a b}, dir.before a b = true → ¬dir.before b a = true
  total : ∀ a b, a = b ∨ dir.before a b = true ∨ dir.before b a = true
  lex : ∀ {d : Nat} {a b : Tag}, (∀ n, n < d → selectBranch n a = selectBranch n b) →
    dir.before (selectBranch d a) (selectBranch d b) = true → dir.past a b = true
  complete : ∀ b, b ∈ dir.order
  sorted : dir.order.Pairwise fun a b => dir.before a b = true

namespace Direction
variable {dir : Direction} (sound : dir.Sound)

def Sound.lexical : Lexical digit where
  lt i j := dir.past i.tag j.tag = true
  before a b := dir.before a b = true
  asymm := sound.past_asymm
  before_asymm := sound.before_asymm
  total := sound.total
  lex := sound.lex

include sound

/-- The loops stop at the first branch that will do. -/
theorem Sound.find_some {p : Fin 16 → Bool} {b : Fin 16} (found : dir.order.find? p = some b) :
    p b = true ∧ ∀ c, dir.before c b = true → p c = false := by
  obtain ⟨good, front, back, order, rejected⟩ := List.find?_eq_some_iff_append.1 found
  refine ⟨good, fun c earlier => ?_⟩
  have sorted := sound.sorted
  have there := sound.complete c
  rw [order] at sorted there
  rcases List.mem_append.1 there with first | later
  · simpa using rejected c first
  rcases List.mem_cons.1 later with rfl | later
  · exact absurd earlier (sound.before_asymm earlier)
  · have after := (List.pairwise_cons.1 (List.pairwise_append.1 sorted).2.1).1 c later
    exact absurd earlier (sound.before_asymm after)

theorem Sound.find_none {p : Fin 16 → Bool} (found : dir.order.find? p = none) (b : Fin 16) :
    p b = false := by
  simpa using List.find?_eq_none.1 found b (sound.complete b)

end Direction

/-- The tags are ordered by the first branch at which they part. -/
theorem lt_of_selectBranch_lt {a b : Tag} {d : Nat}
    (agree : ∀ n, n < d → selectBranch n a = selectBranch n b)
    (less : selectBranch d a < selectBranch d b) : a < b := by
  by_cases low : d < 64
  · have upper := div_eq_of_agree (by omega) agree
    have exponent : 64 - d = 63 - d + 1 := by omega
    rw [exponent, Nat.pow_succ, ← Nat.div_div_eq_div_mul, ← Nat.div_div_eq_div_mul] at upper
    have less : a.toNat / 16 ^ (63 - d) % 16 < b.toNat / 16 ^ (63 - d) % 16 := less
    rw [BitVec.lt_def]
    by_contra more
    have := Nat.div_le_div_right (c := 16 ^ (63 - d)) (not_lt.1 more)
    omega
  · -- below depth 64 the last branch is repeated
    have same : a = b := tag_ext fun n low' => agree n (by omega)
    rw [same] at less
    exact absurd less (lt_irrefl _)

theorem sound_next : Direction.next.Sound where
  past_asymm h h' := by
    simp only [Direction.next, decide_eq_true_eq] at h h'
    exact absurd h (BitVec.lt_asymm h')
  before_asymm h h' := by
    simp only [Direction.next, decide_eq_true_eq] at h h'
    exact absurd h (lt_asymm h')
  total a b := by
    simp only [Direction.next, decide_eq_true_eq]
    exact (lt_trichotomy a b).elim (fun h => .inr (.inl h)) fun h => h.imp_right .inr
  lex agree less := by
    simp only [Direction.next, decide_eq_true_eq] at less ⊢
    exact lt_of_selectBranch_lt agree less
  complete := List.mem_finRange
  sorted := by decide

theorem sound_prev : Direction.prev.Sound where
  past_asymm h h' := by
    simp only [Direction.prev, decide_eq_true_eq] at h h'
    exact absurd h (BitVec.lt_asymm h')
  before_asymm h h' := by
    simp only [Direction.prev, decide_eq_true_eq] at h h'
    exact absurd h (lt_asymm h')
  total a b := by
    simp only [Direction.prev, decide_eq_true_eq]
    exact (lt_trichotomy a b).elim (fun h => .inr (.inr h)) fun h => h.imp_right .inl
  lex agree less := by
    simp only [Direction.prev, decide_eq_true_eq] at less ⊢
    exact lt_of_selectBranch_lt (fun n low => (agree n low).symm) less
  complete b := List.mem_reverse.2 (List.mem_finRange b)
  sorted := by decide

namespace Source

section
variable (s : Source)

/-- The node and what is fetched for its branches make up the trie: a branch is empty, or there
is a node for it. -/
def Loads : Trie (Fin 16) SHAMapItem → TreeNode → Prop
  | .empty, _ => False
  | .leaf i, node => ∃ type h, node = leaf i type h
  | .inner g, node => (∃ isBranch hashes children h gen,
      node = innerNode isBranch hashes children h gen) ∧
    ∀ b, (node.isEmptyBranch b = true ∧ g b = .empty) ∨
      (node.isEmptyBranch b = false ∧ Loads (g b) (s.descend node b))

end

variable {s : Source} {dir : Direction} {node : TreeNode} {g : Fin 16 → Trie (Fin 16) SHAMapItem}
  {t : Trie (Fin 16) SHAMapItem} {id : Tag} {d levels : Nat} {q : SHAMapItem}

theorem Loads.not_null (h : s.Loads t node) : node.isNull = false := by
  cases t with
  | empty => exact absurd h id
  | leaf i =>
    obtain ⟨type, hash, rfl⟩ := h
    rfl
  | inner g =>
    obtain ⟨⟨_, _, _, _, _, rfl⟩, -⟩ := h
    rfl

theorem Loads.branch (h : s.Loads (.inner g) node) (b : Fin 16) :
    (node.isEmptyBranch b = true ∧ g b = .empty) ∨ (node.isEmptyBranch b = false ∧
      ∃ child, s.descendThrow node b = .ok child ∧ s.Loads (g b) child) := by
  refine (h.2 b).imp_right fun ⟨there, loads⟩ => ⟨there, _, ?_, loads⟩
  unfold descendThrow
  dsimp only
  rw [loads.not_null]
  rfl

/-- Two items part above depth 64. -/
theorem depth_lt (onWay : Lexical.OnWay digit q d (.inner g)) (branching : Branching (.inner g)) :
    d < 64 := by
  by_contra deep
  obtain ⟨⟨i, j, other, has_i, has_j⟩, -⟩ := branching
  have same : i.tag = j.tag := by
    apply tag_ext
    intro n low
    exact ((onWay.of_has has_i).agree j has_j) n (by omega)
  refine other (onWay.placed.unique has_i has_j fun n _ => ?_)
  unfold digit
  rw [same]

/-- The node lies where a tree has nodes, and each branch of it is empty or has items. -/
def Proper (d : Nat) : Trie (Fin 16) SHAMapItem → Prop
  | .inner g => d < 64 ∧ ∀ b, Branching (g b)
  | _ => True

theorem proper_of_branching (onWay : Lexical.OnWay digit q d t) (branching : Branching t) :
    Proper d t := by
  cases t with
  | empty => trivial
  | leaf i => trivial
  | inner g => exact ⟨depth_lt onWay branching, branching.2⟩

section
variable (sound : dir.Sound)

/-- An item of a branch takes the place of the query there. -/
theorem onWay_branch (onWay : Lexical.OnWay digit q d (.inner g)) {b : Fin 16} {r : SHAMapItem}
    (has : Has (g b) r) : Lexical.OnWay digit r (d + 1) (g b) := by
  have child := (onWay.of_has (.inner has)).child
  rwa [onWay.placed.1 b r has] at child

theorem outermostBelow_spec (loads : s.Loads t node) (onWay : Lexical.OnWay digit q d t)
    (branching : Branching t) (low : d ≤ 64) (enough : 65 ≤ d + levels) :
    ∃ item, s.outermostBelow dir levels node = .ok (some item) ∧
      sound.lexical.FirstOf t item := by
  obtain ⟨levels, rfl⟩ : ∃ n, levels = n + 1 := ⟨levels - 1, by omega⟩
  induction t generalizing node d levels q with
  | empty => exact loads.elim
  | leaf i =>
    obtain ⟨type, h, rfl⟩ := loads
    exact ⟨i, rfl, Lexical.firstOf_leaf⟩
  | inner g ih =>
    have deep := depth_lt onWay branching
    obtain ⟨levels, rfl⟩ : ∃ n, levels = n + 1 := ⟨levels - 1, by omega⟩
    have unfolded : s.outermostBelow dir (levels + 1 + 1) node =
        match dir.order.find? fun i => !node.isEmptyBranch i with
        | none => .ok none
        | some i => s.descendThrow node i >>= s.outermostBelow dir (levels + 1) := by
      obtain ⟨⟨_, _, _, _, _, rfl⟩, -⟩ := loads
      rfl
    rw [unfolded]
    cases found : dir.order.find? fun i => !node.isEmptyBranch i with
    | none =>
      obtain ⟨⟨i, -, -, has, -⟩, -⟩ := branching
      obtain ⟨b, has⟩ := has_inner.1 has
      have none_ := sound.find_none found b
      rcases loads.branch b with ⟨-, empty⟩ | ⟨there, -⟩
      · rw [empty] at has
        exact absurd has (not_has_empty i)
      · rw [there] at none_
        cases none_
    | some b =>
      obtain ⟨there, earlier⟩ := sound.find_some found
      rcases loads.branch b with ⟨empty, -⟩ | ⟨-, child, descended, below⟩
      · rw [empty] at there
        cases there
      obtain ⟨r, has⟩ := (branching.2 b).nonempty (by rintro same; rw [same] at below; exact below)
      obtain ⟨item, found, first⟩ := ih b below (onWay_branch onWay has) (branching.2 b) (by omega)
        levels (by omega)
      refine ⟨item, ?_, Lexical.firstOf_inner onWay first fun c before => ?_⟩
      · dsimp only
        rw [descended, ok_bind, found]
      · rcases loads.branch c with ⟨-, empty⟩ | ⟨there', -⟩
        · exact empty
        · have := earlier c before
          rw [there'] at this
          cases this

/-- A branch that the loops skip has nothing below it. -/
theorem Loads.empty_of_skipped (loads : s.Loads (.inner g) node) {b : Fin 16}
    (skipped : (!node.isEmptyBranch b) = false) : g b = .empty := by
  rcases loads.branch b with ⟨-, empty⟩ | ⟨there, -⟩
  · exact empty
  · rw [there] at skipped
    cases skipped

/-- The loop at an inner node on the way, if the branch of the identifier has no answer. -/
theorem searchFrom_inner (loads : s.Loads (.inner g) node)
    (onWay : Lexical.OnWay digit ⟨id, []⟩ d (.inner g)) (proper : Proper d (.inner g))
    (none_ : sound.lexical.NextIn ⟨id, []⟩ (g (selectBranch d id)) none)
    (stack : List (TreeNode × Nat)) :
    ∃ r, sound.lexical.NextIn ⟨id, []⟩ (.inner g) r ∧
      s.searchFrom dir id ((node, d) :: stack) =
        r.elim (s.searchFrom dir id stack) fun item => .ok (some item) := by
  obtain ⟨deep, branching⟩ := proper
  have unfolded : s.searchFrom dir id ((node, d) :: stack) =
      match dir.order.find? fun i => dir.before (selectBranch d id) i && !node.isEmptyBranch i with
      | none => s.searchFrom dir id stack
      | some i => s.descendThrow node i >>= fun child => s.outermostBelow dir 64 child >>= fun
        | some item => pure (some item)
        | none => throw dir.corrupt := by
    obtain ⟨⟨_, _, _, _, _, rfl⟩, -⟩ := loads
    rfl
  rw [unfolded]
  cases found : dir.order.find? fun i => dir.before (selectBranch d id) i && !node.isEmptyBranch i with
  | none =>
    refine ⟨none, Lexical.nextIn_none onWay none_ fun c before => ?_, rfl⟩
    have rejected := sound.find_none found c
    have before : dir.before (selectBranch d id) c = true := before
    rw [before, Bool.true_and] at rejected
    exact loads.empty_of_skipped rejected
  | some b =>
    obtain ⟨good, earlier⟩ := sound.find_some found
    obtain ⟨later, there⟩ := Bool.and_eq_true_iff.1 good
    rcases loads.branch b with ⟨empty, -⟩ | ⟨-, child, descended, below⟩
    · rw [empty] at there
      cases there
    obtain ⟨r, has⟩ := (branching b).nonempty (by rintro same; rw [same] at below; exact below)
    have enough : 65 ≤ d + 1 + 64 := by omega
    obtain ⟨item, found, first⟩ := outermostBelow_spec sound below (onWay_branch onWay has)
      (branching b) (by omega) enough
    refine ⟨some item, Lexical.nextIn_later onWay none_ later first fun c behind before => ?_, ?_⟩
    · have rejected := earlier c before
      have behind : dir.before (selectBranch d id) c = true := behind
      rw [behind, Bool.true_and] at rejected
      exact loads.empty_of_skipped rejected
    · dsimp only
      rw [descended, ok_bind, found, ok_bind]
      rfl

/-- The walk to an identifier and the way back answer for the whole subtree, or leave the answer
to the nodes above it. -/
theorem search_spec (loads : s.Loads t node) (onWay : Lexical.OnWay digit ⟨id, []⟩ d t)
    (proper : Proper d t) (low : d ≤ 64) (enough : 65 ≤ d + levels) (stack : List (TreeNode × Nat)) :
    ∃ stack' r, s.getStack id levels node d stack = .ok stack' ∧
      sound.lexical.NextIn ⟨id, []⟩ t r ∧ s.searchFrom dir id stack' =
        r.elim (s.searchFrom dir id stack) fun item => .ok (some item) := by
  obtain ⟨levels, rfl⟩ : ∃ n, levels = n + 1 := ⟨levels - 1, by omega⟩
  induction t generalizing node d levels stack with
  | empty => exact loads.elim
  | leaf i =>
    obtain ⟨type, h, rfl⟩ := loads
    by_cases past : dir.past id i.tag = true
    · exact ⟨_, some i, rfl, Lexical.nextIn_leaf_of_lt past, if_pos past⟩
    · exact ⟨_, none, rfl, Lexical.nextIn_leaf_of_not_lt past, if_neg past⟩
  | inner g ih =>
    have unfolded : s.getStack id (levels + 1) node d stack =
        if node.isEmptyBranch (selectBranch d id) then .ok ((node, d) :: stack)
        else s.descendThrow node (selectBranch d id) >>= fun child =>
          s.getStack id levels child (d + 1) ((node, d) :: stack) := by
      obtain ⟨⟨_, _, _, _, _, rfl⟩, -⟩ := loads
      rfl
    rw [unfolded]
    rcases loads.branch (selectBranch d id) with ⟨empty, none_⟩ | ⟨there, child, descended, below⟩
    · obtain ⟨r, next, searched⟩ := searchFrom_inner sound loads onWay proper
        (by rw [none_]; exact fun j has => absurd has (not_has_empty j)) stack
      exact ⟨_, r, if_pos empty, next, searched⟩
    · have onWay' : Lexical.OnWay digit ⟨id, []⟩ (d + 1) (g (selectBranch d id)) := onWay.child
      have deep := proper.1
      obtain ⟨levels, rfl⟩ : ∃ n, levels = n + 1 := ⟨levels - 1, by omega⟩
      obtain ⟨stack', r, walked, next, searched⟩ := ih _ below onWay'
        (proper_of_branching onWay' (proper.2 _)) (by omega) ((node, d) :: stack) levels (by omega)
      rw [if_neg (by simp [there]), descended, ok_bind, walked]
      cases r with
      | some item => exact ⟨stack', some item, rfl, Lexical.nextIn_here onWay next, searched⟩
      | none =>
        obtain ⟨r, next', searched'⟩ := searchFrom_inner sound loads onWay proper next stack
        exact ⟨stack', r, rfl, next', searched.trans searched'⟩

end

/-- What was fetched for a branch may be linked. -/
theorem Loads.link {isBranch : Fin 16 → Bool} {hashes : Fin 16 → Nat}
    {children : Fin 16 → TreeNode} {h gen : Nat}
    (loads : s.Loads (.inner g) (innerNode isBranch hashes children h gen)) (b : Fin 16)
    (there : isBranch b = true) :
    s.Loads (.inner g) (innerNode isBranch hashes
      (Function.update children b (s.descend (innerNode isBranch hashes children h gen) b)) h gen) := by
  refine ⟨⟨_, _, _, _, _, rfl⟩, fun c => ?_⟩
  by_cases same : c = b
  · subst same
    rcases loads.2 c with ⟨empty, -⟩ | ⟨-, below⟩
    · rw [isEmptyBranch, there] at empty
      cases empty
    · refine .inr ⟨by rw [isEmptyBranch, there]; rfl, ?_⟩
      have linked : s.descend (innerNode isBranch hashes (Function.update children c
          (s.descend (innerNode isBranch hashes children h gen) c)) h gen) c =
          s.descend (innerNode isBranch hashes children h gen) c := by
        conv_lhs => rw [descend, Function.update_self, orElse, below.not_null]
        rfl
      rwa [linked]
  · have other : s.descend (innerNode isBranch hashes (Function.update children b
        (s.descend (innerNode isBranch hashes children h gen) b)) h gen) c =
        s.descend (innerNode isBranch hashes children h gen) c := by
      conv_lhs => rw [descend, Function.update_of_ne same]
      rfl
    rw [other]
    exact loads.2 c

end Source

/-- A complete map: its root, where its nodes are fetched from, and the trie of what is reached. -/
structure LoadedMap where
  source : Source
  root_ : TreeNode
  branches : Fin 16 → Trie (Fin 16) SHAMapItem
  loads : source.Loads (.inner branches) root_
  placed : Placed digit 0 (.inner branches)
  branching : ∀ b, Branching (branches b)

namespace LoadedMap
variable (m : LoadedMap)

def Holds (tag : Tag) : Prop := ∃ item, Has (.inner m.branches) item ∧ item.tag = tag

/-- The nearest tag of the map past another one. -/
def Nearest (dir : Direction) (id n : Tag) : Prop :=
  m.Holds n ∧ dir.past id n = true ∧ ∀ j, m.Holds j → dir.past id j = true → ¬dir.past j n = true

variable {dir : Direction}

theorem peekItemPast_spec (sound : dir.Sound) (id : Tag) :
    (∃ item, m.source.peekItemPast dir m.root_ id = .ok (some item) ∧ m.Nearest dir id item.tag) ∨
      m.source.peekItemPast dir m.root_ id = .ok none ∧
        ∀ n, m.Holds n → ¬dir.past id n = true := by
  have onWay : Lexical.OnWay digit ⟨id, []⟩ 0 (.inner m.branches) :=
    ⟨m.placed, fun i _ n low => absurd low (Nat.not_lt_zero n)⟩
  have enough : 65 ≤ 0 + 65 := by decide
  obtain ⟨stack, r, walked, next, searched⟩ := Source.search_spec sound m.loads onWay
    ⟨by decide, m.branching⟩ (Nat.zero_le _) enough []
  unfold Source.peekItemPast
  rw [walked, ok_bind, searched]
  cases r with
  | some item =>
    obtain ⟨has, past, least⟩ := next
    refine .inl ⟨item, rfl, ⟨item, has, rfl⟩, past, ?_⟩
    rintro j ⟨other, has', rfl⟩ past'
    exact least other has' past'
  | none =>
    refine .inr ⟨rfl, ?_⟩
    rintro n ⟨item, has, rfl⟩
    exact next item has

end LoadedMap

/-- A tree all of whose nodes are linked. -/
def TreeNode.ofNode : Node → TreeNode
  | .null => null
  | .leaf item type h => leaf item type h
  | .innerNode f h => innerNode (fun b => !(f b).isEmptyBranch) (fun b => (f b).getNodeHash)
      (fun b => ofNode (f b)) h 0

theorem loads_ofNode (s : Source) {node : Node} (some_ : node ≠ .null) :
    s.Loads (SHAMapTree.shape node) (.ofNode node) := by
  induction node with
  | null => exact absurd rfl some_
  | leaf item type h => exact ⟨type, h, rfl⟩
  | innerNode f h ih =>
    refine ⟨⟨_, _, _, _, _, rfl⟩, fun b => ?_⟩
    by_cases empty : f b = .null
    · exact .inl ⟨by simp [ofNode, isEmptyBranch, empty, Node.isEmptyBranch],
        shape_eq_empty.2 empty⟩
    · have below := ih b empty
      refine .inr ⟨?_, ?_⟩
      · simpa [ofNode, isEmptyBranch] using mt isEmptyBranch_iff.1 empty
      · have linked : s.descend (.ofNode (.innerNode f h)) b = .ofNode (f b) := by
          conv_lhs => rw [ofNode, Source.descend, orElse, below.not_null]
          rfl
        rwa [linked]

/-- The map that a sequence of changes leads to, wherever its nodes would be fetched from. -/
theorem LoadedMap.ofGood [Sha512] {type : TNType} {root : Node}
    {data : Tag → Option (List UInt8)} (good : Good type root data) (source : Source) :
    ∃ m : LoadedMap, m.source = source ∧ m.root_ = .ofNode root ∧
      ∀ tag, m.Holds tag ↔ (data tag).isSome = true := by
  obtain ⟨f, h, rfl, branching⟩ := good.rooted
  have loads : source.Loads (SHAMapTree.shape (.innerNode f h)) (.ofNode (.innerNode f h)) :=
    loads_ofNode source nofun
  refine ⟨⟨source, _, _, loads, good.placed, branching⟩, rfl, rfl, fun tag => ?_⟩
  constructor
  · rintro ⟨item, has, rfl⟩
    rw [(good.holds item).1 has]
    rfl
  · intro present
    obtain ⟨bytes, present⟩ := Option.isSome_iff_exists.1 present
    exact ⟨⟨tag, bytes⟩, (good.holds ⟨tag, bytes⟩).2 present, rfl⟩

end Skywell.SHAMapSync
