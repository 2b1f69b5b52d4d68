import JingtumCore.SharedNodes

/-!
# What `walkSubTree` does to the trees in a store

It gives each node the hash of what lies below it, puts copies in the place of
nodes that belong to other maps, and changes the items below no node at all.
-/
namespace Skywell.SHAMapStore
open SHAMapTree RadixTree

abbrev ItemTrie := Trie (Fin 16) (SHAMapItem × TNType)

/-- A trie from what lies below its branches, if all of it is known. -/
def joinTries (below : Fin 16 → Option ItemTrie) : Option ItemTrie :=
  if ∀ i, (below i).isSome then some (.inner fun i => (below i).getD .empty) else none

def branchTree (tree : Addr → Option ItemTrie) : Option Addr → Option ItemTrie
  | none => some .empty
  | some child => tree child

/-- The tree at an address, if it has no more than the given number of levels. -/
def tree (h : Store) : Nat → Addr → Option ItemTrie
  | 0, a =>
    match (h.nodes a).mData with
    | .leaf item type => some (.leaf (item, type))
    | .inner _ => none
  | n + 1, a =>
    match (h.nodes a).mData with
    | .leaf item type => some (.leaf (item, type))
    | .inner mChildren => joinTries fun i => branchTree (tree h n) (mChildren i)

variable {a : Addr} {h h' : Store} {children : Fin 16 → Option Addr} {t : ItemTrie} {n : Nat}
  {b : Addr} {d : Data} {m : Nat} {map : SHAMap} {item : SHAMapItem} {type : TNType}

theorem tree_leaf (data : (h.nodes a).mData = .leaf item type) (n : Nat) :
    tree h n a = some (.leaf (item, type)) := by
  cases n with
  | zero => rw [tree, data]
  | succ n => rw [tree, data]

theorem tree_zero (data : (h.nodes a).mData = .inner children) : tree h 0 a = none := by
  rw [tree, data]

theorem tree_succ (data : (h.nodes a).mData = .inner children) (n : Nat) :
    tree h (n + 1) a = joinTries fun i => branchTree (tree h n) (children i) := by
  rw [tree, data]

theorem joinTries_eq_some {below : Fin 16 → Option ItemTrie} :
    joinTries below = some t ↔ ∃ f, t = .inner f ∧ ∀ i, below i = some (f i) := by
  rw [joinTries]
  constructor
  · intro joined
    split at joined
    · next all =>
      cases joined
      refine ⟨_, rfl, fun i => ?_⟩
      obtain ⟨t, known⟩ := Option.isSome_iff_exists.1 (all i)
      rw [known]
      rfl
    · cases joined
  · rintro ⟨f, rfl, all⟩
    rw [if_pos fun i => by rw [all]; rfl]
    congr 2
    funext i
    rw [all]
    rfl

theorem tree_ne_empty : tree h n a ≠ some .empty := by
  intro empty
  cases data : (h.nodes a).mData with
  | leaf item type =>
    rw [tree_leaf data] at empty
    cases empty
  | inner children =>
    cases n with
    | zero =>
      rw [tree_zero data] at empty
      cases empty
    | succ n =>
      rw [tree_succ data] at empty
      obtain ⟨_, same, _⟩ := joinTries_eq_some.1 empty
      cases same

theorem branchTree_eq_empty {child : Option Addr} :
    branchTree (tree h n) child = some .empty ↔ child = none := by
  cases child with
  | none => exact iff_of_true rfl rfl
  | some c => exact iff_of_false tree_ne_empty nofun

/-- The number of levels does not matter once there are enough of them. -/
theorem tree_succ_of_some (known : tree h n a = some t) : tree h (n + 1) a = some t := by
  induction n generalizing a t with
  | zero =>
    cases data : (h.nodes a).mData with
    | leaf item type => rwa [tree_leaf data] at known ⊢
    | inner children =>
      rw [tree_zero data] at known
      cases known
  | succ n ih =>
    cases data : (h.nodes a).mData with
    | leaf item type => rwa [tree_leaf data] at known ⊢
    | inner children =>
      rw [tree_succ data] at known ⊢
      obtain ⟨f, rfl, all⟩ := joinTries_eq_some.1 known
      refine joinTries_eq_some.2 ⟨f, rfl, fun i => ?_⟩
      have child := all i
      cases link : children i with
      | none => rwa [link] at child
      | some c =>
        rw [link] at child
        exact ih child

theorem tree_mono (le : n ≤ m) (known : tree h n a = some t) : tree h m a = some t := by
  induction le with
  | refl => exact known
  | step _ ih => exact tree_succ_of_some ih

theorem tree_unique {t' : ItemTrie} (known : tree h n a = some t) (known' : tree h m a = some t') :
    t = t' := by
  have left := tree_mono (Nat.le_max_left n m) known
  have right := tree_mono (Nat.le_max_right n m) known'
  exact Option.some.inj (left.symm.trans right)

/-- Two nodes with the same content above the same trees. -/
structure Alike (h : Store) (d : Data) (h' : Store) (d' : Data) : Prop where
  kind : d'.isInner = d.isInner
  leaf : ∀ item type, d = .leaf item type → d' = d
  below : ∀ i n, branchTree (tree h' n) (d'.children i) = branchTree (tree h n) (d.children i)

/-- The trees of two nodes of one kind are those of their branches, with a level less. -/
theorem tree_of_below (kind : (h'.nodes b).mData.isInner = (h.nodes a).mData.isInner)
    (leaf : ∀ item type, (h.nodes a).mData = .leaf item type →
      (h'.nodes b).mData = (h.nodes a).mData)
    (below : ∀ m < n, ∀ i, branchTree (tree h' m) ((h'.nodes b).mData.children i) =
      branchTree (tree h m) ((h.nodes a).mData.children i)) : tree h' n b = tree h n a := by
  cases data : (h.nodes a).mData with
  | leaf item type =>
    rw [tree_leaf data, tree_leaf ((leaf item type data).trans data)]
  | inner children =>
    cases data' : (h'.nodes b).mData with
    | leaf item type =>
      rw [data, data'] at kind
      cases kind
    | inner children' =>
      rw [data, data'] at below
      cases n with
      | zero => rw [tree_zero data, tree_zero data']
      | succ n =>
        rw [tree_succ data, tree_succ data']
        exact congrArg joinTries (funext (below n n.lt_succ_self))

theorem Alike.tree_eq (alike : Alike h (h.nodes a).mData h' (h'.nodes b).mData) (n : Nat) :
    tree h' n b = tree h n a :=
  tree_of_below alike.kind alike.leaf fun m _ i => alike.below i m

theorem tree_congr {p : Addr → Prop} (closed : Closed h p)
    (same : ∀ a, p a → (h'.nodes a).mData = (h.nodes a).mData) (n : Nat) (ha : p a) :
    tree h' n a = tree h n a := by
  induction n using Nat.strong_induction_on generalizing a with
  | _ n ih =>
    refine tree_of_below (by rw [same a ha]) (fun _ _ _ => same a ha) fun m lt i => ?_
    rw [same a ha]
    cases link : (h.nodes a).mData.children i with
    | none => rfl
    | some c => exact ih m lt (closed a ha i c link)

theorem isEmpty_iff : d.isEmpty = true ↔ ∀ i, (d.children i).isNone = true :=
  decide_eq_true_iff

section
variable [Sha512]

/-- The hash of a tree from its items alone. -/
def merkle : ItemTrie → Nat
  | .empty => 0
  | .leaf p => leafHash p.1 p.2
  | .inner f => if ∀ i, isEmptyTrie (f i) = true then 0 else innerHash fun i => merkle (f i)
where
  isEmptyTrie : ItemTrie → Bool
    | .empty => true
    | _ => false

/-- A node with the hash of what lies below it. -/
def Settled (h : Store) (a : Addr) : Prop :=
  ∃ n t, tree h n a = some t ∧ (h.nodes a).mHash = merkle t

theorem hashOf_eq_merkle (known : tree h n a = some t)
    (settled : ∀ i c, (h.nodes a).mData.children i = some c → Settled h c) :
    hashOf h (h.nodes a).mData = merkle t := by
  cases data : (h.nodes a).mData with
  | leaf item type =>
    rw [tree_leaf data] at known
    cases known
    rfl
  | inner children =>
    cases n with
    | zero =>
      rw [tree_zero data] at known
      cases known
    | succ n =>
      rw [tree_succ data] at known
      rw [data] at settled
      obtain ⟨f, rfl, all⟩ := joinTries_eq_some.1 known
      have empty (i : Fin 16) : merkle.isEmptyTrie (f i) = true ↔ (children i).isNone = true := by
        rw [Option.isNone_iff_eq_none, ← branchTree_eq_empty, all]
        cases f i with
        | empty => exact iff_of_true rfl rfl
        | leaf p => exact iff_of_false Bool.noConfusion nofun
        | inner g => exact iff_of_false Bool.noConfusion nofun
      have hashes : (fun i => branchHash h (children i)) = fun i => merkle (f i) := by
        funext i
        have child := all i
        cases link : children i with
        | none =>
          rw [link] at child
          rw [← Option.some.inj child]
          rfl
        | some c =>
          rw [link] at child
          obtain ⟨m, t, known', hash⟩ := settled i c link
          rw [branchHash, hash, tree_unique known' child]
      rw [hashOf, merkle, hashes]
      by_cases none : ∀ i, (children i).isNone = true
      · rw [if_pos ((isEmpty_iff (d := .inner children)).2 none), if_pos fun i => (empty i).2 (none i)]
      · rw [if_neg fun h' => none ((isEmpty_iff (d := .inner children)).1 h'),
          if_neg fun h' => none fun i => (empty i).1 (h' i)]

omit [Sha512] in
theorem trees_set {node : SHAMapTreeNode} (alike : Alike h (h.nodes a).mData h node.mData) (n : Nat) :
    tree (h.set a node) n = tree h n := by
  induction n using Nat.strong_induction_on with
  | _ n ih =>
    funext b
    by_cases same : b = a
    · rw [same]
      apply tree_of_below
      all_goals rw [Store.nodes_set_self]
      · exact alike.kind
      · exact alike.leaf
      · exact fun m lt i => ih m lt ▸ alike.below i m
    · apply tree_of_below
      all_goals rw [Store.nodes_set_of_ne same]
      · exact fun _ _ _ => rfl
      · exact fun m lt i => by rw [ih m lt]

/-- A store without dangling addresses, all of whose nodes may be written by some map. -/
structure Sane (h : Store) : Prop where
  closed : Closed h (· < h.next)
  seqs : ∀ a, a < h.next → (h.nodes a).mSeq ≠ 0

/-- All nodes below carry the number, and have the hash of what lies below them. -/
structure Flushed (seq : Nat) (h : Store) (a : Addr) : Prop where
  own : ∀ b, Reach h a b → (h.nodes b).mSeq = seq
  settled : ∀ b, Reach h a b → Settled h b

/-- What `walkSubTree` does to a store, with the number of the map. -/
structure Refreshed (seq : Nat) (h h' : Store) : Prop where
  grown : h.next ≤ h'.next
  seqs : ∀ a, a < h.next → (h'.nodes a).mSeq = (h.nodes a).mSeq
  data : ∀ a, a < h.next → Alike h (h.nodes a).mData h' (h'.nodes a).mData
  hashes : ∀ a, a < h.next → (h'.nodes a).mHash = (h.nodes a).mHash ∨ Settled h' a
  links : ∀ a, a < h.next → ∀ i,
    (h'.nodes a).mData.children i = (h.nodes a).mData.children i ∨
      ∃ c, (h'.nodes a).mData.children i = some c ∧ c < h'.next ∧ Flushed seq h' c

section
variable {seq : Nat} {h h' h'' : Store} {a c : Addr} {i : Fin 16} {node : SHAMapTreeNode}

section
variable (re : Refreshed seq h h') (sane : Sane h) (low : a < h.next)
include re low

theorem Refreshed.trees (n : Nat) :
    tree h' n a = tree h n a := (re.data a low).tree_eq n

theorem Refreshed.settled (settled : Settled h a) : Settled h' a := by
  rcases re.hashes a low with same | settled'
  · obtain ⟨n, t, known, hash⟩ := settled
    exact ⟨n, t, (re.trees low n).trans known, same.trans hash⟩
  · exact settled'

theorem Refreshed.link (link : (h.nodes a).mData.children i = some c) :
    ∃ c', (h'.nodes a).mData.children i = some c' ∧ ∀ n, tree h' n c' = tree h n c := by
  have below := (re.data a low).below i
  rw [link] at below
  cases link' : (h'.nodes a).mData.children i with
  | none =>
    rw [link'] at below
    exact absurd (below 0).symm tree_ne_empty
  | some c' =>
    rw [link'] at below
    exact ⟨c', rfl, below⟩

theorem Refreshed.flushed_of_link (link : (h'.nodes a).mData.children i = some c)
    (new : (h.nodes a).mData.children i ≠ some c) : Flushed seq h' c := by
  rcases re.links a low i with same | ⟨c', link', -, flushed⟩
  · exact absurd (same.symm.trans link) new
  · rw [link] at link'
    cases link'
    exact flushed

include sane

theorem Refreshed.reach (ab : Reach h' a b) :
    (b < h.next ∧ Reach h a b) ∨ ∃ c, Flushed seq h' c ∧ Reach h' c b := by
  induction ab with
  | refl => exact .inl ⟨low, .refl⟩
  | @step b c i _ link ih =>
    rcases ih with ⟨low', reach⟩ | ⟨d, flushed, reach⟩
    · rcases re.links b low' i with same | ⟨c', link', _, flushed⟩
      · rw [same] at link
        exact .inl ⟨sane.closed b low' i c link, .step reach link⟩
      · rw [link'] at link
        cases link
        exact .inr ⟨c, flushed, .refl⟩
    · exact .inr ⟨d, flushed, .step reach link⟩

theorem Refreshed.allSettled (settled : ∀ b, Reach h a b → Settled h b) (b : Addr)
    (ab : Reach h' a b) : Settled h' b := by
  rcases re.reach sane low ab with ⟨low', reach⟩ | ⟨c, flushed, reach⟩
  · exact re.settled low' (settled b reach)
  · exact flushed.settled b reach

theorem Refreshed.flushed (flushed : Flushed seq h a) :
    Flushed seq h' a := by
  refine ⟨fun b ab => ?_, re.allSettled sane low flushed.settled⟩
  rcases re.reach sane low ab with ⟨low', reach⟩ | ⟨c, flushed', reach⟩
  · rw [re.seqs b low']
    exact flushed.own b reach
  · exact flushed'.own b reach

end

theorem refreshed_refl : Refreshed seq h h where
  grown := le_rfl
  seqs _ _ := rfl
  data _ _ := ⟨rfl, fun _ _ _ => rfl, fun _ _ => rfl⟩
  hashes _ _ := .inl rfl
  links _ _ _ := .inl rfl

theorem Refreshed.trans (re : Refreshed seq h h') (re' : Refreshed seq h' h'') (sane : Sane h') :
    Refreshed seq h h'' := by
  have up {a : Addr} (low : a < h.next) : a < h'.next := low.trans_le re.grown
  refine ⟨Nat.le_trans re.grown re'.grown, fun a low => ?_, fun a low => ?_, fun a low => ?_,
    fun a low i => ?_⟩
  · rw [re'.seqs a (up low), re.seqs a low]
  · have first := re.data a low
    have second := re'.data a (up low)
    refine ⟨second.kind.trans first.kind, fun item type leaf => ?_, fun i n => ?_⟩
    · have leaf' := first.leaf item type leaf
      exact (second.leaf item type (leaf'.trans leaf)).trans leaf'
    · exact (second.below i n).trans (first.below i n)
  · rcases re'.hashes a (up low) with same | settled
    · rcases re.hashes a low with same' | settled'
      · exact .inl (same.trans same')
      · exact .inr (re'.settled (up low) settled')
    · exact .inr settled
  · rcases re'.links a (up low) i with same | flushed
    · rcases re.links a low i with same' | ⟨c, link, low', flushed⟩
      · exact .inl (same.trans same')
      · exact .inr ⟨c, same.trans link, low'.trans_le re'.grown,
          re'.flushed sane low' flushed⟩
    · exact .inr flushed

/-- One node is written. -/
theorem refreshed_set (own : node.mSeq = (h.nodes a).mSeq)
    (alike : Alike h (h.nodes a).mData h node.mData)
    (hash : node.mHash = (h.nodes a).mHash ∨ Settled (h.set a node) a)
    (links : ∀ i, node.mData.children i = (h.nodes a).mData.children i ∨
      ∃ c, node.mData.children i = some c ∧ c < h.next ∧ Flushed seq (h.set a node) c) :
    Refreshed seq h (h.set a node) := by
  have trees (n : Nat) := trees_set alike n
  refine ⟨le_rfl, fun b low => ?_, fun b low => ?_, fun b low => ?_, fun b low i => ?_⟩
  all_goals
    rcases eq_or_ne b a with rfl | other
    on_goal 1 => rw [Store.nodes_set_self]
    on_goal 2 => rw [Store.nodes_set_of_ne other]
  · exact own
  · exact ⟨alike.kind, alike.leaf, fun i n => by rw [trees]; exact alike.below i n⟩
  · exact ⟨rfl, fun _ _ _ => rfl, fun i n => by rw [trees]⟩
  · exact hash
  · exact .inl rfl
  · exact links i
  · exact .inl rfl

omit [Sha512] in
theorem Sane.set (sane : Sane h) (low : a < h.next)
    (own : node.mSeq = (h.nodes a).mSeq)
    (children : ∀ i c, node.mData.children i = some c → c < h.next) : Sane (h.set a node) := by
  refine ⟨fun b low' => ?_, fun b low' => ?_⟩
  all_goals
    rcases eq_or_ne b a with rfl | other
    on_goal 1 => rw [Store.nodes_set_self]
    on_goal 2 => rw [Store.nodes_set_of_ne other]
  · exact children
  · exact sane.closed b low'
  · rw [own]
    exact sane.seqs b low
  · exact sane.seqs b low'

theorem refreshed_push (sane : Sane h) : Refreshed seq h (h.push node) := by
  have old (a : Addr) (low : a < h.next) : (h.push node).nodes a = h.nodes a :=
    Store.nodes_push_of_ne (Nat.ne_of_lt low) _
  have trees (n : Nat) (a : Addr) (low : a < h.next) : tree (h.push node) n a = tree h n a :=
    tree_congr sane.closed (fun a low => by rw [old a low]) n low
  refine ⟨Nat.le_succ _, fun a low => ?_, fun a low => ?_, fun a low => ?_, fun a low i => ?_⟩
  · rw [old a low]
  · rw [old a low]
    refine ⟨rfl, fun _ _ _ => rfl, fun i n => ?_⟩
    cases link : (h.nodes a).mData.children i with
    | none => rfl
    | some c => exact trees n c (sane.closed a low i c link)
  · exact .inl (by rw [old a low])
  · exact .inl (by rw [old a low])

omit [Sha512] in
theorem Sane.push (sane : Sane h) (own : node.mSeq ≠ 0)
    (children : ∀ i c, node.mData.children i = some c → c < h.next) : Sane (h.push node) := by
  refine ⟨fun b low => ?_, fun b low => ?_⟩
  all_goals
    rcases Nat.lt_succ_iff_lt_or_eq.1 low with low' | rfl
    on_goal 1 => rw [Store.nodes_push_of_ne low'.ne]
    on_goal 2 => rw [Store.nodes_push_self]
  · exact fun i c link => Nat.lt_succ_of_lt (sane.closed b low' i c link)
  · exact fun i c link => Nat.lt_succ_of_lt (children i c link)
  · exact sane.seqs b low'
  · exact own

section
omit [Sha512]

theorem reach_cases (ab : Reach h a b) :
    b = a ∨ ∃ i c, (h.nodes a).mData.children i = some c ∧ Reach h c b := by
  induction ab with
  | refl => exact .inl rfl
  | step _ link ih =>
    rcases ih with rfl | ⟨i, c, first, reach⟩
    · exact .inr ⟨_, _, link, .refl⟩
    · exact .inr ⟨i, c, first, .step reach link⟩

theorem peek_run : peek a h = (.ok (h.nodes a), h) := rfl

end

theorem preFlushNode_spec (nonzero : seq ≠ 0) (sane : Sane h) (low : a < h.next) :
    ∃ a' h', preFlushNode seq a h = (.ok a', h') ∧ Sane h' ∧ Refreshed seq h h' ∧ a' < h'.next ∧
      (h'.nodes a').mSeq = seq ∧ (h'.nodes a').mData = (h.nodes a).mData ∧
      ∀ n, tree h' n a' = tree h n a := by
  have run : preFlushNode seq a h = if (h.nodes a).mSeq ≠ seq then
      (.ok h.next, h.push { h.nodes a with mSeq := seq }) else (.ok a, h) := by
    rw [preFlushNode, bind_run, peek_run]
    dsimp only
    split_ifs <;> rfl
  by_cases own : (h.nodes a).mSeq = seq
  · rw [if_neg (not_not.2 own)] at run
    exact ⟨a, h, run, sane, refreshed_refl, low, own, rfl, fun _ => rfl⟩
  · rw [if_pos own] at run
    have re : Refreshed seq h (h.push { h.nodes a with mSeq := seq }) := refreshed_push sane
    refine ⟨_, _, run, sane.push nonzero (sane.closed a low), re, Nat.lt_succ_self _, ?_, ?_, ?_⟩
    · rw [Store.nodes_push_self]
    · rw [Store.nodes_push_self]
    · refine Alike.tree_eq ?_
      rw [Store.nodes_push_self]
      have alike := re.data a low
      rwa [Store.nodes_push_of_ne (Nat.ne_of_lt low)] at alike

/-- A node of the map above flushed children gets its hash. -/
theorem updateHash_spec (sane : Sane h) (low : a < h.next) (own : (h.nodes a).mSeq = seq)
    (known : tree h n a = some t)
    (below : ∀ i c, (h.nodes a).mData.children i = some c → Flushed seq h c) :
    ∃ h', updateHash a h = (.ok (), h') ∧ Sane h' ∧ Refreshed seq h h' ∧ Flushed seq h' a := by
  let node : SHAMapTreeNode := { h.nodes a with mHash := hashOf h (h.nodes a).mData }
  have alike : Alike h (h.nodes a).mData h node.mData := ⟨rfl, fun _ _ _ => rfl, fun _ _ => rfl⟩
  have hash := hashOf_eq_merkle known fun i c link => (below i c link).settled c .refl
  have settled : Settled (h.set a node) a := by
    refine ⟨n, t, ?_, ?_⟩
    · rw [trees_set alike, known]
    · rw [Store.nodes_set_self]
      exact hash
  have sane' : Sane (h.set a node) := sane.set low rfl (sane.closed a low)
  have re : Refreshed seq h (h.set a node) :=
    refreshed_set rfl alike (.inr settled) fun i => .inl rfl
  refine ⟨h.set a node, rfl, sane', re, ?_, ?_⟩
  all_goals
    intro b ab
    rcases reach_cases ab with rfl | ⟨i, c, link, reach⟩
  · rw [Store.nodes_set_self]
    exact own
  · rw [Store.nodes_set_self] at link
    exact (re.flushed sane (sane.closed a low i c link) (below i c link)).own b reach
  · exact settled
  · rw [Store.nodes_set_self] at link
    exact (re.flushed sane (sane.closed a low i c link) (below i c link)).settled b reach

/-- A node is flushed: the outcome, given whether there are levels enough for its tree. -/
structure Flushes (seq : Nat) (h : Store) (a : Addr) (enough : Prop)
    (r : Except Fault Addr × Store) : Prop where
  sane : Sane r.2
  refreshed : Refreshed seq h r.2
  fails : ¬ enough → r.1 = .error .endlessLoop
  returns : enough → ∃ a', r.1 = .ok a' ∧ a' < r.2.next ∧ (∀ n, tree r.2 n a' = tree h n a) ∧
    Flushed seq r.2 a'

theorem flushLeaf_spec (nonzero : seq ≠ 0) (sane : Sane h) (low : a < h.next)
    (leaf : (h.nodes a).mData = .leaf item type) : Flushes seq h a True (flushLeaf seq a h) := by
  obtain ⟨a', h1, run1, sane1, re1, low1, own, data, trees⟩ := preFlushNode_spec nonzero sane low
  have leaf' := data.trans leaf
  obtain ⟨h2, run2, sane2, re2, flushed⟩ := updateHash_spec sane1 low1 own (tree_leaf leaf' 0)
    fun i c link => by rw [leaf'] at link; cases link
  have run : flushLeaf seq a h = (.ok a', h2) := by
    rw [flushLeaf, bind_run, run1]
    dsimp only
    rw [bind_run, run2]
    rfl
  rw [run]
  refine ⟨sane2, re1.trans re2 sane1, fun h => absurd trivial h, fun _ => ?_⟩
  exact ⟨a', rfl, low1.trans_le re2.grown,
    fun n => (re2.trees low1 n).trans (trees n), flushed⟩

/-- A flushed node is linked in the place of a child. -/
theorem shareChild_spec (sane : Sane h) {c' : Addr} (low : a < h.next)
    (inner : (h.nodes a).mData.isInner = true) (link : (h.nodes a).mData.children i = some c)
    (low' : c' < h.next) (trees : ∀ n, tree h n c' = tree h n c) (flushed : Flushed seq h c') :
    ∃ h', shareChild a i c' h = (.ok (), h') ∧ Sane h' ∧ Refreshed seq h h' ∧
      h'.next = h.next ∧ Flushed seq h' c' ∧
      (h'.nodes a).mData.children = Function.update (h.nodes a).mData.children i (some c') := by
  let node : SHAMapTreeNode := { h.nodes a with
    mData := .inner (Function.update (h.nodes a).mData.children i (some c')) }
  have children : node.mData.children = Function.update (h.nodes a).mData.children i (some c') := rfl
  have alike : Alike h (h.nodes a).mData h node.mData := by
    refine ⟨inner.symm, fun item type leaf => ?_, fun j n => ?_⟩
    · rw [leaf] at inner
      cases inner
    · rw [children]
      by_cases same : j = i
      · rw [same, Function.update_self, link]
        exact trees n
      · rw [Function.update_of_ne same]
  have sane' : Sane (h.set a node) := by
    refine sane.set low rfl fun j d link' => ?_
    rw [children] at link'
    by_cases same : j = i
    · rw [same, Function.update_self] at link'
      cases link'
      exact low'
    · rw [Function.update_of_ne same] at link'
      exact sane.closed a low j d link'
  -- the new link leads back to the flushed node itself
  have inside (b : Addr) (reach : Reach (h.set a node) c' b) : Reach h c' b := by
    induction reach with
    | refl => exact .refl
    | @step b d j _ link' ih =>
      by_cases same : b = a
      · rw [same, Store.nodes_set_self, children] at link'
        by_cases same' : j = i
        · rw [same', Function.update_self] at link'
          cases link'
          exact .refl
        · rw [Function.update_of_ne same'] at link'
          exact .step (same ▸ ih) link'
      · rw [Store.nodes_set_of_ne same] at link'
        exact .step ih link'
  have flushed' : Flushed seq (h.set a node) c' := by
    refine ⟨fun b reach => ?_, fun b reach => ?_⟩
    · have old := flushed.own b (inside b reach)
      by_cases same : b = a
      · rw [same, Store.nodes_set_self]
        rwa [same] at old
      · rwa [Store.nodes_set_of_ne same]
    · obtain ⟨n, t, known, hash⟩ := flushed.settled b (inside b reach)
      refine ⟨n, t, by rw [trees_set alike, known], ?_⟩
      by_cases same : b = a
      · rw [same, Store.nodes_set_self]
        rwa [same] at hash
      · rwa [Store.nodes_set_of_ne same]
  have re : Refreshed seq h (h.set a node) := by
    refine refreshed_set rfl alike (.inl rfl) fun j => ?_
    rw [children]
    by_cases same : j = i
    · rw [same, Function.update_self]
      exact .inr ⟨c', rfl, low', flushed'⟩
    · exact .inl (Function.update_of_ne same _ _)
  exact ⟨h.set a node, rfl, sane', re, rfl, flushed', by rw [Store.nodes_set_self, children]⟩

/-- The branches of a node are flushed. -/
structure FlushesAll (seq fuel : Nat) (h : Store) (a : Addr) (branches : List (Fin 16))
    (r : Except Fault Unit × Store) : Prop where
  sane : Sane r.2
  refreshed : Refreshed seq h r.2
  fails : ¬ (∀ i ∈ branches,
    (branchTree (tree h fuel) ((h.nodes a).mData.children i)).isSome = true) →
      r.1 = .error .endlessLoop
  returns : (∀ i ∈ branches,
    (branchTree (tree h fuel) ((h.nodes a).mData.children i)).isSome = true) →
      r.1 = .ok () ∧ ∀ i ∈ branches, ∀ c, (r.2.nodes a).mData.children i = some c →
        Flushed seq r.2 c

theorem flushChildren_spec (nonzero : seq ≠ 0) {fuel : Nat} {flush : Addr → Act Addr}
    (step : ∀ {h : Store} {c : Addr}, Sane h → c < h.next → (h.nodes c).mData.isInner = true →
      Flushes seq h c ((tree h fuel c).isSome = true) (flush c h))
    (branches : List (Fin 16)) (sane : Sane h) (low : a < h.next)
    (inner : (h.nodes a).mData.isInner = true) :
    FlushesAll seq fuel h a branches (flushChildren seq flush a branches h) := by
  induction branches generalizing h with
  | nil =>
    refine ⟨sane, refreshed_refl, fun h' => absurd (fun i mem => ?_) h', fun _ => ⟨rfl, ?_⟩⟩
    · cases mem
    · intro i mem
      cases mem
  | cons i rest ih =>
    rw [flushChildren, bind_run, peek_run]
    dsimp only
    cases link : (h.nodes a).mData.children i with
    | none =>
      have all := ih sane low inner
      have here : (branchTree (tree h fuel) ((h.nodes a).mData.children i)).isSome = true := by
        rw [link]
        rfl
      refine ⟨all.sane, all.refreshed, fun missing => all.fails fun h' => missing ?_, fun h' => ?_⟩
      · exact List.forall_mem_cons.2 ⟨here, h'⟩
      · obtain ⟨ok, flushed⟩ := all.returns (List.forall_mem_cons.1 h').2
        refine ⟨ok, List.forall_mem_cons.2 ⟨fun c link' => ?_, flushed⟩⟩
        exact all.refreshed.flushed_of_link low link' (by rw [link]; exact nofun)
    | some c =>
      have lowc := sane.closed a low i c link
      have flushes : Flushes seq h c ((tree h fuel c).isSome = true)
          ((if (h.nodes c).mData.isInner = true then flush c else flushLeaf seq c) h) := by
        cases data : (h.nodes c).mData with
        | inner children => exact step sane lowc (by rw [data]; rfl)
        | leaf item type =>
          have leaf := flushLeaf_spec nonzero sane lowc data
          have enough : (tree h fuel c).isSome = true := by rw [tree_leaf data]; rfl
          exact ⟨leaf.sane, leaf.refreshed, fun h' => absurd enough h', fun _ => leaf.returns trivial⟩
      dsimp only
      rw [bind_run, peek_run]
      dsimp only
      rw [if_neg (sane.seqs c lowc), bind_run]
      by_cases enough : (tree h fuel c).isSome = true
      · obtain ⟨c', ok, low', trees, flushed⟩ := flushes.returns enough
        obtain ⟨sane1, re1, -, -⟩ := flushes
        rw [ok]
        dsimp only
        generalize ((if (h.nodes c).mData.isInner = true then flush c else flushLeaf seq c) h).2 = h1
          at *
        have low1 := low.trans_le re1.grown
        obtain ⟨c1, link1, trees1⟩ := re1.link low link
        have inner1 : (h1.nodes a).mData.isInner = true := (re1.data a low).kind.trans inner
        obtain ⟨h2, run, sane2, re2, next2, flushed2, children⟩ := shareChild_spec sane1 low1 inner1
          link1 low' (fun n => (trees n).trans (trees1 n).symm) flushed
        rw [bind_run, run]
        have re := re1.trans re2 sane1
        have low2 := low.trans_le re.grown
        have all := ih sane2 low2 ((re.data a low).kind.trans inner)
        have below (j : Fin 16) : branchTree (tree h2 fuel) ((h2.nodes a).mData.children j) =
            branchTree (tree h fuel) ((h.nodes a).mData.children j) := (re.data a low).below j fuel
        refine ⟨all.sane, re.trans all.refreshed sane2, fun missing => all.fails fun h' => missing ?_,
          fun h' => ?_⟩
        · refine List.forall_mem_cons.2 ⟨by rw [link]; exact enough, fun j mem => ?_⟩
          rw [← below]
          exact h' j mem
        · obtain ⟨ok', rest'⟩ := all.returns fun j mem => by
            rw [below]
            exact (List.forall_mem_cons.1 h').2 j mem
          refine ⟨ok', List.forall_mem_cons.2 ⟨fun d link' => ?_, rest'⟩⟩
          by_cases same : (h2.nodes a).mData.children i = some d
          · rw [children, Function.update_self] at same
            cases same
            exact all.refreshed.flushed sane2 (low'.trans_le re2.grown) flushed2
          · exact all.refreshed.flushed_of_link low2 link' same
      · rw [flushes.fails enough]
        refine ⟨flushes.sane, flushes.refreshed, fun _ => rfl, fun h' => absurd ?_ enough⟩
        have here := (List.forall_mem_cons.1 h').1
        rwa [link] at here

theorem flushInner_spec (nonzero : seq ≠ 0) (fuel : Nat) (sane : Sane h)
    (low : a < h.next) (inner : (h.nodes a).mData.isInner = true) :
    Flushes seq h a ((tree h fuel a).isSome = true) (flushInner seq fuel a h) := by
  induction fuel generalizing h a with
  | zero =>
    cases data : (h.nodes a).mData with
    | leaf item type =>
      rw [data] at inner
      cases inner
    | inner children =>
      refine ⟨sane, refreshed_refl, fun _ => rfl, fun enough => ?_⟩
      rw [tree_zero data] at enough
      cases enough
  | succ fuel ih =>
    obtain ⟨a', h1, run1, sane1, re1, low1, own, data, trees⟩ := preFlushNode_spec nonzero sane low
    rw [flushInner, bind_run, run1]
    dsimp only
    rw [bind_run]
    have all := flushChildren_spec nonzero (fun s l i => ih s l i) (List.finRange 16) sane1 low1
      (data ▸ inner)
    have re2 := re1.trans all.refreshed sane1
    -- there are levels enough for the node if there are for all its children
    have enough_iff : (tree h (fuel + 1) a).isSome = true ↔ ∀ i ∈ List.finRange 16,
        (branchTree (tree h1 fuel) ((h1.nodes a').mData.children i)).isSome = true := by
      rw [← trees]
      cases data' : (h1.nodes a').mData with
      | leaf item type =>
        rw [← data, data'] at inner
        cases inner
      | inner children =>
        rw [tree_succ data', joinTries]
        constructor
        · intro some' i _
          split at some'
          · next known => exact known i
          · cases some'
        · intro known
          have all' (i : Fin 16) : (branchTree (tree h1 fuel) (children i)).isSome = true :=
            known i (List.mem_finRange i)
          rw [if_pos all']
          rfl
    by_cases enough : (tree h (fuel + 1) a).isSome = true
    · obtain ⟨ok, below⟩ := all.returns (enough_iff.1 enough)
      obtain ⟨t, known⟩ := Option.isSome_iff_exists.1 enough
      rw [ok]
      obtain ⟨sane2, re', -, -⟩ := all
      generalize (flushChildren seq (flushInner seq fuel) a' (List.finRange 16) h1).2 = h2 at *
      have low2 := low1.trans_le re'.grown
      have trees2 (n : Nat) : tree h2 n a' = tree h n a := (re'.trees low1 n).trans (trees n)
      obtain ⟨h3, run3, sane3, re3, flushed⟩ := updateHash_spec sane2 low2
        ((re'.seqs a' low1).trans own) ((trees2 _).trans known)
        fun i c link => below i (List.mem_finRange i) c link
      rw [bind_run, run3]
      refine ⟨sane3, re2.trans re3 sane2, fun h' => absurd enough h', fun _ => ?_⟩
      exact ⟨a', rfl, low2.trans_le re3.grown,
        fun n => (re3.trees low2 n).trans (trees2 n), flushed⟩
    · rw [all.fails fun known => enough (enough_iff.2 known)]
      exact ⟨all.sane, re2, fun _ => rfl, fun h' => absurd h' enough⟩

/-- The answer of `getHash`: the hash of the root if there is one, and else that of the tree. -/
def hashAnswer (h : Store) (a : Addr) : Except Fault Nat :=
  if (h.nodes a).mHash ≠ 0 then .ok (h.nodes a).mHash
  else if (h.nodes a).mData.isEmpty then .ok 0
  else match tree h 65 a with
    | some t => .ok (merkle t)
    | none => .error .endlessLoop

omit [Sha512] in
theorem isInner_of_not_isEmpty (h : ¬ d.isEmpty = true) : d.isInner = true := by
  cases d with
  | leaf item type => exact absurd (isEmpty_iff.2 fun _ => rfl) h
  | inner children => rfl

theorem unshare_of_isEmpty (empty : (h.nodes map.root_).mData.isEmpty = true) :
    unshare map h = (.ok map, h) := by
  rw [unshare, bind_run, peek_run]
  dsimp only
  rw [if_pos (.inr empty)]
  rfl

theorem unshare_run (map : SHAMap) (sane : Sane h) (low : map.root_ < h.next)
    (full : ¬ (h.nodes map.root_).mData.isEmpty = true) :
    unshare map h = ((flushInner map.seq_ 65 map.root_ h).1.map fun a => { map with root_ := a },
      (flushInner map.seq_ 65 map.root_ h).2) := by
  rw [unshare, bind_run, peek_run]
  dsimp only
  rw [if_neg fun h' => h'.elim (sane.seqs _ low) full, bind_run]
  cases (flushInner map.seq_ 65 map.root_ h).1 <;> rfl

/-- What `getHash` answers, and what it leaves of the store and of the map. -/
theorem getHash_spec (nonzero : map.seq_ ≠ 0) (sane : Sane h) (low : map.root_ < h.next) :
    (getHash map h).1.map Prod.fst = hashAnswer h map.root_ ∧
      Refreshed map.seq_ h (getHash map h).2 ∧ ∀ v m', (getHash map h).1 = .ok (v, m') →
        m'.root_ = map.root_ ∨ Flushed map.seq_ (getHash map h).2 m'.root_ := by
  rw [getHash, bind_run, peek_run, hashAnswer]
  dsimp only
  by_cases zero : (h.nodes map.root_).mHash = 0
  · rw [if_pos zero, if_neg (not_not.2 zero), bind_run]
    by_cases empty : (h.nodes map.root_).mData.isEmpty = true
    · rw [if_pos empty, unshare_of_isEmpty empty]
      dsimp only
      refine ⟨congrArg Except.ok zero, refreshed_refl, fun v m' ran => ?_⟩
      cases ran
      exact .inl rfl
    · have flushes := flushInner_spec nonzero 65 sane low (isInner_of_not_isEmpty empty)
      rw [if_neg empty, unshare_run map sane low empty]
      cases known : tree h 65 map.root_ with
      | none =>
        rw [flushes.fails (by rw [known]; exact nofun)]
        exact ⟨rfl, flushes.refreshed, nofun⟩
      | some t =>
        obtain ⟨a', ok, -, trees, flushed⟩ := flushes.returns (by rw [known]; rfl)
        obtain ⟨n, t', known', hash⟩ := flushed.settled a' .refl
        rw [ok]
        dsimp only [Except.map]
        refine ⟨congrArg Except.ok (hash.trans ?_), flushes.refreshed, fun v m' ran => ?_⟩
        · rw [trees] at known'
          rw [tree_unique known' known]
        · cases ran
          exact .inr flushed
  · rw [if_neg zero, if_pos zero]
    refine ⟨rfl, refreshed_refl, fun v m' ran => ?_⟩
    cases ran
    exact .inl rfl

end

end

end Skywell.SHAMapStore
