import JingtumCore.FlushedTrees

/-!
# Snapshots

Maps made from one another by `snapShot` change apart from each other as long as no
snapshot is taken of an empty map: `unshare` leaves an empty root as it is, and the
two maps go on with one node that the older one writes to.
-/
namespace Skywell.SHAMapStore
open SHAMapTree

structure Family where
  store : Store
  maps : List SHAMap

inductive Op where
  | addItem (item : SHAMapItem) (type : TNType)
  | updateGiveItem (item : SHAMapItem) (type : TNType)
  | delItem (id : Tag)
  | getHash
  | snapShot (isMutable : Bool)

def Op.changes : Op → Bool
  | .getHash | .snapShot _ => false
  | _ => true

def newMap (seq : Nat) : Family where
  store := { nodes := fun _ => newInner seq, next := 1 }
  maps := [⟨0, seq, false⟩]

section
variable [Sha512]

/-- The map after a call, and the map that the call has made. -/
def Op.call (map : SHAMap) : Op → Act (SHAMap × Option SHAMap)
  | .addItem item type => do return ((← addGiveItem item type map).2, none)
  | .updateGiveItem item type => do return ((← SHAMapStore.updateGiveItem item type map).2, none)
  | .delItem id => do return ((← SHAMapStore.delItem id map).2, none)
  | .getHash => do return ((← SHAMapStore.getHash map).2, none)
  | .snapShot isMutable => do return (map, some (← SHAMapStore.snapShot isMutable map))

/-- A call on one of the maps. An immutable map is not changed: the source asserts it. -/
def step (fam : Family) (i : Nat) (op : Op) : Family :=
  match fam.maps[i]? with
  | none => fam
  | some map =>
    if op.changes && map.immutable then fam
    else match op.call map fam.store with
      | (.ok (map, new), store) => ⟨store, fam.maps.set i map ++ new.toList⟩
      | (.error _, store) => ⟨store, fam.maps⟩

def items : ItemTrie → List SHAMapItem
  | .empty => []
  | .leaf p => [p.1]
  | .inner f => (List.finRange 16).flatMap fun i => items (f i)

/-- The items of a map, for a tree of no more than 64 levels below the root. -/
def contents (fam : Family) (j : Nat) : Option (Option (List SHAMapItem)) :=
  fam.maps[j]?.map fun map => (tree fam.store 65 map.root_).map items

/-- What `getHash` answers. -/
def rootHash (fam : Family) (j : Nat) : Option (Except Fault Nat) :=
  fam.maps[j]?.map fun map => (getHash map fam.store).1.map Prod.fst

/-- A snapshot is taken of a map with an item and with a number that is not the last one. -/
def meets (fam : Family) (i : Nat) : Op → Bool
  | .snapShot _ =>
    match fam.maps[i]? with
    | none => true
    | some map => !(fam.store.nodes map.root_).mData.isEmpty && map.seq_ + 1 < 2 ^ 32
  | _ => true

variable {maps new : List SHAMap}

omit [Sha512] in
theorem of_meets_snapShot {fam : Family} {i : Nat} {map : SHAMap} {isMutable : Bool}
    (met : meets fam i (.snapShot isMutable) = true) (hi : fam.maps[i]? = some map) :
    (fam.store.nodes map.root_).mData.isEmpty = false ∧ map.seq_ + 1 < 2 ^ 32 := by
  rw [meets, hi] at met
  simpa using met

/-- What a map that may change can write to is its own. -/
structure Apart (fam : Family) : Prop where
  sane : Sane fam.store
  roots : ∀ {i : Nat} {map : SHAMap}, fam.maps[i]? = some map → map.root_ < fam.store.next
  numbers : ∀ {i : Nat} {map : SHAMap}, fam.maps[i]? = some map → map.seq_ ≠ 0
  bounded : ∀ {i : Nat} {map : SHAMap}, fam.maps[i]? = some map → ∀ a, Reach fam.store map.root_ a →
    (fam.store.nodes a).mSeq ≤ map.seq_
  settled : ∀ {i : Nat} {map : SHAMap}, fam.maps[i]? = some map → map.immutable = true → ∀ a,
    Reach fam.store map.root_ a → Settled fam.store a
  apart : ∀ {i j : Nat} {map map' : SHAMap}, fam.maps[i]? = some map →
    fam.maps[j]? = some map' → i ≠ j → map.immutable = false → ∀ a, Reach fam.store map.root_ a →
    (fam.store.nodes a).mSeq = map.seq_ → ¬ Reach fam.store map'.root_ a

variable {fam : Family} {i j : Nat} {map map' : SHAMap} {h' : Store} {r' : Addr}

theorem Apart.bound (apart : Apart fam) (hi : fam.maps[i]? = some map) (a : Addr)
    (reach : Reach fam.store map.root_ a) : a < fam.store.next :=
  apart.sane.closed.of_reach (apart.roots hi) reach

variable {h' h0 h : Store} {root r : Addr} {seq : Nat} {op : Op}

section
omit [Sha512]

theorem Session.known_lt {a : Addr} (session : Session h0 root seq h')
    (bound : ∀ a, Reach h0 root a → a < h0.next) (known : Known h0 root h' a) : a < h'.next := by
  rcases known with reach | fresh
  · exact Nat.lt_of_lt_of_le (bound a reach) session.grown
  · exact fresh.2

theorem Session.sane (session : Session h0 root seq h')
    (sane : Sane h0) (bound : ∀ a, Reach h0 root a → a < h0.next) (nonzero : seq ≠ 0) : Sane h' := by
  refine ⟨fun a low i c link => ?_, fun a low => ?_⟩
  · by_cases known : Known h0 root h' a
    · exact session.known_lt bound (session.closed a known i c link)
    · have old : a < h0.next := Nat.lt_of_not_le fun high => known (.inr ⟨high, low⟩)
      rw [session.kept a old fun h => known (.inl h.1)] at link
      exact Nat.lt_of_lt_of_le (sane.closed a old i c link) session.grown
  · by_cases old : a < h0.next
    · rw [session.seqs a old]
      exact sane.seqs a old
    · rw [session.fresh a (Nat.le_of_not_lt old) low]
      exact nonzero

theorem Session.reach {a : Addr} (session : Session h0 root seq h')
    (sane : Sane h0) (low : r < h0.next) (reach : Reach h' r a) :
    (a < h0.next ∧ Reach h0 r a) ∨ Known h0 root h' a := by
  induction reach with
  | refl => exact .inl ⟨low, .refl⟩
  | @step b c i _ link ih =>
    by_cases known : Known h0 root h' b
    · exact .inr (session.closed b known i c link)
    · obtain ⟨low', reach⟩ := ih.resolve_right known
      rw [session.kept b low' fun h => known (.inl h.1)] at link
      exact .inl ⟨sane.closed b low' i c link, .step reach link⟩

/-- A map none of whose nodes is written to. -/
theorem Session.untouched (session : Session h0 root seq h') (sane : Sane h0) (low : r < h0.next)
    (free : ∀ a, Reach h0 r a → ¬ (Reach h0 root a ∧ (h0.nodes a).mSeq = seq)) (a : Addr)
    (reach : Reach h0 r a) : h'.nodes a = h0.nodes a :=
  session.kept a (sane.closed.of_reach low reach) (free a reach)

theorem tree_of_same
    (same : ∀ a, Reach h r a → h'.nodes a = h.nodes a) (n : Nat) : tree h' n r = tree h n r :=
  tree_congr (closed_reach h r) (fun a reach => by rw [same a reach]) n .refl

theorem getElem?_set_cases {new : SHAMap} (h : (maps.set i new)[j]? = some map') :
    (j = i ∧ map' = new) ∨ (j ≠ i ∧ maps[j]? = some map') := by
  rw [List.getElem?_set] at h
  split_ifs at h with same
  · exact .inl ⟨same.symm, (Option.some.inj h).symm⟩
  · exact .inr ⟨Ne.symm same, h⟩

end

theorem Settled.of_same (settled : Settled h r)
    (same : ∀ a, Reach h r a → h'.nodes a = h.nodes a) : Settled h' r := by
  obtain ⟨n, t, known, hash⟩ := settled
  exact ⟨n, t, (tree_of_same same n).trans known, by rw [same r .refl, hash]⟩

section
variable (apart : Apart fam) (hi : fam.maps[i]? = some map)
  (session : Session fam.store map.root_ map.seq_ h')
include apart hi session

variable {a : Addr}

theorem Apart.known_seq (known : Known fam.store map.root_ h' a) :
    (h'.nodes a).mSeq ≤ map.seq_ := by
  rcases known with reach | fresh
  · rw [session.seqs a (apart.bound hi a reach)]
    exact apart.bounded hi a reach
  · rw [session.fresh a fresh.1 fresh.2]

omit hi in
/-- No node of another map is written to, or the two share one that carries the number. -/
theorem Apart.same_or_le (hj : fam.maps[j]? = some map') :
    (∀ a, Reach fam.store map'.root_ a → h'.nodes a = fam.store.nodes a) ∨
      ∃ b, Reach fam.store map'.root_ b ∧ Reach fam.store map.root_ b ∧
        (fam.store.nodes b).mSeq = map.seq_ := by
  by_cases free : ∀ a, Reach fam.store map'.root_ a →
      ¬ (Reach fam.store map.root_ a ∧ (fam.store.nodes a).mSeq = map.seq_)
  · exact .inl (session.untouched apart.sane (apart.roots hj) free)
  · push Not at free
    obtain ⟨b, reach, reach', own⟩ := free
    exact .inr ⟨b, reach, reach', own⟩

theorem Apart.same (hj : fam.maps[j]? = some map') (ne : j ≠ i) (mutable' : map.immutable = false)
    (a : Addr) (reach : Reach fam.store map'.root_ a) : h'.nodes a = fam.store.nodes a := by
  refine session.untouched apart.sane (apart.roots hj) (fun b reach' ⟨mine, own⟩ => ?_) a reach
  exact apart.apart hi hj ne.symm mutable' b mine own reach'

/-- What another map can write to was its own before. -/
theorem Apart.own_before (hj : fam.maps[j]? = some map') (ne : j ≠ i)
    (mutable' : map'.immutable = false) (reach : Reach h' map'.root_ a)
    (own : (h'.nodes a).mSeq = map'.seq_) :
    Reach fam.store map'.root_ a ∧ (fam.store.nodes a).mSeq = map'.seq_ := by
  have before : Reach fam.store map'.root_ a := by
    rcases apart.same_or_le session hj with same | ⟨b, reach', mine, own'⟩
    · exact (reach_iff_of_same same a).1 reach
    · rcases session.reach apart.sane (apart.roots hj) reach with ⟨-, before⟩ | known
      · exact before
      · exfalso
        have le := apart.bounded hj b reach'
        have le' := apart.known_seq hi session known
        have differ : (fam.store.nodes b).mSeq ≠ map'.seq_ := fun same =>
          apart.apart hj hi ne mutable' b reach' same mine
        omega
  refine ⟨before, ?_⟩
  rw [← session.seqs a (apart.bound hj a before)]
  exact own

theorem Apart.of_session (known : Known fam.store map.root_ h' r')
    (settled : ∀ {j : Nat} {m : SHAMap}, (fam.maps.set i { map with root_ := r' })[j]? = some m →
      m.immutable = true → ∀ a, Reach h' m.root_ a → Settled h' a) :
    Apart ⟨h', fam.maps.set i { map with root_ := r' }⟩ := by
  have mine {a : Addr} (reach : Reach h' r' a) : Known fam.store map.root_ h' a :=
    session.closed.of_reach known reach
  have old {a : Addr} (low : a < fam.store.next) (known : Known fam.store map.root_ h' a) :
      Reach fam.store map.root_ a :=
    known.resolve_right fun fresh => Nat.not_lt.2 fresh.1 low
  refine ⟨session.sane apart.sane (apart.bound hi) (apart.numbers hi), fun {j m} hj => ?_,
    fun {j m} hj => ?_, fun {j m} hj a reach => ?_, settled,
    fun {j k m m'} hj hk ne mutable' a reach own reach' => ?_⟩
  · rcases getElem?_set_cases hj with ⟨rfl, rfl⟩ | ⟨-, hj⟩
    · exact session.known_lt (apart.bound hi) known
    · exact Nat.lt_of_lt_of_le (apart.roots hj) session.grown
  · rcases getElem?_set_cases hj with ⟨rfl, rfl⟩ | ⟨-, hj⟩
    · exact (apart.numbers hi : map.seq_ ≠ 0)
    · exact apart.numbers hj
  · rcases getElem?_set_cases hj with ⟨rfl, rfl⟩ | ⟨-, hj⟩
    · exact apart.known_seq hi session (mine reach)
    · rcases apart.same_or_le session hj with same | ⟨b, reach', -, own⟩
      · have before := (reach_iff_of_same same a).1 reach
        rw [same a before]
        exact apart.bounded hj a before
      · have le := apart.bounded hj b reach'
        rcases session.reach apart.sane (apart.roots hj) reach with ⟨low, before⟩ | known
        · rw [session.seqs a low]
          exact apart.bounded hj a before
        · exact Nat.le_trans (apart.known_seq hi session known) (own ▸ le)
  · rcases getElem?_set_cases hj with ⟨rfl, rfl⟩ | ⟨differ, old_j⟩
    · -- the map at work: what it can write to is new or was its own
      rcases getElem?_set_cases hk with ⟨rfl, -⟩ | ⟨differ', old_k⟩
      · exact ne rfl
      have same := apart.same hi session old_k differ' mutable'
      have before := (reach_iff_of_same same a).1 reach'
      have low := apart.bound old_k a before
      have mine' := old low (mine reach)
      refine apart.apart hi old_k ne mutable' a mine' ?_ before
      rw [← session.seqs a low]
      exact own
    · obtain ⟨before, own'⟩ := apart.own_before hi session old_j differ mutable' reach own
      have low := apart.bound old_j a before
      rcases getElem?_set_cases hk with ⟨rfl, rfl⟩ | ⟨differ', old_k⟩
      · exact apart.apart old_j hi differ mutable' a before own' (old low (mine reach'))
      · rcases session.reach apart.sane (apart.roots old_k) reach' with ⟨-, before'⟩ | known
        · exact apart.apart old_j old_k ne mutable' a before own' before'
        · exact apart.apart old_j hi differ mutable' a before own' (old low known)

end

/-- The store grows and a map is added. -/
theorem Apart.append (apart : Apart fam) (sane' : Sane h') (grown : fam.store.next ≤ h'.next)
    (same : ∀ a, a < fam.store.next → h'.nodes a = fam.store.nodes a)
    (added : ∀ m ∈ new, m.root_ < h'.next ∧ m.seq_ ≠ 0 ∧
      (∀ a, Reach h' m.root_ a → (h'.nodes a).mSeq ≤ m.seq_) ∧
      (m.immutable = true → ∀ a, Reach h' m.root_ a → Settled h' a))
    (single : new.length ≤ 1) (away : ∀ {j : Nat} {m : SHAMap}, fam.maps[j]? = some m → ∀ m' ∈ new,
      (m.immutable = false → ∀ a, Reach fam.store m.root_ a →
        (fam.store.nodes a).mSeq = m.seq_ → ¬ Reach h' m'.root_ a) ∧
      (m'.immutable = false → ∀ a, Reach h' m'.root_ a → (h'.nodes a).mSeq = m'.seq_ →
        ¬ Reach fam.store m.root_ a)) : Apart ⟨h', fam.maps ++ new⟩ := by
  have cases' {j : Nat} {m : SHAMap} (hj : (fam.maps ++ new)[j]? = some m) :
      fam.maps[j]? = some m ∨ (j = fam.maps.length ∧ m ∈ new) := by
    rw [List.getElem?_append] at hj
    split at hj
    · exact .inl hj
    · next high =>
      have place := (List.getElem?_eq_some_iff.1 hj).1
      exact .inr ⟨by omega, List.mem_of_getElem? hj⟩
  have reach {j : Nat} {m : SHAMap} (hj : fam.maps[j]? = some m) (a : Addr) :
      Reach h' m.root_ a ↔ Reach fam.store m.root_ a :=
    reach_iff_of_same (fun b hb => same b (apart.bound hj b hb)) a
  refine ⟨sane', fun {j m} hj => ?_, fun {j m} hj => ?_, fun {j m} hj a ha => ?_,
    fun {j m} hj fixed a ha => ?_, fun {j k m m'} hj hk ne mutable' a ha own ha' => ?_⟩
  · rcases cases' hj with hj | ⟨-, mem⟩
    · exact Nat.lt_of_lt_of_le (apart.roots hj) grown
    · exact (added m mem).1
  · rcases cases' hj with hj | ⟨-, mem⟩
    · exact apart.numbers hj
    · exact (added m mem).2.1
  · rcases cases' hj with hj | ⟨-, mem⟩
    · have before := (reach hj a).1 ha
      rw [same a (apart.bound hj a before)]
      exact apart.bounded hj a before
    · exact (added m mem).2.2.1 a ha
  · rcases cases' hj with hj | ⟨-, mem⟩
    · have before := (reach hj a).1 ha
      exact (apart.settled hj fixed a before).of_same fun b hb =>
        same b (apart.bound hj b (before.trans hb))
    · exact (added m mem).2.2.2 fixed a ha
  · rcases cases' hj with old_j | ⟨rfl, mem⟩
    · have before := (reach old_j a).1 ha
      have own' : (fam.store.nodes a).mSeq = m.seq_ := by
        rw [← same a (apart.bound old_j a before)]
        exact own
      rcases cases' hk with old_k | ⟨-, mem'⟩
      · exact apart.apart old_j old_k ne mutable' a before own' ((reach old_k a).1 ha')
      · exact (away old_j m' mem').1 mutable' a before own' ha'
    · rcases cases' hk with old_k | ⟨rfl, mem'⟩
      · exact (away old_k m mem).2 mutable' a ha own ((reach old_k a).1 ha')
      · exact ne rfl

theorem hashAnswer_congr {a : Addr} (same : h'.nodes a = h.nodes a)
    (trees : ∀ n, tree h' n a = tree h n a) : hashAnswer h' a = hashAnswer h a := by
  rw [hashAnswer, hashAnswer, same, trees]

omit [Sha512] in
theorem Alike.isEmpty_eq {d d' : Data} (alike : Alike h d h' d') :
    d'.isEmpty = d.isEmpty := by
  rw [Bool.eq_iff_iff, isEmpty_iff, isEmpty_iff]
  refine forall_congr' fun i => ?_
  rw [Option.isNone_iff_eq_none, Option.isNone_iff_eq_none,
    ← branchTree_eq_empty, alike.below i 0, branchTree_eq_empty]

/-- The other maps are as they were. -/
def Others (fam fam' : Family) (i : Nat) : Prop :=
  ∀ j m, j ≠ i → fam.maps[j]? = some m → fam'.maps[j]? = some m ∧
    (∀ n, tree fam'.store n m.root_ = tree fam.store n m.root_) ∧
    hashAnswer fam'.store m.root_ = hashAnswer fam.store m.root_

omit [Sha512] in
theorem set_getElem?_self (hi : maps[i]? = some map) : maps.set i map = maps := by
  obtain ⟨low, rfl⟩ := List.getElem?_eq_some_iff.1 hi
  exact List.set_getElem_self low

theorem within_call (apart : Apart fam) (hi : fam.maps[i]? = some map)
    (kind : ∀ isMutable, op ≠ .snapShot isMutable) :
    Within fam.store map.root_ map.seq_ (op.call map) fam.store fun p h' => p.2 = none ∧
      Known fam.store map.root_ h' p.1.root_ ∧ p.1 = { map with root_ := p.1.root_ } := by
  have start := session_refl fam.store map.root_ map.seq_
  have known : Known fam.store map.root_ fam.store map.root_ := .inl .refl
  have bound := apart.bound hi
  cases op with
  | addItem item type =>
    exact (within_addGiveItem bound start known).bind fun p h' session _ done =>
      within_pure session ⟨rfl, done⟩
  | updateGiveItem item type =>
    exact (within_updateGiveItem bound start known).bind fun p h' session _ done =>
      within_pure session ⟨rfl, done⟩
  | delItem id =>
    exact (within_delItem bound start known).bind fun p h' session _ done =>
      within_pure session ⟨rfl, done⟩
  | getHash =>
    exact (within_getHash bound start known).bind fun p h' session _ done =>
      within_pure session ⟨rfl, done⟩
  | snapShot isMutable => exact absurd rfl (kind isMutable)

/-- A call that makes no map leaves a store and a root. -/
theorem step_eq (apart : Apart fam) (hi : fam.maps[i]? = some map)
    (kind : ∀ isMutable, op ≠ .snapShot isMutable) (allowed : ¬ (op.changes && map.immutable) = true) :
    ∃ r', Known fam.store map.root_ (op.call map fam.store).2 r' ∧
      step fam i op = ⟨(op.call map fam.store).2, fam.maps.set i { map with root_ := r' }⟩ ∧
      (r' = map.root_ ∨ ∃ p, (op.call map fam.store).1 = .ok p ∧ p.1.root_ = r') := by
  obtain ⟨session, -, result⟩ := within_call apart hi kind
  rw [step, hi]
  dsimp only
  rw [if_neg allowed]
  rcases run : op.call map fam.store with ⟨r, h'⟩
  rw [run] at session result
  cases r with
  | error e =>
    refine ⟨map.root_, .inl .refl, ?_, .inl rfl⟩
    exact congrArg (Family.mk h') (set_getElem?_self hi).symm
  | ok p =>
    obtain ⟨none', known, same⟩ := result p rfl
    obtain ⟨m', new⟩ := p
    refine ⟨m'.root_, known, ?_, .inr ⟨_, rfl, rfl⟩⟩
    dsimp only at none' same ⊢
    rw [none', ← same, Option.toList_none, List.append_nil]

theorem others_set {m' : SHAMap} (trees : ∀ j m, j ≠ i → fam.maps[j]? = some m →
      (∀ n, tree h' n m.root_ = tree fam.store n m.root_) ∧
      hashAnswer h' m.root_ = hashAnswer fam.store m.root_) :
    Others fam ⟨h', fam.maps.set i m'⟩ i :=
  fun j m ne hj => ⟨(List.getElem?_set_ne ne.symm).trans hj, trees j m ne hj⟩

/-- A call on a map that may change. -/
theorem step_mutable (apart : Apart fam) (hi : fam.maps[i]? = some map)
    (kind : ∀ isMutable, op ≠ .snapShot isMutable) (mutable' : map.immutable = false) :
    Apart (step fam i op) ∧ Others fam (step fam i op) i := by
  have allowed : ¬ (op.changes && map.immutable) = true := by
    rw [mutable', Bool.and_false]
    exact Bool.false_ne_true
  obtain ⟨session, -, -⟩ := within_call apart hi kind
  obtain ⟨r', known, stepped, -⟩ := step_eq apart hi kind allowed
  rw [stepped]
  have same {j : Nat} {m : SHAMap} (hj : fam.maps[j]? = some m) (ne : j ≠ i) :=
    apart.same hi session hj ne mutable'
  constructor
  · refine apart.of_session hi session known fun {j m} hj fixed a reach => ?_
    rcases getElem?_set_cases hj with ⟨-, rfl⟩ | ⟨ne, hj⟩
    · rw [mutable'] at fixed
      cases fixed
    · have before := (reach_iff_of_same (same hj ne) a).1 reach
      exact (apart.settled hj fixed a before).of_same fun b hb => same hj ne b (before.trans hb)
  · refine others_set fun j m ne hj => ⟨tree_of_same (same hj ne), ?_⟩
    exact hashAnswer_congr (same hj ne _ .refl) (tree_of_same (same hj ne))

theorem step_immutable (apart : Apart fam) (hi : fam.maps[i]? = some map)
    (fixed : map.immutable = true) :
    Apart (step fam i .getHash) ∧ Others fam (step fam i .getHash) i := by
  have kind (isMutable : Bool) : Op.getHash ≠ .snapShot isMutable := nofun
  obtain ⟨session, -, -⟩ := within_call apart hi kind
  obtain ⟨r', known, stepped, place⟩ := step_eq apart hi kind Bool.false_ne_true
  obtain ⟨-, re, root⟩ := getHash_spec (apart.numbers hi) apart.sane (apart.roots hi)
  have store : (Op.getHash.call map fam.store).2 = (getHash map fam.store).2 := by
    rw [Op.call, bind_run]
    cases (getHash map fam.store).1 <;> rfl
  rw [stepped]
  rw [store] at session known ⊢
  -- a node that is written to keeps its hash
  have hash (a : Addr) (low : a < fam.store.next) :
      ((getHash map fam.store).2.nodes a).mHash = (fam.store.nodes a).mHash := by
    by_cases mine : Reach fam.store map.root_ a ∧ (fam.store.nodes a).mSeq = map.seq_
    · obtain ⟨n, t, tree', hash⟩ := apart.settled hi fixed a mine.1
      obtain ⟨n', t', tree'', hash'⟩ := re.settled low ⟨n, t, tree', hash⟩
      rw [re.trees low] at tree''
      rw [hash, hash', tree_unique tree'' tree']
    · rw [session.kept a low mine]
  constructor
  · refine apart.of_session hi session known fun {j m} hj fixed' => ?_
    rcases getElem?_set_cases hj with ⟨-, rfl⟩ | ⟨ne, hj⟩
    · have kept := re.allSettled apart.sane (apart.roots hi) (apart.settled hi fixed)
      rcases place with rfl | ⟨p, ran, rfl⟩
      · exact kept
      · rw [Op.call, bind_run] at ran
        cases answer : (getHash map fam.store).1 with
        | error e =>
          rw [answer] at ran
          cases ran
        | ok q =>
          rw [answer] at ran
          cases ran
          rcases root q.1 q.2 answer with same | flushed
          · rw [same]
            exact kept
          · exact flushed.settled
    · exact re.allSettled apart.sane (apart.roots hj) (apart.settled hj fixed')
  · refine others_set fun j m ne hj => ⟨re.trees (apart.roots hj), ?_⟩
    have low := apart.roots hj
    rw [hashAnswer, hashAnswer, hash _ low, (re.data _ low).isEmpty_eq, re.trees low]

/-- The map that a snapshot gives, if it gives one. -/
def made : Except Fault SHAMap → List SHAMap
  | .ok new => [new]
  | .error _ => []

theorem step_snapShot_eq (hi : fam.maps[i]? = some map) (isMutable : Bool) :
    step fam i (.snapShot isMutable) = ⟨(snapShot isMutable map fam.store).2,
      fam.maps ++ made (snapShot isMutable map fam.store).1⟩ := by
  rw [step, hi]
  dsimp only
  have allowed : ¬ ((Op.snapShot isMutable).changes && map.immutable) = true := Bool.false_ne_true
  rw [Op.call, bind_run]
  rcases snapShot isMutable map fam.store with ⟨r, h'⟩
  cases r with
  | error e => exact congrArg (Family.mk h') (List.append_nil _).symm
  | ok new => exact congrArg (fun maps => Family.mk h' (maps ++ [new])) (set_getElem?_self hi)

theorem others_append (apart : Apart fam)
    (same : ∀ a, a < fam.store.next → h'.nodes a = fam.store.nodes a) :
    Others fam ⟨h', fam.maps ++ new⟩ i := by
  intro j m _ hj
  have kept (a : Addr) (reach : Reach fam.store m.root_ a) : h'.nodes a = fam.store.nodes a :=
    same a (apart.bound hj a reach)
  refine ⟨?_, tree_of_same kept, hashAnswer_congr (kept _ .refl) (tree_of_same kept)⟩
  rw [← hj]
  exact List.getElem?_append_left (List.getElem?_eq_some_iff.1 hj).1

/-- A snapshot of a map with items. -/
theorem step_snapShot (apart : Apart fam) (hi : fam.maps[i]? = some map) (isMutable : Bool)
    (full : (fam.store.nodes map.root_).mData.isEmpty = false) (room : map.seq_ + 1 < 2 ^ 32) :
    Apart (step fam i (.snapShot isMutable)) ∧ Others fam (step fam i (.snapShot isMutable)) i := by
  have bound := apart.bound hi
  have low : map.root_ < fam.store.next := apart.roots hi
  let new : SHAMap := ⟨map.root_, map.seq_ + 1, !isMutable⟩
  have number : (map.seq_ + 1) % 2 ^ 32 = map.seq_ + 1 := Nat.mod_eq_of_lt room
  -- nothing that the source can reach carries the new number
  have older (a : Addr) (reach : Reach fam.store map.root_ a) :
      (fam.store.nodes a).mSeq < new.seq_ := Nat.lt_succ_of_le (apart.bounded hi a reach)
  rw [step_snapShot_eq hi, snapShot, number]
  by_cases unshared : (!map.immutable || !isMutable) = true
  · have nonempty : ¬ (fam.store.nodes map.root_).mData.isEmpty = true := by
      rw [full]
      exact Bool.false_ne_true
    rw [if_pos unshared, unshare_run new apart.sane low nonempty]
    have flushes : Flushes new.seq_ fam.store map.root_ _ (flushInner new.seq_ 65 map.root_ fam.store) :=
      flushInner_spec (Nat.succ_ne_zero _) 65 apart.sane low (isInner_of_not_isEmpty nonempty)
    have within : Within fam.store map.root_ new.seq_ (flushInner new.seq_ 65 map.root_) fam.store _ :=
      within_flushInner bound (session_refl fam.store map.root_ new.seq_) (.inl .refl)
    obtain ⟨session, grown, result⟩ := within
    have same (a : Addr) (old : a < fam.store.next) := session.kept a old fun mine =>
      Nat.ne_of_lt (older a mine.1) mine.2
    refine ⟨?_, others_append apart same⟩
    by_cases enough : (tree fam.store 65 map.root_).isSome = true
    · obtain ⟨a', ok, low', -, flushed⟩ := flushes.returns enough
      rw [ok]
      -- all nodes of the new map are new
      have fresh (a : Addr) (reach : Reach (flushInner new.seq_ 65 map.root_ fam.store).2 a' a) :
          ¬ a < fam.store.next := by
        intro old
        have known := session.closed.of_reach (result a' ok) reach
        have before := known.resolve_right fun new' => Nat.not_lt.2 new'.1 old
        have own := flushed.own a reach
        rw [same a old] at own
        exact Nat.ne_of_lt (older a before) own
      refine apart.append flushes.sane grown same (fun m mem => ?_) le_rfl
        fun {j m} hj m' mem => ?_
      · obtain rfl := List.mem_singleton.1 mem
        exact ⟨low', Nat.succ_ne_zero _, fun a reach => Nat.le_of_eq (flushed.own a reach),
          fun _ => flushed.settled⟩
      · obtain rfl := List.mem_singleton.1 mem
        exact ⟨fun _ a reach _ reach' => fresh a reach' (apart.bound hj a reach),
          fun _ a reach _ reach' => fresh a reach (apart.bound hj a reach')⟩
    · rw [flushes.fails enough]
      exact apart.append flushes.sane grown same nofun (Nat.zero_le _) nofun
  · rw [if_neg unshared]
    refine ⟨?_, others_append apart (fun _ _ => rfl)⟩
    rw [Bool.or_eq_true, Bool.not_eq_true', Bool.not_eq_true', not_or, Bool.not_eq_false,
      Bool.not_eq_false] at unshared
    refine apart.append apart.sane le_rfl (fun _ _ => rfl) (fun m mem => ?_) le_rfl
      fun {j m} hj m' mem => ?_
    · obtain rfl := List.mem_singleton.1 mem
      refine ⟨low, Nat.succ_ne_zero _, fun a reach => Nat.le_of_lt (older a reach), fun fixed => ?_⟩
      rw [unshared.2] at fixed
      cases fixed
    · obtain rfl := List.mem_singleton.1 mem
      refine ⟨fun mutable' a reach own => ?_, fun _ a reach own => ?_⟩
      · refine apart.apart hj hi ?_ mutable' a reach own
        rintro rfl
        rw [hi] at hj
        cases hj
        rw [unshared.1] at mutable'
        cases mutable'
      · exact absurd own (Nat.ne_of_lt (older a reach))

theorem step_of_asserted (hi : fam.maps[i]? = some map)
    (asserted : (op.changes && map.immutable) = true) : step fam i op = fam := by
  rw [step, hi]
  exact if_pos asserted

theorem Apart.step (apart : Apart fam) (i : Nat) (op : Op) (met : meets fam i op = true) :
    Apart (step fam i op) ∧ Others fam (step fam i op) i := by
  have nothing : Apart fam ∧ Others fam fam i := ⟨apart, fun j m _ hj => ⟨hj, fun _ => rfl, rfl⟩⟩
  cases hi : fam.maps[i]? with
  | none =>
    have stepped : SHAMapStore.step fam i op = fam := by rw [SHAMapStore.step, hi]
    rwa [stepped]
  | some map =>
    by_cases kind : ∃ isMutable, op = .snapShot isMutable
    · obtain ⟨isMutable, rfl⟩ := kind
      obtain ⟨full, room⟩ := of_meets_snapShot met hi
      exact step_snapShot apart hi isMutable full room
    cases fixed : map.immutable with
    | false => exact step_mutable apart hi (not_exists.1 kind) fixed
    | true =>
      cases changes : op.changes with
      | true => rwa [step_of_asserted hi (by rw [fixed, changes]; rfl)]
      | false =>
        cases op with
        | snapShot isMutable => exact absurd ⟨isMutable, rfl⟩ kind
        | getHash => exact step_immutable apart hi fixed
        | _ => cases changes

/-- Calls on maps, each with the place of its map. -/
def meetsAll : Family → List (Nat × Op) → Bool
  | _, [] => true
  | fam, (i, op) :: calls => meets fam i op && meetsAll (step fam i op) calls

/-- No call changes the items or the hash of a map other than its own. -/
def Isolated : Family → List (Nat × Op) → Prop
  | _, [] => True
  | fam, (i, op) :: calls =>
    (∀ j, j < fam.maps.length → j ≠ i → contents (step fam i op) j = contents fam j ∧
      rootHash (step fam i op) j = rootHash fam j) ∧ Isolated (step fam i op) calls

theorem Others.contents {fam' : Family} (others : Others fam fam' i) (apart : Apart fam)
    (apart' : Apart fam') (low : j < fam.maps.length) (ne : j ≠ i) :
    contents fam' j = contents fam j ∧ rootHash fam' j = rootHash fam j := by
  obtain ⟨m, hj⟩ : ∃ m, fam.maps[j]? = some m := ⟨_, List.getElem?_eq_getElem low⟩
  obtain ⟨hj', trees, answer⟩ := others j m ne hj
  constructor
  · rw [SHAMapStore.contents, SHAMapStore.contents, hj, hj', Option.map_some, Option.map_some, trees]
  · rw [rootHash, rootHash, hj, hj', Option.map_some, Option.map_some,
      (getHash_spec (apart.numbers hj) apart.sane (apart.roots hj)).1,
      (getHash_spec (apart'.numbers hj') apart'.sane (apart'.roots hj')).1, answer]

theorem Apart.isolated (apart : Apart fam) {calls : List (Nat × Op)}
    (met : meetsAll fam calls = true) : Isolated fam calls := by
  induction calls generalizing fam with
  | nil => trivial
  | cons call calls ih =>
    obtain ⟨first, rest⟩ := Bool.and_eq_true_iff.1 met
    obtain ⟨apart', others⟩ := apart.step call.1 call.2 first
    exact ⟨fun j low ne => others.contents apart apart' low ne, ih apart' rest⟩

theorem apart_newMap (nonzero : seq ≠ 0) : Apart (newMap seq) := by
  have only {i : Nat} {m : SHAMap} (hi : (newMap seq).maps[i]? = some m) : m = ⟨0, seq, false⟩ :=
    List.mem_singleton.1 (List.mem_of_getElem? hi)
  refine ⟨⟨fun _ _ i c link => (by cases link), fun _ _ => nonzero⟩, fun hi => ?_, fun hi => ?_,
    fun hi a _ => ?_, fun hi fixed => ?_, fun {i j m m'} hi hj ne => ?_⟩
  · rw [only hi]
    exact Nat.one_pos
  · rw [only hi]
    exact nonzero
  · rw [only hi]
    exact Nat.le_refl seq
  · rw [only hi] at fixed
    cases fixed
  · have low : i < 1 := (List.getElem?_eq_some_iff.1 hi).1
    have low' : j < 1 := (List.getElem?_eq_some_iff.1 hj).1
    omega

/-- In every run of calls on maps that come from one new map by snapshots, if no snapshot is
taken of an empty map or of one with the last number, the maps change apart from each other. -/
theorem snapShot_isolated {seq : Nat} (nonzero : seq ≠ 0) {calls : List (Nat × Op)}
    (met : meetsAll (newMap seq) calls = true) : Isolated (newMap seq) calls :=
  (apart_newMap nonzero).isolated met

end

/-- A map with a snapshot, which is changed afterwards. -/
theorem snapShot_isolated_one : ∃ (_ : Sha512) (calls : List (Nat × Op)), calls.length = 3 ∧
    meetsAll (newMap 1) calls = true ∧ Isolated (newMap 1) calls := by
  let hash : Sha512 := ⟨fun _ => 7⟩
  let calls : List (Nat × Op) := [(0, .addItem ⟨1, [5]⟩ .tnACCOUNT_STATE), (0, .snapShot false),
    (0, .addItem ⟨2, [6]⟩ .tnACCOUNT_STATE)]
  have met : meetsAll (newMap 1) calls = true := by decide +kernel
  exact ⟨hash, calls, rfl, met, snapShot_isolated Nat.one_ne_zero met⟩

/-- An item that is added to an empty map after a snapshot is in the snapshot too. The same
happens with a map whose number has wrapped around to zero. -/
theorem snapShot_shared : ∃ _ : Sha512,
    (contents (step (newMap 1) 0 (.snapShot false)) 1 = some (some []) ∧
      contents (step (step (newMap 1) 0 (.snapShot false)) 0
        (.addItem ⟨1, [5]⟩ .tnACCOUNT_STATE)) 1 = some (some [⟨1, [5]⟩])) ∧
    ∃ fam, fam = [(0, .addItem ⟨1, [5]⟩ .tnACCOUNT_STATE), (0, .snapShot true),
        (1, .snapShot false)].foldl (fun fam call => step fam call.1 call.2)
          (newMap (2 ^ 32 - 1)) ∧
      contents fam 2 = some (some [⟨1, [5]⟩]) ∧
      contents (step fam 1 (.addItem ⟨2, [6]⟩ .tnACCOUNT_STATE)) 2 =
        some (some [⟨1, [5]⟩, ⟨2, [6]⟩]) := by
  let hash : Sha512 := ⟨fun _ => 7⟩
  refine ⟨hash, ⟨?_, ?_⟩, _, rfl, ?_, ?_⟩
  all_goals decide +kernel

end Skywell.SHAMapStore
