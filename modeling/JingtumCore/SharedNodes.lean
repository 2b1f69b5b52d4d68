import JingtumCore.SHAMapStore

/-!
# Which nodes a map writes to

While a map changes, it writes to new nodes and to those it could reach before
that carry its own sequence number, and it links nothing but what it could reach
before and what it has made.
-/
namespace Skywell.SHAMapStore
open SHAMapTree

variable {b child : Addr} {m : Fin 16}

theorem bind_run {α β : Type} (m : Act α) (f : α → Act β) (h : Store) :
    (m >>= f) h = match (m h).1 with
      | .ok a => f a (m h).2
      | .error e => (.error e, (m h).2) := by
  change (ExceptT.bind m f) h = _
  change (match m h with | (x, h') => ExceptT.bindCont f x h') = _
  rcases m h with ⟨x | x, h'⟩ <;> rfl

/-- The nodes below an address, and itself. -/
inductive Reach (h : Store) (a : Addr) : Addr → Prop
  | refl : Reach h a a
  | step {b c : Addr} {i : Fin 16} : Reach h a b → (h.nodes b).mData.children i = some c →
      Reach h a c

variable {a : Addr} {h : Store}

theorem Reach.trans {c : Addr} (ab : Reach h a b) (bc : Reach h b c) : Reach h a c := by
  induction bc with
  | refl => exact ab
  | step _ child ih => exact .step ih child

/-- A set of nodes that holds the children of its nodes. -/
def Closed (h : Store) (p : Addr → Prop) : Prop :=
  ∀ a, p a → ∀ i c, (h.nodes a).mData.children i = some c → p c

theorem Closed.of_reach {p : Addr → Prop} (closed : Closed h p) (ha : p a) (ab : Reach h a b) :
    p b := by
  induction ab with
  | refl => exact ha
  | step _ child ih => exact closed _ ih _ _ child

theorem closed_reach (h : Store) (a : Addr) : Closed h (Reach h a) :=
  fun _ ab _ _ child => .step ab child

theorem reach_iff_of_same {h' : Store}
    (same : ∀ b, Reach h a b → h'.nodes b = h.nodes b) (b : Addr) : Reach h' a b ↔ Reach h a b := by
  constructor
  · intro ab
    induction ab with
    | refl => exact .refl
    | step _ child ih =>
      rw [same _ ih] at child
      exact .step ih child
  · intro ab
    induction ab with
    | refl => exact .refl
    | @step b c i ab child ih =>
      rw [← same b ab] at child
      exact .step ih child

section
variable (h0 : Store) (root : Addr) (seq : Nat)

/-- What the map could reach at first, and the new nodes. -/
def Known (h : Store) (a : Addr) : Prop :=
  Reach h0 root a ∨ (h0.next ≤ a ∧ a < h.next)

/-- What the map may write to. -/
def Owned (h : Store) (a : Addr) : Prop :=
  (Reach h0 root a ∧ (h0.nodes a).mSeq = seq) ∨ (h0.next ≤ a ∧ a < h.next)

/-- A store on which a map is at work, and the store it started with. -/
structure Session (h : Store) : Prop where
  grown : h0.next ≤ h.next
  kept : ∀ a, a < h0.next → ¬ (Reach h0 root a ∧ (h0.nodes a).mSeq = seq) →
    h.nodes a = h0.nodes a
  seqs : ∀ a, a < h0.next → (h.nodes a).mSeq = (h0.nodes a).mSeq
  fresh : ∀ a, h0.next ≤ a → a < h.next → (h.nodes a).mSeq = seq
  closed : Closed h (Known h0 root h)

/-- What code does within a session. -/
def Within {α : Type} (m : Act α) (h : Store) (Q : α → Store → Prop) : Prop :=
  Session h0 root seq (m h).2 ∧ h.next ≤ (m h).2.next ∧ ∀ a, (m h).1 = .ok a → Q a (m h).2

end

section
variable {h0 : Store} {root : Addr} {seq : Nat} {h h' : Store} {α β : Type}
  {a r : Addr} {Q : α → Store → Prop} {node : SHAMapTreeNode} {depth fuel : Nat} {id : Tag}
  {stack : List (Addr × Nat)} {item : SHAMapItem} {type : TNType} {map : SHAMap}

theorem Known.mono (known : Known h0 root h a) (grown : h.next ≤ h'.next) :
    Known h0 root h' a :=
  known.imp_right fun fresh => ⟨fresh.1, Nat.lt_of_lt_of_le fresh.2 grown⟩

theorem Owned.mono (owned : Owned h0 root seq h a) (grown : h.next ≤ h'.next) :
    Owned h0 root seq h' a :=
  owned.imp_right fun fresh => ⟨fresh.1, Nat.lt_of_lt_of_le fresh.2 grown⟩

theorem Owned.known (owned : Owned h0 root seq h a) : Known h0 root h a :=
  owned.imp_left And.left

theorem session_refl (h0 : Store) (root : Addr) (seq : Nat) : Session h0 root seq h0 where
  grown := le_rfl
  kept _ _ _ := rfl
  seqs _ _ := rfl
  fresh a low high := absurd high (Nat.not_lt.2 low)
  closed a known i c child := by
    rcases known with reach | ⟨low, high⟩
    · exact .inl (.step reach child)
    · exact absurd high (Nat.not_lt.2 low)

theorem Within.bind {m : Act α} {f : α → Act β} {Q' : β → Store → Prop}
    (hm : Within h0 root seq m h Q)
    (hf : ∀ a h', Session h0 root seq h' → h.next ≤ h'.next → Q a h' →
      Within h0 root seq (f a) h' Q') : Within h0 root seq (m >>= f) h Q' := by
  obtain ⟨session, grown, result⟩ := hm
  rw [Within, bind_run]
  cases ran : (m h).1 with
  | error e => exact ⟨session, grown, nofun⟩
  | ok a =>
    obtain ⟨session', grown', result'⟩ := hf a _ session grown (result a ran)
    exact ⟨session', grown.trans grown', result'⟩

theorem within_pure {a : α} (session : Session h0 root seq h) (q : Q a h) :
    Within h0 root seq (pure a) h Q :=
  ⟨session, le_rfl, fun _ same => by cases same; exact q⟩

theorem within_throw {e : Fault} (session : Session h0 root seq h) :
    Within h0 root seq (throw e) h Q :=
  ⟨session, le_rfl, nofun⟩

theorem within_ite {c : Prop} [Decidable c] {m n : Act α}
    (hm : c → Within h0 root seq m h Q) (hn : ¬ c → Within h0 root seq n h Q) :
    Within h0 root seq (if c then m else n) h Q := by
  split
  · exact hm ‹_›
  · exact hn ‹_›

theorem Within.peek {f : SHAMapTreeNode → Act α} (next : Within h0 root seq (f (h.nodes a)) h Q) :
    Within h0 root seq (peek a >>= f) h Q :=
  next

section
variable (session : Session h0 root seq h) (owned : Owned h0 root seq h a)
  (own : node.mSeq = seq) (children : ∀ i c, node.mData.children i = some c → Known h0 root h c)
include session owned own children

theorem Session.write : Session h0 root seq (h.set a node) where
  grown := session.grown
  kept b low free := by
    have ne : b ≠ a := by
      rintro rfl
      rcases owned with owned | ⟨high, -⟩
      · exact free owned
      · exact Nat.not_lt.2 high low
    rw [Store.nodes_set_of_ne ne]
    exact session.kept b low free
  seqs b low := by
    by_cases same : b = a
    · rw [same, Store.nodes_set_self, own]
      rcases owned with owned | ⟨high, -⟩
      · exact owned.2.symm
      · exact absurd (same ▸ low) (Nat.not_lt.2 high)
    · rw [Store.nodes_set_of_ne same]
      exact session.seqs b low
  fresh b low high := by
    by_cases same : b = a
    · rw [same, Store.nodes_set_self, own]
    · rw [Store.nodes_set_of_ne same]
      exact session.fresh b low high
  closed b known i c child := by
    by_cases same : b = a
    · rw [same, Store.nodes_set_self] at child
      exact children i c child
    · rw [Store.nodes_set_of_ne same] at child
      exact session.closed b known i c child

theorem within_write : Within h0 root seq (write a node) h fun _ _ => True :=
  ⟨session.write owned own children, le_rfl, fun _ _ => trivial⟩

end

theorem within_makeShared (session : Session h0 root seq h)
    (own : node.mSeq = seq) (children : ∀ i c, node.mData.children i = some c → Known h0 root h c) :
    Within h0 root seq (makeShared node) h fun a h' => Owned h0 root seq h' a := by
  have grown : h.next ≤ h.next + 1 := Nat.le_succ _
  have old (b : Addr) (low : b < h0.next) : b ≠ h.next :=
    Nat.ne_of_lt (low.trans_le session.grown)
  have session' : Session h0 root seq (h.push node) := by
    refine ⟨Nat.le_trans session.grown grown, fun b low free => ?_, fun b low => ?_,
      fun b low high => ?_, fun b known i c child => ?_⟩
    · rw [Store.nodes_push_of_ne (old b low)]
      exact session.kept b low free
    · rw [Store.nodes_push_of_ne (old b low)]
      exact session.seqs b low
    · by_cases same : b = h.next
      · rw [same, Store.nodes_push_self, own]
      · rw [Store.nodes_push_of_ne same]
        exact session.fresh b low (Nat.lt_of_le_of_ne (Nat.le_of_lt_succ high) same)
    · by_cases same : b = h.next
      · rw [same, Store.nodes_push_self] at child
        exact (children i c child).mono grown
      · rw [Store.nodes_push_of_ne same] at child
        have known' : Known h0 root h b := known.imp_right fun ⟨low, high⟩ =>
          ⟨low, Nat.lt_of_le_of_ne (Nat.le_of_lt_succ high) same⟩
        exact (session.closed b known' i c child).mono grown
  refine ⟨session', grown, fun a same => ?_⟩
  cases same
  exact .inr ⟨session.grown, Nat.lt_succ_self _⟩

/-- A known node that carries the number of the map is its own. -/
theorem Session.owned (session : Session h0 root seq h) (known : Known h0 root h a)
    (bound : ∀ b, Reach h0 root b → b < h0.next) (own : (h.nodes a).mSeq = seq) :
    Owned h0 root seq h a := by
  rcases known with reach | fresh
  · refine .inl ⟨reach, ?_⟩
    rw [← session.seqs a (bound a reach), own]
  · exact .inr fresh

theorem Session.own (session : Session h0 root seq h) (owned : Owned h0 root seq h a)
    (bound : ∀ b, Reach h0 root b → b < h0.next) : (h.nodes a).mSeq = seq := by
  rcases owned with ⟨reach, own⟩ | ⟨low, high⟩
  · rw [session.seqs a (bound a reach), own]
  · exact session.fresh a low high

variable (bound : ∀ b, Reach h0 root b → b < h0.next)
include bound

section
variable (session : Session h0 root seq h)
include session

theorem within_unshareNode (known : Known h0 root h a) (known' : Known h0 root h r) :
    Within h0 root seq (unshareNode seq a depth r) h fun p h' =>
      Owned h0 root seq h' p.1 ∧ Known h0 root h' p.2 := by
  apply Within.peek
  refine within_ite (fun differ => ?_) fun own => ?_
  · refine (within_makeShared session rfl fun i c child => ?_).bind fun b h'' session'' grown' owned => ?_
    · exact session.closed a known i c child
    · refine within_pure session'' ⟨owned, ?_⟩
      split
      · exact owned.known
      · exact known'.mono grown'
  · exact within_pure session ⟨session.owned known bound (not_not.1 own), known'⟩

theorem within_preFlushNode (known : Known h0 root h a) :
    Within h0 root seq (preFlushNode seq a) h fun b h' => Owned h0 root seq h' b := by
  apply Within.peek
  refine within_ite (fun differ => ?_) fun own => ?_
  · exact within_makeShared session rfl fun i c child => session.closed a known i c child
  · exact within_pure session (session.owned known bound (not_not.1 own))

section
variable (owned : Owned h0 root seq h a)
include owned

/-- A node of the map is given other content. -/
theorem within_change {change : SHAMapTreeNode → SHAMapTreeNode}
    (own : ∀ node, (change node).mSeq = node.mSeq)
    (children : ∀ i c, (change (h.nodes a)).mData.children i = some c → Known h0 root h c) :
    Within h0 root seq (do write a (change (← peek a))) h fun _ _ => True := by
  apply Within.peek
  exact within_write session owned ((own _).trans (session.own owned bound)) children

theorem within_setChild {child : Option Addr} (known : ∀ c, child = some c → Known h0 root h c) :
    Within h0 root seq (setChild a m child) h fun _ _ => True := by
  refine within_change bound session owned (fun _ => rfl) ?_
  exact (Function.forall_update_iff _ fun _ child => ∀ c, child = some c → Known h0 root h c).2
    ⟨known, fun i _ => session.closed a owned.known i⟩

theorem within_shareChild (known : Known h0 root h child) :
    Within h0 root seq (shareChild a m child) h fun _ _ => True := by
  refine within_change bound session owned (fun _ => rfl) ?_
  refine (Function.forall_update_iff _ fun _ child => ∀ c, child = some c → Known h0 root h c).2
    ⟨fun c same => ?_, fun i _ => session.closed a owned.known i⟩
  cases same
  exact known

theorem within_makeInner : Within h0 root seq (makeInner a) h fun _ _ => True :=
  within_change bound session owned (fun _ => rfl) nofun

end

omit bound in
theorem within_getStack (known : Known h0 root h a) (above : ∀ p ∈ stack, Known h0 root h p.1) :
    Within h0 root seq (getStack id fuel a depth stack) h fun stack h' =>
      ∀ p ∈ stack, Known h0 root h' p.1 := by
  induction fuel generalizing a depth stack with
  | zero => exact within_throw session
  | succ fuel ih =>
    have all : ∀ p ∈ (a, depth) :: stack, Known h0 root h p.1 :=
      List.forall_mem_cons.2 ⟨known, above⟩
    apply Within.peek
    split
    · exact within_pure session all
    · next child link => exact ih (session.closed a known _ _ link) all

theorem within_dirtyUp {target : Tag} (above : ∀ p ∈ stack, Known h0 root h p.1)
    (known : Known h0 root h r) (below : Known h0 root h child) :
    Within h0 root seq (dirtyUp seq target stack r child) h fun r' h' => Known h0 root h' r' := by
  induction stack generalizing r child h with
  | nil => exact within_pure session known
  | cons p stack ih =>
    refine (within_unshareNode bound session (above p List.mem_cons_self) known).bind
      fun q h1 session1 grown1 ⟨owned, known1⟩ => ?_
    refine (within_setChild bound session1 owned fun c same => ?_).bind
      fun _ h2 session2 grown2 _ => ?_
    · cases same
      exact below.mono grown1
    · refine ih session2 (fun p mem => ?_) (known1.mono grown2) (owned.known.mono grown2)
      exact (above p (List.mem_cons_of_mem _ mem)).mono (grown1.trans grown2)

omit bound in
theorem within_splitLoop {tag other : Tag} (owned : Owned h0 root seq h a)
    (above : ∀ p ∈ stack, Known h0 root h p.1) :
    Within h0 root seq (splitLoop seq tag other fuel a depth stack) h fun p h' =>
      Owned h0 root seq h' p.1 ∧ ∀ q ∈ p.2.2, Known h0 root h' q.1 := by
  induction fuel generalizing a depth stack h with
  | zero => exact within_throw session
  | succ fuel ih =>
    refine within_ite (fun _ => ?_) fun _ => within_pure session ⟨owned, above⟩
    refine (within_makeShared session rfl fun i c link => by cases link).bind
      fun below h1 session1 grown1 owned1 => ?_
    exact ih session1 owned1 (List.forall_mem_cons.2
      ⟨owned.known.mono grown1, fun q mem => (above q mem).mono grown1⟩)

variable [Sha512]

theorem within_setItem (owned : Owned h0 root seq h a) :
    Within h0 root seq (setItem a item type) h fun _ _ => True := by
  apply Within.peek
  refine (within_write session owned ?_ fun i c link => ?_).bind fun _ h1 session1 _ _ =>
    within_pure session1 trivial
  · exact session.own owned bound
  · cases link

/-- A new leaf is hung under a node of the map. -/
theorem within_attach {next : Act α} (owned : Owned h0 root seq h a)
    (after : ∀ {h'}, Session h0 root seq h' → h.next ≤ h'.next → Within h0 root seq next h' Q) :
    Within h0 root seq (do
      let new ← makeShared (newLeaf item type seq)
      setChild a m (some new)
      next) h Q := by
  refine (within_makeShared session rfl fun i c link => by cases link).bind
    fun new h1 session1 grown1 made => ?_
  refine (within_setChild bound session1 (owned.mono grown1) fun c same => ?_).bind
    fun _ h2 session2 grown2 _ => after session2 (grown1.trans grown2)
  cases same
  exact made.known

omit bound [Sha512] in
/-- The calls on an item start with the stack of nodes above its place. -/
theorem within_stack {f : List (Addr × Nat) → Act α} (known : Known h0 root h r)
    (missing : ∀ {h'}, Session h0 root seq h' → Within h0 root seq (f []) h' Q)
    (found : ∀ {h'} top depth stack, Session h0 root seq h' → Known h0 root h' r →
      Known h0 root h' top → (∀ p ∈ stack, Known h0 root h' p.1) →
      Within h0 root seq (f ((top, depth) :: stack)) h' Q) :
    Within h0 root seq (getStack id fuel r 0 [] >>= f) h Q := by
  refine (within_getStack session known fun p mem => by cases mem).bind
    fun stack h1 session1 grown1 above => ?_
  rcases stack with _ | ⟨⟨top, depth⟩, stack⟩
  · exact missing session1
  · exact found top depth stack session1 (known.mono grown1) (above _ List.mem_cons_self)
      fun q mem => above q (List.mem_cons_of_mem _ mem)

omit bound [Sha512] in
theorem within_onlyBelow :
    Within h0 root seq (onlyBelow fuel a) h fun _ _ => True := by
  induction fuel generalizing a with
  | zero => exact within_throw session
  | succ fuel ih =>
    apply Within.peek
    split
    · exact within_pure session trivial
    · split
      · exact ih
      · exact within_pure session trivial

theorem within_delLoop {prevNode : Option Addr} (above : ∀ p ∈ stack, Known h0 root h p.1)
    (known : Known h0 root h r)
    (below : ∀ c, prevNode = some c → Known h0 root h c) :
    Within h0 root seq (delLoop seq type id stack r prevNode) h fun r' h' =>
      Known h0 root h' r' := by
  induction stack generalizing r prevNode h with
  | nil => exact within_pure session known
  | cons p stack ih =>
    refine (within_unshareNode bound session (above p List.mem_cons_self) known).bind
      fun q h1 session1 grown1 ⟨owned, known1⟩ => ?_
    refine (within_setChild bound session1 owned fun c same => (below c same).mono grown1).bind
      fun _ h2 session2 grown2 _ => ?_
    have grown := grown1.trans grown2
    have again {h' : Store} {prev : Option Addr} (session' : Session h0 root seq h')
        (grown' : h2.next ≤ h'.next) (below' : ∀ c, prev = some c → Known h0 root h' c) :
        Within h0 root seq (delLoop seq type id stack q.2 prev) h' fun r' h' =>
          Known h0 root h' r' := by
      refine ih session' (fun p mem => ?_) (known1.mono (grown2.trans grown')) below'
      exact (above p (List.mem_cons_of_mem _ mem)).mono (grown.trans grown')
    have here {h' : Store} (grown' : h2.next ≤ h'.next) (c : Addr) (same : some q.1 = some c) :
        Known h0 root h' c := by
      cases same
      exact owned.known.mono (grown2.trans grown')
    refine within_ite (fun _ => ?_) fun _ => ?_
    · exact again session2 le_rfl fun c same => (below c same).mono grown
    apply Within.peek
    refine within_ite (fun _ => again session2 le_rfl nofun) fun _ => ?_
    refine within_ite (fun _ => ?_) fun _ => again session2 le_rfl (here le_rfl)
    refine (within_onlyBelow session2).bind fun only h3 session3 grown3 _ => ?_
    cases only with
    | none => exact again session3 grown3 (here grown3)
    | some item =>
      refine (within_setItem bound session3 (owned.mono (grown2.trans grown3))).bind
        fun _ h4 session4 grown4 _ => ?_
      exact again session4 (grown3.trans grown4) (here (grown3.trans grown4))

theorem within_updateHash (owned : Owned h0 root seq h a) :
    Within h0 root seq (updateHash a) h fun _ _ => True := by
  exact ⟨session.write owned (session.own owned bound) (session.closed a owned.known),
    le_rfl, fun _ _ => trivial⟩

theorem within_flushLeaf (known : Known h0 root h a) :
    Within h0 root seq (flushLeaf seq a) h fun a' h' => Known h0 root h' a' := by
  refine (within_preFlushNode bound session known).bind fun a' h1 session1 grown1 owned => ?_
  refine (within_updateHash bound session1 owned).bind fun _ h2 session2 grown2 _ => ?_
  exact within_pure session2 (owned.known.mono grown2)

theorem within_flushChildren {flush : Addr → Act Addr} {branches : List (Fin 16)}
    (step : ∀ {h : Store} {c : Addr}, Session h0 root seq h → Known h0 root h c →
      Within h0 root seq (flush c) h fun c' h' => Known h0 root h' c')
    (owned : Owned h0 root seq h a) :
    Within h0 root seq (flushChildren seq flush a branches) h fun _ _ => True := by
  induction branches generalizing h with
  | nil => exact within_pure session trivial
  | cons i rest ih =>
    apply Within.peek
    split
    · exact ih session owned
    next child link =>
    have known := session.closed a owned.known i child link
    apply Within.peek
    refine within_ite (fun _ => ih session owned) fun _ => ?_
    refine Within.bind (Q := fun c h' => Known h0 root h' c) ?_
      fun c h1 session1 grown1 known1 => ?_
    · exact within_ite (fun _ => step session known) fun _ => within_flushLeaf bound session known
    · refine (within_shareChild bound session1 (owned.mono grown1) known1).bind
        fun _ h2 session2 grown2 _ => ?_
      exact ih session2 (owned.mono (grown1.trans grown2))

theorem within_flushInner (known : Known h0 root h a) :
    Within h0 root seq (flushInner seq fuel a) h fun a' h' => Known h0 root h' a' := by
  induction fuel generalizing a h with
  | zero => exact within_throw session
  | succ fuel ih =>
    refine (within_preFlushNode bound session known).bind fun a' h1 session1 grown1 owned => ?_
    refine (within_flushChildren bound session1 (fun s k => ih s k) owned).bind
      fun _ h2 session2 grown2 _ => ?_
    refine (within_updateHash bound session2 (owned.mono grown2)).bind
      fun _ h3 session3 grown3 _ => ?_
    exact within_pure session3 (owned.known.mono (grown2.trans grown3))

end

variable [Sha512] (session : Session h0 root map.seq_ h) (known : Known h0 root h map.root_)
include session known

theorem within_addGiveItem :
    Within h0 root map.seq_ (addGiveItem item type map) h fun p h' =>
      Known h0 root h' p.2.root_ ∧ p.2 = { map with root_ := p.2.root_ } := by
  refine within_stack session known within_throw fun top depth stack session1 known1 top1 above => ?_
  apply Within.peek
  split
  · refine (within_unshareNode bound session1 top1 known1).bind
      fun p h2 session2 grown2 ⟨owned, known2⟩ => ?_
    refine within_attach bound session2 owned fun session3 grown3 => ?_
    refine (within_dirtyUp bound session3 (fun q mem => ?_) (known2.mono grown3)
      (owned.known.mono grown3)).bind fun r h4 session4 _ done => within_pure session4 ⟨done, rfl⟩
    exact (above q mem).mono (grown2.trans grown3)
  · refine within_ite (fun _ => within_pure session1 ⟨known1, rfl⟩) fun _ => ?_
    refine (within_unshareNode bound session1 top1 known1).bind
      fun p h2 session2 grown2 ⟨owned, known2⟩ => ?_
    refine (within_makeInner bound session2 owned).bind fun _ h3 session3 grown3 _ => ?_
    refine (within_splitLoop session3 (owned.mono grown3) fun q mem => ?_).bind
      fun split h4 session4 grown4 ⟨owned4, above4⟩ => ?_
    · exact (above q mem).mono (grown2.trans grown3)
    refine within_attach bound session4 owned4 fun session5 grown5 => ?_
    refine within_attach bound session5 (owned4.mono grown5) fun session6 grown6 => ?_
    have grown := grown5.trans grown6
    refine (within_dirtyUp bound session6 (fun q mem => (above4 q mem).mono grown)
      (known2.mono (grown3.trans (grown4.trans grown)))
      (owned4.known.mono grown)).bind fun r h7 session7 _ done => within_pure session7 ⟨done, rfl⟩

theorem within_updateGiveItem :
    Within h0 root map.seq_ (updateGiveItem item type map) h fun p h' =>
      Known h0 root h' p.2.root_ ∧ p.2 = { map with root_ := p.2.root_ } := by
  refine within_stack session known within_throw fun top depth stack session1 known1 top1 above => ?_
  apply Within.peek
  split
  · exact within_pure session1 ⟨known1, rfl⟩
  refine within_ite (fun _ => within_pure session1 ⟨known1, rfl⟩) fun _ => ?_
  refine (within_unshareNode bound session1 top1 known1).bind
    fun p h2 session2 grown2 ⟨owned, known2⟩ => ?_
  refine (within_setItem bound session2 owned).bind fun changed h3 session3 grown3 _ => ?_
  refine within_ite (fun _ => within_pure session3 ⟨known2.mono grown3, rfl⟩) fun _ => ?_
  refine (within_dirtyUp bound session3 (fun q mem => ?_) (known2.mono grown3)
    (owned.known.mono grown3)).bind fun r h4 session4 _ done => ?_
  · exact (above q mem).mono (grown2.trans grown3)
  · exact within_pure session4 ⟨done, rfl⟩

theorem within_delItem :
    Within h0 root map.seq_ (delItem id map) h fun p h' =>
      Known h0 root h' p.2.root_ ∧ p.2 = { map with root_ := p.2.root_ } := by
  refine within_stack session known within_throw fun top depth stack session1 known1 top1 above => ?_
  apply Within.peek
  split
  · exact within_pure session1 ⟨known1, rfl⟩
  refine within_ite (fun _ => within_pure session1 ⟨known1, rfl⟩) fun _ => ?_
  refine (within_delLoop bound session1 above known1
    (fun c same => by cases same)).bind fun r h2 session2 _ done => ?_
  exact within_pure session2 ⟨done, rfl⟩

theorem within_unshare :
    Within h0 root map.seq_ (unshare map) h fun map' h' =>
      Known h0 root h' map'.root_ ∧ map' = { map with root_ := map'.root_ } := by
  apply Within.peek
  refine within_ite (fun _ => within_pure session ⟨known, rfl⟩) fun _ => ?_
  exact (within_flushInner bound session known).bind fun r h1 session1 _ known1 =>
    within_pure session1 ⟨known1, rfl⟩

theorem within_getHash :
    Within h0 root map.seq_ (getHash map) h fun p h' =>
      Known h0 root h' p.2.root_ ∧ p.2 = { map with root_ := p.2.root_ } := by
  apply Within.peek
  refine within_ite (fun _ => ?_) fun _ => within_pure session ⟨known, rfl⟩
  refine (within_unshare bound session known).bind fun map' h1 session1 _ done => ?_
  apply Within.peek
  exact within_pure session1 done

end

end Skywell.SHAMapStore
