import JingtumCore.SHAMapTree

/-!
# Histories of a map

A map is a finite map from tags to data, and its tree and its hash depend on
nothing but what it holds.
-/
namespace Skywell.SHAMapTree
open RadixTree Node ExceptFold

/-- The branch an item goes to at a depth. -/
def digit (depth : Nat) (item : SHAMapItem) : Fin 16 := selectBranch depth item.tag

variable {n : Nat} {node : Node} {old : SHAMapItem} {a : Tag}

theorem selectBranch_eq_iff {b : Tag} : selectBranch n a = selectBranch n b ↔
    a.toNat / 16 ^ (63 - n) % 16 = b.toNat / 16 ^ (63 - n) % 16 := by
  simp [selectBranch, Fin.ext_iff]

/-- The digits above a depth, as one number. -/
theorem div_eq_of_agree {b : Tag} {d : Nat} (low : d ≤ 64)
    (agree : ∀ n, n < d → selectBranch n a = selectBranch n b) :
    a.toNat / 16 ^ (64 - d) = b.toNat / 16 ^ (64 - d) := by
  induction d with
  | zero =>
    have ha := a.isLt
    have hb := b.isLt
    rw [Nat.div_eq_of_lt (by simpa using ha), Nat.div_eq_of_lt (by simpa using hb)]
  | succ d ih =>
    have same := selectBranch_eq_iff.1 (agree d (Nat.lt_succ_self d))
    have upper := ih (by omega) fun n low => agree n (by omega)
    have exponent : 64 - d = 63 - d + 1 := by omega
    rw [exponent, Nat.pow_succ, ← Nat.div_div_eq_div_mul, ← Nat.div_div_eq_div_mul] at upper
    rw [show 64 - (d + 1) = 63 - d by omega]
    omega

theorem tag_ext {b : Tag} (h : ∀ n, n < 64 → selectBranch n a = selectBranch n b) : a = b := by
  have all := div_eq_of_agree le_rfl h
  rw [Nat.sub_self, Nat.pow_zero, Nat.div_one, Nat.div_one] at all
  exact BitVec.eq_of_toNat_eq all

/-- What a node holds, without its hashes. -/
def shape : Node → Trie (Fin 16) SHAMapItem
  | null => .empty
  | leaf item _ _ => .leaf item
  | innerNode f _ => .inner fun i => shape (f i)

def Holds (node : Node) (item : SHAMapItem) : Prop := Has (shape node) item

@[simp] theorem not_holds_null (i : SHAMapItem) : ¬ Holds null i := not_has_empty i

variable {h : Nat} {i : SHAMapItem} {f : Fin 16 → Node} {b : Fin 16} {child : Node}

@[simp] theorem holds_leaf {j : SHAMapItem} {type : TNType} :
    Holds (leaf i type h) j ↔ j = i := has_leaf

@[simp] theorem holds_inner :
    Holds (innerNode f h) i ↔ ∃ b, Holds (f b) i := has_inner

theorem Holds.ne_null (held : Holds node i) : node ≠ null := by
  rintro rfl
  exact not_holds_null i held

theorem isEmptyBranch_iff : node.isEmptyBranch = true ↔ node = null := by
  cases node <;> simp [isEmptyBranch]

theorem shape_eq_empty : shape node = .empty ↔ node = null := by
  cases node <;> simp [shape]

theorem holds_update :
    Holds (innerNode (Function.update f b child) h) i ↔
      Holds child i ∨ ∃ c, c ≠ b ∧ Holds (f c) i := by
  rw [holds_inner]
  exact Function.exists_update_iff f fun _ node => Holds node i

theorem placed_inner {d : Nat} :
    Placed digit d (shape (innerNode f h)) ↔
      (∀ b i, Holds (f b) i → digit d i = b) ∧ ∀ b, Placed digit (d + 1) (shape (f b)) := Iff.rfl

/-- A child is replaced by one whose items belong there. -/
theorem placed_update {d : Nat} {h' : Nat}
    (placed : Placed digit d (shape (innerNode f h))) (items : ∀ i, Holds child i → digit d i = b)
    (below : Placed digit (d + 1) (shape child)) :
    Placed digit d (shape (innerNode (Function.update f b child) h')) := by
  constructor
  · exact (Function.forall_update_iff f fun c node => ∀ i, Holds node i → digit d i = c).2
      ⟨items, fun c _ => placed.1 c⟩
  · exact (Function.forall_update_iff f fun _ node => Placed digit (d + 1) (shape node)).2
      ⟨below, fun c _ => placed.2 c⟩

theorem branching_update
    (branches : ∀ c, Branching (shape (f c))) (below : Branching (shape child)) (c : Fin 16) :
    Branching (shape (Function.update f b child c)) :=
  (Function.forall_update_iff f fun _ node => Branching (shape node)).2
    ⟨below, fun c _ => branches c⟩ c

/-- The last node on the way to an identifier, with its depth. -/
def terminal (id : Tag) : Node → Nat → Node × Nat
  | null, d => (null, d)
  | leaf item type h, d => (leaf item type h, d)
  | innerNode f h, d =>
    if (f (selectBranch d id)).isEmptyBranch then (innerNode f h, d)
    else terminal id (f (selectBranch d id)) (d + 1)

/-- Another node in the place of the last one on the way; the hashes above it are
cleared if it is dirty. -/
def graft (dirty : Bool) (id : Tag) (x : Node) : Node → Nat → Node
  | null, _ => x
  | leaf _ _ _, _ => x
  | innerNode f h, d =>
    if (f (selectBranch d id)).isEmptyBranch then x
    else innerNode (Function.update f (selectBranch d id)
      (graft dirty id x (f (selectBranch d id)) (d + 1))) (if dirty then 0 else h)

/-- The way to an identifier ends at a node. -/
def Ends (id : Tag) (t : Node) (d : Nat) : Prop :=
  ∀ f h, t = innerNode f h → (f (selectBranch d id)).isEmptyBranch = true

theorem Ends.terminal {id : Tag} {t : Node} {d : Nat} (ends : Ends id t d) :
    SHAMapTree.terminal id t d = (t, d) := by
  cases t with
  | innerNode f h => exact if_pos (ends f h rfl)
  | _ => rfl

theorem Ends.graft {id : Tag} {t : Node} {d : Nat} (ends : Ends id t d) (dirty : Bool) (x : Node) :
    SHAMapTree.graft dirty id x t d = x := by
  cases t with
  | innerNode f h => exact if_pos (ends f h rfl)
  | _ => rfl

/-- Induction along the way to an identifier. -/
@[elab_as_elim] theorem way_induction (id : Tag) {motive : Node → Nat → Prop}
    (last : ∀ t d, Ends id t d → motive t d)
    (above : ∀ f h d, ¬ (f (selectBranch d id)).isEmptyBranch = true →
      motive (f (selectBranch d id)) (d + 1) → motive (innerNode f h) d) (t : Node) (d : Nat) :
    motive t d := by
  induction t generalizing d with
  | null => exact last _ d nofun
  | leaf item type h => exact last _ d nofun
  | innerNode f h ih =>
    by_cases empty : (f (selectBranch d id)).isEmptyBranch = true
    · exact last _ d fun _ _ same => by cases same; exact empty
    · exact above f h d empty (ih _ (d + 1))

theorem getStack_eq (id : Tag) {t : Node} (some_ : t ≠ null) (d : Nat) (stack : List (Node × Nat)) :
    ∃ above, getStack id t d stack = terminal id t d :: above ∧
      (∀ x, dirtyUp id above x = dirtyUp id stack (graft true id x t d)) ∧
      ∀ x, changeInPlace id above x = changeInPlace id stack (graft false id x t d) := by
  induction t, d using way_induction id generalizing stack with
  | last t d ends =>
    refine ⟨stack, ?_, fun x => by rw [ends.graft], fun x => by rw [ends.graft]⟩
    rw [ends.terminal]
    cases t with
    | null => exact absurd rfl some_
    | leaf item type h => rfl
    | innerNode f h =>
      rw [getStack, isEmptyBranch_iff.1 (ends f h rfl)]
      rfl
  | above f h d into ih =>
    obtain ⟨above, stacked, dirtied, changed⟩ :=
      ih (mt isEmptyBranch_iff.2 into) ((innerNode f h, d) :: stack)
    refine ⟨above, ?_, fun x => ?_, fun x => ?_⟩
    · rw [getStack, stacked, terminal, if_neg into]
    · rw [dirtied, graft, if_neg into]
      simp [dirtyUp, setChild]
    · rw [changed, graft, if_neg into]
      simp [changeInPlace]

section
variable {id : Tag} {x t : Node} {d : Nat} {item : SHAMapItem}

/-- What an inner node holds when the items of a tag in a child give way to others. -/
theorem holds_exchanged {f : Fin 16 → Node} {child : Node} {i : SHAMapItem} {h : Nat} (h' : Nat)
    {p : Prop} (placed : Placed digit d (shape (innerNode f h)))
    (items : Holds child i ↔ (Holds (f (selectBranch d id)) i ∧ i.tag ≠ id) ∨ p) :
    Holds (innerNode (Function.update f (selectBranch d id) child) h') i ↔
      (Holds (innerNode f h) i ∧ i.tag ≠ id) ∨ p := by
  have placed' := (placed_inner.1 placed).1
  rw [holds_update, items, holds_inner]
  constructor
  · rintro ((⟨held, ne⟩ | new) | ⟨c, ne, held⟩)
    · exact .inl ⟨⟨_, held⟩, ne⟩
    · exact .inr new
    · refine .inl ⟨⟨c, held⟩, fun tag => ne ?_⟩
      rw [← placed' c i held, digit, tag]
  · rintro (⟨⟨c, held⟩, ne⟩ | new)
    · by_cases here : c = selectBranch d id
      · exact .inl (.inl ⟨here ▸ held, ne⟩)
      · exact .inr ⟨c, here, held⟩
    · exact .inl (.inr new)

/-- The items of the tag in the last node on the way give way to one item. -/
theorem holds_graft (dirty : Bool) (placed : Placed digit d (shape t))
    (items : ∀ i, Holds x i ↔ (Holds (terminal id t d).1 i ∧ i.tag ≠ id) ∨ i = item)
    (i : SHAMapItem) :
    Holds (graft dirty id x t d) i ↔ (Holds t i ∧ i.tag ≠ id) ∨ i = item := by
  induction t, d using way_induction id with
  | last t d ends =>
    rw [ends.terminal] at items
    rw [ends.graft]
    exact items i
  | above f h d into ih =>
    rw [terminal, if_neg into] at items
    rw [graft, if_neg into]
    exact holds_exchanged _ placed (ih ((placed_inner.1 placed).2 _) items)

section
variable (dirty : Bool) (tag : item.tag = id) (placed : Placed digit d (shape t))
  (items : ∀ i, Holds x i ↔ (Holds (terminal id t d).1 i ∧ i.tag ≠ id) ∨ i = item)
include tag placed items

theorem placed_graft (below : Placed digit (terminal id t d).2 (shape x)) :
    Placed digit d (shape (graft dirty id x t d)) := by
  induction t, d using way_induction id with
  | last t d ends =>
    rw [ends.terminal] at below
    rwa [ends.graft]
  | above f h d into ih =>
    rw [terminal, if_neg into] at below items
    rw [graft, if_neg into]
    have placed' := placed_inner.1 placed
    refine placed_update placed (fun i hi => ?_) (ih (placed'.2 _) items below)
    rcases (holds_graft dirty (placed'.2 _) items i).1 hi with ⟨old, -⟩ | rfl
    · exact placed'.1 _ i old
    · rw [digit, tag]

theorem branching_graft (branching : Branching (shape t)) (below : Branching (shape x)) :
    Branching (shape (graft dirty id x t d)) := by
  induction t, d using way_induction id with
  | last t d ends =>
    rw [ends.graft]
    exact below
  | above f h d into ih =>
    obtain ⟨⟨i, j, ne, hi, hj⟩, branches⟩ := branching
    -- items of different tags stay, one of them perhaps with other data
    have tags : i.tag ≠ j.tag := fun tag => ne (placed.unique hi hj fun n _ => by
      rw [digit, digit, tag])
    have holds := holds_graft dirty placed items
    have kept (i : SHAMapItem) (hi : Holds (innerNode f h) i) : ∃ i', i'.tag = i.tag ∧
        Holds (graft dirty id x (innerNode f h) d) i' := by
      by_cases same : i.tag = id
      · exact ⟨item, tag.trans same.symm, (holds item).2 (.inr rfl)⟩
      · exact ⟨i, rfl, (holds i).2 (.inl ⟨hi, same⟩)⟩
    obtain ⟨i', ti, hi'⟩ := kept i hi
    obtain ⟨j', tj, hj'⟩ := kept j hj
    rw [terminal, if_neg into] at items
    rw [graft, if_neg into] at hi' hj' ⊢
    refine ⟨⟨i', j', ?_, hi', hj'⟩, branching_update branches
      (ih ((placed_inner.1 placed).2 _) items (branches _))⟩
    rintro rfl
    exact tags (ti.symm.trans tj)

end

end

section
variable [Sha512] {item other : SHAMapItem} {type type' : TNType} {d h k : Nat} {b : Fin 16}
  {child t x root : Node} {id : Tag} {f : Fin 16 → Node} {dirty : Bool}
  {data : Tag → Option (List UInt8)}

@[simp] theorem holds_newLeaf {i : SHAMapItem} :
    Holds (newLeaf item type) i ↔ i = item := has_leaf

/-- The inner nodes that two items need from a depth on. -/
def splitTree (type : TNType) (item other : SHAMapItem) : Nat → Nat → Node
  | 0, _ => null
  | fuel + 1, d =>
    if selectBranch d item.tag = selectBranch d other.tag then
      makeInner.setChild (selectBranch d item.tag) (splitTree type item other fuel (d + 1))
    else (makeInner.setChild (selectBranch d item.tag) (newLeaf item type)).setChild
      (selectBranch d other.tag) (newLeaf other type)

theorem splitLoop_eq (type : TNType) (fuel : Nat)
    (apart : selectBranch n item.tag ≠ selectBranch n other.tag) (low : d ≤ n) (high : n < d + fuel)
    (stack : List (Node × Nat)) :
    ∃ k stack', splitLoop item.tag other.tag fuel makeInner d stack = .ok (makeInner, k, stack') ∧
      dirtyUp item.tag stack' ((makeInner.setChild (selectBranch k item.tag)
        (newLeaf item type)).setChild (selectBranch k other.tag) (newLeaf other type)) =
      dirtyUp item.tag stack (splitTree type item other fuel d) := by
  induction fuel generalizing d stack with
  | zero => omega
  | succ fuel ih =>
    rw [splitLoop, splitTree]
    by_cases same : selectBranch d item.tag = selectBranch d other.tag
    · have later : d ≠ n := by
        rintro rfl
        exact apart same
      rw [if_pos same, if_pos same]
      exact ih (by omega) (by omega) ((makeInner, d) :: stack)
    · rw [if_neg same, if_neg same]
      exact ⟨d, stack, rfl, rfl⟩

omit [Sha512] in
theorem holds_makeInner_setChild : Holds (makeInner.setChild b child) i ↔ Holds child i := by
  rw [makeInner, setChild, holds_update]
  simp

theorem splitTree_spec (type : TNType) (fuel : Nat)
    (apart : selectBranch n item.tag ≠ selectBranch n other.tag) (low : d ≤ n) (high : n < d + fuel) :
    (∀ i, Holds (splitTree type item other fuel d) i ↔ i = item ∨ i = other) ∧
      Placed digit d (shape (splitTree type item other fuel d)) ∧
      Branching (shape (splitTree type item other fuel d)) := by
  have placedEmpty (d : Nat) : Placed digit d (shape makeInner) :=
    placed_inner.2 ⟨fun b i hi => absurd hi (not_holds_null i), fun b => trivial⟩
  have distinct : item ≠ other := by
    rintro rfl
    exact apart rfl
  induction fuel generalizing d with
  | zero => omega
  | succ fuel ih =>
    rw [splitTree]
    by_cases same : selectBranch d item.tag = selectBranch d other.tag
    · rw [if_pos same]
      have later : d ≠ n := by
        rintro rfl
        exact apart same
      obtain ⟨items, placed, branching⟩ := ih (d := d + 1) (by omega) (by omega)
      have holds (i : SHAMapItem) : Holds (makeInner.setChild (selectBranch d item.tag)
          (splitTree type item other fuel (d + 1))) i ↔ i = item ∨ i = other := by
        rw [holds_makeInner_setChild, items]
      refine ⟨holds, ?_, ?_, ?_⟩
      · refine placed_update (placedEmpty d) (fun i hi => ?_) placed
        rcases (items i).1 hi with rfl | rfl
        · rfl
        · exact same.symm
      · exact ⟨item, other, distinct, (holds item).2 (.inl rfl), (holds other).2 (.inr rfl)⟩
      · exact branching_update (fun _ => trivial) branching
    · rw [if_neg same]
      have holds (i : SHAMapItem) : Holds ((makeInner.setChild (selectBranch d item.tag)
          (newLeaf item type)).setChild (selectBranch d other.tag) (newLeaf other type)) i ↔
          i = item ∨ i = other := by
        rw [makeInner, setChild, setChild, holds_update]
        constructor
        · rintro (this | ⟨c, -, held⟩)
          · exact .inr (holds_newLeaf.1 this)
          · by_cases here : c = selectBranch d item.tag
            · subst here
              rw [Function.update_self] at held
              exact .inl (holds_newLeaf.1 held)
            · rw [Function.update_of_ne here] at held
              exact absurd held (not_holds_null i)
        · rintro (rfl | rfl)
          · refine .inr ⟨selectBranch d i.tag, same, ?_⟩
            rw [Function.update_self]
            exact holds_newLeaf.2 rfl
          · exact .inl (holds_newLeaf.2 rfl)
      refine ⟨holds, ?_, ?_, ?_⟩
      · have first : Placed digit d (shape (makeInner.setChild (selectBranch d item.tag)
            (newLeaf item type))) := by
          refine placed_update (placedEmpty d) (fun i hi => ?_) trivial
          rw [holds_newLeaf.1 hi]
          rfl
        refine placed_update first (fun i hi => ?_) trivial
        rw [holds_newLeaf.1 hi]
        rfl
      · exact ⟨item, other, distinct, (holds item).2 (.inl rfl), (holds other).2 (.inr rfl)⟩
      · exact branching_update (branching_update (fun _ => trivial) trivial) trivial

/-- The tree without the leaf on the way to an identifier. -/
def remove (type : TNType) (id : Tag) : Node → Nat → Node
  | null, _ => null
  | leaf _ _ _, _ => null
  | innerNode f _, d =>
    let node := innerNode (Function.update f (selectBranch d id)
      (remove type id (f (selectBranch d id)) (d + 1))) 0
    if d = 0 then node else pullUp type node

theorem getStack_del (type : TNType)
    (last : terminal id t d = (leaf item type' h, k))
    (stack : List (Node × Nat)) :
    ∃ above, getStack id t d stack = (leaf item type' h, k) :: above ∧
      delLoop type id above null = delLoop type id stack (remove type id t d) := by
  induction t, d using way_induction id generalizing stack with
  | last t d ends =>
    rw [ends.terminal] at last
    cases last
    exact ⟨stack, rfl, rfl⟩
  | above f h d into ih =>
    rw [terminal, if_neg into] at last
    obtain ⟨above, stacked, deleted⟩ := ih last ((innerNode f h, d) :: stack)
    exact ⟨above, stacked, deleted⟩

/-- The branches of an inner node that are not empty. -/
def branches (f : Fin 16 → Node) : List (Fin 16) :=
  (List.finRange 16).filter fun i => !(f i).isEmptyBranch

section
omit [Sha512]

theorem mem_branches : b ∈ branches f ↔ f b ≠ null := by
  simp [branches, ← isEmptyBranch_iff]

theorem onlyBelow_inner : onlyBelow (innerNode f h) =
    match branches f with | [i] => onlyBelow (f i) | _ => none := by
  rw [onlyBelow]
  rfl

theorem onlyBelow_holds (h : onlyBelow t = some item) : Holds t i ↔ i = item := by
  induction t with
  | null => cases h
  | leaf it type hash =>
    cases h
    exact holds_leaf
  | innerNode f hash ih =>
    rw [onlyBelow_inner] at h
    match hb : branches f with
    | [] =>
      rw [hb] at h
      cases h
    | _ :: _ :: _ =>
      rw [hb] at h
      cases h
    | [b] =>
      rw [hb] at h
      rw [← ih b h, holds_inner]
      constructor
      · rintro ⟨c, held⟩
        have only := mem_branches.2 held.ne_null
        rw [hb, List.mem_singleton] at only
        rwa [only] at held
      · exact fun held => ⟨b, held⟩

end

/-- What takes the place of an inner node holds the same items. -/
theorem pullUp_spec (type : TNType)
    (placed : Placed digit d (shape (innerNode f h))) (below : ∀ b, Branching (shape (f b))) :
    (∀ i, Holds (pullUp type (innerNode f h)) i ↔ Holds (innerNode f h) i) ∧
      Placed digit d (shape (pullUp type (innerNode f h))) ∧
      Branching (shape (pullUp type (innerNode f h))) := by
  have count : (innerNode f h).getBranchCount = (branches f).length := rfl
  match hb : branches f with
  | [] =>
    rw [pullUp, count, hb]
    refine ⟨fun i => ?_, trivial, trivial⟩
    refine iff_of_false (not_holds_null i) fun held => ?_
    obtain ⟨b, held⟩ := holds_inner.1 held
    have nonempty := mem_branches.2 held.ne_null
    rw [hb] at nonempty
    cases nonempty
  | [b] =>
    rw [pullUp, count, hb]
    simp only [List.length_cons, List.length_nil]
    have nonempty : f b ≠ null := mem_branches.1 (by rw [hb]; exact List.mem_cons_self)
    cases only : onlyBelow (innerNode f h) with
    | some item =>
      refine ⟨fun i => ?_, trivial, trivial⟩
      rw [onlyBelow_holds only, holds_newLeaf]
    | none =>
      refine ⟨fun i => Iff.rfl, placed, ?_, below⟩
      have under : onlyBelow (f b) = none := by
        rwa [onlyBelow_inner, hb] at only
      cases child : f b with
      | null => exact absurd child nonempty
      | leaf item type hash =>
        rw [child] at under
        cases under
      | innerNode g hash =>
        have two := below b
        rw [child] at two
        obtain ⟨⟨i, j, ne, hi, hj⟩, -⟩ := two
        have inside (i : SHAMapItem) (hi : Holds (innerNode g hash) i) : Holds (innerNode f h) i :=
          holds_inner.2 ⟨b, by rwa [child]⟩
        exact ⟨i, j, ne, inside i hi, inside j hj⟩
  | b :: c :: rest =>
    rw [pullUp, count, hb]
    refine ⟨fun i => Iff.rfl, placed, ?_, below⟩
    have distinct : b ≠ c := by
      have nodup : (branches f).Nodup := (List.nodup_finRange 16).filter _
      rw [hb, List.nodup_cons] at nodup
      rintro rfl
      exact nodup.1 List.mem_cons_self
    have item (a : Fin 16) (member : a ∈ branches f) : ∃ i, Holds (f a) i :=
      (below a).nonempty (mt shape_eq_empty.1 (mem_branches.1 member))
    obtain ⟨i, hi⟩ := item b (by rw [hb]; exact List.mem_cons_self)
    obtain ⟨j, hj⟩ := item c (by rw [hb]; exact List.mem_cons_of_mem _ List.mem_cons_self)
    refine ⟨i, j, ?_, (holds_inner (h := h)).2 ⟨b, hi⟩, (holds_inner (h := h)).2 ⟨c, hj⟩⟩
    rintro rfl
    have placed' := (placed_inner.1 placed).1
    exact distinct ((placed' b i hi).symm.trans (placed' c i hj))

theorem remove_spec (type : TNType)
    (last : terminal id t d = (leaf item type' h, k))
    (tag : item.tag = id) (deep : d ≠ 0) (placed : Placed digit d (shape t))
    (branching : Branching (shape t)) :
    (∀ i, Holds (remove type id t d) i ↔ Holds t i ∧ i.tag ≠ id) ∧
      Placed digit d (shape (remove type id t d)) ∧ Branching (shape (remove type id t d)) := by
  induction t, d using way_induction id with
  | last t d ends =>
    rw [ends.terminal] at last
    cases last
    refine ⟨fun i => ?_, trivial, trivial⟩
    apply iff_of_false (not_holds_null i)
    rintro ⟨held, ne⟩
    exact ne (holds_leaf.1 held ▸ tag)
  | above f hash d into ih =>
    rw [terminal, if_neg into] at last
    have placed' := placed_inner.1 placed
    obtain ⟨items, below, branching'⟩ := ih last (Nat.succ_ne_zero d) (placed'.2 _) (branching.2 _)
    rw [remove]
    simp only [if_neg deep]
    have node : Placed digit d (shape (innerNode (Function.update f (selectBranch d id)
        (remove type id (f (selectBranch d id)) (d + 1))) 0)) :=
      placed_update placed (fun i hi => placed'.1 _ i ((items i).1 hi).1) below
    obtain ⟨same, placed'', branching''⟩ :=
      pullUp_spec type node (branching_update branching.2 branching')
    refine ⟨fun i => ?_, placed'', branching''⟩
    rw [same]
    simpa using holds_exchanged 0 placed (p := False) (by simpa using items i)

/-- The hash of what a tree holds, computed from its leaves. -/
def merkle (type : TNType) : Trie (Fin 16) SHAMapItem → Nat
  | .empty => 0
  | .leaf item => leafHash item type
  | .inner f =>
    if ∀ b, (merkleEmpty (f b)) = true then 0 else innerHash fun b => merkle type (f b)
where
  merkleEmpty : Trie (Fin 16) SHAMapItem → Bool
    | .empty => true
    | _ => false

/-- The leaves have the map's type and their hashes, and a hash of an inner node that is
there is the hash of what it holds. -/
def Sound (type : TNType) : Node → Prop
  | null => True
  | leaf item type' h => type' = type ∧ h = leafHash item type
  | innerNode f h => (h ≠ 0 → h = merkle type (shape (innerNode f h))) ∧ ∀ b, Sound type (f b)

section
omit [Sha512]

theorem merkleEmpty_shape : merkle.merkleEmpty (shape node) = node.isEmptyBranch := by
  cases node with
  | null => rfl
  | leaf item type h => rfl
  | innerNode f h => rfl

theorem getBranchCount_eq_zero :
    (innerNode f h).getBranchCount = 0 ↔ ∀ b, (f b).isEmptyBranch = true := by
  simp [getBranchCount]

end

theorem updateHashes_spec (sound : Sound type t) :
    (updateHashes t).getNodeHash = merkle type (shape t) ∧
      ((updateHashes t).isEmptyBranch = t.isEmptyBranch) := by
  induction t with
  | null => exact ⟨rfl, rfl⟩
  | leaf item type' h =>
    obtain ⟨rfl, -⟩ := sound
    exact ⟨rfl, rfl⟩
  | innerNode f h ih =>
    have children (b : Fin 16) := ih b (sound.2 b)
    rw [updateHashes, shape, merkle]
    by_cases none : ∀ b, (f b).isEmptyBranch = true
    · have count : (innerNode (fun i => updateHashes (f i)) h).getBranchCount = 0 :=
        getBranchCount_eq_zero.2 fun b => (children b).2.trans (none b)
      rw [if_pos count, if_pos fun b => merkleEmpty_shape.trans (none b)]
      exact ⟨rfl, rfl⟩
    · have count : ¬ (innerNode (fun i => updateHashes (f i)) h).getBranchCount = 0 := by
        rw [getBranchCount_eq_zero]
        exact fun all => none fun b => (children b).2.symm.trans (all b)
      rw [if_neg count, if_neg fun all => none fun b => merkleEmpty_shape.symm.trans (all b)]
      refine ⟨congrArg innerHash (funext fun b => (children b).1), rfl⟩

/-- The hash of a map is the hash of what it holds. -/
theorem getHash_eq (sound : Sound type (innerNode f h)) :
    (getHash (innerNode f h)).1 = merkle type (shape (innerNode f h)) := by
  rw [getHash]
  by_cases zero : (innerNode f h).getNodeHash = 0
  · rw [if_pos zero]
    rw [unshare]
    by_cases none : (innerNode f h).getBranchCount = 0
    · rw [if_pos none, zero, shape, merkle, if_pos fun b =>
        merkleEmpty_shape.trans (getBranchCount_eq_zero.1 none b)]
    · rw [if_neg none]
      exact (updateHashes_spec sound).1
  · rw [if_neg zero]
    exact sound.1 zero

theorem sound_setChild (sound : Sound type (innerNode f h)) (below : Sound type child) :
    Sound type (innerNode (Function.update f b child) 0) :=
  ⟨fun ne => absurd rfl ne, (Function.forall_update_iff f fun _ => Sound type).2
    ⟨below, fun c _ => sound.2 c⟩⟩

theorem sound_graft (sound : Sound type t)
    (below : Sound type x) : Sound type (graft true id x t d) := by
  induction t, d using way_induction id with
  | last t d ends =>
    rw [ends.graft]
    exact below
  | above f h d into ih =>
    rw [graft, if_neg into]
    exact sound_setChild sound (ih (sound.2 _))

/-- A change in place that keeps the hash of a leaf keeps the hash of what is above it. -/
theorem merkle_graft (same : merkle type (shape x) = merkle type (shape (terminal id t d).1))
    (some_ : x.isEmptyBranch = (terminal id t d).1.isEmptyBranch) :
    merkle type (shape (graft dirty id x t d)) = merkle type (shape t) ∧
      (graft dirty id x t d).isEmptyBranch = t.isEmptyBranch := by
  induction t, d using way_induction id with
  | last t d ends =>
    rw [ends.terminal] at same some_
    rw [ends.graft]
    exact ⟨same, some_⟩
  | above f h d into ih =>
    rw [terminal, if_neg into] at same some_
    rw [graft, if_neg into]
    obtain ⟨hash, branch⟩ := ih same some_
    refine ⟨?_, rfl⟩
    rw [← merkleEmpty_shape, ← merkleEmpty_shape] at branch
    have each := (Function.forall_update_iff f fun b node =>
      merkle type (shape node) = merkle type (shape (f b)) ∧
        merkle.merkleEmpty (shape node) = merkle.merkleEmpty (shape (f b))).2
      ⟨⟨hash, branch⟩, fun _ _ => ⟨rfl, rfl⟩⟩
    simp [shape, merkle, each]

theorem sound_graft_inPlace (sound : Sound type t)
    (below : Sound type x)
    (same : merkle type (shape x) = merkle type (shape (terminal id t d).1))
    (some_ : x.isEmptyBranch = (terminal id t d).1.isEmptyBranch) :
    Sound type (graft false id x t d) := by
  induction t, d using way_induction id with
  | last t d ends =>
    rw [ends.graft]
    exact below
  | above f h d into ih =>
    have hash : merkle type (shape (graft false id x (innerNode f h) d)) =
        merkle type (shape (innerNode f h)) := (merkle_graft same some_).1
    rw [terminal, if_neg into] at same some_
    rw [graft, if_neg into] at hash ⊢
    refine ⟨fun ne => ?_, (Function.forall_update_iff f fun _ => Sound type).2
      ⟨ih (sound.2 _) same some_, fun c _ => sound.2 c⟩⟩
    rw [hash]
    exact sound.1 ne

theorem sound_remove (sound : Sound type t) :
    Sound type (remove type id t d) := by
  induction t generalizing d with
  | null => trivial
  | leaf item type' h => trivial
  | innerNode f h ih =>
    have child := ih (selectBranch d id) (d := d + 1) (sound.2 _)
    have node := sound_setChild (b := selectBranch d id) sound child
    rw [remove]
    split
    · exact node
    · rw [pullUp]
      split
      · trivial
      · split
        · exact ⟨rfl, rfl⟩
        · exact node
      · exact node

theorem sound_terminal (id : Tag) (sound : Sound type t) :
    Sound type (terminal id t d).1 := by
  induction t, d using way_induction id with
  | last t d ends => rwa [ends.terminal]
  | above f h d into ih =>
    rw [terminal, if_neg into]
    exact ih (sound.2 _)

theorem sound_makeInner : Sound type makeInner :=
  ⟨fun ne => absurd rfl ne, fun _ => trivial⟩

theorem sound_splitTree (fuel d : Nat) :
    Sound type (splitTree type item other fuel d) := by
  induction fuel generalizing d with
  | zero => trivial
  | succ fuel ih =>
    rw [splitTree]
    split
    · exact sound_setChild sound_makeInner (ih (d + 1))
    · have first : Sound type (makeInner.setChild (selectBranch d item.tag) (newLeaf item type)) :=
        sound_setChild sound_makeInner ⟨rfl, rfl⟩
      exact sound_setChild first ⟨rfl, rfl⟩

section
omit [Sha512]

theorem walkToPointer_eq :
    walkToPointer id t d = match (terminal id t d).1 with
      | leaf item _ _ => if item.tag = id then some item else none
      | _ => none := by
  induction t, d using way_induction id with
  | last t d ends =>
    rw [ends.terminal]
    cases t with
    | innerNode f h =>
      rw [walkToPointer, isEmptyBranch_iff.1 (ends f h rfl)]
      rfl
    | _ => rfl
  | above f h d into ih =>
    rw [terminal, if_neg into]
    exact ih

theorem terminal_of_holds (placed : Placed digit d (shape t)) (held : Holds t item) :
    ∃ type h k, terminal item.tag t d = (leaf item type h, k) := by
  induction t generalizing d with
  | null => exact absurd held (not_holds_null item)
  | leaf it type h => exact ⟨type, h, d, by rw [holds_leaf.1 held]; rfl⟩
  | innerNode f h ih =>
    have placed' := placed_inner.1 placed
    obtain ⟨b, below⟩ := holds_inner.1 held
    have here : selectBranch d item.tag = b := placed'.1 b item below
    rw [terminal, here, if_neg (mt isEmptyBranch_iff.1 below.ne_null)]
    exact ih b (placed'.2 b) below

theorem terminal_spec (id : Tag) (placed : Placed digit d (shape t)) :
    Placed digit (terminal id t d).2 (shape (terminal id t d).1) ∧
      (∀ i, Holds (terminal id t d).1 i → Holds t i) ∧
      (∀ i, Holds (terminal id t d).1 i → ∀ n, d ≤ n → n < (terminal id t d).2 →
        selectBranch n i.tag = selectBranch n id) ∧
      ∀ f h, (terminal id t d).1 = innerNode f h → f (selectBranch (terminal id t d).2 id) = null := by
  induction t, d using way_induction id with
  | last t d ends =>
    rw [ends.terminal]
    exact ⟨placed, fun _ h => h, fun _ _ n low high => absurd high (Nat.not_lt.2 low),
      fun f h same => isEmptyBranch_iff.1 (ends f h same)⟩
  | above f h d into ih =>
    have placed' := placed_inner.1 placed
    rw [terminal, if_neg into]
    obtain ⟨below, items, digits, last⟩ := ih (placed'.2 (selectBranch d id))
    refine ⟨below, fun i hi => holds_inner.2 ⟨_, items i hi⟩, fun i hi n low high => ?_, last⟩
    by_cases first : n = d
    · rw [first]
      exact placed'.1 _ i (items i hi)
    · exact digits i hi n (by omega) high

theorem terminal_ne_null (id : Tag) (some_ : t ≠ null) (d : Nat) :
    (terminal id t d).1 ≠ null := by
  induction t, d using way_induction id with
  | last t d ends => rwa [ends.terminal]
  | above f h d into ih =>
    rw [terminal, if_neg into]
    exact ih (mt isEmptyBranch_iff.2 into)

theorem branching_terminal (id : Tag) (d : Nat) (branching : Branching (shape t)) :
    Branching (shape (terminal id t d).1) := by
  induction t, d using way_induction id with
  | last t d ends => rwa [ends.terminal]
  | above f h d into ih =>
    rw [terminal, if_neg into]
    exact ih (branching.2 _)

theorem le_terminal (id : Tag) (t : Node) (d : Nat) : d ≤ (terminal id t d).2 := by
  induction t, d using way_induction id with
  | last t d ends => rw [ends.terminal]
  | above f h d into ih =>
    rw [terminal, if_neg into]
    exact (Nat.le_succ d).trans ih

end

/-- The root of a map: an inner node, below which each inner node holds two items. -/
def Rooted (t : Node) : Prop := ∃ f h, t = innerNode f h ∧ ∀ b, Branching (shape (f b))

section
omit [Sha512]

theorem Rooted.ne_null (rooted : Rooted t) : t ≠ null := by
  obtain ⟨f, h, rfl, -⟩ := rooted
  simp

theorem Rooted.terminal (rooted : Rooted root) (last : SHAMapTree.terminal id root 0 = (node, k)) :
    (k = 0 ∧ root = node) ∨ (k ≠ 0 ∧ Branching (shape node)) := by
  obtain ⟨f, h, rfl, branches⟩ := rooted
  obtain ⟨-, ⟨⟩⟩ | ⟨-, last⟩ := ite_eq_iff.1 last
  · exact .inl ⟨rfl, rfl⟩
  · refine .inr ⟨?_, ?_⟩
    · have low := le_terminal id (f (selectBranch 0 id)) 1
      rw [last] at low
      exact Nat.ne_of_gt low
    · have branching := branching_terminal id 1 (branches (selectBranch 0 id))
      rwa [last] at branching

end

/-- A map that holds the given data under each tag. -/
structure Good (type : TNType) (root : Node) (data : Tag → Option (List UInt8)) : Prop where
  rooted : Rooted root
  placed : Placed digit 0 (shape root)
  sound : Sound type root
  holds : ∀ i, Holds root i ↔ data i.tag = some i.data

omit [Sha512] in
theorem update_eq_some_iff : Function.update data item.tag (some item.data) i.tag = some i.data ↔
      (data i.tag = some i.data ∧ i.tag ≠ item.tag) ∨ i = item := by
  obtain ⟨tag, bytes⟩ := i
  obtain ⟨tag', bytes'⟩ := item
  by_cases same : tag = tag'
  · subst same
    simp [eq_comm]
  · simp [same]

/-- The calls that change a map, all of them with one type of leaves. -/
inductive Op where
  | addItem (item : SHAMapItem)
  | updateGiveItem (item : SHAMapItem)
  | delItem (id : Tag)

/-- What a call does to a finite map. -/
def Op.onData : Op → (Tag → Option (List UInt8)) → Bool × (Tag → Option (List UInt8))
  | .addItem item, data =>
    if (data item.tag).isNone then (true, Function.update data item.tag (some item.data))
    else (false, data)
  | .updateGiveItem item, data =>
    if (data item.tag).isSome then (true, Function.update data item.tag (some item.data))
    else (false, data)
  | .delItem id, data => ((data id).isSome, Function.update data id none)

section
variable (good : Good type root data)
include good

theorem Good.terminal_of_data {bytes : List UInt8}
    (present : data id = some bytes) :
    ∃ k, SHAMapTree.terminal id root 0 = (newLeaf ⟨id, bytes⟩ type, k) := by
  obtain ⟨type', h, k, last⟩ := terminal_of_holds good.placed ((good.holds ⟨id, bytes⟩).2 present)
  have sound := sound_terminal id (d := 0) good.sound
  rw [last] at sound
  obtain ⟨rfl, rfl⟩ := sound
  exact ⟨k, last⟩

theorem Good.tag_ne (absent : data id = none) {i : SHAMapItem}
    (last : Holds (SHAMapTree.terminal id root 0).1 i) : i.tag ≠ id := by
  intro same
  have held := (good.holds i).1 ((terminal_spec id good.placed).2.1 i last)
  rw [same, absent] at held
  cases held

/-- An item takes its place where the way to its tag ends. -/
theorem good_graft
    (items : ∀ i, Holds x i ↔ (Holds (terminal item.tag root 0).1 i ∧ i.tag ≠ item.tag) ∨ i = item)
    (placed : Placed digit (terminal item.tag root 0).2 (shape x))
    (sound : Sound type (graft dirty item.tag x root 0))
    (atRoot : ∀ f h, terminal item.tag root 0 = (innerNode f h, 0) → Rooted x)
    (below : (terminal item.tag root 0).2 ≠ 0 → Branching (shape x)) :
    Good type (graft dirty item.tag x root 0) (Function.update data item.tag (some item.data)) := by
  refine ⟨?_, placed_graft dirty rfl good.placed items placed, sound, fun i => ?_⟩
  · have placed' := good.placed
    obtain ⟨f, h, rfl, branches⟩ := good.rooted
    by_cases empty : (f (selectBranch 0 item.tag)).isEmptyBranch = true
    · rw [graft, if_pos empty]
      exact atRoot f h (by rw [terminal, if_pos empty])
    · have last : terminal item.tag (innerNode f h) 0 =
          terminal item.tag (f (selectBranch 0 item.tag)) 1 := by
        rw [terminal, if_neg empty]
      rw [last] at items below
      have child := branching_graft dirty rfl ((placed_inner.1 placed').2 _) items
        (branches _) (below (Nat.ne_of_gt (le_terminal _ _ 1)))
      rw [graft, if_neg empty]
      exact ⟨_, _, rfl, branching_update branches child⟩
  · rw [holds_graft dirty good.placed items, good.holds, update_eq_some_iff]

/-- `addItem` returns false exactly when the tag is there, and adds the item otherwise. -/
theorem addGiveItem_good :
    ∃ root', addGiveItem type item root = .ok (((Op.addItem item).onData data).1, root') ∧
      Good type root' ((Op.addItem item).onData data).2 := by
  rw [Op.onData]
  obtain ⟨above, stacked, dirtied, -⟩ := getStack_eq item.tag good.rooted.ne_null 0 []
  cases present : data item.tag with
  | some bytes =>
    obtain ⟨k, last⟩ := good.terminal_of_data present
    refine ⟨root, ?_, good⟩
    rw [addGiveItem, stacked, last, newLeaf]
    simp only [if_true]
    rfl
  | none =>
    obtain ⟨below, items, digits, empty⟩ := terminal_spec item.tag good.placed
    have good' {x : Node} (items : ∀ i, Holds x i ↔
        Holds (terminal item.tag root 0).1 i ∨ i = item) placed sound :=
      good_graft good (fun i => (items i).trans (or_congr_left
        (and_iff_left_of_imp (good.tag_ne present)).symm)) placed (sound_graft good.sound sound)
    have nonnull := terminal_ne_null item.tag good.rooted.ne_null 0
    rcases last : terminal item.tag root 0 with ⟨node, k⟩
    rw [last] at below items digits empty stacked nonnull good'
    cases node with
    | null => exact absurd rfl nonnull
    | leaf other type' h' =>
      have differ : other.tag ≠ item.tag := good.tag_ne present (by rw [last]; exact holds_leaf.2 rfl)
      obtain ⟨n, low, high, apart⟩ : ∃ n, k ≤ n ∧ n < 64 ∧
          selectBranch n item.tag ≠ selectBranch n other.tag := by
        by_contra none
        refine differ (tag_ext fun n hn => ?_)
        by_cases early : n < k
        · exact digits other (holds_leaf.2 rfl) n (Nat.zero_le n) early
        · by_contra ne
          exact none ⟨n, by omega, hn, Ne.symm ne⟩
      obtain ⟨k', stack', looped, linked⟩ := splitLoop_eq type 65 apart low (by omega) above
      obtain ⟨holds, placed, branching⟩ := splitTree_spec type 65 apart low (by omega)
      refine ⟨graft true item.tag (splitTree type item other 65 k) root 0, ?_, ?_⟩
      · rw [addGiveItem, stacked]
        simp only [if_neg differ, looped, ok_bind]
        rw [linked, dirtied]
        rfl
      · refine good' (fun i => ?_) placed ?_ ?_ fun _ => branching
        · rw [holds, holds_leaf, or_comm]
        · exact sound_splitTree 65 k
        · intro f h same
          cases same
    | innerNode g h' =>
      have vacant : g (selectBranch k item.tag) = null := empty g h' rfl
      have holds (i : SHAMapItem) : Holds (innerNode (Function.update g (selectBranch k item.tag)
          (newLeaf item type)) 0) i ↔ Holds (innerNode g h') i ∨ i = item := by
        rw [holds_update, holds_newLeaf, holds_inner, or_comm]
        refine or_congr_left ⟨fun ⟨c, _, held⟩ => ⟨c, held⟩, fun ⟨c, held⟩ => ⟨c, ?_, held⟩⟩
        rintro rfl
        exact held.ne_null vacant
      refine ⟨graft true item.tag (innerNode (Function.update g (selectBranch k item.tag)
        (newLeaf item type)) 0) root 0, ?_, ?_⟩
      · rw [addGiveItem, stacked]
        simp only [setChild]
        rw [dirtied]
        rfl
      · apply good' holds
        · refine placed_update below (fun i hi => ?_) trivial
          rw [holds_newLeaf.1 hi]
          rfl
        · have node := sound_terminal item.tag (d := 0) good.sound
          rw [last] at node
          exact sound_setChild node ⟨rfl, rfl⟩
        · intro f h same
          cases same
          rcases good.rooted.terminal last with ⟨-, rfl⟩ | ⟨deep, -⟩
          · obtain ⟨_, _, same, branches⟩ := good.rooted
            cases same
            exact ⟨_, _, rfl, branching_update branches trivial⟩
          · exact absurd rfl deep
        · intro deep
          rcases good.rooted.terminal last with ⟨zero, -⟩ | ⟨-, branching⟩
          · exact absurd zero deep
          · obtain ⟨⟨i, j, ne, hi, hj⟩, branches⟩ := branching
            exact ⟨⟨i, j, ne, (holds i).2 (.inl hi), (holds j).2 (.inl hj)⟩,
              branching_update branches trivial⟩

/-- The item of a tag that is there is changed. -/
theorem good_graft_update (last : terminal item.tag root 0 = (leaf old type' h, k))
    (same : old.tag = item.tag)
    (sound : Sound type (graft dirty item.tag (newLeaf item type) root 0)) :
    Good type (graft dirty item.tag (newLeaf item type) root 0)
      (Function.update data item.tag (some item.data)) := by
  refine good_graft good (fun i => ?_) trivial sound (fun f h' root' => ?_) fun _ => trivial
  · rw [last, holds_newLeaf, holds_leaf]
    refine (or_iff_right ?_).symm
    rintro ⟨rfl, ne⟩
    exact ne same
  · rw [last] at root'
    cases root'

theorem updateGiveItem_good :
    ∃ root', updateGiveItem type item root = .ok (((Op.updateGiveItem item).onData data).1, root') ∧
      Good type root' ((Op.updateGiveItem item).onData data).2 := by
  rw [Op.onData]
  obtain ⟨above, stacked, dirtied, changed⟩ := getStack_eq item.tag good.rooted.ne_null 0 []
  cases present : data item.tag with
  | some bytes =>
    obtain ⟨k, last⟩ := good.terminal_of_data present
    rw [last] at stacked
    by_cases same : leafHash item type = leafHash ⟨item.tag, bytes⟩ type
    · refine ⟨graft false item.tag (newLeaf item type) root 0, ?_, ?_⟩
      · rw [updateGiveItem, stacked, newLeaf]
        simp only [ne_eq, if_pos same, changed]
        rfl
      · refine good_graft_update good last rfl (sound_graft_inPlace good.sound ⟨rfl, rfl⟩ ?_ ?_)
        · rw [last]
          exact same
        · rw [last]
          rfl
    · refine ⟨graft true item.tag (newLeaf item type) root 0, ?_, ?_⟩
      · rw [updateGiveItem, stacked, newLeaf]
        simp only [ne_eq, if_neg same, dirtied]
        rfl
      · exact good_graft_update good last rfl (sound_graft good.sound ⟨rfl, rfl⟩)
  | none =>
    refine ⟨root, ?_, good⟩
    rcases last : terminal item.tag root 0 with ⟨node, k⟩
    rw [last] at stacked
    rw [updateGiveItem, stacked]
    cases node with
    | null => rfl
    | innerNode f h => rfl
    | leaf other type' h =>
      have differ : other.tag ≠ item.tag := good.tag_ne present (by rw [last]; exact holds_leaf.2 rfl)
      simp only [ne_eq, differ]
      rfl

theorem delItem_good (id : Tag) : ∃ root', delItem id root = .ok ((data id).isSome, root') ∧
      Good type root' (Function.update data id none) := by
  cases present : data id with
  | some bytes =>
    obtain ⟨k, last⟩ := good.terminal_of_data present
    obtain ⟨above, stacked, deleted⟩ := getStack_del type last []
    obtain ⟨f, h, rfl, branching⟩ := good.rooted
    have placed := placed_inner.1 good.placed
    -- the root stays an inner node; below it the tree is pulled together
    have into : (f (selectBranch 0 id)).isEmptyBranch ≠ true := by
      intro empty
      rw [terminal, if_pos empty] at last
      cases last
    rw [terminal, if_neg into] at last
    obtain ⟨items, placed', branching'⟩ :=
      remove_spec type last rfl Nat.one_ne_zero (placed.2 _) (branching _)
    have holds (i : SHAMapItem) :=
      holds_exchanged 0 good.placed (by rw [or_false]; exact items i)
    refine ⟨remove type id (innerNode f h) 0, ?_, ?_⟩
    · rw [delItem, stacked]
      simp only [ne_eq, deleted]
      rfl
    · refine ⟨⟨_, _, rfl, branching_update branching branching'⟩, ?_, sound_remove good.sound,
        fun i => (holds i).trans ?_⟩
      · refine placed_update good.placed (fun i hi => ?_) placed'
        exact placed.1 _ i ((items i).1 hi).1
      · rw [or_false, good.holds]
        by_cases tag : i.tag = id
        · rw [tag, Function.update_self]
          exact iff_of_false (fun h => h.2 rfl) nofun
        · rw [Function.update_of_ne tag]
          exact and_iff_left tag
  | none =>
    obtain ⟨above, stacked, -, -⟩ := getStack_eq id good.rooted.ne_null 0 []
    refine ⟨root, ?_, ?_⟩
    · rcases last : terminal id root 0 with ⟨node, k⟩
      rw [last] at stacked
      rw [delItem, stacked]
      cases node with
      | null => rfl
      | innerNode f h => rfl
      | leaf other type' h =>
        have differ : other.tag ≠ id := good.tag_ne present (by rw [last]; exact holds_leaf.2 rfl)
        simp only [ne_eq, differ]
        rfl
    · rw [← present, Function.update_eq_self]
      exact good

theorem Good.peekItem (id : Tag) :
    SHAMapTree.peekItem root id = (data id).map (SHAMapItem.mk id) := by
  rw [SHAMapTree.peekItem, walkToPointer_eq]
  cases present : data id with
  | some bytes =>
    obtain ⟨k, last⟩ := good.terminal_of_data present
    rw [last]
    exact if_pos rfl
  | none =>
    rcases last : SHAMapTree.terminal id root 0 with ⟨node, k⟩
    cases node with
    | null => rfl
    | innerNode f h => rfl
    | leaf other type' h => exact if_neg (good.tag_ne present (by rw [last]; exact holds_leaf.2 rfl))

/-- Maps with the same data have one tree and one hash. -/
theorem Good.unique {root' : Node} (good' : Good type root' data) :
    shape root = shape root' ∧ (getHash root).1 = (getHash root').1 := by
  obtain ⟨⟨f, h, rfl, branching⟩, placed, sound, holds⟩ := good
  obtain ⟨⟨g, h', rfl, branching'⟩, placed', sound', holds'⟩ := good'
  have same := root_ext branching branching' placed placed' fun i =>
    (holds i).trans (holds' i).symm
  have shapes : shape (innerNode f h) = shape (innerNode g h') := congrArg Trie.inner same
  exact ⟨shapes, by rw [getHash_eq sound, getHash_eq sound', shapes]⟩

end

def Op.call (type : TNType) : Op → Node → Except Fault (Bool × Node)
  | .addItem item, root => addGiveItem type item root
  | .updateGiveItem item, root => SHAMapTree.updateGiveItem type item root
  | .delItem id, root => SHAMapTree.delItem id root

/-- The results of a sequence of calls, and the root after them. -/
def calls (type : TNType) : List Op → Node → Except Fault (List Bool × Node)
  | [], root => .ok ([], root)
  | op :: ops, root => do
    let (result, root) ← op.call type root
    let (results, root) ← calls type ops root
    return (result :: results, root)

def callsOnData : List Op → (Tag → Option (List UInt8)) → List Bool × (Tag → Option (List UInt8))
  | [], data => ([], data)
  | op :: ops, data =>
    let (result, data) := op.onData data
    let (results, data) := callsOnData ops data
    (result :: results, data)

theorem Op.call_good (good : Good type root data) (op : Op) :
    ∃ root', op.call type root = .ok ((op.onData data).1, root') ∧
      Good type root' (op.onData data).2 := by
  cases op with
  | addItem item => exact addGiveItem_good good
  | updateGiveItem item => exact updateGiveItem_good good
  | delItem id => exact delItem_good good id

theorem calls_good (good : Good type root data) (ops : List Op) :
    ∃ root', calls type ops root = .ok ((callsOnData ops data).1, root') ∧
      Good type root' (callsOnData ops data).2 := by
  induction ops generalizing root data with
  | nil => exact ⟨root, rfl, good⟩
  | cons op ops ih =>
    obtain ⟨root', run, good'⟩ := op.call_good good
    obtain ⟨root'', run', good''⟩ := ih good'
    refine ⟨root'', ?_, good''⟩
    rw [calls, run, ExceptFold.ok_bind]
    simp only [run']
    rfl

theorem good_makeInner (type : TNType) : Good type makeInner fun _ => none where
  rooted := ⟨_, _, rfl, fun _ => trivial⟩
  placed := placed_inner.2 ⟨fun _ i held => absurd held (not_holds_null i), fun _ => trivial⟩
  sound := sound_makeInner
  holds i := by
    refine iff_of_false (fun held => ?_) nofun
    obtain ⟨_, held⟩ := holds_inner.1 held
    exact not_holds_null i held

/-- Every sequence of calls on an empty map gives what it gives on a finite map, and the
data alone decides the tree and its hash. -/
theorem calls_refine (type : TNType) (ops ops' : List Op) :
    ∃ root root',
      calls type ops makeInner = .ok ((callsOnData ops fun _ => none).1, root) ∧
      calls type ops' makeInner = .ok ((callsOnData ops' fun _ => none).1, root') ∧
      (∀ id, peekItem root id =
        ((callsOnData ops fun _ => none).2 id).map (SHAMapItem.mk id)) ∧
      (∀ id, hasItem root id = ((callsOnData ops fun _ => none).2 id).isSome) ∧
      ((∀ id, (callsOnData ops fun _ => none).2 id = (callsOnData ops' fun _ => none).2 id) →
        shape root = shape root' ∧ (getHash root).1 = (getHash root').1) := by
  obtain ⟨root, run, good⟩ := calls_good (good_makeInner type) ops
  obtain ⟨root', run', good'⟩ := calls_good (good_makeInner type) ops'
  refine ⟨root, root', run, run', good.peekItem, fun id => ?_, fun same => ?_⟩
  · change (SHAMapTree.peekItem root id).isSome = _
    rw [good.peekItem, Option.isSome_map]
  · rw [← funext same] at good'
    exact good.unique good'

end

end Skywell.SHAMapTree
