import Mathlib.Algebra.BigOperators.Ring.Finset
import Mathlib.Algebra.Order.Ring.Int
import Mathlib.Data.Finset.Option
import Mathlib.Tactic.Abel

/-!
# The slots of the peer finder

The tables and counters that `PeerFinder::Logic` keeps of its slots. A slot is named by its number
in the order in which the slots were made, so that one that is returned twice can be told.
-/
namespace Skywell.PeerFinder

structure Endpoint where
  address : Nat
  port : Nat
  deriving DecidableEq

inductive State where
  | accept | connect | connected | active | closing
  deriving DecidableEq

structure SlotImp where
  m_inbound : Bool
  m_fixed : Bool
  m_cluster : Bool := false
  m_state : State
  m_remote_endpoint : Endpoint
  m_local_endpoint : Option Endpoint := none
  m_public_key : Option Nat := none

inductive Counter where
  | attempts | active | in_active | out_active | fixed | fixed_active | cluster
  | acceptCount | closingCount

/-- The counters that `Counts::adjust` moves for a slot. -/
def SlotImp.counted (s : SlotImp) : Counter → Bool
  | .fixed => s.m_fixed
  | .cluster => s.m_cluster
  | .acceptCount => s.m_state = .accept
  | .attempts => s.m_state = .connect || s.m_state = .connected
  | .fixed_active => s.m_state = .active && s.m_fixed
  | .in_active => s.m_state = .active && !s.m_fixed && !s.m_cluster && s.m_inbound
  | .out_active => s.m_state = .active && !s.m_fixed && !s.m_cluster && !s.m_inbound
  | .active => s.m_state = .active
  | .closingCount => s.m_state = .closing

abbrev Counts := Counter → Int

def Counts.adjust (c : Counts) (s : SlotImp) (n : Int) : Counts :=
  fun i => if s.counted i then c i + n else c i

def Counts.add (c : Counts) (s : SlotImp) : Counts := c.adjust s 1

def Counts.remove (c : Counts) (s : SlotImp) : Counts := c.adjust s (-1)

structure Logic where
  /-- The endpoints that should always be connected. -/
  fixed : Endpoint → Bool
  m_in_max : Nat
  m_out_max : Nat
  made : Nat := 0
  slot : Nat → SlotImp := fun _ => ⟨false, false, false, .connect, ⟨0, 0⟩, none, none⟩
  slots : Endpoint → Option Nat := fun _ => none
  counts : Counts := fun _ => 0
  keys : Finset Nat := ∅
  connected_addresses : Multiset Endpoint := 0

inductive Result where
  | duplicate | full | success
  deriving DecidableEq

namespace Logic

/-- The end of both calls that make a slot. An entry that the table has is kept, and its slot is
returned. -/
def emplace (l : Logic) (s : SlotImp) : Option Nat × Logic :=
  let e := s.m_remote_endpoint
  let slots := if (l.slots e).isSome then l.slots else Function.update l.slots e (some l.made)
  (slots e, { l with
    made := l.made + 1
    slot := Function.update l.slot l.made s
    slots
    connected_addresses := ⟨e.address, 0⟩ ::ₘ l.connected_addresses
    counts := l.counts.add s })

def new_inbound_slot (l : Logic) (local_ remote : Endpoint) : Option Nat × Logic :=
  if remote ∈ l.connected_addresses then (none, l)
  else l.emplace {
    m_inbound := true
    m_fixed := l.fixed remote
    m_state := .accept
    m_remote_endpoint := remote
    m_local_endpoint := local_ }

def new_outbound_slot (l : Logic) (remote : Endpoint) : Option Nat × Logic :=
  if (l.slots remote).isSome then (none, l)
  else l.emplace {
    m_inbound := false
    m_fixed := l.fixed remote
    m_state := .connect
    m_remote_endpoint := remote }

def onConnected (l : Logic) (i : Nat) (local_ : Endpoint) : Bool × Logic :=
  let s := { l.slot i with m_local_endpoint := local_ }
  if (l.slots local_).isSome then (false, { l with slot := Function.update l.slot i s })
  else
    let s' := { s with m_state := .connected }
    (true, { l with
      slot := Function.update l.slot i s'
      counts := (l.counts.remove s).add s' })

/-- The active slots that a limit is for. -/
def limited (inbound : Bool) : Counter := if inbound then .in_active else .out_active

def limit (l : Logic) (inbound : Bool) : Nat := if inbound then l.m_in_max else l.m_out_max

def can_activate (l : Logic) (s : SlotImp) : Bool :=
  s.m_fixed || s.m_cluster || l.counts (limited s.m_inbound) < l.limit s.m_inbound

def activate (l : Logic) (i key : Nat) (cluster : Bool) : Result × Logic :=
  if key ∈ l.keys then (.duplicate, l)
  else if ! l.can_activate (l.slot i) then (.full, l)
  else
    let s := { l.slot i with m_public_key := key, m_cluster := cluster }
    let s' := { s with m_state := .active }
    (.success, { l with
      slot := Function.update l.slot i s'
      counts := (((l.counts.remove (l.slot i)).add s).remove s).add s'
      keys := insert key l.keys })

def on_closed (l : Logic) (i : Nat) : Logic :=
  let s := l.slot i
  let e := s.m_remote_endpoint
  { l with
    slots := Function.update l.slots e none
    keys := l.keys \ s.m_public_key.toFinset
    connected_addresses := l.connected_addresses.erase ⟨e.address, 0⟩
    counts := l.counts.remove s }

end Logic

/-- The slots that are open and those that were returned so far are known to the overlay. -/
structure World extends Logic where
  opened : Finset Nat
  returned : Finset Nat

def World.take (w : World) (r : Option Nat × Logic) : World :=
  ⟨r.2, w.opened ∪ r.1.toFinset, w.returned ∪ r.1.toFinset⟩

/-- Calls as the overlay makes them, if no connection comes in from the endpoint of an open slot. -/
inductive Reach : World → Prop where
  | start (fixed : Endpoint → Bool) (m_in_max m_out_max : Nat) :
      Reach ⟨{ fixed, m_in_max, m_out_max }, ∅, ∅⟩
  | inbound {w} (local_ : Endpoint) {remote : Endpoint} (reach : Reach w)
      (apart : ∀ i ∈ w.opened, (w.slot i).m_remote_endpoint ≠ remote) :
      Reach (w.take (w.new_inbound_slot local_ remote))
  | outbound {w} (remote : Endpoint) (reach : Reach w) :
      Reach (w.take (w.new_outbound_slot remote))
  | connected {w i} (local_ : Endpoint) (reach : Reach w) (isOpen : i ∈ w.opened)
      (outbound : (w.slot i).m_inbound = false) (state : (w.slot i).m_state = .connect) :
      Reach { w with toLogic := (w.onConnected i local_).2 }
  | activated {w i} (key : Nat) (cluster : Bool) (reach : Reach w) (isOpen : i ∈ w.opened)
      (state : (w.slot i).m_state = .accept ∨ (w.slot i).m_state = .connected) :
      Reach { w with toLogic := (w.activate i key cluster).2 }
  | closed {w i} (reach : Reach w) (isOpen : i ∈ w.opened) :
      Reach { w with toLogic := w.on_closed i, opened := w.opened.erase i }

/-- What the tables and counters say about the open slots. -/
structure Exact (w : World) : Prop where
  sub : w.opened ⊆ w.returned
  made : ∀ i ∈ w.returned, i < w.made
  table : ∀ e i, w.slots e = some i ↔ i ∈ w.opened ∧ (w.slot i).m_remote_endpoint = e
  counts : ∀ c, w.counts c = ∑ i ∈ w.opened, ((w.slot i).counted c).toInt
  keys : ∀ k, k ∈ w.keys ↔ ∃ i ∈ w.opened, (w.slot i).m_public_key = some k
  active : ∀ i ∈ w.opened, (w.slot i).m_public_key.isSome ↔ (w.slot i).m_state = .active
  clustered : ∀ i ∈ w.opened, (w.slot i).m_cluster → (w.slot i).m_state = .active
  unique : ∀ i ∈ w.opened, ∀ j ∈ w.opened, ∀ k, (w.slot i).m_public_key = some k →
    (w.slot j).m_public_key = some k → i = j
  connected : w.connected_addresses =
    w.opened.val.map fun i => ⟨(w.slot i).m_remote_endpoint.address, 0⟩
  room : ∀ inbound, w.counts (Logic.limited inbound) ≤ w.limit inbound

section
variable {w : World} (h : Exact w) {s : SlotImp}

theorem counted_limited (inbound : Bool) : s.counted (Logic.limited inbound) =
    (s.m_state = .active && !s.m_fixed && !s.m_cluster && (s.m_inbound == inbound)) := by
  cases inbound <;> simp [Logic.limited, SlotImp.counted]

theorem adjust_apply (c : Counts) (n : Int) (i : Counter) :
    c.adjust s n i = c i + n * (s.counted i).toInt := by
  rw [Counts.adjust]
  cases s.counted i <;> simp

theorem counts_remove_add (c : Counts) : (c.add s).remove s = c := by
  funext i
  simp [Counts.add, Counts.remove, adjust_apply]

theorem counts_change {opened : Finset Nat} {slot : Nat → SlotImp} {i : Nat} (mem : i ∈ opened)
    {c : Counts} {j : Counter} (same : c j = ∑ k ∈ opened, ((slot k).counted j).toInt) :
    ((c.remove (slot i)).add s) j =
      ∑ k ∈ opened, ((Function.update slot i s k).counted j).toInt := by
  have others : ∀ k ∈ opened.erase i, ((Function.update slot i s k).counted j).toInt =
      ((slot k).counted j).toInt := by
    intro k member
    rw [Function.update_of_ne (Finset.ne_of_mem_erase member)]
  rw [← Finset.add_sum_erase _ _ mem] at same ⊢
  rw [Finset.sum_congr rfl others, Function.update_self, Counts.add, Counts.remove, adjust_apply,
    adjust_apply]
  omega

include h

theorem Exact.emplace (absent : w.slots s.m_remote_endpoint = none) (idle : s.m_state ≠ .active)
    (anonymous : s.m_public_key = none) (single : s.m_cluster = false) :
    (w.emplace s).1 = some w.made ∧ Exact (w.take (w.emplace s)) := by
  have new : w.made ∉ w.opened := fun mem => (h.made _ (h.sub mem)).false
  have old : ∀ i ∈ w.opened, Function.update w.slot w.made s i = w.slot i := fun i mem =>
    Function.update_of_ne (by rintro rfl; exact new mem) ..
  have result : (w.emplace s).1 = some w.made := by simp [Logic.emplace, absent]
  obtain ⟨sub, made, table, counts, keys, active, clustered, unique, connected, room⟩ := h
  refine ⟨result, ?_⟩
  rw [World.take, result, Option.toFinset_some, Logic.emplace]
  constructor <;> dsimp only
  · exact Finset.union_subset_union_left sub
  · intro i mem
    have earlier := made i
    grind
  · intro e i
    simp only [absent]
    grind
  · intro c
    rw [Finset.sum_union (Finset.disjoint_singleton_right.2 new), Finset.sum_singleton,
      Function.update_self, Finset.sum_congr rfl fun i mem => by rw [old i mem], ← counts,
      Counts.add, adjust_apply, one_mul]
  · intro k
    have known := keys k
    grind
  · grind
  · grind
  · grind
  · rw [Finset.union_comm, ← Finset.insert_eq, Finset.insert_val_of_notMem new, Multiset.map_cons,
      Function.update_self, Multiset.map_congr rfl fun i mem => by rw [old i mem], connected]
  · intro inbound
    rw [Counts.add, Counts.adjust, if_neg (by simp [counted_limited, idle])]
    exact room inbound

theorem Exact.absent {remote : Endpoint}
    (apart : ∀ i ∈ w.opened, (w.slot i).m_remote_endpoint ≠ remote) : w.slots remote = none := by
  by_contra present
  obtain ⟨i, found⟩ := Option.ne_none_iff_exists'.1 present
  obtain ⟨mem, same⟩ := (h.table remote i).1 found
  exact apart i mem same

theorem Exact.idle {i : Nat} (mem : i ∈ w.opened) (idle : (w.slot i).m_state ≠ .active) :
    (w.slot i).m_public_key = none ∧ (w.slot i).m_cluster = false := by
  have active := h.active i mem
  have clustered := h.clustered i mem
  simp_all

/-- A slot that had no key gets another state, and perhaps a key that no slot has. -/
theorem Exact.change {i : Nat} (mem : i ∈ w.opened) (anonymous : (w.slot i).m_public_key = none)
    (remote : s.m_remote_endpoint = (w.slot i).m_remote_endpoint)
    (active : s.m_public_key.isSome ↔ s.m_state = .active)
    (clustered : s.m_cluster → s.m_state = .active)
    (fresh : ∀ k, s.m_public_key = some k → k ∉ w.keys)
    (room : ∀ inbound, s.counted (Logic.limited inbound) →
      w.counts (Logic.limited inbound) < w.limit inbound)
    {counts : Counts} {keys : Finset Nat}
    (adjusted : counts = (w.counts.remove (w.slot i)).add s)
    (inserted : keys = w.keys ∪ s.m_public_key.toFinset) :
    Exact { w with slot := Function.update w.slot i s, counts, keys } := by
  subst adjusted inserted
  have idle : (w.slot i).m_state ≠ .active := by simp [← h.active i mem, anonymous]
  have same : ∀ k, (Function.update w.slot i s k).m_remote_endpoint =
      (w.slot k).m_remote_endpoint := by
    intro k
    by_cases here : k = i
    · rw [here, Function.update_self, remote]
    · rw [Function.update_of_ne here]
  constructor
  · exact h.sub
  · exact h.made
  · simpa [same] using h.table
  · exact fun c => counts_change mem (h.counts c)
  · intro k
    have known := h.keys k
    simp only [Finset.mem_union, Option.mem_toFinset, Option.mem_def]
    grind
  · have before := h.active
    grind
  · have before := h.clustered
    grind
  · have before := h.unique
    have known := h.keys
    grind
  · simpa [same] using h.connected
  · intro inbound
    have quiet : (w.slot i).counted (Logic.limited inbound) = false := by
      simp [counted_limited, idle]
    simp only [Counts.add, Counts.remove, Counts.adjust, quiet, Bool.false_eq_true, if_false]
    split_ifs with more
    · exact room inbound more
    · exact h.room inbound

theorem Exact.close {i : Nat} (mem : i ∈ w.opened) :
    Exact { w with toLogic := w.on_closed i, opened := w.opened.erase i } := by
  obtain ⟨sub, made, table, counts, keys, active, clustered, unique, connected, room⟩ := h
  unfold Logic.on_closed
  constructor <;> dsimp only
  · exact (Finset.erase_subset ..).trans sub
  · exact made
  · intro e j
    have entry := table e
    grind
  · intro c
    have all := counts c
    rw [← Finset.add_sum_erase _ _ mem] at all
    rw [Counts.remove, adjust_apply]
    omega
  · intro k
    have known := keys k
    simp only [Finset.mem_sdiff, Option.mem_toFinset, Option.mem_def]
    grind
  · grind
  · grind
  · grind
  · rw [Finset.erase_val, Multiset.map_erase_of_mem _ _ mem, connected]
  · intro inbound
    have before := room inbound
    rw [Counts.remove, Counts.adjust]
    split_ifs
    · exact (sub_le_self _ zero_le_one).trans before
    · exact before

omit h

theorem Reach.exact (reach : Reach w) : Exact w := by
  induction reach with
  | start => constructor <;> simp
  | @inbound w local_ remote _ apart ih =>
    have absent := ih.absent apart
    unfold Logic.new_inbound_slot
    split_ifs
    · simpa [World.take] using ih
    · exact (ih.emplace absent (by simp) rfl rfl).2
  | outbound remote _ ih =>
    unfold Logic.new_outbound_slot
    split_ifs with present
    · simpa [World.take] using ih
    · exact (ih.emplace (by simpa using present) (by simp) rfl rfl).2
  | @connected w i local_ _ mem _ state ih =>
    obtain ⟨anonymous, alone⟩ := ih.idle mem (by simp [state])
    unfold Logic.onConnected
    split_ifs
    · apply ih.change mem anonymous
      · rfl
      · exact ih.active i mem
      · exact ih.clustered i mem
      · simp [anonymous]
      · simp [counted_limited, state]
      · funext c
        simp [Counts.add, Counts.remove, adjust_apply, SlotImp.counted]
      · simp [anonymous]
    · apply ih.change mem anonymous <;>
        first | rfl | simp [anonymous, alone, counted_limited]
  | @activated w i key cluster _ mem state ih =>
    obtain ⟨anonymous, alone⟩ := ih.idle mem (by rcases state with state | state <;> simp [state])
    unfold Logic.activate
    split_ifs with known full
    · exact ih
    · exact ih
    · simp only [Logic.can_activate] at full
      apply ih.change mem anonymous
      · rfl
      · simp
      · simp
      · simpa using known
      · grind [counted_limited]
      · rw [counts_remove_add]
      · simp
  | closed _ mem ih => exact ih.close mem

theorem Exact.card (h : Exact w) (c : Counter) :
    w.counts c = (w.opened.filter fun i => (w.slot i).counted c).card := by
  rw [h.counts, Finset.card_filter, Nat.cast_sum]
  refine Finset.sum_congr rfl fun i _ => ?_
  cases (w.slot i).counted c <;> rfl

/-- The tables and counters are exact, and every slot that is returned is new. -/
theorem slots_exact (reach : Reach w) :
    (∀ local_ remote i, (∀ j ∈ w.opened, (w.slot j).m_remote_endpoint ≠ remote) →
      (w.new_inbound_slot local_ remote).1 = some i → i ∉ w.returned) ∧
    (∀ remote i, (w.new_outbound_slot remote).1 = some i → i ∉ w.returned) ∧
    (∀ e i, w.slots e = some i ↔ i ∈ w.opened ∧ (w.slot i).m_remote_endpoint = e) ∧
    (∀ c, w.counts c = (w.opened.filter fun i => (w.slot i).counted c).card) ∧
    (∀ k, k ∈ w.keys ↔ ∃ i ∈ w.opened, (w.slot i).m_state = .active ∧
      (w.slot i).m_public_key = some k) ∧
    w.connected_addresses =
      w.opened.val.map fun i => ⟨(w.slot i).m_remote_endpoint.address, 0⟩ := by
  have h := reach.exact
  have new : w.made ∉ w.returned := fun mem => (h.made _ mem).false
  refine ⟨fun local_ remote i apart found => ?_, fun remote i found => ?_, h.table, h.card,
    fun k => ?_, h.connected⟩
  · have absent := h.absent apart
    unfold Logic.new_inbound_slot at found
    split_ifs at found
    rw [(h.emplace absent (by simp) rfl rfl).1] at found
    exact Option.some.inj found ▸ new
  · unfold Logic.new_outbound_slot at found
    split_ifs at found with present
    rw [(h.emplace (by simpa using present) (by simp) rfl rfl).1] at found
    exact Option.some.inj found ▸ new
  · rw [h.keys]
    have active := h.active
    grind

/-- A connection that comes in from the endpoint of an open slot gets the slot that is open. -/
theorem slot_returned_twice :
    let l : Logic := { fixed := fun _ => false, m_in_max := 1, m_out_max := 1 }
    let r := l.new_outbound_slot ⟨1, 2⟩
    r.1 = some 0 ∧ (r.2.new_inbound_slot ⟨9, 9⟩ ⟨1, 2⟩).1 = some 0 := by
  decide

/-- The limits hold and no key is active twice. A slot finds no room exactly if it is not fixed and
the limit is reached, whether it is called a cluster slot or not. -/
theorem limits_kept (reach : Reach w) :
    (∀ inbound, (w.opened.filter fun i => (w.slot i).counted (Logic.limited inbound)).card ≤
      w.limit inbound) ∧
    (∀ i ∈ w.opened, ∀ j ∈ w.opened, ∀ k, (w.slot i).m_public_key = some k →
      (w.slot j).m_public_key = some k → i = j) ∧
    ∀ i ∈ w.opened, (w.slot i).m_state = .accept ∨ (w.slot i).m_state = .connected →
      ∀ key cluster, (w.activate i key cluster).1 = .full ↔
        key ∉ w.keys ∧ (w.slot i).m_fixed = false ∧
        (w.opened.filter fun j => (w.slot j).counted (Logic.limited (w.slot i).m_inbound)).card =
          w.limit (w.slot i).m_inbound := by
  have h := reach.exact
  have room : ∀ inbound, (w.opened.filter fun i =>
      (w.slot i).counted (Logic.limited inbound)).card ≤ w.limit inbound := by
    intro inbound
    exact Int.ofNat_le.1 (h.card _ ▸ h.room inbound)
  refine ⟨room, h.unique, fun i mem state key cluster => ?_⟩
  have alone := (h.idle mem (by rcases state with state | state <;> simp [state])).2
  have most := room (w.slot i).m_inbound
  unfold Logic.activate Logic.can_activate
  rw [h.card]
  grind

/-- The one place is taken, and a slot of the cluster is turned away. -/
theorem cluster_turned_away :
    let l : Logic := { fixed := fun _ => false, m_in_max := 1, m_out_max := 1 }
    let l := (l.new_inbound_slot ⟨9, 9⟩ ⟨1, 2⟩).2
    let l := (l.activate 0 5 false).2
    let l := (l.new_inbound_slot ⟨9, 9⟩ ⟨2, 2⟩).2
    (l.activate 1 6 true).1 = .full := by
  decide

end

/-- Slot 0 came in from endpoint 1.2 and has the key 5. -/
def oneActive : World :=
  let l : Logic := { fixed := fun _ => false, m_in_max := 1, m_out_max := 1 }
  let w := (⟨l, ∅, ∅⟩ : World).take (l.new_inbound_slot ⟨9, 9⟩ ⟨1, 2⟩)
  { w with toLogic := (w.activate 0 5 false).2 }

/-- Slot 1 has come in too, and there is no room for it. -/
def twoSlots : World := oneActive.take (oneActive.new_inbound_slot ⟨9, 9⟩ ⟨2, 2⟩)

theorem twoSlots_reach : Reach twoSlots := by
  refine .inbound ⟨9, 9⟩ (.activated 5 false (.inbound ⟨9, 9⟩ (.start _ 1 1) (by simp)) ?_ ?_) ?_
  · decide
  · decide
  · decide

theorem slots_exact_two :
    (twoSlots.slots ⟨2, 2⟩ = some 1 ∧ 1 ∈ twoSlots.opened) ∧
    (twoSlots.counts .in_active = 1 ∧
      (twoSlots.opened.filter fun i => (twoSlots.slot i).counted .in_active).card = 1) ∧
    5 ∈ twoSlots.keys ∧ ∃ i ∈ twoSlots.opened, (twoSlots.slot i).m_state = .active ∧
      (twoSlots.slot i).m_public_key = some 5 := by
  obtain ⟨-, -, table, counts, keys, -⟩ := slots_exact twoSlots_reach
  have found : twoSlots.slots ⟨2, 2⟩ = some 1 := by decide
  have one : twoSlots.counts .in_active = 1 := by decide
  have known : 5 ∈ twoSlots.keys := by decide
  refine ⟨⟨found, ((table _ _).1 found).1⟩, ⟨one, ?_⟩, known, (keys 5).1 known⟩
  exact Int.ofNat_inj.1 ((counts .in_active).symm.trans one)

theorem limits_kept_full :
    (twoSlots.opened.filter fun i => (twoSlots.slot i).counted .in_active).card ≤ 1 ∧
    (twoSlots.activate 1 6 true).1 = .full := by
  obtain ⟨limits, -, full⟩ := limits_kept twoSlots_reach
  refine ⟨limits true, (full 1 ?_ ?_ 6 true).2 ⟨?_, ?_, ?_⟩⟩
  all_goals decide

end Skywell.PeerFinder
