import Mathlib.Data.Finset.Card
import Std.Data.ExtTreeMap

/-!
# Counting the entries of a finite map

The keys of a map whose value has a property, as a finite set. A loop that counts
entries counts its elements.
-/
namespace MapCount
open Std

variable {α β : Type} {cmp : α → α → Ordering} [TransCmp cmp] [LawfulEqCmp cmp] [DecidableEq α]

/-- The keys whose value satisfies `p`. -/
def having (m : ExtTreeMap α β cmp) (p : β → Bool) : Finset α :=
  m.keys.toFinset.filter fun k => (m[k]?).any p

variable {m : ExtTreeMap α β cmp} {p : β → Bool} {k : α}

@[simp] theorem mem_having : k ∈ having m p ↔ ∃ v, m[k]? = some v ∧ p v = true := by
  rw [having, Finset.mem_filter, List.mem_toFinset, ExtTreeMap.mem_keys,
    ExtTreeMap.mem_iff_isSome_getElem?]
  cases m[k]? <;> simp

theorem having_empty : having (∅ : ExtTreeMap α β cmp) p = ∅ := by
  ext k
  simp

theorem countP_toList : m.toList.countP (fun e => p e.2) = (having m p).card := by
  have hkeys : m.keys.countP (fun k => (m[k]?).any p) = m.toList.countP fun e => p e.2 := by
    rw [← ExtTreeMap.map_fst_toList_eq_keys, List.countP_map]
    refine List.countP_congr fun e he => ?_
    have := ExtTreeMap.mem_toList_iff_getElem?_eq_some.1 he
    simp [this]
  rw [← hkeys, having, ← List.toFinset_filter,
    List.toFinset_card_of_nodup (ExtTreeMap.nodup_keys.filter _), List.countP_eq_length_filter]

end MapCount
