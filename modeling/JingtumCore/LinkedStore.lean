import Mathlib.Data.List.Basic

/-!
# Doubly linked lists in a store

A store maps names to cells, and a cell names its neighbours. `Linked` says that
a list of names with their entries is what following the links of the store
gives, between a name before it and one after it. A list that has a header cell
is one whose name before is kept in that cell.
-/
namespace LinkedStore

/-- What the store has under a name. -/
structure Cell (ν ε : Type) where
  entries : ε
  next : ν
  previous : ν

abbrev Store (ν ε : Type) := ν → Option (Cell ν ε)

variable {ν ε : Type}

def firstOr (after : ν) : List (ν × ε) → ν
  | [] => after
  | c :: _ => c.1

def lastOr (before : ν) : List (ν × ε) → ν
  | [] => before
  | c :: l => lastOr c.1 l

@[simp] theorem firstOr_nil (after : ν) : firstOr after ([] : List (ν × ε)) = after := rfl

@[simp] theorem firstOr_cons (after : ν) (c : ν × ε) (l : List (ν × ε)) :
    firstOr after (c :: l) = c.1 := rfl

@[simp] theorem lastOr_nil (before : ν) : lastOr before ([] : List (ν × ε)) = before := rfl

@[simp] theorem lastOr_cons (before : ν) (c : ν × ε) (l : List (ν × ε)) :
    lastOr before (c :: l) = lastOr c.1 l := rfl

@[simp] theorem firstOr_append (after : ν) (l m : List (ν × ε)) :
    firstOr after (l ++ m) = firstOr (firstOr after m) l := by
  cases l with
  | nil => rfl
  | cons c l => rfl

@[simp] theorem lastOr_append (before : ν) (l m : List (ν × ε)) :
    lastOr before (l ++ m) = lastOr (lastOr before l) m := by
  induction l generalizing before with
  | nil => rfl
  | cons c l ih => exact ih c.1

variable {l m : List (ν × ε)} {after before n : ν} {s : Store ν ε} {entries : ε}

theorem firstOr_mem (after : ν) (h : l ≠ []) :
    firstOr after l ∈ l.map Prod.fst := by
  cases l with
  | nil => exact absurd rfl h
  | cons c l => exact List.mem_cons_self

theorem lastOr_mem (before : ν) (h : l ≠ []) :
    lastOr before l ∈ l.map Prod.fst := by
  induction l generalizing before with
  | nil => exact absurd rfl h
  | cons c l ih =>
    by_cases last : l = []
    · subst last
      exact List.mem_cons_self
    · exact List.mem_cons_of_mem _ (ih c.1 last)

theorem lastOr_eq_of_ne_nil (before before' : ν) (h : l ≠ []) :
    lastOr before l = lastOr before' l := by
  cases l with
  | nil => exact absurd rfl h
  | cons c l => rfl

theorem eq_singleton (distinct : (l.map Prod.fst).Nodup)
    (some_ : l ≠ []) (same : lastOr before l = firstOr after l) : ∃ c, l = [c] := by
  cases l with
  | nil => exact absurd rfl some_
  | cons c l =>
    by_cases more : l = []
    · exact ⟨c, by rw [more]⟩
    · rw [List.map_cons, List.nodup_cons] at distinct
      have member := lastOr_mem c.1 more
      rw [lastOr_cons] at same
      rw [same] at member
      exact absurd member distinct.1

def Linked (s : Store ν ε) : ν → List (ν × ε) → ν → Prop
  | _, [], _ => True
  | before, (n, entries) :: l, after =>
    s n = some ⟨entries, firstOr after l, before⟩ ∧ Linked s n l after

theorem linked_append :
    Linked s before (l ++ m) after ↔
      Linked s before l (firstOr after m) ∧ Linked s (lastOr before l) m after := by
  induction l generalizing before with
  | nil => simp [Linked]
  | cons c l ih =>
    simp [Linked, ih, and_assoc]

theorem Linked.congr {s' : Store ν ε}
    (h : Linked s before l after) (same : ∀ n ∈ l.map Prod.fst, s' n = s n) :
    Linked s' before l after := by
  induction l generalizing before with
  | nil => trivial
  | cons c l ih =>
    refine ⟨(same _ List.mem_cons_self).trans h.1, ?_⟩
    exact ih h.2 fun n hn => same n (List.mem_cons_of_mem _ hn)

theorem Linked.cell (h : Linked s before (l ++ (n, entries) :: m) after) :
    s n = some ⟨entries, firstOr after m, lastOr before l⟩ :=
  (linked_append.1 h).2.1

theorem Linked.exists_of_mem
    (h : Linked s before l after) (member : n ∈ l.map Prod.fst) : ∃ c, s n = some c := by
  obtain ⟨⟨n, entries⟩, cell, rfl⟩ := List.mem_map.1 member
  obtain ⟨l, m, rfl⟩ := List.append_of_mem cell
  exact ⟨_, h.cell⟩

variable [DecidableEq ν]

def setNext (s : Store ν ε) (n next : ν) : Store ν ε :=
  Function.update s n ((s n).map fun c => { c with next := next })

def setPrevious (s : Store ν ε) (n previous : ν) : Store ν ε :=
  Function.update s n ((s n).map fun c => { c with previous := previous })

theorem Linked.update
    (h : Linked s before l after) (other : n ∉ l.map Prod.fst) (c : Option (Cell ν ε)) :
    Linked (Function.update s n c) before l after :=
  h.congr fun _ member => Function.update_of_ne (ne_of_mem_of_not_mem member other) ..

theorem Linked.setNext
    (h : Linked s before l after) (distinct : (l.map Prod.fst).Nodup) (some_ : l ≠ [])
    (after' : ν) : Linked (setNext s (lastOr before l) after') before l after' := by
  obtain ⟨m, c, rfl⟩ := (List.eq_nil_or_concat' l).resolve_left some_
  obtain ⟨front, cell, -⟩ := linked_append.1 h
  rw [List.map_append, List.nodup_append] at distinct
  rw [lastOr_append, lastOr_cons]
  refine linked_append.2 ⟨?_, ?_, trivial⟩
  · refine front.update (fun member => ?_) _
    exact distinct.2.2 _ member _ (by simp) rfl
  · simp [LinkedStore.setNext, cell]

/-- The first cell names what comes before the list. -/
theorem Linked.setPrevious
    (h : Linked s before l after) (distinct : (l.map Prod.fst).Nodup) (some_ : l ≠ [])
    (before' : ν) : Linked (setPrevious s (firstOr after l) before') before' l after := by
  cases l with
  | nil => exact absurd rfl some_
  | cons c l =>
    rw [List.map_cons, List.nodup_cons] at distinct
    refine ⟨?_, h.2.update distinct.1 _⟩
    simp [LinkedStore.setPrevious, h.1]

/-- The entries of one cell are changed. -/
theorem Linked.replace (h : Linked s before (l ++ (n, entries) :: m) after)
    (distinct : ((l ++ (n, entries) :: m).map Prod.fst).Nodup) (entries' : ε) :
    Linked (Function.update s n (some ⟨entries', firstOr after m, lastOr before l⟩)) before
      (l ++ (n, entries') :: m) after := by
  obtain ⟨front, -, back⟩ := linked_append.1 h
  rw [List.map_append, List.map_cons, List.nodup_append, List.nodup_cons] at distinct
  obtain ⟨-, ⟨notBack, -⟩, apart⟩ := distinct
  refine linked_append.2 ⟨?_, ?_, back.update notBack _⟩
  · exact front.update (fun member => apart _ member _ List.mem_cons_self rfl) _
  · exact Function.update_self ..

/-- A cell is put at the end of a list whose last cell names it. -/
theorem Linked.snoc (h : Linked s before l n)
    (new : n ∉ l.map Prod.fst) (entries : ε) (after : ν) :
    Linked (Function.update s n (some ⟨entries, after, lastOr before l⟩)) before
      (l ++ [(n, entries)]) after :=
  linked_append.2 ⟨h.update new _, Function.update_self .., trivial⟩

/-- A cell between two others is taken out. -/
theorem Linked.unlink (h : Linked s before (l ++ (n, entries) :: m) after)
    (distinct : ((l ++ (n, entries) :: m).map Prod.fst).Nodup) (someBefore : l ≠ [])
    (someAfter : m ≠ []) :
    Linked (Function.update (LinkedStore.setPrevious
        (LinkedStore.setNext s (lastOr before l) (firstOr after m))
        (firstOr after m) (lastOr before l)) n none) before (l ++ m) after := by
  obtain ⟨front, -, back⟩ := linked_append.1 h
  rw [List.map_append, List.map_cons, List.nodup_append, List.nodup_cons] at distinct
  obtain ⟨front', ⟨notBack, back'⟩, apart⟩ := distinct
  have notFront : n ∉ l.map Prod.fst := fun member => apart _ member _ List.mem_cons_self rfl
  refine linked_append.2 ⟨?_, ?_⟩
  · refine (Linked.update ?_ (fun member => ?_) _).update notFront _
    · exact front.setNext front' someBefore _
    · exact apart _ member _ (List.mem_cons_of_mem _ (firstOr_mem after someAfter)) rfl
  · refine Linked.update ?_ notBack _
    refine Linked.setPrevious (Linked.update back (fun member => ?_) _) back' someAfter _
    exact apart _ (lastOr_mem before someBefore) _ (List.mem_cons_of_mem _ member) rfl

end LinkedStore
