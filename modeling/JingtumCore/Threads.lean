import JingtumCore.Frames
import JingtumCore.Metadata

/-!
# Threading

What the functions behind `calcRawMeta` change: the threads of entries, and the
nodes of the metadata.
-/
namespace Skywell
open U32Field H256Field StateExcept

/-- Two entries that differ in their threads only. -/
def SLE.SameButThread (s s' : SLE) : Prop :=
  ∀ f, f ≠ .h256 sfPreviousTxnID → f ≠ .u32 sfPreviousTxnLgrSeq → s'.field f = s.field f

variable {f : AffectedNode → AffectedNode} {e e' : LedgerEntrySetEntry} {ks : List Key}
  {m : TransactionMetaSet}

theorem SLE.SameButThread.refl (s : SLE) : s.SameButThread s := fun _ _ _ => rfl

variable {s s' : SLE}

theorem SLE.SameButThread.trans {s'' : SLE} (h : s.SameButThread s')
    (h' : s'.SameButThread s'') : s.SameButThread s'' :=
  fun f h1 h2 => (h' f h1 h2).trans (h f h1 h2)

theorem SLE.SameButThread.get_eq (h : s.SameButThread s') {f : SField}
    (h1 : f ≠ .h256 sfPreviousTxnID) (h2 : f ≠ .u32 sfPreviousTxnLgrSeq) : s'.get f = s.get f := by
  rw [SLE.get, SLE.get, h f h1 h2]

theorem SLE.sameButThread_thread {txID prevTxID : TxID} {seq prevSeq : UInt32}
    (h : s.thread txID seq = some (s', prevTxID, prevSeq)) : s.SameButThread s' := by
  unfold SLE.thread at h
  dsimp only at h
  split at h
  · cases h
  · cases h
    intro f h1 h2
    rw [SLE.setFieldU32, SLE.field_set_of_ne _ h2, SLE.setFieldH256, SLE.field_set_of_ne _ h1]

/-- Two metadata sets of one transaction that may differ in their nodes. -/
structure TransactionMetaSet.SameButNodes (m m' : TransactionMetaSet) : Prop where
  transactionID : m'.mTransactionID = m.mTransactionID
  ledger : m'.mLedger = m.mLedger
  delivered : m'.mDelivered = m.mDelivered

namespace LedgerEntrySet
variable [Sha512Half] {v v' : LedgerEntrySet} {k : Key} {s : SLE}

section
omit [Sha512Half]

/-- What becomes of an entry while the metadata is made: its thread may change, and
the root of an owner that was only cached may count as modified. -/
def Rethreaded (k : Key) (e e' : LedgerEntrySetEntry) : Prop :=
  e.mEntry.SameButThread e'.mEntry ∧ (e'.mAction = e.mAction ∨
    k.type = .accountRoot ∧ e.mAction = .taaCACHED ∧ e'.mAction = .taaMODIFY)

theorem Rethreaded.trans {e'' : LedgerEntrySetEntry} (h : Rethreaded k e e')
    (h' : Rethreaded k e' e'') : Rethreaded k e e'' := by
  refine ⟨h.1.trans h'.1, ?_⟩
  rcases h.2 with h1 | ⟨ht, hc, hm⟩ <;> rcases h'.2 with h2 | ⟨ht', hc', hm'⟩
  · exact .inl (h2.trans h1)
  · exact .inr ⟨ht', h1 ▸ hc', hm'⟩
  · exact .inr ⟨ht, hc, h2.trans hm⟩
  · rw [hm] at hc'
    cases hc'

end

/-- What the functions behind `calcRawMeta` do to a set. -/
structure Passes (v v' : LedgerEntrySet) : Prop where
  ledger : v'.mLedger = v.mLedger
  metaSet : v.mSet.SameButNodes v'.mSet
  entries : ∀ (k : Key) e, v.mEntries[k]? = some e → ∃ e', v'.mEntries[k]? = some e' ∧ Rethreaded k e e'
  absent : ∀ k : Key, v.mEntries[k]? = none → v'.mEntries[k]? = none

instance : IsPreorder LedgerEntrySet Passes where
  refl v := ⟨rfl, ⟨rfl, rfl, rfl⟩, fun k e he => ⟨e, he, .refl _, .inl rfl⟩, fun _ => id⟩
  trans _ _ _ h h' :=
    { ledger := h'.ledger.trans h.ledger
      metaSet := ⟨h'.metaSet.1.trans h.metaSet.1, h'.metaSet.2.trans h.metaSet.2,
        h'.metaSet.3.trans h.metaSet.3⟩
      entries := fun k e he => by
        obtain ⟨e1, he1, h1⟩ := h.entries k e he
        obtain ⟨e2, he2, h2⟩ := h'.entries k e1 he1
        exact ⟨e2, he2, h1.trans h2⟩
      absent := fun k hk => h'.absent k (h.absent k hk) }

theorem passes_nodes (h : v.mSet.SameButNodes m) : Passes v { v with mSet := m } :=
  ⟨rfl, h, fun _ e he => ⟨e, he, .refl _, .inl rfl⟩, fun _ => id⟩

theorem passes_setEntry (he : v.mEntries[k]? = some e) (h : Rethreaded k e e') :
    Passes v (v.setEntry k e') where
  ledger := rfl
  metaSet := ⟨rfl, rfl, rfl⟩
  entries k' e1 he1 := by
    by_cases hk : k = k'
    · subst hk
      cases he.symm.trans he1
      exact ⟨e', by simp, h⟩
    · exact ⟨e1, by simpa [hk] using he1, .refl _, .inl rfl⟩
  absent k' hk' := by
    have hk : k ≠ k' := by
      rintro rfl
      cases he.symm.trans hk'
    simpa [hk] using hk'

theorem setAffectedNode_passes (k : Key) (kind : NodeKind) :
    Keeps Passes (setAffectedNode k kind) := by
  intro v
  refine spec_modify.2 (passes_nodes ?_)
  unfold TransactionMetaSet.setAffectedNode TransactionMetaSet.updateNode
  split <;> exact ⟨rfl, rfl, rfl⟩

theorem updateNode_passes (k : Key) : Keeps Passes (updateNode k f) :=
  fun _ => spec_modify.2 (passes_nodes ⟨rfl, rfl, rfl⟩)

theorem threadTx_passes (k : Key) (s : SLE) : Spec (threadTx k s) v fun r v' =>
    (∃ m, v.mSet.SameButNodes m ∧ v' = { v with mSet := m }) ∧
      ∀ s', r.1 = some s' → s.SameButThread s' := by
  unfold threadTx
  rw [spec_bind, spec_get]
  cases ht : s.thread v.mSet.mTransactionID v.mSet.mLedger with
  | none => exact spec_pure.2 ⟨⟨v.mSet, ⟨rfl, rfl, rfl⟩, rfl⟩, by simp⟩
  | some x =>
    obtain ⟨threaded, prevTxID, prevLgrID⟩ := x
    have hs : ∀ s', some threaded = some s' → s.SameButThread s' := by
      rintro _ ⟨⟩
      exact SLE.sameButThread_thread ht
    refine spec_ite.2 ⟨fun _ => spec_pure.2 ⟨⟨v.mSet, ⟨rfl, rfl, rfl⟩, rfl⟩, hs⟩, fun _ => ?_⟩
    refine spec_bind.2 (spec_set.2 (spec_pure.2 ⟨⟨_, ?_, rfl⟩, hs⟩))
    unfold TransactionMetaSet.getAffectedNode TransactionMetaSet.thread TransactionMetaSet.updateNode
    split <;> exact ⟨rfl, rfl, rfl⟩

theorem threadEntry_passes (k : Key) : Keeps Passes (threadEntry k) := by
  intro v
  refine spec_bind.2 <| spec_deref.2 fun e he => spec_bind.2 <| (threadTx_passes k e.mEntry).mono ?_
  rintro ⟨threaded, ok⟩ _ ⟨⟨m, hm, rfl⟩, hs⟩
  have h1 : Passes v { v with mSet := m } := passes_nodes hm
  cases threaded with
  | none => exact spec_pure.2 h1
  | some s' =>
    refine spec_bind.2 <| spec_assign.2 fun e' he' => spec_pure.2 ?_
    cases he.symm.trans he'
    exact IsTrans.trans _ _ _ h1 (passes_setEntry he' ⟨hs s' rfl, .inl rfl⟩)

/-- Roots of owners that the set does not hold, with a new thread. -/
def NewModsOk (v : LedgerEntrySet) (newMods : NewMods) : Prop :=
  ∀ k s', newMods[k]? = some s' → k.type = .accountRoot ∧ v.mEntries[k]? = none ∧
    ∃ s, v.mLedger.getSLE k = some s ∧ s.SameButThread s'

variable {newMods : NewMods}

theorem NewModsOk.passes (h : NewModsOk v newMods) (hp : Passes v v') :
    NewModsOk v' newMods := by
  intro k s' hk
  obtain ⟨ht, he, s, hs, hsame⟩ := h k s' hk
  exact ⟨ht, hp.absent k he, s, hp.ledger ▸ hs, hsame⟩

theorem threadAccount_passes {account : Account} (h : NewModsOk v newMods) :
    Spec (threadAccount account newMods) v fun r v' => Passes v v' ∧ NewModsOk v' r.2 := by
  unfold threadAccount
  rw [spec_bind, spec_get]
  cases he : v.mEntries[getAccountRootIndex account]? with
  | some e =>
    refine spec_ite.2 ⟨fun _ => spec_pure.2 ⟨refl v, h⟩, fun _ => ?_⟩
    have thread {v1 : LedgerEntrySet} (h1 : Passes v v1) : Spec (do
        return (← threadEntry (getAccountRootIndex account), newMods)) v1 fun r v' =>
        Passes v v' ∧ NewModsOk v' r.2 := by
      refine spec_bind.2 <| (threadEntry_passes _ v1).mono fun ok v2 h2 => spec_pure.2 ?_
      have h2 : Passes v v2 := IsTrans.trans _ _ _ h1 h2
      exact ⟨h2, h.passes h2⟩
    refine spec_ite.2 ⟨fun hc => spec_bind.2 (spec_set.2 (thread ?_)), fun _ => thread (refl v)⟩
    exact passes_setEntry he ⟨.refl _, .inr ⟨rfl, hc, rfl⟩⟩
  | none =>
    cases hs : newMods[getAccountRootIndex account]?.or
        (v.mLedger.getSLE (getAccountRootIndex account)) with
    | none => exact spec_pure.2 ⟨refl v, h⟩
    | some sle =>
      refine spec_bind.2 <| (threadTx_passes _ sle).mono ?_
      rintro ⟨threaded, ok⟩ _ ⟨⟨m, hm, rfl⟩, hthread⟩
      refine spec_pure.2 ⟨passes_nodes hm, fun k s' hk => ?_⟩
      rw [Std.ExtTreeMap.getElem?_insert] at hk
      split at hk
      · next hkk =>
        cases Key.cmp_eq_iff.1 hkk
        cases hk
        obtain ⟨s, hbase, hsame⟩ : ∃ s, v.mLedger.getSLE (getAccountRootIndex account) = some s ∧
            s.SameButThread sle := by
          rcases Option.or_eq_some_iff.1 hs with hn | ⟨-, hb⟩
          · exact (h _ _ hn).2.2
          · exact ⟨sle, hb, .refl sle⟩
        refine ⟨rfl, he, s, hbase, ?_⟩
        cases threaded with
        | none => exact hsame
        | some s' => exact hsame.trans (hthread s' rfl)
      · exact h.passes (passes_nodes hm) k s' hk

theorem threadOwners_passes (k : Key) (node : SLE)
    (h : NewModsOk v newMods) :
    Spec (threadOwners k node newMods) v fun r v' => Passes v v' ∧ NewModsOk v' r.2 := by
  refine spec_ite.2 ⟨fun _ => threadAccount_passes h, fun _ => spec_ite.2 ⟨fun _ => ?_, fun _ =>
    spec_pure.2 ⟨refl v, h⟩⟩⟩
  refine spec_bind.2 <| (threadAccount_passes h).mono fun ⟨ok, newMods1⟩ v1 ⟨h1, hn1⟩ => ?_
  refine spec_ite.2 ⟨fun _ => ?_, fun _ => spec_pure.2 ⟨h1, hn1⟩⟩
  exact (threadAccount_passes hn1).mono fun _ _ h2 => ⟨IsTrans.trans _ _ _ h1 h2.1, h2.2⟩

/-- An entry of which only the thread may change in the pass. -/
def Unowned (v : LedgerEntrySet) (k : Key) : Prop :=
  ∀ e, v.mEntries[k]? = some e → e.mAction = .taaCACHED ∨ e.mAction = .taaMODIFY

theorem calcModified_passes (k : Key) (orig : SLE) : Keeps Passes (calcModified k orig) := by
  refine .bind (setAffectedNode_passes _ _) fun _ => keeps_when ?_ fun _ => ?_
  · exact .map _ (threadEntry_passes k)
  · refine .bind (fun v => spec_deref.2 fun _ _ => refl v) fun _ => updateNode_passes _

theorem calcDeleted_passes (k : Key) (orig cur : SLE)
    (h : NewModsOk v newMods) : Spec (calcDeleted k orig cur newMods) v fun newMods' v' =>
      Passes v v' ∧ NewModsOk v' newMods' := by
  refine spec_bind.2 <| (setAffectedNode_passes k .deleted v).mono fun _ v1 h1 => ?_
  refine spec_bind.2 <| (threadOwners_passes k orig (h.passes h1)).mono
    fun ⟨_, newMods1⟩ v2 ⟨h2, hn2⟩ => ?_
  refine spec_bind.2 <| (updateNode_passes k v2).mono fun _ v3 h3 => spec_pure.2 ?_
  exact ⟨IsTrans.trans _ _ _ h1 (IsTrans.trans _ _ _ h2 h3), hn2.passes h3⟩

theorem calcCreated_passes (k : Key) (cur : SLE) (h : NewModsOk v newMods) :
    Spec (calcCreated k cur newMods) v fun newMods' v' => Passes v v' ∧ NewModsOk v' newMods' := by
  refine spec_bind.2 <| (setAffectedNode_passes k .created v).mono fun _ v1 h1 => ?_
  refine spec_bind.2 <| (threadOwners_passes k cur (h.passes h1)).mono
    fun ⟨_, newMods1⟩ v2 ⟨h2, hn2⟩ => ?_
  have rest {v3 : LedgerEntrySet} (h3 : Passes v2 v3) : Spec (do
      let cur ← deref k
      updateNode k fun n => { n with newFields := newFields cur }
      return newMods1) v3 fun newMods' v' => Passes v v' ∧ NewModsOk v' newMods' := by
    refine spec_bind.2 <| spec_deref.2 fun _ _ => spec_bind.2 <| (updateNode_passes _ v3).mono ?_
    intro _ v4 h4
    have h4 : Passes v2 v4 := IsTrans.trans _ _ _ h3 h4
    exact spec_pure.2 ⟨IsTrans.trans _ _ _ h1 (IsTrans.trans _ _ _ h2 h4), hn2.passes h4⟩
  refine spec_ite.2 ⟨fun _ => spec_bind.2 <| spec_map.2 ?_, fun _ => rest (refl v2)⟩
  exact (threadEntry_passes k v2).mono fun _ _ h3 => rest h3

theorem calcNode_passes (k : Key) (h : NewModsOk v newMods) :
    Spec (calcNode k newMods) v fun newMods' v' => Passes v v' ∧ NewModsOk v' newMods' ∧
      (v.Unowned k → newMods' = newMods) := by
  unfold calcNode
  rw [spec_bind, spec_get]
  cases he : v.mEntries[k]? with
  | none => exact spec_pure.2 ⟨refl v, h, fun _ => rfl⟩
  | some e =>
    obtain ⟨s, a⟩ := e
    have owned (ha : a ≠ .taaCACHED ∧ a ≠ .taaMODIFY) : ¬v.Unowned k := fun hu =>
      (hu _ he).elim ha.1 ha.2
    cases a with
    | taaCACHED => exact spec_pure.2 ⟨refl v, h, fun _ => rfl⟩
    | taaMODIFY =>
      cases v.mLedger.getSLE k with
      | none => exact spec_throw.2 trivial
      | some orig =>
        refine spec_ite.2 ⟨fun _ => spec_bind.2 ?_, fun _ => spec_pure.2 ⟨refl v, h, fun _ => rfl⟩⟩
        exact (calcModified_passes k orig v).mono fun _ _ h1 =>
          spec_pure.2 ⟨h1, h.passes h1, fun _ => rfl⟩
    | taaDELETE =>
      cases v.mLedger.getSLE k with
      | none => exact spec_throw.2 trivial
      | some orig =>
        exact (calcDeleted_passes k orig s h).mono fun _ _ h1 =>
          ⟨h1.1, h1.2, fun hu => absurd hu (owned (by simp))⟩
    | taaCREATE =>
      exact (calcCreated_passes k s h).mono fun _ _ h1 =>
        ⟨h1.1, h1.2, fun hu => absurd hu (owned (by simp))⟩

theorem Unowned.passes (h : v.Unowned k) (hp : Passes v v') : v'.Unowned k := by
  intro e' he'
  cases he : v.mEntries[k]? with
  | none =>
    rw [hp.absent k he] at he'
    cases he'
  | some e =>
    obtain ⟨e1, he1, hr⟩ := hp.entries k e he
    cases he'.symm.trans he1
    rcases hr.2 with ha | ⟨-, -, ha⟩
    · exact ha ▸ h e he
    · exact .inr ha

theorem calcNodes_passes (h : NewModsOk v newMods) :
    Spec (calcNodes ks newMods) v fun newMods' v' => Passes v v' ∧ NewModsOk v' newMods' ∧
      ((∀ k, v.Unowned k) → newMods' = newMods) := by
  induction ks generalizing v newMods with
  | nil => exact spec_pure.2 ⟨refl v, h, fun _ => rfl⟩
  | cons k ks ih =>
    refine spec_bind.2 <| (calcNode_passes k h).mono fun newMods1 v1 ⟨h1, hn1, he1⟩ => ?_
    refine (ih hn1).mono fun newMods2 v2 ⟨h2, hn2, he2⟩ => ?_
    refine ⟨IsTrans.trans _ _ _ h1 h2, hn2, fun hu => ?_⟩
    rw [he2 fun k => (hu k).passes h1, he1 (hu k)]

/-- Every node of the metadata is of an index with the property. -/
def NodesOf (P : Key → Prop) (v : LedgerEntrySet) : Prop := ∀ n ∈ v.mSet.mNodes, P n.ledgerIndex

/-- A program that adds nodes of such indexes only. -/
abbrev AddsNodes (P : Key → Prop) (m : LES α) : Prop :=
  Keeps (fun v v' => NodesOf P v → NodesOf P v') m

variable {P : Key → Prop}

instance : IsPreorder LedgerEntrySet fun v v' => NodesOf P v → NodesOf P v' where
  refl _ := id
  trans _ _ _ h h' := h' ∘ h

omit [Sha512Half] in
theorem mem_updateNode {n : AffectedNode} (hf : ∀ n, (f n).ledgerIndex = n.ledgerIndex)
    (hn : n ∈ (m.updateNode k f).mNodes) : ∃ n' ∈ m.mNodes, n'.ledgerIndex = n.ledgerIndex := by
  obtain ⟨n', hn', rfl⟩ := List.mem_map.1 hn
  refine ⟨n', hn', ?_⟩
  split
  · exact (hf n').symm
  · rfl

theorem updateNode_addsNodes (hf : ∀ n, (f n).ledgerIndex = n.ledgerIndex) :
    AddsNodes P (updateNode k f) := by
  intro v
  refine spec_modify.2 fun h n hn => ?_
  obtain ⟨n', hn', e⟩ := mem_updateNode hf hn
  exact e ▸ h n' hn'

theorem setAffectedNode_addsNodes (hk : P k) {kind : NodeKind} :
    AddsNodes P (setAffectedNode k kind) := by
  intro v
  refine spec_modify.2 fun h n hn => ?_
  simp only [TransactionMetaSet.setAffectedNode] at hn
  split at hn
  · obtain ⟨n', hn', e⟩ := mem_updateNode (by intro n; rfl) hn
    exact e ▸ h n' hn'
  · rcases List.mem_append.1 hn with hn | hn
    · exact h n hn
    · cases List.mem_singleton.1 hn
      exact hk

theorem threadTx_addsNodes (hk : P k) (s : SLE) : AddsNodes P (threadTx k s) := by
  refine fun v => spec_bind.2 (spec_get.2 ?_)
  cases s.thread v.mSet.mTransactionID v.mSet.mLedger with
  | none => exact spec_pure.2 id
  | some x =>
    refine spec_ite.2 ⟨fun _ => spec_pure.2 id, fun _ => spec_bind.2 (spec_set.2 (spec_pure.2 ?_))⟩
    intro h n hn
    obtain ⟨n', hn', e⟩ := mem_updateNode (by intro n; split <;> rfl) hn
    rw [← e]
    unfold TransactionMetaSet.getAffectedNode at hn'
    split at hn'
    · exact h n' hn'
    · rcases List.mem_append.1 hn' with hn' | hn'
      · exact h n' hn'
      · cases List.mem_singleton.1 hn'
        exact hk

theorem threadEntry_addsNodes (hk : P k) : AddsNodes P (threadEntry k) := by
  refine .bind (fun v => spec_deref.2 fun _ _ => id) fun s => .bind (threadTx_addsNodes hk s) ?_
  rintro ⟨threaded, ok⟩
  cases threaded with
  | none => exact keeps_pure _
  | some s' => exact .bind (fun v => spec_assign.2 fun _ _ => id) fun _ => keeps_pure _

theorem calcModified_addsNodes (hk : P k) (orig : SLE) : AddsNodes P (calcModified k orig) := by
  refine .bind (setAffectedNode_addsNodes hk) fun _ => keeps_when ?_ fun _ => ?_
  · exact .map _ (threadEntry_addsNodes hk)
  · exact .bind (fun v => spec_deref.2 fun _ _ => id) fun _ => updateNode_addsNodes fun _ => rfl

theorem calcNode_addsNodes (hk : P k) (hu : v.Unowned k) :
    Spec (calcNode k newMods) v fun _ v' => NodesOf P v → NodesOf P v' := by
  unfold calcNode
  rw [spec_bind, spec_get]
  cases he : v.mEntries[k]? with
  | none => exact spec_pure.2 id
  | some e =>
    obtain ⟨s, a⟩ := e
    rcases hu _ he with rfl | rfl
    · exact spec_pure.2 id
    · cases v.mLedger.getSLE k with
      | none => exact spec_throw.2 trivial
      | some orig =>
        refine spec_ite.2 ⟨fun _ => spec_bind.2 ?_, fun _ => spec_pure.2 id⟩
        exact (calcModified_addsNodes hk orig v).mono fun _ _ h => spec_pure.2 h

theorem calcNodes_addsNodes (hks : ∀ k ∈ ks, P k) (hu : ∀ k, v.Unowned k) (h : NewModsOk v newMods) :
    Spec (calcNodes ks newMods) v fun _ v' => NodesOf P v → NodesOf P v' := by
  induction ks generalizing v newMods with
  | nil => exact spec_pure.2 id
  | cons k ks ih =>
    refine spec_bind.2 ?_
    refine ((calcNode_passes k h).and (calcNode_addsNodes (hks k (by simp)) (hu k))).mono ?_
    rintro newMods1 v1 ⟨⟨hp, hn1, -⟩, h1⟩
    refine (ih (fun k hk => hks k (by simp [hk])) (fun k => (hu k).passes hp) hn1).mono ?_
    exact fun _ _ h2 => h2 ∘ h1

/-- What the metadata makes of the entry of an index: owners' roots that the set
did not hold are in it now, as modified. -/
def Described (v v' : LedgerEntrySet) (k : Key) : Prop :=
  (∃ e e', v.mEntries[k]? = some e ∧ v'.mEntries[k]? = some e' ∧ Rethreaded k e e') ∨
  v.mEntries[k]? = none ∧ (v'.mEntries[k]? = none ∨ k.type = .accountRoot ∧ ∃ s s',
    v.mLedger.getSLE k = some s ∧ s.SameButThread s' ∧ v'.mEntries[k]? = some ⟨s', .taaMODIFY⟩)

/-- The roots kept apart are put into the set. -/
theorem forM_entryModifyRef {es : List (Key × SLE)} (hd : es.Pairwise (·.1 ≠ ·.1))
    (hn : ∀ x ∈ es, v.mEntries[x.1]? = none) :
    Spec (es.forM fun (k, sle) => entryModifyRef k sle) v fun _ v' => v'.mLedger = v.mLedger ∧
      v'.mSet = v.mSet ∧ (∀ x ∈ es, v'.mEntries[x.1]? = some ⟨x.2, .taaMODIFY⟩) ∧
      ∀ k, (∀ x ∈ es, x.1 ≠ k) → v'.mEntries[k]? = v.mEntries[k]? := by
  induction es generalizing v with
  | nil => exact spec_pure.2 ⟨rfl, rfl, by simp, fun _ _ => rfl⟩
  | cons x es ih =>
    obtain ⟨hx, hd⟩ := List.pairwise_cons.1 hd
    have hfirst : entryModifyRef x.1 x.2 v = .ok ((), v.setEntry x.1 ⟨x.2, .taaMODIFY⟩) := by
      rw [entryModifyRef, get_bind_apply, hn x (by simp)]
      rfl
    rw [List.forM_eq_forM, List.forM_cons, spec_bind]
    intro _ v1 h1
    cases hfirst.symm.trans h1
    have hnone : ∀ y ∈ es, (v.setEntry x.1 ⟨x.2, .taaMODIFY⟩).mEntries[y.1]? = none := by
      intro y hy
      rw [getElem?_setEntry, if_neg (hx y hy), hn y (by simp [hy])]
    refine (ih hd hnone).mono ?_
    rintro _ v2 ⟨hl, hm, hin, hout⟩
    refine ⟨hl, hm, fun y hy => ?_, fun k hk => ?_⟩
    · rcases List.mem_cons.1 hy with rfl | hy
      · rw [hout _ fun z hz => (hx z hz).symm, getElem?_setEntry, if_pos rfl]
      · exact hin y hy
    · rw [hout k fun y hy => hk y (by simp [hy]), getElem?_setEntry, if_neg (hk x (by simp))]

theorem calcRawMeta_spec (ter : TER) (index : UInt32) :
    Spec (calcRawMeta ter index) v fun metaData v' => v'.mLedger = v.mLedger ∧
      v.mSet.SameButNodes metaData ∧ (∀ k, Described v v' k) ∧
      ((∀ k, v.Unowned k) → ∀ k : Key, v.mEntries[k]? = none → v'.mEntries[k]? = none) := by
  unfold calcRawMeta
  rw [spec_bind, spec_get, spec_bind]
  have hempty : NewModsOk v ∅ := fun k s' hk => by simp at hk
  refine (calcNodes_passes hempty).mono fun newMods v1 ⟨h1, hn1, hsame⟩ => spec_bind.2 ?_
  have hmem {k : Key} {s : SLE} : (k, s) ∈ newMods.toList ↔ newMods[k]? = some s :=
    Std.ExtTreeMap.mem_toList_iff_getElem?_eq_some
  have hd : newMods.toList.Pairwise (·.1 ≠ ·.1) :=
    Std.ExtTreeMap.distinct_keys_toList.imp fun hne he => hne (Key.cmp_eq_iff.2 he)
  refine (forM_entryModifyRef hd fun x hx => (hn1 _ _ (hmem.1 hx)).2.1).mono
    fun _ v2 ⟨hl, hm, hin, hout⟩ => ?_
  rw [spec_bind, spec_get, spec_bind, spec_set, spec_pure]
  -- an index that is not among the roots kept apart
  have hkeep {k : Key} (hk : newMods[k]? = none) : v2.mEntries[k]? = v1.mEntries[k]? := by
    refine hout k fun x hx e => ?_
    rw [← e, hmem.1 hx] at hk
    cases hk
  refine ⟨hl.trans h1.ledger, ?_, fun k => ?_, fun hu k hk => ?_⟩
  · rw [hm]
    exact ⟨h1.metaSet.1, h1.metaSet.2, h1.metaSet.3⟩
  · cases hk : newMods[k]? with
    | none =>
      cases he : v.mEntries[k]? with
      | none => exact .inr ⟨he, .inl ((hkeep hk).trans (h1.absent k he))⟩
      | some e =>
        obtain ⟨e', he', hr⟩ := h1.entries k e he
        exact .inl ⟨e, e', he, (hkeep hk).trans he', hr⟩
    | some s' =>
      obtain ⟨ht, habsent, s, hs, hss⟩ := hn1 k s' hk
      have hv : v.mEntries[k]? = none := by
        cases he : v.mEntries[k]? with
        | none => rfl
        | some e =>
          obtain ⟨e', he', -⟩ := h1.entries k e he
          cases habsent.symm.trans he'
      exact .inr ⟨hv, .inr ⟨ht, s, s', h1.ledger ▸ hs, hss, hin _ (hmem.2 hk)⟩⟩
  · rw [hkeep (by rw [hsame hu]; simp)]
    exact h1.absent k hk

/-- Without owners to thread, the stored nodes are of entries of the set. -/
theorem calcRawMeta_nodes (hu : ∀ k, v.Unowned k) (hks : ∀ k ∈ v.mEntries.keys, P k)
    (h0 : NodesOf P v) (ter : TER) {index : UInt32} :
    Spec (calcRawMeta ter index) v fun metaData _ => ∀ n ∈ metaData.mNodes, P n.ledgerIndex := by
  unfold calcRawMeta
  rw [spec_bind, spec_get, spec_bind]
  have hempty : NewModsOk v ∅ := fun k s' hk => by simp at hk
  refine ((calcNodes_passes hempty).and (calcNodes_addsNodes hks hu hempty)).mono ?_
  rintro newMods v1 ⟨⟨-, -, hnone⟩, h1⟩
  have hlist : (∅ : NewMods).toList = [] := rfl
  rw [hnone hu, hlist, List.forM_eq_forM, List.forM_nil, spec_bind, spec_pure,
    spec_bind, spec_get, spec_bind, spec_set, spec_pure]
  intro n hn
  exact h1 h0 n ((List.mem_insertionSort _).1 hn)

end LedgerEntrySet

end Skywell
