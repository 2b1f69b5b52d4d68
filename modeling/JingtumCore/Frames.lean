import JingtumCore.TrustLines
import JingtumCore.Views

/-!
# What code may do to the entries of a set

Each entry of a ledger entry set moves through its states by the steps of
`EntryStep`. A piece of code is described by the steps it may take, its
capabilities; `Frame` says that a set came from another by such steps. What is
true of every step is then true of whole transactions.
-/
namespace Skywell
open U32Field H256Field StateExcept Relation

/-- What a piece of code may do. -/
structure Caps where
  /-- Entries it may leave changed but only cached. -/
  dirty : Key → Prop
  /-- Entries it may create without knowing that the ledger has none. -/
  fresh : Key → Prop
  /-- Entries it may delete. -/
  drops : Key → Prop
  /-- Account roots it may create. -/
  roots : Key → Prop
  /-- Fields of account roots it may write; sequences are apart. -/
  writes : Key → SField → Prop
  /-- Sequences of account roots it may count up. -/
  bump : Key → UInt32 → Prop
  /-- Whether it may record the amount that a payment delivered. -/
  delivers : Prop

/-- A change of an entry's fields. The thread of an entry is never written. -/
structure Caps.Write (c : Caps) (k : Key) (s s' : SLE) : Prop where
  prevTxnID : s'.field (.h256 sfPreviousTxnID) = s.field (.h256 sfPreviousTxnID)
  prevTxnLgrSeq : s'.field (.u32 sfPreviousTxnLgrSeq) = s.field (.u32 sfPreviousTxnLgrSeq)
  sequence : k.type = .accountRoot → s'.field (.u32 sfSequence) = s.field (.u32 sfSequence) ∨
    s'.getFieldU32 sfSequence = s.getFieldU32 sfSequence + 1 ∧
      (c.bump k (s.getFieldU32 sfSequence) ∨ s.getFieldU32 sfSequence = 0)
  others : k.type = .accountRoot → ∀ f, f ≠ .u32 sfSequence → ¬c.writes k f →
    s'.field f = s.field f

inductive EntryStep (c : Caps) (k : Key) (base : Option SLE) :
    Option LedgerEntrySetEntry → Option LedgerEntrySetEntry → Prop
  | cache {sle} : base = some sle → EntryStep c k base none (some ⟨sle, .taaCACHED⟩)
  | create : base = none ∨ k.type = .dirNode ∨ c.fresh k → (k.type = .accountRoot → c.roots k) →
      EntryStep c k base none (some ⟨SLE.new k.type, .taaCREATE⟩)
  | write {s a s'} : c.Write k s s' → (a = .taaCACHED → c.dirty k) →
      EntryStep c k base (some ⟨s, a⟩) (some ⟨s', a⟩)
  | touch {s} : EntryStep c k base (some ⟨s, .taaCACHED⟩) (some ⟨s, .taaMODIFY⟩)
  | delete {s a} : c.drops k → a = .taaCACHED ∨ a = .taaMODIFY →
      EntryStep c k base (some ⟨s, a⟩) (some ⟨s, .taaDELETE⟩)
  | drop {s} : c.drops k → EntryStep c k base (some ⟨s, .taaCREATE⟩) none
  | recreate {s} : (k.type = .accountRoot → c.roots k) →
      EntryStep c k base (some ⟨s, .taaDELETE⟩) (some ⟨SLE.new k.type, .taaMODIFY⟩)

abbrev EntrySteps (c : Caps) (k : Key) (base : Option SLE) :=
  ReflTransGen (EntryStep c k base)

namespace Caps

/-- On an entry and its metadata, `c` may do no more than `c'`. -/
structure LeAt (c c' : Caps) (k : Key) : Prop where
  dirty : c.dirty k → c'.dirty k
  fresh : c.fresh k → c'.fresh k
  drops : c.drops k → c'.drops k
  roots : c.roots k → c'.roots k
  writes : ∀ f, c.writes k f → c'.writes k f
  bump : ∀ q, c.bump k q → c'.bump k q
  delivers : c.delivers → c'.delivers

variable {c c' : Caps} {k : Key} {s s' : SLE}

theorem Write.mono (h : c.LeAt c' k) (hw : c.Write k s s') : c'.Write k s s' where
  prevTxnID := hw.prevTxnID
  prevTxnLgrSeq := hw.prevTxnLgrSeq
  sequence hk := (hw.sequence hk).imp_right fun ⟨h1, h2⟩ => ⟨h1, h2.imp_left (h.bump _)⟩
  others hk f hf hn := hw.others hk f hf fun hc => hn (h.writes _ hc)

/-- `c`, and leaving `k` changed but only cached. -/
def allowDirty (c : Caps) (k : Key) : Caps := { c with dirty := fun k' => c.dirty k' ∨ k' = k }

/-- `c`, and creating `k` without a look at the ledger. -/
def allowFresh (c : Caps) (k : Key) : Caps := { c with fresh := fun k' => c.fresh k' ∨ k' = k }

/-- `c` without deletions. -/
def keep (c : Caps) : Caps := { c with drops := fun _ => False }

theorem keep_le : c.keep.LeAt c k := ⟨id, id, False.elim, id, fun _ => id, fun _ => id, id⟩

theorem allowFresh_le {k' : Key} (h : k' ≠ k) : (c.allowFresh k).LeAt c k' :=
  ⟨id, fun hd => hd.resolve_right h, id, id, fun _ => id, fun _ => id, id⟩

/-- A field that is neither of the thread nor a sequence may be set where the
capabilities say so. -/
structure Settable (w : Key → SField → Prop) (k : Key) (f : SField) : Prop where
  prevTxnID : f ≠ .h256 sfPreviousTxnID
  prevTxnLgrSeq : f ≠ .u32 sfPreviousTxnLgrSeq
  root : k.type = .accountRoot → f ≠ .u32 sfSequence ∧ w k f

theorem Write.field_eq (hk : k.type = .accountRoot) {f : SField} (hf : f ≠ .u32 sfSequence)
    (hw : ¬c.writes k f) (h : ReflTransGen (c.Write k) s s') : s'.field f = s.field f := by
  induction h with
  | refl => rfl
  | tail _ hs ih => exact (hs.others hk f hf hw).trans ih

theorem Write.of_fields (h : ∀ f, ¬Settable c.writes k f → s'.field f = s.field f) : c.Write k s s' where
  prevTxnID := h _ fun hf => hf.prevTxnID rfl
  prevTxnLgrSeq := h _ fun hf => hf.prevTxnLgrSeq rfl
  sequence hk := .inl (h _ fun hf => (hf.root hk).1 rfl)
  others hk f _ hn := h f fun hf => hn (hf.root hk).2

/-- A function that changes settable fields only. -/
def Sets (w : Key → SField → Prop) (k : Key) (g : SLE → SLE) : Prop :=
  ∀ s f, ¬Settable w k f → (g s).field f = s.field f

variable {w : Key → SField → Prop} {f : SField} {g : SLE → SLE}

theorem Sets.write (h : Sets c.writes k g) : c.Write k s (g s) :=
  .of_fields (h s)

theorem sets_set (h : Settable w k f) (v : SLE → f.Val) :
    Sets w k fun s => s.set f (v s) :=
  fun s g hg => s.field_set_of_ne (fun e : g = f => hg (e ▸ h)) _

theorem sets_makeFieldAbsent (h : Settable w k f) :
    Sets w k fun s => s.makeFieldAbsent f :=
  fun s g hg => s.field_makeFieldAbsent_of_ne fun e : g = f => hg (e ▸ h)

theorem sets_id : Sets w k fun s => s := fun _ _ _ => rfl

theorem sets_makeFieldPresent (h : Settable w k f) :
    Sets w k fun s => s.makeFieldPresent f := by
  intro s g hg
  dsimp only [SLE.makeFieldPresent]
  split
  · rfl
  · exact sets_set h (fun _ => f.default) s g hg

theorem sets_of_type (hk : k.type ≠ .accountRoot)
    (h : ∀ s, (g s).field (.h256 sfPreviousTxnID) = s.field (.h256 sfPreviousTxnID) := by intro; rfl)
    (h' : ∀ s, (g s).field (.u32 sfPreviousTxnLgrSeq) = s.field (.u32 sfPreviousTxnLgrSeq) := by
      intro; rfl) : Sets w k g := by
  intro s f hf
  by_cases h1 : f = .h256 sfPreviousTxnID
  · exact h1 ▸ h s
  by_cases h2 : f = .u32 sfPreviousTxnLgrSeq
  · exact h2 ▸ h' s
  · exact absurd ⟨h1, h2, fun e => absurd e hk⟩ hf

end Caps

variable {c c' : Caps} {k : Key} {base : Option SLE} {x y : Option LedgerEntrySetEntry}
  {d : Key → Prop} {g : SLE → SLE} {a : LedgerEntryAction} {e : LedgerEntrySetEntry}

theorem EntryStep.mono (h : c.LeAt c' k) (hs : EntryStep c k base x y) : EntryStep c' k base x y := by
  cases hs with
  | cache hb => exact .cache hb
  | create hb hr => exact .create (hb.imp_right (Or.imp_right h.fresh)) fun e => h.roots (hr e)
  | write hw hd => exact .write (hw.mono h) fun e => h.dirty (hd e)
  | touch => exact .touch
  | delete hd ha => exact .delete (h.drops hd) ha
  | drop hd => exact .drop (h.drops hd)
  | recreate hr => exact .recreate fun e => h.roots (hr e)

/-- No step but one that drops the entry ends with an action other than `taaMODIFY`. -/
theorem EntrySteps.avoids (hk : ¬c.drops k) (hm : .taaMODIFY ≠ a)
    (hx : ∃ e, x = some e ∧ e.mAction ≠ a) (h : EntrySteps c k base x y) :
    ∃ e, y = some e ∧ e.mAction ≠ a := by
  induction h with
  | refl => exact hx
  | tail _ hs ih =>
    obtain ⟨e, he, ha⟩ := ih
    cases hs with
    | cache | create => cases he
    | write =>
      cases he
      exact ⟨_, rfl, ha⟩
    | touch | recreate => exact ⟨_, rfl, hm⟩
    | delete hd | drop hd => exact absurd hd hk

theorem EntrySteps.modify {s : SLE} (ha : a ≠ .taaDELETE) :
    EntrySteps c k base (some ⟨s, a⟩) (some ⟨s, LedgerEntrySet.modified a⟩) := by
  cases a with
  | taaCACHED => exact .single .touch
  | taaMODIFY | taaCREATE => exact .refl
  | taaDELETE => exact absurd rfl ha

/-- An entry that is no longer cached may as well have been announced before it
was changed. -/
theorem EntrySteps.clean (h : EntrySteps { c with dirty := d } k base x y) :
    EntrySteps c k base x y ∨
      ∃ s, y = some ⟨s, .taaCACHED⟩ ∧ EntrySteps c k base x (some ⟨s, .taaMODIFY⟩) := by
  induction h with
  | refl => exact .inl .refl
  | tail _ hs ih =>
    have hle {s s' : SLE} (hw : Caps.Write { c with dirty := d } k s s') : c.Write k s s' :=
      ⟨hw.1, hw.2, hw.3, hw.4⟩
    rcases ih with ih | ⟨s0, rfl, ih⟩
    · cases hs with
      | cache hb => exact .inl (ih.tail (.cache hb))
      | create hb hr => exact .inl (ih.tail (.create hb hr))
      | @write s a s' hw _ =>
        by_cases ha : a = .taaCACHED
        · subst ha
          exact .inr ⟨s', rfl, (ih.tail .touch).tail (.write (hle hw) fun e => by cases e)⟩
        · exact .inl (ih.tail (.write (hle hw) fun e => absurd e ha))
      | touch => exact .inl (ih.tail .touch)
      | delete hd ha => exact .inl (ih.tail (.delete hd ha))
      | drop hd => exact .inl (ih.tail (.drop hd))
      | recreate hr => exact .inl (ih.tail (.recreate hr))
    · cases hs with
      | write hw _ => exact .inr ⟨_, rfl, ih.tail (.write (hle hw) fun e => by cases e)⟩
      | touch => exact .inl ih
      | delete hd _ => exact .inl (ih.tail (.delete hd (.inr rfl)))

theorem EntrySteps.absent (h : EntrySteps { c with fresh := d } k base x y)
    (hx : base = none ∨ ∃ e, x = some e ∧ (e.mAction = .taaDELETE ∨ e.mAction = .taaMODIFY)) :
    EntrySteps c k base x y ∧
      (base = none ∨ ∃ e, y = some e ∧ (e.mAction = .taaDELETE ∨ e.mAction = .taaMODIFY)) := by
  induction h with
  | refl => exact ⟨.refl, hx⟩
  | tail _ hs ih =>
    obtain ⟨ih, hy⟩ := ih
    have hle {s s' : SLE} (hw : Caps.Write { c with fresh := d } k s s') : c.Write k s s' :=
      ⟨hw.1, hw.2, hw.3, hw.4⟩
    cases hs with
    | cache hb => exact ⟨ih.tail (.cache hb), by simp_all⟩
    | create _ hr =>
      rcases hy with hb | ⟨_, he, _⟩
      · exact ⟨ih.tail (.create (.inl hb) hr), .inl hb⟩
      · cases he
    | write hw hd => exact ⟨ih.tail (.write (hle hw) hd), by simp_all⟩
    | touch => exact ⟨ih.tail .touch, by simp_all⟩
    | delete hd ha => exact ⟨ih.tail (.delete hd ha), by simp_all⟩
    | drop hd => exact ⟨ih.tail (.drop hd), by simp_all⟩
    | recreate hr => exact ⟨ih.tail (.recreate hr), by simp_all⟩

/-- An entry that is there, is not deleted and is not replaced is only written to. -/
theorem EntrySteps.shown (hd : ¬c.drops k) (hf : ¬c.fresh k)
    (ht : k.type ≠ .dirNode) {s : SLE} (hx : x.elim base (·.shown) = some s)
    (h : EntrySteps c k base x y) :
    ∃ s', y.elim base (·.shown) = some s' ∧ ReflTransGen (c.Write k) s s' := by
  induction h with
  | refl => exact ⟨s, hx, .refl⟩
  | tail _ hs ih =>
    obtain ⟨s1, h1, ih⟩ := ih
    cases hs with
    | cache hb =>
      cases hb.symm.trans h1
      exact ⟨_, rfl, ih⟩
    | create hb =>
      rcases hb with hb | hb | hb
      · cases hb.symm.trans h1
      · exact absurd hb ht
      · exact absurd hb hf
    | @write s2 a s3 hw _ =>
      by_cases ha : a = .taaDELETE
      · simp [LedgerEntrySetEntry.shown, ha] at h1
      · simp only [LedgerEntrySetEntry.shown, Option.elim, ha, if_false, Option.some.injEq] at h1 ⊢
        exact ⟨s3, rfl, ih.tail (h1 ▸ hw)⟩
    | touch => exact ⟨_, h1, ih⟩
    | delete h | drop h => exact absurd h hd
    | recreate => simp [LedgerEntrySetEntry.shown] at h1

theorem EntrySteps.no_root (hk : k.type = .accountRoot) (hr : ¬c.roots k)
    (hx : x.elim base (·.shown) = none) (h : EntrySteps c k base x y) :
    y.elim base (·.shown) = none := by
  induction h with
  | refl => exact hx
  | tail _ hs ih =>
    cases hs with
    | cache hb => cases hb.symm.trans ih
    | create _ h | recreate h => exact absurd (h hk) hr
    | write =>
      simp only [LedgerEntrySetEntry.shown, Option.elim] at ih ⊢
      split at ih
      · next ha => rw [if_pos ha]
      · cases ih
    | touch => cases ih
    | delete => rfl
    | drop => cases ih

namespace LedgerEntrySet
variable [Sha512Half] {v v' : LedgerEntrySet} {Q : Unit → LedgerEntrySet → Prop}

/-- `v'` came from `v` by steps that `c` allows. Of the metadata only the
delivered amount changes, if `c` allows that. -/
structure Frame (c : Caps) (v v' : LedgerEntrySet) : Prop where
  ledger : v'.mLedger = v.mLedger
  params : v'.mParams = v.mParams
  metaSet : v'.mSet = { v.mSet with mDelivered := v'.mSet.mDelivered }
  delivered : ¬c.delivers → v'.mSet.mDelivered = v.mSet.mDelivered
  entries : ∀ k, EntrySteps c k (v.mLedger.getSLE k) v.mEntries[k]? v'.mEntries[k]?

instance : IsPreorder LedgerEntrySet (Frame c) where
  refl _ := ⟨rfl, rfl, rfl, fun _ => rfl, fun _ => .refl⟩
  trans _ _ _ h h' :=
    { ledger := h'.ledger.trans h.ledger
      params := h'.params.trans h.params
      metaSet := by rw [h'.metaSet, h.metaSet]
      delivered := fun hd => (h'.delivered hd).trans (h.delivered hd)
      entries := fun k => (h.entries k).trans (h.ledger ▸ h'.entries k) }

theorem Frame.mono (h : ∀ k, c.LeAt c' k) (hf : Frame c v v') : Frame c' v v' :=
  ⟨hf.ledger, hf.params, hf.metaSet, fun hd => hf.delivered fun hc => hd ((h (.account 0)).delivers hc),
    fun k => ReflTransGen.mono (fun _ _ => EntryStep.mono (h k)) _ _ (hf.entries k)⟩

theorem Frame.of_keep (h : Frame c.keep v v') : Frame c v v' :=
  h.mono fun _ => Caps.keep_le

/-- No change of the entry is left unannounced. -/
def Announced (v : LedgerEntrySet) (k : Key) : Prop :=
  ∀ e, v.mEntries[k]? = some e → e.mAction ≠ .taaCACHED

theorem Frame.clean (h : Frame { c with dirty := d } v v')
    (hd : ∀ k, d k → c.dirty k ∨ v'.Announced k) : Frame c v v' := by
  refine { h with entries := fun k => ?_ }
  by_cases hk : v'.Announced k
  · rcases EntrySteps.clean (h.entries k) with hs | ⟨s, hs, -⟩
    · exact hs
    · exact absurd rfl (hk _ hs)
  · have hle : ({ c with dirty := d } : Caps).LeAt c k :=
      ⟨fun h => (hd k h).resolve_right hk, id, id, id, fun _ => id, fun _ => id, id⟩
    exact ReflTransGen.mono (fun _ _ => EntryStep.mono hle) _ _ (h.entries k)

theorem Frame.absent (h : Frame (c.allowFresh k) v v') (hk : v.read k = none) : Frame c v v' := by
  refine { h with entries := fun k' => ?_ }
  by_cases e : k' = k
  · subst e
    refine (EntrySteps.absent (h.entries k') ?_).1
    unfold read at hk
    cases he : v.mEntries[k']? with
    | none => exact .inl (by simpa [he] using hk)
    | some e =>
      refine .inr ⟨e, rfl, .inl ?_⟩
      simpa [he, LedgerEntrySetEntry.shown] using hk
  · exact ReflTransGen.mono (fun _ _ => EntryStep.mono (Caps.allowFresh_le e)) _ _ (h.entries k')

theorem read_eq_elim :
    v.read k = v.mEntries[k]?.elim (v.mLedger.getSLE k) (·.shown) := by
  unfold read
  cases v.mEntries[k]? <;> rfl

theorem Frame.read (h : Frame c v v') (hd : ¬c.drops k) (hf : ¬c.fresh k) (ht : k.type ≠ .dirNode)
    {s : SLE} (hs : v.read k = some s) :
    ∃ s', v'.read k = some s' ∧ ReflTransGen (c.Write k) s s' := by
  rw [read_eq_elim] at hs
  rw [read_eq_elim, h.ledger]
  exact (h.entries k).shown hd hf ht hs

theorem Frame.read_none (h : Frame c v v') (hk : k.type = .accountRoot) (hr : ¬c.roots k)
    (hs : v.read k = none) : v'.read k = none := by
  rw [read_eq_elim] at hs
  rw [read_eq_elim, h.ledger]
  exact (h.entries k).no_root hk hr hs

theorem frame_setEntry (hx : v.mEntries[k]? = x)
    (h : EntrySteps c k (v.mLedger.getSLE k) x (some e)) : Frame c v (v.setEntry k e) where
  ledger := rfl
  params := rfl
  metaSet := rfl
  delivered _ := rfl
  entries k' := by
    rw [getElem?_setEntry]
    split
    · next hk => exact hk ▸ hx ▸ h
    · exact .refl

/-- The set has changed an entry, created it or deleted it. -/
def Touched (v : LedgerEntrySet) (k : Key) : Prop :=
  ∃ e, v.mEntries[k]? = some e ∧ e.mAction ≠ .taaCACHED

theorem touched_setEntry (h : e.mAction ≠ .taaCACHED) :
    (v.setEntry k e).Touched k := ⟨e, by simp, h⟩

theorem Frame.touched (h : Frame c v v') (hk : ¬c.drops k) (ht : v.Touched k) : v'.Touched k :=
  EntrySteps.avoids hk nofun ht (h.entries k)

theorem frame_cached : Frame c v (v.cached k) := by
  unfold cached
  split
  · next h h' => exact frame_setEntry h (.single (.cache h'))
  · exact refl v

theorem entryCache_frame (k : Key) : Keeps (Frame c) (entryCache k) :=
  fun _ => spec_entryCache.2 frame_cached

theorem deref_frame : Keeps (Frame c) (deref k) :=
  fun v => spec_deref.2 fun _ _ => refl v

theorem spec_getLedger {Q : Ledger → LedgerEntrySet → Prop} :
    Spec getLedger v Q ↔ Q v.mLedger v := by
  simp [getLedger]

theorem getLedger_frame : Keeps (Frame c) getLedger := keeps_get.bind fun _ => keeps_pure _

theorem isOpenLedger_frame : Keeps (Frame c) isOpenLedger := keeps_get.bind fun _ => keeps_pure _

theorem spec_assign :
    Spec (assign k g) v Q ↔
      ∀ e, v.mEntries[k]? = some e → Q () (v.setEntry k { e with mEntry := g e.mEntry }) := by
  simp only [assign, spec_bind, spec_get]
  cases v.mEntries[k]? <;> simp

theorem assign_touched (hg : Caps.Sets c.writes k g) (ht : v.Touched k) :
    Spec (assign k g) v fun _ v' => Frame c v v' ∧ v'.Touched k := by
  obtain ⟨e, he, ha⟩ := ht
  refine spec_assign.2 fun e' he' => ?_
  rw [he] at he'
  cases he'
  exact ⟨frame_setEntry he (.single (.write hg.write fun h => absurd h ha)), touched_setEntry ha⟩

theorem assign_frame (hg : Caps.Sets c.writes k g) (hd : c.dirty k) :
    Keeps (Frame c) (assign k g) :=
  fun _ => spec_assign.2 fun _ he => frame_setEntry he (.single (.write hg.write fun _ => hd))

theorem spec_entryModify :
    Spec (entryModify k) v Q ↔ ∀ s a, v.mEntries[k]? = some ⟨s, a⟩ → a ≠ .taaDELETE →
      Q () (v.setEntry k ⟨s, modified a⟩) := by
  simp only [entryModify, spec_bind, spec_deref, entryModifyRef, spec_get]
  cases h : v.mEntries[k]? with
  | none => simp
  | some e =>
    obtain ⟨s, a⟩ := e
    cases a <;> simp [modified]

theorem touched_modify {s : SLE} : (v.setEntry k ⟨s, modified a⟩).Touched k :=
  touched_setEntry (by cases a <;> simp [modified])

theorem entryModify_touched :
    Spec (entryModify k) v fun _ v' => Frame c v v' ∧ v'.Touched k :=
  spec_entryModify.2 fun _ _ h ha => ⟨frame_setEntry h (EntrySteps.modify ha), touched_modify⟩

theorem update_touched (hg : Caps.Sets c.writes k g) :
    Spec (do assign k g; entryModify k) v fun _ v' => Frame c v v' ∧ v'.Touched k := by
  refine spec_bind.2 (spec_assign.2 fun e he => spec_entryModify.2 fun s a h ha => ?_)
  rw [getElem?_setEntry, if_pos rfl] at h
  cases h
  rw [setEntry_setEntry]
  refine ⟨frame_setEntry he ?_, touched_modify⟩
  -- the entry might as well have been announced first
  refine (EntrySteps.modify ha).tail (.write hg.write fun h => ?_)
  rw [modified] at h
  split at h <;> cases h

theorem update_frame (hg : Caps.Sets c.writes k g) :
    Keeps (Frame c) (do assign k g; entryModify k) :=
  fun _ => (update_touched hg).mono fun _ _ h => h.1

theorem frame_update {β : Type} {f : Unit → LES β} (hg : Caps.Sets c.writes k g)
    (hf : ∀ a, Keeps (Frame c) (f a)) : Keeps (Frame c) (do assign k g; f (← entryModify k)) := by
  have h : Keeps (Frame c) ((do assign k g; entryModify k) >>= f) := .bind (update_frame hg) hf
  simpa using h

theorem spec_entryCreate : Spec (entryCreate k) v Q ↔
    (v.mEntries[k]? = none → Q () (v.setEntry k ⟨SLE.new k.type, .taaCREATE⟩)) ∧
    ∀ s, v.mEntries[k]? = some ⟨s, .taaDELETE⟩ →
      Q () (v.setEntry k ⟨SLE.new k.type, .taaMODIFY⟩) := by
  simp only [entryCreate, spec_bind, spec_get]
  cases v.mEntries[k]? with
  | none => simp
  | some e =>
    obtain ⟨s, a⟩ := e
    cases a <;> simp

/-- A new entry, whatever it is that makes way for it. -/
theorem entryCreate_new (hk : k.type = .dirNode ∨ c.fresh k)
    (hr : k.type = .accountRoot → c.roots k) :
    Spec (entryCreate k) v fun _ v' => Frame c v v' ∧
      ∃ a, a ≠ .taaCACHED ∧ v'.mEntries[k]? = some ⟨SLE.new k.type, a⟩ :=
  spec_entryCreate.2
    ⟨fun h => ⟨frame_setEntry h (.single (.create (.inr hk) hr)), .taaCREATE, by simp, by simp⟩,
      fun _ h => ⟨frame_setEntry h (.single (.recreate hr)), .taaMODIFY, by simp, by simp⟩⟩

theorem entryCreate_touched (hk : k.type = .dirNode ∨ c.fresh k) (ht : k.type ≠ .accountRoot) :
    Spec (entryCreate k) v fun _ v' => Frame c v v' ∧ v'.Touched k :=
  (entryCreate_new hk fun e => absurd e ht).mono fun _ _ ⟨h, _, ha, he⟩ => ⟨h, _, he, ha⟩

theorem entryDelete_frame (hk : c.drops k) : Keeps (Frame c) (entryDelete k) := by
  intro v
  simp only [entryDelete, spec_bind, spec_get]
  cases h : v.mEntries[k]? with
  | none => exact spec_throw.2 trivial
  | some e =>
    obtain ⟨s, a⟩ := e
    cases a with
    | taaDELETE => exact spec_pure.2 (refl v)
    | taaCACHED => exact spec_set.2 (frame_setEntry h (.single (.delete hk (.inl rfl))))
    | taaMODIFY => exact spec_set.2 (frame_setEntry h (.single (.delete hk (.inr rfl))))
    | taaCREATE =>
      refine spec_set.2 ⟨rfl, rfl, rfl, fun _ => rfl, fun k' => ?_⟩
      rw [Std.ExtTreeMap.getElem?_erase]
      split
      · next hkk =>
        cases Key.cmp_eq_iff.1 hkk
        exact h ▸ .single (.drop hk)
      · exact .refl

/-- A frame for programs that start with the entries `K` touched, and leave them so. -/
def Holding (K : Key → Prop) (c : Caps) (v v' : LedgerEntrySet) : Prop :=
  (∀ k, K k → v.Touched k) → Frame c v v' ∧ ∀ k, K k → v'.Touched k

variable {K : Key → Prop} {α β : Type} {m n : LES α} {f : α → LES β}

instance : IsPreorder LedgerEntrySet (Holding K c) where
  refl v h := ⟨refl v, h⟩
  trans _ _ _ h h' hK :=
    have ⟨h1, hK1⟩ := h hK
    have ⟨h2, hK2⟩ := h' hK1
    ⟨IsTrans.trans _ _ _ h1 h2, hK2⟩

theorem keeps_holding (h : Keeps (Frame c.keep) m) : Keeps (Holding K c) m :=
  fun v => (h v).mono fun _ _ hf hK =>
    ⟨hf.of_keep, fun k hk => hf.touched id (hK k hk)⟩

theorem keeps_holding_of (hK : ∀ k, K k → ¬c.drops k) (h : Keeps (Frame c) m) :
    Keeps (Holding K c) m :=
  fun v => (h v).mono fun _ _ hf ht => ⟨hf, fun k hk => hf.touched (hK k hk) (ht k hk)⟩

theorem keeps_of_holding (h : Keeps (Holding (fun _ => False) c) m) :
    Keeps (Frame c) m :=
  fun v => (h v).mono fun _ _ hf => (hf fun _ => False.elim).1

theorem keeps_hold (hm : ∀ v, Spec m v fun _ v' => Frame c.keep v v' ∧ v'.Touched k)
    (hf : ∀ a, Keeps (Holding (fun k' => K k' ∨ k' = k) c) (f a)) :
    Keeps (Holding K c) (m >>= f) := by
  refine fun v => spec_bind.2 <| (hm v).mono fun a v1 ⟨h1, ht⟩ => (hf a v1).mono ?_
  intro _ v2 h2 hK
  have hK1 : ∀ k', K k' ∨ k' = k → v1.Touched k' := by
    rintro k' (hk | rfl)
    · exact h1.touched id (hK k' hk)
    · exact ht
  obtain ⟨h2, hK2⟩ := h2 hK1
  exact ⟨IsTrans.trans _ _ _ h1.of_keep h2, fun k' hk => hK2 k' (.inl hk)⟩

/-- A change that is announced right after it is made. -/
theorem keeps_update {f : Unit → LES β} (hg : Caps.Sets c.writes k g)
    (hf : ∀ a, Keeps (Holding (fun k' => K k' ∨ k' = k) c) (f a)) :
    Keeps (Holding K c) (do assign k g; f (← entryModify k)) := by
  have h : Keeps (Holding K c) ((do assign k g; entryModify k) >>= f) :=
    keeps_hold (fun v => update_touched hg) hf
  simpa using h

theorem assign_holding (hg : Caps.Sets c.writes k g) (hk : K k) :
    Keeps (Holding K c) (assign k g) := by
  intro v a v' he hK
  have ⟨h, _⟩ := assign_touched (c := c.keep) hg (hK k hk) a v' he
  exact ⟨h.of_keep, fun k' hk' => h.touched id (hK k' hk')⟩

theorem Touched.announced (h : v.Touched k) : v.Announced k := by
  intro e he
  obtain ⟨e', he', ha⟩ := h
  rw [he] at he'
  cases he'
  exact ha

/-- A program that may change an entry while it is only cached, and announces
the change before it ends. -/
def Settles (k : Key) (c : Caps) (m : LES α) : Prop :=
  ∀ v, Spec m v fun _ v' => Frame (c.allowDirty k) v v' ∧ v'.Announced k

theorem Settles.keeps (h : Settles k c m) : Keeps (Frame c) m :=
  fun v => (h v).mono fun _ _ ⟨hf, ha⟩ =>
    hf.clean fun k' hk => hk.imp_right fun e : k' = k => e ▸ ha

theorem Settles.bind (hm : Keeps (Frame (c.allowDirty k)) m) (hf : ∀ a, Settles k c (f a)) :
    Settles k c (m >>= f) :=
  fun v => spec_bind.2 <| (hm v).mono fun a v1 h1 => (hf a v1).mono fun _ _ ⟨h2, ha⟩ =>
    ⟨IsTrans.trans _ _ _ h1 h2, ha⟩

theorem Settles.ite {p : Prop} [Decidable p] (hm : Settles k c m)
    (hn : Settles k c n) : Settles k c (if p then m else n) := by
  split
  · exact hm
  · exact hn

theorem Settles.pure {m : LES Unit} (h : Settles k c m) (a : α) :
    Settles k c (do m; Pure.pure a) :=
  fun v => spec_bind.2 <| (h v).mono fun _ _ h => spec_pure.2 h

theorem entryModify_settles : Settles k c (entryModify k) :=
  fun _ => entryModify_touched.mono fun _ _ h => ⟨h.1, h.2.announced⟩

theorem entryDelete_settles (hk : c.drops k) : Settles k c (entryDelete k) := by
  refine fun v => Spec.and (entryDelete_frame (c := c.allowDirty k) hk v) ?_
  simp only [entryDelete, spec_bind, spec_get]
  cases h : v.mEntries[k]? with
  | none => exact spec_throw.2 trivial
  | some e =>
    obtain ⟨s, a⟩ := e
    cases a with
    | taaDELETE => exact spec_pure.2 fun e he => by cases h.symm.trans he; simp
    | taaCACHED | taaMODIFY => exact spec_set.2 fun e he => by simp at he; simp [← he]
    | taaCREATE => exact spec_set.2 fun e he => by simp at he

end LedgerEntrySet

end Skywell
