import JingtumCore.FeeClaims

/-!
# What an applied transaction leaves

The entries of a set that a transaction has gone through fit the ledger the set
was made from, and the ledger after the call holds what the set showed before
the metadata was made, but for the threads.
-/
namespace Skywell
open LedgerEntrySet Relation

/-- An entry whose action fits what the ledger holds. -/
def LedgerEntrySetEntry.Fits (k : Key) (base : Option SLE) (e : LedgerEntrySetEntry) : Prop :=
  match e.mAction with
  | .taaCACHED => base = some e.mEntry
  | .taaMODIFY | .taaDELETE => base.isSome = true
  | .taaCREATE => base = none ∨ k.type = .dirNode

/-- Steps that leave nothing unannounced lead from entries that fit to entries
that fit. -/
theorem EntrySteps.fits {c : Caps} {k : Key} {base : Option SLE} {x y : Option LedgerEntrySetEntry}
    (hd : ¬c.dirty k) (hf : ¬c.fresh k) (hx : ∀ e, x = some e → e.Fits k base)
    (h : EntrySteps c k base x y) : ∀ e, y = some e → e.Fits k base := by
  induction h with
  | refl => exact hx
  | tail _ hs ih =>
    rintro e rfl
    cases hs with
    | cache hb => exact hb
    | create hb =>
      rcases hb with hb | hb | hb
      · exact .inl hb
      · exact .inr hb
      · exact absurd hb hf
    | @write s a s' _ ha =>
      have hs := ih _ rfl
      cases a with
      | taaCACHED => exact absurd (ha rfl) hd
      | taaMODIFY | taaDELETE | taaCREATE => exact hs
    | @touch s =>
      have hs : base = some s := ih _ rfl
      simp [LedgerEntrySetEntry.Fits, hs]
    | @delete s a _ ha =>
      have hs := ih _ rfl
      rcases ha with rfl | rfl
      · have hs : base = some s := hs
        simp [LedgerEntrySetEntry.Fits, hs]
      · exact hs
    | @recreate s =>
      have hs : base.isSome = true := ih ⟨s, .taaDELETE⟩ rfl
      exact hs

variable [Sha512Half] {env : Env} {v v' : LedgerEntrySet} {k : Key}

def LedgerEntrySet.Fits (v : LedgerEntrySet) : Prop :=
  ∀ (k : Key) e, v.mEntries[k]? = some e → e.Fits k (v.mLedger.getSLE k)

theorem LedgerEntrySet.Frame.fits {c : Caps} (hd : ∀ k, ¬c.dirty k) (hf : ∀ k, ¬c.fresh k)
    (h : Frame c v v') (hv : v.Fits) : v'.Fits := by
  intro k e he
  rw [h.ledger]
  exact (h.entries k).fits (hd k) (hf k) (hv k) e he

namespace TransactionEngine
variable {engine : TransactionEngine} {txn : STTx} {params : TransactionEngineParams} {ter : TER}
  {l : Ledger} {v1 v2 : LedgerEntrySet} {metaData : TransactionMetaSet}

/-- What a run to be applied did to the set: all of the transaction, or the claim
of its fee. -/
theorem Committed.run_cases (h : Committed env engine txn params ter l v1 v2 metaData)
    (bump : Key → UInt32 → Prop) (hb : params.tapPRE_CHECKED = false →
      bump (getAccountRootIndex txn.getSourceAccount) txn.getSequence) :
    transact env txn params (engine.start txn params) = .ok (.tesSUCCESS, v1) ∧
      Frame (Caps.txn bump True) (engine.start txn params) v1 ∨
    ∃ ter0 v0 s s', transact env txn params (engine.start txn params) = .ok (ter0, v0) ∧
      isTecClaim ter0 = true ∧
      engine.mLedger.getSLE (getAccountRootIndex txn.getSourceAccount) = some s ∧
      FeeClaimed txn s s' ∧ v0.mLedger = engine.mLedger ∧
      v1 = v0.clear.setEntry (getAccountRootIndex txn.getSourceAccount) ⟨s', .taaMODIFY⟩ := by
  obtain ⟨ter0, v0, ht, ⟨success, rfl, rfl⟩ | ⟨hter0, -, hclaim⟩⟩ := run_eq_ok h.run
  · cases success rfl
    exact .inl ⟨ht, (transact_applies env txn params hb _ _ _ ht).2 rfl⟩
  · have hl : v0.mLedger = engine.mLedger := transact_ledger ht
    obtain ⟨-, s, s', hs, hfee, rfl⟩ := claimFee_spec (v := v0) ter0 _ _ hclaim rfl
    exact .inr ⟨ter0, v0, s, s', ht, hter0, hl ▸ hs, hfee, hl, rfl⟩

theorem start_fits : (engine.start txn params).Fits := by
  intro k e he
  simp [start, LedgerEntrySet.init] at he

section
variable (h : Committed env engine txn params ter l v1 v2 metaData)
include h

theorem Committed.ledger_eq : v1.mLedger = engine.mLedger := by
  obtain ⟨-, hf⟩ | ⟨_, v0, _, _, -, -, -, -, hl, rfl⟩ :=
    h.run_cases (fun _ _ => True) fun _ => trivial
  · exact hf.ledger
  · exact hl

theorem Committed.fits : v1.Fits := by
  obtain ⟨-, hf⟩ | ⟨_, v0, s, s', -, -, hs, -, hl, rfl⟩ :=
    h.run_cases (fun _ _ => True) fun _ => trivial
  · exact hf.fits (fun _ => id) (fun _ => id) start_fits
  · intro k e he
    rw [getElem?_setEntry] at he
    split at he
    · next hk =>
      cases he
      subst hk
      simp [LedgerEntrySetEntry.Fits, clear, hl, hs]
    · simp [clear] at he

theorem Committed.getSLE (k : Key) : l.getSLE k = v2.mEntries[k]?.elim (engine.mLedger.getSLE k)
      (·.written (engine.mLedger.getSLE k)) := by
  rw [h.ledger]
  exact getSLE_txnWrite

theorem Committed.shows (k : Key) : Option.Rel SLE.SameButThread (v1.read k) (l.getSLE k) := by
  obtain ⟨-, -, hdesc, -⟩ := calcRawMeta_spec ter engine.mTxnSeq _ _ h.described
  have hfits := h.fits k
  have hl := h.ledger_eq
  rw [h.getSLE, read_eq_elim, hl]
  rw [hl] at hfits
  rcases hdesc k with ⟨⟨s, a⟩, ⟨s', a'⟩, he, he', hsame, hact⟩ | ⟨he, he' | ⟨-, s, s', hs, hsame, he'⟩⟩
  · have hfit := hfits _ he
    rw [he, he']
    rcases hact with rfl | ⟨-, rfl, rfl⟩
    · cases a' with
      | taaCACHED =>
        have hfit : engine.mLedger.getSLE k = some s := hfit
        simp only [hfit]
        exact .some (.refl s)
      | taaMODIFY =>
        obtain ⟨s0, hs0⟩ := Option.isSome_iff_exists.1 hfit
        simp only [hs0]
        exact .some hsame
      | taaDELETE => exact .none
      | taaCREATE => exact .some hsame
    · have hfit : engine.mLedger.getSLE k = some s := hfit
      simp only [hfit]
      exact .some hsame
  · rw [he, he']
    cases engine.mLedger.getSLE k with
    | none => exact .none
    | some s => exact .some (.refl s)
  · rw [hl] at hs
    rw [he, he']
    simp only [hs]
    exact .some hsame

end

end TransactionEngine

end Skywell
