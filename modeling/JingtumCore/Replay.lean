import JingtumCore.Sequences
import JingtumCore.SignatureAuthority

/-!
# Chains of ledgers

The calls of the engine along a chain of ledgers. A transaction is applied at
most once in a chain, but for the transactions of the managers, whose
`checkSeq` looks at the transactions of the current ledger only.
-/
namespace Skywell
open LedgerEntrySet TransactionEngine

/-- A call of the engine, with its result. -/
structure Call where
  txn : STTx
  params : TransactionEngineParams
  ter : TER
  applied : Bool

/-- The call applies the transaction. The cached verdict on the signature is not part of a
transaction, and the transactions of a batch are part of what its ID is the hash of. -/
def Call.Applies (c : Call) (txn : STTx) : Prop :=
  c.applied = true ∧ { c.txn.common with sigState := txn.common.sigState } = txn.common ∧
    c.txn.fields = txn.fields

theorem Call.Applies.same {c : Call} {txn : STTx} (h : c.Applies txn) :
    c.txn.getSourceAccount = txn.getSourceAccount ∧ c.txn.getSequence = txn.getSequence ∧
      c.txn.fields = txn.fields :=
  ⟨congrArg (·.account) h.2.1, congrArg (·.sequence) h.2.1, h.2.2⟩

section
variable [Sha512Half]

/-- The ledger after a closed one, whose skip lists may have been updated. It
starts without transactions, and reads its fees anew. -/
structure Ledger.Follows (l l' : Ledger) : Prop where
  transactions : l'.mTransactionMap = ∅
  number : l'.mLedgerSeq = l.mLedgerSeq + 1
  state : ∀ k : Key, k.type ≠ .ledgerHashes → l'.getSLE k = l.getSLE k

/-- The calls that lead from one engine to another. Each ledger is worked on with
one engine or several. -/
inductive Chain : TransactionEngine → List Call → TransactionEngine → Prop
  | start (engine : TransactionEngine) : Chain engine [] engine
  | call {e e1 e2 : TransactionEngine} {calls : List Call} {txn : STTx}
      {params : TransactionEngineParams} {ter : TER} {applied : Bool} (env : Env) :
      Chain e calls e1 → applyTransaction env e1 txn params = .ok ((ter, applied), e2) →
      Chain e (calls ++ [⟨txn, params, ter, applied⟩]) e2
  | renew {e e1 e2 : TransactionEngine} {calls : List Call} : Chain e calls e1 →
      e2.mLedger = e1.mLedger → Chain e calls e2
  | next {e e1 e2 : TransactionEngine} {calls : List Call} : Chain e calls e1 →
      e1.mLedger.Follows e2.mLedger → Chain e calls e2

/-- No two calls apply the transaction. -/
def AppliedOnce (txn : STTx) (calls : List Call) : Prop :=
  calls.Pairwise fun c c' => ¬(c.Applies txn ∧ c'.Applies txn)

/-- A call with which sequences do not go down: it is not made as for a transaction
of a batch, and does not use up the last sequence. -/
def Call.Counted (c : Call) : Prop :=
  c.params.tapPRE_CHECKED = false ∧ c.txn.getSequence ≠ maxSequence

variable {e e' : TransactionEngine} {calls : List Call} {txn : STTx}

theorem Ledger.Follows.sequence_eq {l l' : Ledger} (h : l.Follows l') (a : Account) :
    l'.sequence a = l.sequence a := by
  rw [Ledger.sequence, h.state _ (by simp [getAccountRootIndex, Key.type])]
  rfl

/-- Once a transaction is applied, the sequence of its source stays above it. -/
theorem Chain.sequence_passed (h : Chain e calls e')
    (hrun : ∀ c ∈ calls, c.applied = true → c.Counted) (hs : txn.getSourceAccount ≠ 0)
    (hm : isManage txn.fields = false) :
    ∀ c ∈ calls, c.Applies txn →
      ∃ q, e'.mLedger.sequence txn.getSourceAccount = some q ∧ txn.getSequence < q := by
  induction h with
  | start => exact fun c hc => by cases hc
  | @call e1 e2 calls txn' params ter applied env _ hcall ih =>
    intro c hc happ
    have ih := ih fun c hc => hrun c (by simp [hc])
    obtain ⟨rfl, hl⟩ | ⟨rfl, v1, v2, metaData, hcom⟩ := (applyTransaction_cases hcall).2
    · rw [hl]
      rcases List.mem_append.1 hc with hc | hc
      · exact ih c hc happ
      · cases List.mem_singleton.1 hc
        cases happ.1
    · obtain ⟨hp, hmax⟩ := hrun ⟨txn', params, ter, true⟩ (by simp) rfl
      rcases List.mem_append.1 hc with hc | hc
      · obtain ⟨q, hq, hlt⟩ := ih c hc happ
        obtain ⟨q', hq', hle⟩ := hcom.sequence_le hmax hq
        exact ⟨q', hq', UInt32.lt_of_lt_of_le hlt hle⟩
      · cases List.mem_singleton.1 hc
        obtain ⟨source, number, fields⟩ := happ.same
        have counts := (hcom.sequence_counts hp (fields ▸ hm) (source ▸ hs) hmax).2
        rw [← source, ← number]
        exact ⟨_, counts, lt_add_one_of_ne_max hmax⟩
  | renew _ hl ih =>
    rw [hl]
    exact ih hrun
  | next _ hf ih =>
    rw [hf.sequence_eq]
    exact ih hrun

/-- Along every chain in which no applied call uses up the last sequence or is
made as for a transaction of a batch, a transaction of an account other than the
managers' is applied at most once. -/
theorem appliedOnce_of_chain (h : Chain e calls e')
    (hrun : ∀ c ∈ calls, c.applied = true → c.Counted) (hs : txn.getSourceAccount ≠ 0)
    (hm : isManage txn.fields = false) : AppliedOnce txn calls := by
  induction h with
  | start => exact .nil
  | @call e1 e2 calls txn' params ter applied env hchain hcall ih =>
    have hrun' : ∀ c ∈ calls, c.applied = true → c.Counted := fun c hc => hrun c (by simp [hc])
    refine List.pairwise_append.2 ⟨ih hrun', List.pairwise_singleton _ _, fun c hc c' hc' => ?_⟩
    rintro ⟨happ, happ'⟩
    cases List.mem_singleton.1 hc'
    obtain ⟨source, number, fields⟩ := happ'.same
    obtain ⟨rfl, -⟩ := happ'
    -- the sequence is past the transaction before the call, and not past it
    obtain ⟨q, hq, hlt⟩ := hchain.sequence_passed hrun' hs hm c hc happ
    obtain ⟨hf, -⟩ | ⟨-, v1, v2, metaData, hcom⟩ := (applyTransaction_cases hcall).2
    · cases hf
    obtain ⟨hp, hmax⟩ := hrun ⟨txn', params, ter, true⟩ (by simp) rfl
    obtain ⟨⟨q', hq', hle⟩, -⟩ := hcom.sequence_counts hp (fields ▸ hm) (source ▸ hs) hmax
    rw [source] at hq'
    cases hq.symm.trans hq'
    rw [number] at hle
    exact UInt32.not_lt.2 hle hlt
  | renew _ _ ih | next _ _ ih => exact ih hrun

/-- An engine for the next ledger. -/
def TransactionEngine.next (e : TransactionEngine) : TransactionEngine where
  mLedger := { e.mLedger with mTransactionMap := ∅, mLedgerSeq := e.mLedger.mLedgerSeq + 1 }
  mNodes := e.mNodes

/-- A transaction is given to the engine in two ledgers, one after the other. -/
def appliedTwice (env : Env) (e : TransactionEngine) (txn : STTx)
    (params : TransactionEngineParams) : Except Fault ((TER × Bool) × (TER × Bool)) := do
  let (r1, e1) ← applyTransaction env e txn params
  let (r2, _) ← applyTransaction env e1.next txn params
  return (r1, r2)

theorem chain_of_appliedTwice {env : Env} {params : TransactionEngineParams} {r1 r2 : TER × Bool}
    (h : appliedTwice env e txn params = .ok (r1, r2)) :
    ∃ e', Chain e [⟨txn, params, r1.1, r1.2⟩, ⟨txn, params, r2.1, r2.2⟩] e' := by
  unfold appliedTwice at h
  cases h1 : applyTransaction env e txn params with
  | error _ => simp [h1, bind, Except.bind] at h
  | ok x =>
    cases h2 : applyTransaction env x.2.next txn params with
    | error _ => simp [h1, h2] at h
    | ok y =>
      simp only [h1, h2, bind, Except.bind] at h
      obtain ⟨rfl, rfl⟩ := h
      have hfollows : x.2.mLedger.Follows x.2.next.mLedger := ⟨rfl, rfl, fun _ _ => rfl⟩
      exact ⟨y.2, .call env (.next (.call env (.start e) h1) hfollows) h2⟩

end

/-- An `ttACCOUNT_SET` of account 5 without a change. -/
def plainAccountSet : STTx :=
  .mk { txID := 1, account := 5, sequence := 3, fee := { mValue := 10 }, sigState := .good }
    (.accountSet none none none none none 0 0) []

/-- It is applied in one ledger and refused in the next. -/
theorem plainAccountSet_once : ∃ (_ : Sha512Half) (e e' : TransactionEngine) (calls : List Call),
    Chain e calls e' ∧ (∀ c ∈ calls, c.applied = true → c.Counted) ∧
    (∃ c ∈ calls, c.Applies plainAccountSet) ∧ AppliedOnce plainAccountSet calls :=
  letI := Key.coded
  have h : appliedTwice partialEnv ⟨partialLedger, { mLedger := partialLedger }, 0⟩ plainAccountSet {} =
      .ok ((.tesSUCCESS, true), (.tefPAST_SEQ, false)) := by decide +kernel
  have ⟨e', hchain⟩ := chain_of_appliedTwice h
  have hrun : ∀ c ∈ [Call.mk plainAccountSet {} .tesSUCCESS true, .mk plainAccountSet {} .tefPAST_SEQ
      false], c.applied = true → c.Counted := by
    simp [Call.Counted, plainAccountSet, STTx.getSequence, STTx.common, maxSequence]
  ⟨Key.coded, _, e', _, hchain, hrun, ⟨_, List.mem_cons_self, rfl, rfl, rfl⟩,
    appliedOnce_of_chain hchain hrun (by decide) rfl⟩

/-- A `ttMNGFEE` of the managers, with their signature. -/
def managersMngFee : STTx :=
  .mk { txID := 1, account := 2, sigState := .good } (.mngFee 9) []

def managersEnv : @Env Key.coded :=
  letI := Key.coded
  { strangerEnv with accountID := fun _ => 2 }

/-- It is applied in one ledger, and again in the next. -/
theorem managersMngFee_twice : ∃ (_ : Sha512Half) (e e' : TransactionEngine) (calls : List Call),
    Chain e calls e' ∧ (∀ c ∈ calls, c.applied = true → c.Counted) ∧
    managersMngFee.getSourceAccount ≠ 0 ∧ ¬AppliedOnce managersMngFee calls :=
  letI := Key.coded
  have h : appliedTwice managersEnv ⟨managedLedger, { mLedger := managedLedger }, 0⟩ managersMngFee {} =
      .ok ((.tesSUCCESS, true), (.tesSUCCESS, true)) := by decide +kernel
  have ⟨e', hchain⟩ := chain_of_appliedTwice h
  ⟨Key.coded, _, e', _, hchain,
    by simp [Call.Counted, managersMngFee, STTx.getSequence, STTx.common, maxSequence], by decide,
    by simp [AppliedOnce, Call.Applies]⟩

end Skywell
