import JingtumCore.NetworkOPs

/-!
# Cached verdicts on signatures

Where a node relies on a verdict it has cached, in the flag `SF_SIGGOOD` or in
a queued or held transaction, the signature has been verified before. What has
been verified is read off the calls made so far, so it stays true; each thread
keeps the caches within it.
-/
namespace Skywell
open Interleaving Consensus Std
variable [Sha512Half]

/-- The transaction whose signature a call takes to be good. -/
def NodeCall.relies : NodeCall → Option TxID
  | .checkSign _ _ => none
  | .setFlag id flag => if flag.SF_SIGGOOD then some id else none
  | .applyTransaction id params => if params.tapNO_CHECK_SIGN then some id else none

/-- Of the calls made, the last one first, each that takes a signature to be
good comes after a call that verified a signature of that transaction. -/
def VerdictsFirst : List NodeCall → Prop
  | [] => True
  | call :: earlier =>
    (∀ id, call.relies = some id → .checkSign id true ∈ earlier) ∧ VerdictsFirst earlier

namespace Node

/-- A signature of the transaction has been verified. -/
def Verified (n : Node) (id : TxID) : Prop := NodeCall.checkSign id true ∈ n.history

/-- The caches hold no more than what has been verified. -/
structure Sound (n : Node) : Prop where
  history : VerdictsFirst n.history
  hashRouter : n.hashRouter.GoodOnly n.Verified
  jobs : ∀ flags stx, Job.checkTransaction flags stx ∈ n.jobs → flags.SF_SIGGOOD →
    n.Verified stx.getTransactionID
  mHeldTransactions : n.mHeldTransactions.Holds fun txn => n.Verified txn.getTransactionID
  mCache : ∀ (id) (tx : Transaction), n.mCache[id]? = some tx → tx.getID = id

def discipline : Discipline Node where
  inv := Sound
  after n n' := n.history <:+ n'.history
  refl _ := List.suffix_rfl
  trans := List.IsSuffix.trans

/-- The thread, last scheduled in `n`, keeps the caches sound, and `Q` holds
from its end on. -/
abbrev SafeAt {α : Type} (Q : α → Node → Prop) (t : NodeM α) (n : Node) : Prop :=
  Safe discipline Q t n

/-- No more is known of a thread than that it keeps the caches sound. -/
abbrev Keeps {α : Type} (t : NodeM α) (n : Node) : Prop := SafeAt (fun _ _ => True) t n

variable {n n' : Node} {id : TxID}

theorem keeps_pure {α : Type} {a : α} : Keeps (pure a) n := Safe.pure fun _ _ => trivial

theorem keeps_unless {α : Type} {c : Prop} [Decidable c] {a : α} {t : NodeM α}
    (rest : ¬ c → Keeps t n) : Keeps (if c then pure a else t) n :=
  Safe.ite (fun _ => keeps_pure) rest

variable {bAdmin : Bool} {job : Job} {stx txn : STTx} {engine : TransactionEngine}
  {params : TransactionEngineParams}

theorem Verified.later (h : n.Verified id) (hs : n.history <:+ n'.history) : n'.Verified id :=
  hs.subset h

/-- Changes that leave the caches as they are. -/
theorem Sound.of_same (h : n.Sound) (history : n'.history = n.history)
    (hashRouter : n'.hashRouter = n.hashRouter) (jobs : n'.jobs = n.jobs)
    (held : n'.mHeldTransactions = n.mHeldTransactions) (cache : n'.mCache = n.mCache) :
    discipline.Later n n' := by
  have same : n'.Verified = n.Verified := by
    funext id
    rw [Verified, Verified, history]
  have after : n.history <:+ n'.history := history ▸ List.suffix_rfl
  refine ⟨after, ?_, ?_, ?_, ?_, ?_⟩
  · exact history ▸ h.history
  · exact hashRouter ▸ same ▸ h.hashRouter
  · exact jobs ▸ same ▸ h.jobs
  · exact held ▸ same ▸ h.mHeldTransactions
  · exact cache ▸ h.mCache

theorem Sound.record (h : n.Sound) {call : NodeCall}
    (verified : ∀ id, call.relies = some id → n.Verified id) :
    discipline.Later n (n.record call) := by
  have more : n.history <:+ (n.record call).history := List.suffix_cons call n.history
  refine ⟨more, ⟨verified, h.history⟩, ?_, ?_, ?_, h.mCache⟩
  · exact h.hashRouter.mono fun id hv => hv.later more
  · exact fun flags stx hj good => (h.jobs flags stx hj good).later more
  · exact fun k txn hk => ⟨(h.mHeldTransactions k txn hk).1,
      (h.mHeldTransactions k txn hk).2.later more⟩

theorem Sound.withRouter (h : n.Sound) {hashRouter : HashRouter}
    (good : hashRouter.GoodOnly n.Verified) : discipline.Later n { n with hashRouter } :=
  ⟨List.suffix_rfl, { h with hashRouter := good }⟩

theorem read_keeps {α : Type} {f : Node → α} : Keeps (read f) n :=
  Safe.atomic (fun _ later => ⟨List.suffix_rfl, later.2⟩) fun _ _ _ _ => trivial

theorem passesLocal_keeps (txn : STTx) : Keeps (passesLocal txn) n := by
  refine Safe.bind read_keeps fun result n' _ _ => ?_
  cases result with
  | error fault => exact Safe.throw
  | ok passes => exact keeps_pure

theorem checkSign_safe (txn : STTx) :
    SafeAt (fun verdict n => verdict = true → n.Verified txn.getTransactionID)
      (checkSign txn) n := by
  refine Safe.atomic (fun _ later => later.2.record (by simp [NodeCall.relies])) ?_
  intro n1 n2 _ later good
  dsimp only at later good
  rw [good] at later
  have here : (n1.record (.checkSign txn.getTransactionID true)).Verified
      txn.getTransactionID := List.mem_cons_self
  exact here.later later.1

theorem addSuppressionPeer_safe :
    SafeAt (fun result n => result.2.SF_SIGGOOD → n.Verified id) (addSuppressionPeer id) n := by
  refine Safe.atomic (fun n' later => ?_) fun n1 n2 later1 later2 good => ?_
  · exact later.2.withRouter later.2.hashRouter.addSuppressionPeer.1
  · exact (later1.2.hashRouter.addSuppressionPeer.2 good).later later2.1

theorem getFlags_safe (id : TxID) :
    SafeAt (fun flags n => flags.SF_SIGGOOD → n.Verified id) (getFlags id) n := by
  refine Safe.atomic (fun n' later => ?_) fun n1 n2 later1 later2 good => ?_
  · exact later.2.withRouter later.2.hashRouter.getFlags.1
  · exact (later1.2.hashRouter.getFlags.2 good).later later2.1

variable {flag : SuppressionFlags} {trans : Transaction} {bFailHard bLocal : Bool}

theorem relies_of {c : Bool} (h : c → n.Verified id) :
    ∀ id', (if c then some id else none) = some id' → n.Verified id' := by
  intro id' hr
  split at hr
  · cases hr
    exact h ‹_›
  · cases hr

theorem setFlag_keeps (h : flag.SF_SIGGOOD → n.Verified id) :
    Keeps (setFlag id flag) n := by
  refine Safe.atomic (fun n' later => ?_) fun _ _ _ _ => trivial
  have verified : flag.SF_SIGGOOD → n'.Verified id := fun good => (h good).later later.1
  have good : (n'.hashRouter.setFlag n'.elapsedSeconds id flag).2.GoodOnly n'.Verified :=
    later.2.hashRouter.setFlag verified
  exact (later.2.withRouter good).2.record (relies_of verified)

theorem addSuppressionFlags_keeps
    (h : flag.SF_SIGGOOD → n.Verified id) : Keeps (addSuppressionFlags id flag) n := by
  refine Safe.atomic (fun n' later => ?_) fun _ _ _ _ => trivial
  have verified : flag.SF_SIGGOOD → n'.Verified id := fun good => (h good).later later.1
  have good : (n'.hashRouter.addSuppressionFlags n'.elapsedSeconds id flag).2.GoodOnly
      n'.Verified := later.2.hashRouter.addSuppressionFlags verified
  exact (later.2.withRouter good).2.record (relies_of verified)

/-- Flags other than `SF_SIGGOOD` may be set at any time. -/
theorem setBad_keeps : Keeps (discard (setFlag id { SF_BAD := true })) n :=
  (setFlag_keeps (by simp)).discard

theorem engineApply_keeps (h : params.tapNO_CHECK_SIGN → n.Verified txn.getTransactionID) :
    Keeps (engineApply engine txn params) n := by
  refine Safe.atomic (fun n' later => later.2.record ?_) fun _ _ _ _ => trivial
  exact relies_of fun unchecked => (h unchecked).later later.1

theorem addJob_keeps (h : ∀ flags stx, job = .checkTransaction flags stx → flags.SF_SIGGOOD →
      n.Verified stx.getTransactionID) : Keeps (addJob job) n := by
  refine Safe.atomic (fun n' later => ?_) fun _ _ _ _ => trivial
  refine ⟨List.suffix_rfl, { later.2 with jobs := fun flags stx hj good => ?_ }⟩
  rcases List.mem_cons.1 hj with new | old
  · exact (h flags stx new.symm good).later later.1
  · exact later.2.jobs flags stx old good

theorem canonicalize_safe {trans : Transaction} :
    SafeAt (fun trans' _ => trans'.getID = trans.getID) (canonicalize trans) n := by
  refine Safe.atomic (fun n' later => ?_) fun n1 _ later1 _ => ?_
  · split
    · exact ⟨List.suffix_rfl, later.2⟩
    split
    · exact ⟨List.suffix_rfl, later.2⟩
    refine ⟨List.suffix_rfl, { later.2 with mCache := fun id tx h => ?_ }⟩
    rw [ExtTreeMap.getElem?_insert] at h
    split at h
    · rename_i same
      cases h
      exact LawfulEqCmp.eq_of_compare same
    · exact later.2.mCache id tx h
  · split
    · rfl
    split
    · exact later1.2.mCache _ _ ‹_›
    · rfl

theorem addHeldTransaction_keeps (h : n.Verified trans.getID) :
    Keeps (addHeldTransaction trans) n := by
  refine Safe.atomic (fun n' later => ?_) fun _ _ _ _ => trivial
  exact ⟨List.suffix_rfl, { later.2 with
    mHeldTransactions := later.2.mHeldTransactions.push_back (h.later later.1) }⟩

theorem addLocalTx_keeps : Keeps (addLocalTx txn) n :=
  Safe.atomic (fun _ later => later.2.of_same rfl rfl rfl rfl rfl) fun _ _ _ _ => trivial

theorem setCurrentLedger_keeps {ledger : LedgerRecord} : Keeps (setCurrentLedger ledger) n :=
  Safe.atomic (fun _ later => later.2.of_same rfl rfl rfl rfl rfl) fun _ _ _ _ => trivial

/-- A transaction that passes the checks of its constructor has been verified. -/
theorem transaction_safe (stx : STTx) (validate : Bool)
    (h : validate = false → n.Verified stx.getTransactionID) :
    SafeAt (fun trans n => trans.mTransaction = stx ∧
      (trans.mStatus ≠ .INVALID → n.Verified stx.getTransactionID))
      (transaction stx validate) n := by
  refine Safe.ite (fun no => ?_) fun _ => ?_
  · refine Safe.pure fun n' later => ⟨rfl, fun _ => (h ?_).later later.1⟩
    simpa using no
  refine Safe.bind (passesLocal_keeps stx) fun passes n1 _ _ => ?_
  refine Safe.ite (fun _ => Safe.pure fun _ _ => ⟨rfl, by simp⟩) fun _ => ?_
  refine Safe.bind (checkSign_safe stx) fun verdict n2 _ good => ?_
  refine Safe.ite (fun _ => Safe.pure fun _ _ => ⟨rfl, by simp⟩) fun accepted => ?_
  exact Safe.pure fun n' later => ⟨rfl, fun _ => (good (by simpa using accepted)).later later.1⟩

theorem doTransaction_keeps (h : params.tapNO_CHECK_SIGN → n.Verified txn.getTransactionID) :
    Keeps (doTransaction txn params) n := by
  refine Safe.bind read_keeps fun ledger n1 later1 _ => ?_
  have h1 : params.tapNO_CHECK_SIGN → n1.Verified txn.getTransactionID :=
    fun skip => (h skip).later later1.1
  refine Safe.bind (engineApply_keeps h1) fun result n2 _ _ => ?_
  obtain ⟨result, engine⟩ := result
  cases result with
  | error fault => exact Safe.throw
  | ok result =>
    refine Safe.ite (fun _ => ?_) fun _ => keeps_pure
    exact Safe.bind setCurrentLedger_keeps fun _ _ _ _ => keeps_pure

theorem knownGood_safe :
    SafeAt (fun good n => good = true → n.Verified trans.getID) (knownGood trans) n := by
  refine Safe.bind (getFlags_safe trans.getID) fun flags n1 _ cached => ?_
  refine Safe.ite (fun _ => Safe.pure fun _ _ => by simp) fun _ => ?_
  refine Safe.ite (fun good => Safe.pure fun _ later _ => (cached good).later later.1) fun _ => ?_
  refine Safe.bind (checkSign_safe trans.mTransaction) fun verdict n2 _ checked => ?_
  refine Safe.ite (fun good => ?_) fun _ => ?_
  · have verified : n2.Verified trans.getID := checked good
    refine Safe.bind (setFlag_keeps fun _ => verified).discard fun _ n3 later _ => ?_
    exact Safe.pure fun _ later' _ => (verified.later later.1).later later'.1
  · exact Safe.bind setBad_keeps fun _ _ _ _ => Safe.pure fun _ _ => by simp

theorem processResult_keeps {r : TER}
    (h : n.Verified trans.getID) : Keeps (processResult trans bLocal bFailHard r) n := by
  refine Safe.ite (fun _ => ?_) fun _ => ?_
  · exact Safe.bind canonicalize_safe fun _ _ _ _ => keeps_pure
  refine keeps_unless fun _ => ?_
  refine Safe.ite (fun _ => ?_) fun _ => ?_
  · refine keeps_unless fun _ => ?_
    refine Safe.bind canonicalize_safe fun trans' n1 later same => ?_
    have verified : n1.Verified trans'.getID := same ▸ h.later later.1
    exact Safe.bind (addHeldTransaction_keeps verified) fun _ _ _ _ =>
      keeps_pure
  · exact keeps_unless fun _ => keeps_pure

theorem relay_keeps {didApply : Bool} :
    Keeps (relay trans didApply bLocal bFailHard) n := by
  refine Safe.bind read_keeps fun _ _ _ _ => ?_
  exact Safe.ite (fun _ => (setFlag_keeps (by simp)).discard) fun _ => keeps_pure

theorem processGood_keeps (h : n.Verified trans.getID) :
    Keeps (processGood trans bAdmin bLocal bFailHard) n := by
  refine Safe.bind (doTransaction_keeps fun _ => h) fun result n1 later1 _ => ?_
  refine Safe.when (fun _ => setBad_keeps) fun n2 later2 => ?_
  have verified : n2.Verified trans.getID := (h.later later1.1).later later2
  refine Safe.ite (fun _ => Safe.throw) fun _ => ?_
  refine Safe.bind (processResult_keeps verified) fun _ n3 _ _ => ?_
  refine Safe.when (fun _ => addLocalTx_keeps) fun n4 _ => ?_
  exact Safe.bind relay_keeps fun _ _ _ _ => keeps_pure

theorem processTransactionCb_keeps :
    Keeps (processTransactionCb trans bAdmin bLocal bFailHard) n := by
  refine Safe.bind knownGood_safe fun good n1 _ verified => ?_
  exact Safe.ite (fun known => processGood_keeps (verified known)) fun _ =>
    keeps_pure

theorem submitUnchecked_safe (trans : STTx) :
    SafeAt (fun good n => good = true → n.Verified trans.getTransactionID)
      (submitUnchecked trans) n := by
  refine Safe.bind (passesLocal_keeps trans) fun passes n1 _ _ => ?_
  refine Safe.ite (fun _ => ?_) fun _ => ?_
  · exact Safe.bind setBad_keeps fun _ _ _ _ => Safe.pure fun _ _ => by simp
  refine Safe.bind (checkSign_safe trans) fun verdict n2 _ checked => ?_
  refine Safe.ite (fun _ => ?_) fun accepted => ?_
  · exact Safe.bind setBad_keeps fun _ _ _ _ => Safe.pure fun _ _ => by simp
  have verified : n2.Verified trans.getTransactionID := checked (by simpa using accepted)
  refine Safe.bind (setFlag_keeps fun _ => verified).discard fun _ n3 later _ => ?_
  exact Safe.pure fun _ later' _ => (verified.later later.1).later later'.1

theorem submitTransaction_keeps (trans : STTx) : Keeps (submitTransaction trans) n := by
  refine Safe.bind read_keeps fun _ n1 _ _ => ?_
  refine keeps_unless fun _ => ?_
  refine Safe.bind addSuppressionPeer_safe fun suppression n2 _ cached => ?_
  obtain ⟨created, flags⟩ := suppression
  refine keeps_unless fun _ => ?_
  refine keeps_unless fun _ => ?_
  refine Safe.either (fun good => Safe.pure fun _ later _ => (cached good).later later.1)
    (fun _ => Safe.tryCatch (submitUnchecked_safe trans) fun _ _ _ => Safe.pure fun _ _ => by simp)
    fun good n3 _ verified => ?_
  refine Safe.ite (fun known => ?_) fun _ => keeps_pure
  refine Safe.bind (transaction_safe trans false fun _ => verified known) fun _ _ _ _ => ?_
  exact addJob_keeps (by simp)

theorem submitTransactionSync_keeps {bLocal bFailHard bSubmit : Bool} :
    Keeps (submitTransactionSync stx bAdmin bLocal bFailHard bSubmit) n := by
  refine Safe.bind (transaction_safe stx true (by simp)) fun _ _ _ _ => ?_
  exact Safe.ite (fun _ => processTransactionCb_keeps.discard) fun _ => keeps_pure

theorem doSubmit_keeps {admin failHard : Bool} : Keeps (doSubmit stx admin failHard) n := by
  refine Safe.bind (transaction_safe stx true (by simp)) fun _ _ _ _ => ?_
  exact Safe.ite (fun _ => processTransactionCb_keeps.discard) fun _ => keeps_pure

theorem onMessage_keeps (stx : STTx) : Keeps (onMessage stx) n := by
  refine Safe.bind read_keeps fun _ n1 _ _ => ?_
  refine keeps_unless fun _ => ?_
  refine Safe.bind addSuppressionPeer_safe fun suppression n2 _ cached => ?_
  obtain ⟨created, flags⟩ := suppression
  refine keeps_unless fun _ => ?_
  refine Safe.bind read_keeps fun _ n3 later3 _ => ?_
  refine Safe.bind read_keeps fun _ n4 later4 _ => ?_
  refine keeps_unless fun _ => ?_
  refine addJob_keeps fun flags' stx' same good => ?_
  cases same
  exact ((cached good).later later3.1).later later4.1

theorem checkReceived_keeps {flags : SuppressionFlags}
    (h : flags.SF_SIGGOOD → n.Verified stx.getTransactionID) :
    Keeps (checkReceived flags stx) n := by
  refine Safe.bind read_keeps fun _ n1 later1 _ => ?_
  refine Safe.ite (fun _ => setBad_keeps) fun _ => ?_
  have cached : (!flags.SF_SIGGOOD) = false → n1.Verified stx.getTransactionID :=
    fun good => (h (by simpa using good)).later later1.1
  refine Safe.bind (transaction_safe stx _ cached) fun tx n2 _ checked => ?_
  refine Safe.ite (fun _ => setBad_keeps) fun valid => ?_
  refine Safe.bind (setFlag_keeps fun _ => checked.2 valid).discard fun _ _ _ _ => ?_
  exact processTransactionCb_keeps.discard

theorem runJob_keeps (h : ∀ flags stx, job = .checkTransaction flags stx → flags.SF_SIGGOOD →
      n.Verified stx.getTransactionID) : Keeps (runJob job) n := by
  cases job with
  | checkTransaction flags stx =>
    exact Safe.tryCatch (checkReceived_keeps (h flags stx rfl)) fun _ _ _ => setBad_keeps
  | processTransaction tx bAdmin bLocal bFailHard => exact processTransactionCb_keeps.discard

theorem applyHeld_keeps {held : CanonicalTXSet.Key × STTx}
    (same : held.1.mTXid = held.2.getTransactionID) (h : n.Verified held.2.getTransactionID) :
    Keeps (applyHeld engine held) n := by
  refine Safe.bind (addSuppressionFlags_keeps fun _ => same ▸ h) fun created n1 later _ => ?_
  refine Safe.bind (engineApply_keeps fun _ => h.later later.1) fun _ _ _ _ => ?_
  exact keeps_pure

theorem applyHeldTransactions_keeps [LedgerHashes] : Keeps applyHeldTransactions n := by
  refine Safe.bind read_keeps fun ledger n1 _ _ => ?_
  -- the held transactions, and all of them verified, are those of the state they are read in
  have held_safe : SafeAt (fun held n => ∀ item ∈ held,
      item.1.mTXid = item.2.getTransactionID ∧ n.Verified item.2.getTransactionID)
      (read (·.mHeldTransactions.mMap.toList)) n1 := by
    refine Safe.atomic (fun _ later => ⟨List.suffix_rfl, later.2⟩) ?_
    intro n2 n3 later2 later3 item hi
    obtain ⟨same, verified⟩ := later2.2.mHeldTransactions.mem_toList hi
    exact ⟨same, verified.later later3.1⟩
  refine Safe.bind held_safe fun held n2 _ verified => ?_
  refine Safe.bind (Safe.foldlM (G := fun (item : CanonicalTXSet.Key × STTx) n =>
      item.1.mTXid = item.2.getTransactionID ∧ n.Verified item.2.getTransactionID)
    (fun _ _ _ later h => ⟨h.1, h.2.later later⟩) verified
    fun _ _ _ h => applyHeld_keeps h.1 h.2) fun engine n3 _ _ => ?_
  refine Safe.atomic (fun n' later => ?_) fun _ _ _ _ => trivial
  exact ⟨List.suffix_rfl, { later.2 with mHeldTransactions := CanonicalTXSet.holds_empty }⟩

theorem applyLocal_keeps {ledger : Ledger} : Keeps (applyLocal ledger) n := by
  refine Safe.bind read_keeps fun txns n1 _ _ => ?_
  refine Safe.bind (Safe.foldlM (G := fun _ _ => True) (fun _ _ _ _ h => h) (fun _ _ => trivial)
    fun _ _ _ _ => ?_) fun _ _ _ _ => keeps_pure
  exact Safe.bind (engineApply_keeps (by simp)) fun _ _ _ _ => keeps_pure

/-- Programs on an engine that keep the caches sound; the second program plays no part. -/
def engineSafe : Congruence EngineM EngineM where
  rel {α} V x _ := ∀ engine n, SafeAt (fun (result : α × TransactionEngine) _ => V result.1)
    (x engine) n
  pure hV _ _ := Safe.pure fun _ _ => hV
  bind hx hf engine n := Safe.bind (hx engine n) fun result n' _ hV => hf result.1 hV result.2 n'

/-- The flag that is read decides whether the engine checks the signature. -/
theorem applyTransaction_safe (closeTimeNC : UInt32) (openLedger : Bool) (txn : STTx)
    (retryAssured : Bool) (engine : TransactionEngine) (n : Node) :
    Keeps (applyTransaction engineFlags engineCall closeTimeNC openLedger txn retryAssured
      engine) n := by
  have flags_safe : SafeAt (fun result n => result.1.SF_SIGGOOD →
      n.Verified txn.getTransactionID) (engineFlags txn.getTransactionID engine) n :=
    Safe.bind (getFlags_safe _) fun _ _ _ cached => Safe.pure fun _ later good =>
      (cached good).later later.1
  refine Safe.bind flags_safe fun result n1 _ cached => ?_
  dsimp only
  split
  · exact keeps_pure
  · exact Safe.bind (engineApply_keeps cached) fun _ _ _ _ => keeps_pure

theorem applySet_safe (set : List (TxID × Option STTx)) (applyLedger : LedgerRecord)
    (checkLedger : Option Ledger) {s : CanonicalTXSet} (openLgr : Bool)
    (hs : s.Holds fun _ => True) :
    SafeAt (fun result _ => result.2.Holds fun _ => True)
      (applySet set applyLedger checkLedger s openLgr) n := by
  have has (id : TxID) : engineSafe.rel (fun _ => True) (engineHas checkLedger id)
      (engineHas checkLedger id) := fun _ _ => keeps_pure
  have apply (txn : STTx) (retry : Bool) (_ : True) : engineSafe.rel (fun _ => True)
      (applyTransaction engineFlags engineCall applyLedger.mCloseTime openLgr txn retry)
      (applyTransaction engineFlags engineCall applyLedger.mCloseTime openLgr txn retry) :=
    applyTransaction_safe applyLedger.mCloseTime openLgr txn retry
  have items : ∀ e ∈ set, ∀ txn, e.2 = some txn → True := fun _ _ _ _ => trivial
  have all := applyTransactions_rel engineSafe has apply items hs
  exact Safe.bind (all _ n) fun _ _ _ holds => Safe.pure fun _ _ => holds

theorem accept_keeps [LedgerHashes] {mPreviousLedger : LedgerRecord}
    {set : List (TxID × Option STTx)} {setHash : TxSetHash} {closeTime : UInt32}
    {mCloseResolution : Int} {closeTimeCorrect : Bool} {disputes : List (Option STTx)} :
    Keeps (accept mPreviousLedger set setHash closeTime mCloseResolution closeTimeCorrect
      disputes) n := by
  refine Safe.bind read_keeps fun config n1 _ _ => ?_
  refine Safe.bind read_keeps fun closeTimeNC n2 _ _ => ?_
  cases mPreviousLedger.next config closeTimeNC with
  | none => exact keeps_pure
  | some newLCL =>
  refine Safe.bind (applySet_safe set newLCL none false CanonicalTXSet.holds_empty)
    fun built n3 _ holds => ?_
  refine Safe.bind read_keeps fun closeTimeNC n4 _ _ => ?_
  obtain ⟨newLCL, s⟩ := built
  cases (newLCL.updateSkipList.setAccepted closeTime mCloseResolution closeTimeCorrect).next
    config closeTimeNC with
  | none => exact keeps_pure
  | some newOL =>
  have disputed := holds.foldl_push_back disputes.reduceOption
  refine Safe.either
    (fun _ => Safe.pure fun _ _ => disputed) (fun _ => applySet_safe _ _ _ true disputed)
    fun opened n5 _ holds => ?_
  refine Safe.bind read_keeps fun oldOL n6 _ _ => ?_
  refine Safe.either (fun _ => keeps_pure)
    (fun _ => (applySet_safe _ _ _ true holds).mono fun _ _ _ => trivial)
    fun opened n7 _ _ => ?_
  refine Safe.bind applyLocal_keeps fun ledger n8 _ _ => ?_
  exact Safe.atomic (fun _ later => later.2.of_same rfl rfl rfl rfl rfl) fun _ _ _ _ => trivial

theorem Fresh.sound (h : n.Fresh) : n.Sound where
  history := h.history ▸ trivial
  hashRouter := by
    intro id flags hf
    simp [h.hashRouter] at hf
  jobs := by simp [h.jobs]
  mHeldTransactions := by
    intro k txn hk
    simp [h.mHeldTransactions] at hk
  mCache := by
    intro id tx ht
    simp [h.mCache] at ht

theorem Drifts.later (h : n.Sound) (hd : n.Drifts n') : discipline.Later n n' := by
  have same : n'.Verified = n.Verified := by
    funext id
    rw [Verified, Verified, hd.history]
  have after : n.history <:+ n'.history := hd.history ▸ List.suffix_rfl
  refine ⟨after, hd.history ▸ h.history, ?_, ?_, ?_, hd.mCache h.mCache⟩
  · rw [same]
    exact hd.hashRouter.mono fun id ⟨flags, hf, good⟩ => h.hashRouter id flags hf good
  · rw [same]
    exact fun flags stx hj good => h.jobs flags stx (hd.jobs _ hj) good
  · rw [same, hd.mHeldTransactions]
    exact h.mHeldTransactions

theorem Starts.safe [LedgerHashes] {t : NodeM Unit} (h : n.Sound) (hs : n.Starts t n') :
    discipline.Later n n' ∧ Keeps t n' := by
  have same : discipline.Later n n := ⟨List.suffix_rfl, h⟩
  cases hs with
  | onMessage stx => exact ⟨same, onMessage_keeps stx⟩
  | submitTransaction stx => exact ⟨same, submitTransaction_keeps stx⟩
  | submitTransactionSync => exact ⟨same, submitTransactionSync_keeps⟩
  | doSubmit => exact ⟨same, doSubmit_keeps⟩
  | job before after job queued =>
    have left : ∀ j ∈ before ++ after, j ∈ n.jobs := by
      intro j hj
      rw [queued]
      rcases List.mem_append.1 hj with hj | hj
      · exact List.mem_append_left _ hj
      · exact List.mem_append_right _ (List.mem_cons_of_mem _ hj)
    refine ⟨⟨List.suffix_rfl, { h with
      jobs := fun flags stx hj good => h.jobs flags stx (left _ hj) good }⟩,
        runJob_keeps fun flags stx same good => ?_⟩
    exact h.jobs flags stx (by simp [queued, same]) good
  | applyHeldTransactions => exact ⟨same, applyHeldTransactions_keeps⟩
  | accept => exact ⟨same, accept_keeps⟩

/-- In every run of a node, each call that takes a signature to be good, by
setting `SF_SIGGOOD` or by skipping the check, comes after a call that verified
a signature of that transaction. -/
theorem verdicts_first [LedgerHashes] {n0 : Node} (fresh : n0.Fresh)
    {threads : List (NodeM Unit)} {n : Node} (run : system.Reachable n0 (threads, n)) :
    VerdictsFirst n.history := by
  have kept := run.keeps fresh.sound (fun inv hs => Starts.safe inv hs)
    (fun inv hd => Drifts.later inv hd)
  exact kept.1.history

end Node

/-- A node that has just been started, on an empty ledger. -/
def idleNode : @Node Key.coded :=
  letI := Key.coded
  let ledger : LedgerRecord := {
    mAccountStateMap := ∅
    mTransactionMap := ∅
    mLedgerSeq := 2
    mBaseFee := 10
    mReferenceFeeUnits := 10
    mReserveBase := 20
    mReserveIncrement := 5
    mParentHash := 1
    mTotCoins := 0
    mCloseTime := 30
    mParentCloseTime := 20
    mCloseResolution := 10
    mCloseFlags := 0 }
  let config : Config := ⟨1, 2, 3, 10⟩
  { config := { config with
      FEE_DEFAULT := 10
      FEE_ACCOUNT_RESERVE := 20
      FEE_OWNER_RESERVE := 5 }
    env := {
      config
      closedLedger := ledger.toLedger
      scaleFeeLoad := fun fee _ _ _ => fee
      accountID := fun _ => 5
      skywellCalculate := fun _ _ => .error .nullPointer }
    elapsedSeconds := 0
    closeTimeNC := 35
    needNetworkLedger := false
    validLedgerIndex := 1
    validatedLedgerAge := 0
    omFULL := true
    sig_state := fun _ => .indeterminate
    passesLocalChecks := fun _ => .ok true
    mCurrentLedger := ledger }

def signedTx : STTx := .mk { txID := 7, account := 5, checkSign := true } (.message 6) []

omit [Sha512Half] in
/-- The transaction is applied without a check of its signature, which was checked before. -/
theorem submitted_after_verdict :
    letI := Key.coded
    letI : LedgerHashes := ⟨fun _ => 0, fun _ => 0, fun _ => 0⟩
    ∃ (n : Node) (threads : List (NodeM Unit)), Node.system.Reachable idleNode (threads, n) ∧
      NodeCall.applyTransaction 7 { tapOPEN_LEDGER := true, tapNO_CHECK_SIGN := true } ∈ n.history ∧
      VerdictsFirst n.history := by
  let _ := Key.coded
  let _ : LedgerHashes := ⟨fun _ => 0, fun _ => 0, fun _ => 0⟩
  have fresh : idleNode.Fresh := ⟨rfl, rfl, rfl, rfl, rfl⟩
  have started : Node.system.Reachable idleNode ([Node.doSubmit signedTx false false], idleNode) :=
    .tail .refl (.start (.doSubmit idleNode signedTx false false))
  obtain ⟨t, ended⟩ := started.exec
  refine ⟨_, [t], ended, ?_, Node.verdicts_first fresh ended⟩
  decide +kernel

end Skywell
