import JingtumCore.SkipLists

/-!
# The close times of accepted ledgers

`accept` closes a ledger at the time of our position, whatever the parent's close time is.
-/
namespace Skywell

section
variable [Sha512Half] [LedgerHashes] [SHAMapHash]

/-- The ledger that `accept` closes when our position has the close time `ours`. The round's
resolution is that of the new ledger. -/
def accept (config : FeeConfig) (closeTimeNC : UInt32) (node : Nat → NodeState)
    (stTx : Blob → Option STTx) (mPreviousLedger : LedgerRecord) (set : SHAMap) (ours : UInt32) :
    Option LedgerRecord := do
  let newLCL ← buildLCL config closeTimeNC node stTx mPreviousLedger set
  let closeTime := roundCloseTime ours (.ofInt newLCL.mCloseResolution)
  -- with zero we agreed to disagree
  return if closeTime = 0 then
      newLCL.setAccepted (mPreviousLedger.mCloseTime + 1) newLCL.mCloseResolution false
    else newLCL.setAccepted closeTime newLCL.mCloseResolution true

def Accepts (prev l : LedgerRecord) (ours : UInt32) : Prop :=
  ∃ config closeTimeNC node stTx set, accept config closeTimeNC node stTx prev set ours = some l

/-- Our close time in the resolution of a ledger. -/
abbrev LedgerRecord.rounded (l : LedgerRecord) (ours : UInt32) : UInt32 :=
  roundCloseTime ours (.ofInt l.mCloseResolution)

/-- `setAccepted` does not overflow when it rounds the rounded time again. -/
abbrev LedgerRecord.Roundable (l : LedgerRecord) (ours : UInt32) : Prop :=
  (l.rounded ours).toNat + (UInt32.ofInt l.mCloseResolution).toNat / 2 < 2 ^ 32

/-- The resolution of the ledger after this one. -/
def LedgerRecord.nextResolution (l : LedgerRecord) : Int :=
  (ContinuousLedgerTiming.getNextLedgerTimeResolution l.mCloseResolution l.getCloseAgree
    (l.mLedgerSeq + 1)).getD 0

/-- Our close time in the resolution of the ledger after this one. -/
abbrev LedgerRecord.roundedNext (l : LedgerRecord) (ours : UInt32) : UInt32 :=
  roundCloseTime ours (.ofInt l.nextResolution)

omit [Sha512Half] [LedgerHashes] [SHAMapHash] in
theorem roundCloseTime_again {t r : UInt32}
    (fits : (roundCloseTime t r).toNat + r.toNat / 2 < 2 ^ 32) :
    roundCloseTime (roundCloseTime t r) r = roundCloseTime t r := by
  have multiple : r.toNat ∣ (roundCloseTime t r).toNat := by
    unfold roundCloseTime
    split_ifs
    · exact Nat.dvd_zero _
    · have le : (t + r / 2) % r ≤ t + r / 2 := by
        exact Nat.mod_le ..
      rw [UInt32.toNat_sub_of_le _ _ le]
      exact Nat.dvd_sub_mod _
  generalize roundCloseTime t r = k at fits multiple ⊢
  unfold roundCloseTime
  split_ifs with zero
  · exact zero.symm
  obtain ⟨q, product⟩ := multiple
  have sum : (k + r / 2).toNat = r.toNat * q + r.toNat / 2 := by
    rw [UInt32.toNat_add, ← product]
    exact Nat.mod_eq_of_lt fits
  have positive : 0 < r.toNat := by
    refine Nat.pos_of_ne_zero fun none => zero (UInt32.toNat_inj.1 ?_)
    rw [product, none, Nat.zero_mul]
    rfl
  have rest : (k + r / 2) % r = r / 2 := by
    rw [← UInt32.toNat_inj, UInt32.toNat_mod, sum, Nat.mul_add_mod]
    exact Nat.mod_eq_of_lt (Nat.div_lt_self positive Nat.one_lt_two)
  dsimp only
  rw [rest, UInt32.add_sub_cancel]

variable {prev l : LedgerRecord} {ours : UInt32}

/-- With zero the nodes disagree on the close time. -/
theorem Accepts.cases (h : Accepts prev l ours) (fits : l.Roundable ours) :
    l.rounded ours = 0 ∧ l.mCloseTime = prev.mCloseTime + 1 ∧ l.mCloseFlags = sLCF_NoConsensusTime ∨
      l.rounded ours ≠ 0 ∧ l.mCloseTime = l.rounded ours ∧ l.mCloseFlags = 0 := by
  obtain ⟨config, closeTimeNC, node, stTx, set, h⟩ := h
  obtain ⟨newLCL, -, h⟩ := Option.bind_eq_some_iff.1 h
  cases h
  by_cases zero : newLCL.rounded ours = 0
  · rw [if_pos zero]
    exact .inl ⟨zero, rfl, rfl⟩
  · rw [if_neg zero] at *
    exact .inr ⟨zero, roundCloseTime_again fits, rfl⟩

omit [LedgerHashes] [SHAMapHash] in
theorem LedgerRecord.updateSkipList_resolution :
    l.updateSkipList.mCloseResolution = l.mCloseResolution := by
  rw [updateSkipList]
  split_ifs <;> rfl

theorem Accepts.resolution (h : Accepts prev l ours) : l.mCloseResolution = prev.nextResolution := by
  obtain ⟨config, closeTimeNC, node, stTx, set, h⟩ := h
  obtain ⟨newLCL, built, h⟩ := Option.bind_eq_some_iff.1 h
  obtain ⟨opened, ran, built⟩ := Option.bind_eq_some_iff.1 built
  obtain ⟨r, found, ran⟩ := Option.bind_eq_some_iff.1 ran
  have first : opened.mCloseResolution = r := (Option.some.inj ran) ▸ rfl
  have kept : newLCL.mCloseResolution = opened.mCloseResolution :=
    (Option.some.inj built) ▸ LedgerRecord.updateSkipList_resolution
  have last : l.mCloseResolution = newLCL.mCloseResolution := by
    rw [← Option.some.inj h]
    split_ifs <;> rfl
  rw [LedgerRecord.nextResolution, found, Option.getD_some, last, kept, first]

/-- The close times of a chain increase exactly if each agreed time, rounded in the resolution that
follows from the parent's, is above the parent's close time, or zero. -/
theorem closeTimes_increase_iff (n : Nat) (ledgers : Nat → LedgerRecord) (times : Nat → UInt32)
    (built : ∀ i < n, Accepts (ledgers i) (ledgers (i + 1)) (times i))
    (fits : ∀ i < n, ((ledgers i).roundedNext (times i)).toNat +
      (UInt32.ofInt (ledgers i).nextResolution).toNat / 2 < 2 ^ 32) :
    (∀ i < n, (ledgers i).mCloseTime < (ledgers (i + 1)).mCloseTime) ↔
      ∀ i < n, if (ledgers i).roundedNext (times i) = 0 then (ledgers i).mCloseTime ≠ 0xffffffff
        else (ledgers i).mCloseTime < (ledgers i).roundedNext (times i) := by
  refine forall₂_congr fun i lt => ?_
  have fits := fits i lt
  rw [LedgerRecord.roundedNext, ← (built i lt).resolution] at fits ⊢
  rcases (built i lt).cases fits with ⟨zero, closed, -⟩ | ⟨zero, closed, -⟩
  · rw [closed, if_pos zero, UInt32.lt_iff_toNat_lt, UInt32.toNat_add, ne_eq, ← UInt32.toNat_inj]
    have limit := (ledgers i).mCloseTime.toNat_lt
    change _ < (_ + 1) % 2 ^ 32 ↔ ¬ _ = 4294967295
    omega
  · rw [closed, if_neg zero]

/-- A `Ledger` object. Its maps may differ from those that `mTransHash` and `mAccountHash` name. -/
structure LoadedLedger extends LedgerRecord where
  mTransHash : Nat
  mAccountHash : Nat
  mHash : LedgerHash := 0
  mClosed : Bool := false
  mAccepted : Bool := false
  mImmutable : Bool := true

namespace LoadedLedger
variable (l : LoadedLedger)

def addRaw : RawLedger :=
  { l.toLedgerRecord.addRaw with mTransHash := l.mTransHash, mAccountHash := l.mAccountHash }

def updateHash : LoadedLedger :=
  let l := if l.mImmutable then l else { l with
    mTransHash := LedgerHashes.transHash l.mTransactionMap
    mAccountHash := LedgerHashes.accountHash l.mAccountStateMap }
  { l with mHash := LedgerHashes.ledgerHash l.addRaw }

def setClosed : LoadedLedger := { l with mClosed := true }

def setImmutable : LoadedLedger := { l.updateHash with mImmutable := true }

/-- `setAccepted ()`, for a ledger that was acquired. -/
def setAccepted : LoadedLedger :=
  let l := if l.getCloseAgree then
      { l with mCloseTime := roundCloseTime l.mCloseTime (.ofInt l.mCloseResolution) }
    else l
  { l with mAccepted := true }.setImmutable

/-- `setRaw` of a new ledger. -/
def setRaw (raw : RawLedger) (maps : Ledger) : LoadedLedger :=
  updateHash { raw, maps with
    mCloseResolution := raw.mCloseResolution.toNat
    mCloseFlags := raw.mCloseFlags.toUInt32 }

/-- The ledger that is made of the header fields of `l` in the database. -/
def ofFields (l : LedgerRecord) (maps : Ledger) : LoadedLedger :=
  updateHash { l with
    toLedger := { maps with mLedgerSeq := l.mLedgerSeq }
    mTransHash := LedgerHashes.transHash l.mTransactionMap
    mAccountHash := LedgerHashes.accountHash l.mAccountStateMap }

/-- The calls of `finishLoadByIndexOrHash` and `switchLedgers`. -/
inductive Call where
  | setClosed
  | setImmutable
  | setAccepted

def Call.run (l : LoadedLedger) : Call → LoadedLedger
  | setClosed => l.setClosed
  | setImmutable => l.setImmutable
  | setAccepted => l.setAccepted

/-- The header is `raw`, and rounding its close time again changes nothing. -/
structure Final (raw : RawLedger) : Prop where
  header : l.addRaw = raw
  hash : l.mHash = LedgerHashes.ledgerHash raw
  frozen : l.mImmutable = true
  rounded : l.getCloseAgree = true →
    roundCloseTime l.mCloseTime (.ofInt l.mCloseResolution) = l.mCloseTime

variable {l} {raw : RawLedger}

omit [SHAMapHash] in
theorem Final.setImmutable (h : l.Final raw) : l.setImmutable.Final raw := by
  have same : l.setImmutable = { l with mHash := LedgerHashes.ledgerHash l.addRaw } := by
    simp [LoadedLedger.setImmutable, updateHash, h.frozen]
  rw [same]
  exact { h with hash := congrArg _ h.header }

omit [SHAMapHash] in
theorem Final.run (h : l.Final raw) (call : Call) : (call.run l).Final raw := by
  cases call with
  | setClosed => exact { h with }
  | setImmutable => exact h.setImmutable
  | setAccepted =>
    have same : l.setAccepted = { l with mAccepted := true }.setImmutable := by
      rw [setAccepted]
      split_ifs with agree
      · rw [h.rounded agree]
      · rfl
    change l.setAccepted.Final raw
    rw [same]
    exact Final.setImmutable { h with }

omit [SHAMapHash] in
theorem Final.calls (h : l.Final raw) (calls : List Call) : (calls.foldl Call.run l).Final raw := by
  induction calls generalizing l with
  | nil => exact h
  | cons call calls ih => exact ih (h.run call)

end LoadedLedger

/-- A ledger that `accept` closed keeps its header and its hash when it is loaded again, whatever
is called then. -/
theorem accepted_identity (h : Accepts prev l ours) (fits : l.Roundable ours)
    (table : l.mCloseResolution ∈ ContinuousLedgerTiming.LedgerTimeResolution) (maps : Ledger)
    (calls : List LoadedLedger.Call) (loaded : LoadedLedger)
    (load : loaded = .setRaw l.addRaw maps ∨ loaded = .ofFields l maps) :
    (calls.foldl LoadedLedger.Call.run loaded).addRaw = l.addRaw ∧
      (calls.foldl LoadedLedger.Call.run loaded).mHash = l.getHash := by
  have resolution : ((UInt8.ofInt l.mCloseResolution).toNat : Int) = l.mCloseResolution := by
    revert table
    generalize l.mCloseResolution = r
    revert r
    decide
  have flags := h.cases fits
  have byte : l.mCloseFlags.toUInt8.toUInt32 = l.mCloseFlags := by
    rcases flags with ⟨-, -, same⟩ | ⟨-, -, same⟩
    · rw [same]
      rfl
    · rw [same]
      rfl
  -- the header fields fit into what is serialized
  have same : LoadedLedger.setRaw l.addRaw maps = .ofFields l maps := by
    rw [LoadedLedger.setRaw, LoadedLedger.ofFields]
    simp [LedgerRecord.addRaw, resolution, byte]
  rw [same, or_self] at load
  have final : loaded.Final l.addRaw := by
    rw [load]
    refine ⟨rfl, rfl, rfl, fun agree => ?_⟩
    rcases flags with ⟨-, -, disagree⟩ | ⟨-, closed, -⟩
    · change (l.mCloseFlags &&& sLCF_NoConsensusTime == 0) = true at agree
      rw [disagree] at agree
      cases agree
    · change roundCloseTime l.mCloseTime _ = l.mCloseTime
      rw [closed]
      exact roundCloseTime_again fits
  exact ⟨(final.calls calls).header, (final.calls calls).hash⟩

end

/-- A ledger that was closed at 1000. -/
def sampleParent : @LedgerRecord Key.coded :=
  let _ := Key.coded
  { LedgerRecord.firstLedger 0 with mCloseTime := 1000 }

@[reducible] def sampleHashes : @LedgerHashes Key.coded :=
  let _ := Key.coded
  ⟨fun _ => 0, fun _ => 0, fun raw => raw.mLedgerSeq.toNat⟩

/-- The ledger without transactions that follows it. -/
def sampleAccept (ours : UInt32) : Option (@LedgerRecord Key.coded) :=
  let _ := Key.coded
  let _ := sampleHashes
  let _ := SHAMap.coded
  let config : FeeConfig := ⟨⟨1, 2, 3, 10⟩, 10, 20, 5⟩
  let env : Env := ⟨config.toConfig, sampleParent.toLedger, fun fee _ _ _ => fee, fun _ => 0,
    fun _ _ => .error .nullPointer⟩
  accept config 0 (fun _ => ⟨env, fun _ => {}⟩) (fun _ => none) sampleParent ∅ ours

theorem closeTime_moves_on : ∃ (_ : Sha512Half) (_ : LedgerHashes) (_ : SHAMapHash)
    (prev l : LedgerRecord), Accepts prev l 2000 ∧ prev.mCloseTime < l.mCloseTime := by
  let _ := Key.coded
  let _ := sampleHashes
  let _ := SHAMap.coded
  have outcome : (sampleAccept 2000).isSome = true := by
    decide +kernel
  obtain ⟨l, ran⟩ := Option.isSome_iff_exists.1 outcome
  have built : Accepts sampleParent l 2000 := ⟨_, _, _, _, _, ran⟩
  have increases := closeTimes_increase_iff 1 (fun | 0 => sampleParent | _ => l) (fun _ => 2000)
  simp only [Nat.lt_one_iff, forall_eq] at increases
  exact ⟨_, _, _, _, l, built, (increases built (by decide +kernel)).2 (by decide +kernel)⟩

theorem accepted_identity_plain : ∃ (_ : Sha512Half) (_ : LedgerHashes) (_ : SHAMapHash)
    (prev l : LedgerRecord), Accepts prev l 2000 ∧
      ([.setClosed, .setAccepted, .setImmutable].foldl LoadedLedger.Call.run
        (.setRaw l.addRaw prev.toLedger)).mHash = l.getHash := by
  let _ := Key.coded
  let _ := sampleHashes
  let _ := SHAMap.coded
  have outcome : (sampleAccept 2000).map (·.mCloseResolution) = some 30 := by
    decide +kernel
  obtain ⟨l, ran, resolution⟩ := Option.map_eq_some_iff.1 outcome
  have built : Accepts sampleParent l 2000 := ⟨_, _, _, _, _, ran⟩
  have fits : l.Roundable 2000 := by
    rw [LedgerRecord.Roundable, LedgerRecord.rounded, resolution]
    decide
  exact ⟨_, _, _, _, l, built,
    (accepted_identity built fits (by rw [resolution]; decide) _ _ _ (.inl rfl)).2⟩

/-- An agreed time of 30 closes a ledger at 30, after one that was closed at 1000. -/
theorem closeTime_goes_back : ∃ (_ : Sha512Half) (_ : LedgerHashes) (_ : SHAMapHash)
    (prev l : LedgerRecord), Accepts prev l 30 ∧ l.Roundable 30 ∧ prev.mCloseTime = 1000 ∧
      l.mCloseTime = 30 := by
  let _ := Key.coded
  let _ := SHAMap.coded
  have outcome : (sampleAccept 30).map (fun l => (l.mCloseResolution, l.mCloseTime)) =
      some (30, 30) := by
    decide +kernel
  obtain ⟨l, ran, closed⟩ := Option.map_eq_some_iff.1 outcome
  obtain ⟨resolution, closed⟩ := Prod.mk.inj closed
  refine ⟨_, sampleHashes, _, sampleParent, l, ⟨_, _, _, _, _, ran⟩, ?_, rfl, closed⟩
  rw [LedgerRecord.Roundable, LedgerRecord.rounded, resolution]
  decide

end Skywell
