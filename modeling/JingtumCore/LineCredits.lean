import JingtumCore.NativeSends

/-!
# Credits on trust lines

`skywellCredit` and the functions `issue_iou` and `redeem_iou` change the balance
of a trust line, release the sender's reserve and delete the line by two separate
pieces of code. They agree: the second caches the sender's root where the first
has no use for it, and records the credit later.
-/
namespace Skywell.LedgerEntrySet
open StateExcept STAmount AmountField U32Field
variable [Sha512Half] {v w : LedgerEntrySet} {k : Key} {α β : Type}

def withCredits (v : LedgerEntrySet) (d : Option DeferredCredits) : LedgerEntrySet :=
  { v with mDeferredCredits := d }

/-- The program neither reads nor changes the table of credits. -/
def Blind (m : LES α) : Prop :=
  ∀ v d, m (v.withCredits d) = (m v).map fun r => (r.1, r.2.withCredits d)

variable {m : LES α} {action : LedgerEntryAction} {line : Key} {state : SLE}

theorem Blind.kept (blind : Blind m) {a : α} (ran : m v = .ok (a, w)) :
    w.mDeferredCredits = v.mDeferredCredits := by
  have same := blind v v.mDeferredCredits
  rw [show v.withCredits v.mDeferredCredits = v from rfl, ran] at same
  have state : w = w.withCredits v.mDeferredCredits := congrArg Prod.snd (Except.ok.inj same)
  rw [state]
  rfl

theorem blind_pure {a : α} : Blind (pure a : LES α) := fun _ _ => rfl

theorem blind_throw {e : Fault} : Blind (throw e : LES α) := fun _ _ => rfl

theorem blind_lift {e : Except Fault α} : Blind (liftM e : LES α) := by
  intro v d
  cases e <;> rfl

theorem Blind.bind {f : α → LES β} (hm : Blind m) (hf : ∀ a, Blind (f a)) :
    Blind (m >>= f) := by
  intro v d
  cases ran : m v with
  | error e => rw [bind_apply_error ran, bind_apply_error ((hm v d).trans (by rw [ran]; rfl))]; rfl
  | ok r => rw [bind_apply_ok ran, bind_apply_ok ((hm v d).trans (by rw [ran]; rfl)), hf]

theorem Blind.map (hm : Blind m) (f : α → β) : Blind (f <$> m) := by
  exact hm.bind fun _ => blind_pure

theorem Blind.ite {c : Prop} [Decidable c] {n : LES α} (hm : Blind m) (hn : Blind n) :
    Blind (if c then m else n) := by
  split_ifs
  · exact hm
  · exact hn

theorem blind_entryCache {k : Key} : Blind (entryCache k) := by
  intro v d
  have same : (v.withCredits d).cached k = (v.cached k).withCredits d := by
    have entry : (v.withCredits d).mEntries[k]? = v.mEntries[k]? := rfl
    have ledger : (v.withCredits d).mLedger.getSLE k = v.mLedger.getSLE k := rfl
    rw [cached, cached, entry, ledger]
    cases v.mEntries[k]? <;> cases v.mLedger.getSLE k <;> rfl
  rw [entryCache_eq, entryCache_eq, same]
  rfl

theorem blind_deref (k : Key) : Blind (deref k) := by
  intro v d
  simp only [deref, get_bind_apply, withCredits]
  cases v.mEntries[k]? <;> rfl

theorem blind_assign (k : Key) {f : SLE → SLE} : Blind (assign k f) := by
  intro v d
  simp only [assign, get_bind_apply, withCredits]
  cases v.mEntries[k]? <;> rfl

theorem blind_entryModify (k : Key) : Blind (entryModify k) := by
  refine (blind_deref k).bind fun sle v d => ?_
  simp only [entryModifyRef, get_bind_apply, withCredits]
  cases v.mEntries[k]? with
  | none => rfl
  | some e =>
    obtain ⟨sle, action⟩ := e
    cases action <;> rfl

theorem blind_decrementOwnerCountRef {k : Key} : Blind (decrementOwnerCountRef k) :=
  (blind_deref k).bind fun _ => Blind.ite blind_pure
    ((blind_assign k).bind fun _ => blind_entryModify k)

/-- The table after a credit. -/
def newCredits (d : Option DeferredCredits) (sender receiver : Account) (amount : STAmount) :
    Except Fault (Option DeferredCredits) :=
  match d with
  | some d => (d.credit sender receiver amount).map some
  | none => .ok none

theorem cacheCredit_apply (sender receiver : Account) (amount : STAmount) (v : LedgerEntrySet) :
    cacheCredit sender receiver amount v =
      (newCredits v.mDeferredCredits sender receiver amount).map
        fun d => ((), v.withCredits d) := by
  rw [cacheCredit_eq, recorded]
  cases deferred : v.mDeferredCredits with
  | none =>
    have same : v.withCredits none = v := by
      rw [← deferred]
      rfl
    exact congrArg (fun w => Except.ok ((), w)) same.symm
  | some d =>
    dsimp only [newCredits]
    cases d.credit sender receiver amount <;> rfl

/-- A credit that is recorded later is recorded all the same. -/
theorem record_later (blind : Blind m) (sender receiver : Account) (amount : STAmount)
    (f : α → LES β) (v : LedgerEntrySet) :
    Agree ((do cacheCredit sender receiver amount; m >>= f : LES β) v)
      ((m >>= fun a => do cacheCredit sender receiver amount; f a : LES β) v) := by
  have crediting := cacheCredit_apply sender receiver amount v
  cases credits : newCredits v.mDeferredCredits sender receiver amount with
  | error e =>
    rw [credits] at crediting
    rw [bind_apply_error crediting]
    cases ran : m v with
    | error e' =>
      rw [bind_apply_error ran]
      trivial
    | ok r =>
      obtain ⟨a, w⟩ := r
      have later := cacheCredit_apply sender receiver amount w
      rw [blind.kept ran, credits] at later
      rw [bind_apply_ok ran, bind_apply_error later]
      trivial
  | ok d =>
    rw [credits] at crediting
    rw [bind_apply_ok crediting]
    have before := blind v d
    cases ran : m v with
    | error e' =>
      rw [ran] at before
      rw [bind_apply_error before, bind_apply_error ran]
      trivial
    | ok r =>
      obtain ⟨a, w⟩ := r
      have later := cacheCredit_apply sender receiver amount w
      rw [blind.kept ran, credits] at later
      rw [ran] at before
      rw [bind_apply_ok before, bind_apply_ok ran, bind_apply_ok later]
      exact .refl _

/-- Whether the sender's root has to be looked at. -/
def reservedDebit (high : Bool) (flags : UInt32) (before after : STAmount) : Bool :=
  before.signum > 0 && after.signum ≤ 0 &&
    hasFlag flags (if !high then lsfLowReserve else lsfHighReserve)

/-- Whether the sender's side of the line is in its default state. -/
def defaultSide (high : Bool) (flags : UInt32) (state : SLE) (senderFlags : UInt32) : Bool :=
  hasFlag flags (if !high then lsfLowNoSkywell else lsfHighNoSkywell) ==
      hasFlag senderFlags lsfDefaultSkywell
    && !hasFlag flags (if !high then lsfLowFreeze else lsfHighFreeze)
    && (state.getFieldAmount (if !high then sfLowLimit else sfHighLimit)).isZero
    && state.getFieldU32 (if !high then sfLowQualityIn else sfHighQualityIn) == 0
    && state.getFieldU32 (if !high then sfLowQualityOut else sfHighQualityOut) == 0

theorem releasesReserve_eq (high : Bool) (flags : UInt32) (before after : STAmount)
    (senderFlags : LES UInt32) : releasesReserve high flags state before after senderFlags =
      if reservedDebit high flags before after then
        defaultSide high flags state <$> senderFlags
      else pure false := by
  rw [releasesReserve, reservedDebit]
  by_cases falls : (decide (before.signum > 0) && decide (after.signum ≤ 0)) = true
  · by_cases reserved : hasFlag flags (if !high then lsfLowReserve else lsfHighReserve) = true
    · simp only [falls, reserved]
      rfl
    · simp only [falls, reserved, Bool.not_true, reduceCtorEq, if_false, Bool.and_false,
        Bool.not_false, if_true]
  · simp [falls]

/-- The end of a credit on an existing line. -/
def settleLine (line : Key) (high : Bool) (sender receiver : Account) (delete : Bool)
    (balance : STAmount) : LES TER := do
  assign line fun sle => sle.setFieldAmount sfBalance balance
  if delete then
    trustDelete line (if high then receiver else sender) (if high then sender else receiver)
  else
    entryModify line
    return .tesSUCCESS

/-- The sender's reserve is released, and the line is deleted if both sides are. -/
def releaseLine (line : Key) (high : Bool) (flags : UInt32) (after : STAmount) : Bool → LES Bool
  | true => do
    assign line fun sle => sle.setFieldU32 sfFlags (flags &&& ~~~senderReserve high)
    return after.isZero && !hasFlag flags (senderReserve (!high))
  | false => return false

/-- The flags of the sender's root. -/
def rootFlags (sender : Account) : LES UInt32 := do
  if !(← entryCache (getAccountRootIndex sender)) then throw .nullPointer
  return (← deref (getAccountRootIndex sender)).getFlags

/-- What `skywellCredit` does to an existing line once it has recorded the credit. -/
def creditLine (line : Key) (high : Bool) (sender receiver : Account) (amount : STAmount) :
    LES TER := do
  let state ← deref line
  let balance := state.getFieldAmount sfBalance
  let before := if high then balance.negate else balance
  let after ← before.sub amount
  let flags := state.getFieldU32 sfFlags
  let released ← releasesReserve high flags state before after (rootFlags sender)
  let delete ← match released with
    | true => do
      decrementOwnerCount sender
      releaseLine line high flags after true
    | false => releaseLine line high flags after false
  settleLine line high sender receiver delete (if high then after.negate else after)

theorem skywellCredit_eq (sender receiver : Account) (amount : STAmount) :
    skywellCredit sender receiver amount = (do
      let line := getSkywellStateIndex sender receiver amount.getCurrency
      if !(← entryCache line) then
        let root := getAccountRootIndex receiver
        if !(← entryCache root) then throw .nullPointer
        let noSkywell := (← deref root).getFlags &&& lsfDefaultSkywell == 1
        trustCreate (decide (sender > receiver)) sender receiver line root false noSkywell false
          (amount.setIssuer noAccount) (zeroOf ⟨amount.getCurrency, receiver⟩) 0 0
      else
        cacheCredit sender receiver amount
        creditLine line (decide (sender > receiver)) sender receiver amount) := by
  rw [skywellCredit]
  refine congrArg _ (funext fun found => ?_)
  cases found with
  | false => rfl
  | true =>
    simp only [Bool.not_true, reduceCtorEq, if_false]
    refine congrArg _ (funext fun _ => ?_)
    refine congrArg _ (funext fun state => congrArg _ (funext fun after => congrArg _
      (funext fun released => ?_)))
    cases released with
    | false => simp [releaseLine, settleLine]
    | true =>
      simp only [releaseLine, bind_assoc, Bool.true_and]
      cases decide (sender > receiver) <;> rfl

theorem cached_cached : (v.cached k).cached k = v.cached k := by
  have entry := @getElem?_cached _ v k k
  rw [if_pos rfl] at entry
  cases known : v.mEntries[k]?.or ((v.mLedger.getSLE k).map (⟨·, .taaCACHED⟩)) with
  | some e =>
    rw [known] at entry
    rw [cached, entry]
  | none =>
    have absent : v.mLedger.getSLE k = none := by simpa using (Option.or_eq_none_iff.1 known).2
    rw [known] at entry
    rw [cached, entry, mLedger_cached, absent]

theorem SameView.setEntry (h : SameView v w) (k : Key) (e : LedgerEntrySetEntry) :
    SameView (v.setEntry k e) (w.setEntry k e) := by
  refine { h with known := fun k' => ?_ }
  have same := h.known k'
  rw [LedgerEntrySet.known, LedgerEntrySet.known] at same ⊢
  rw [getElem?_setEntry, getElem?_setEntry, mLedger_setEntry]
  split_ifs
  · rfl
  · exact same

/-- A credit that neither releases a reserve nor deletes the line. -/
theorem settleLine_kept
    (entry : v.mEntries[line]? = some ⟨state, action⟩) (alive : action ≠ .taaDELETE) (high : Bool)
    (sender receiver : Account) (balance : STAmount) :
    settleLine line high sender receiver false balance v =
      .ok (.tesSUCCESS, v.setEntry line ⟨state.setFieldAmount sfBalance balance, modified action⟩) := by
  rw [settleLine]
  simp only [reduceCtorEq, if_false]
  rw [update_eq entry alive]
  rfl

theorem rootFlags_eq (sender : Account) (v : LedgerEntrySet) :
    rootFlags sender v = match v.read (getAccountRootIndex sender) with
      | some sle => .ok (sle.getFlags, v.cached (getAccountRootIndex sender))
      | none => .error .nullPointer := by
  rw [rootFlags, bind_apply_ok entryCache_eq]
  cases root : v.read (getAccountRootIndex sender) with
  | none => rfl
  | some sle =>
    simp only [Option.isSome_some, Bool.not_true, reduceCtorEq, if_false]
    rw [bind_apply_ok (deref_cached root)]
    rfl

theorem decrementOwnerCount_cached (sender : Account) {sle : SLE}
    (root : v.read (getAccountRootIndex sender) = some sle) :
    decrementOwnerCount sender (v.cached (getAccountRootIndex sender)) =
      decrementOwnerCountRef (getAccountRootIndex sender) (v.cached (getAccountRootIndex sender)) := by
  rw [decrementOwnerCount, bind_apply_ok entryCache_eq, cached_cached, read_cached, root]
  rfl

theorem blind_checkState (line : Key) (high : Bool) (sender : Account) {before after : STAmount} :
    Blind (checkState line high sender before after) := by
  refine (blind_deref line).bind fun state => blind_entryCache.bind fun hasRoot => ?_
  refine Blind.bind ?_ fun released => Blind.ite ?_ blind_pure
  · rw [releasesReserve_eq]
    refine Blind.ite (Blind.map (Blind.ite ?_ ?_) _) blind_pure
    · exact blind_throw.bind fun _ => (blind_deref _).bind fun _ => blind_pure
    · exact (blind_deref _).bind fun _ => blind_pure
  · exact blind_decrementOwnerCountRef.bind fun _ => (blind_assign _).bind fun _ => blind_pure

section
variable (entry : v.mEntries[line]? = some ⟨state, action⟩)
include entry

/-- `checkState` on an entry of the set. -/
theorem checkState_eq (high : Bool) (sender : Account) (before after : STAmount) :
    checkState line high sender before after v =
      (if reservedDebit high (state.getFieldU32 sfFlags) before after then
        match v.read (getAccountRootIndex sender) with
        | some sle =>
          match defaultSide high (state.getFieldU32 sfFlags) state sle.getFlags with
          | true => (do
            decrementOwnerCountRef (getAccountRootIndex sender)
            releaseLine line high (state.getFieldU32 sfFlags) after true : LES Bool)
              (v.cached (getAccountRootIndex sender))
          | false => .ok (false, v.cached (getAccountRootIndex sender))
        | none => .error .nullPointer
      else .ok (false, v.cached (getAccountRootIndex sender))) := by
  rw [checkState, bind_apply_ok (deref_eq entry), bind_apply_ok entryCache_eq]
  simp only [releasesReserve_eq]
  by_cases reserved : reservedDebit high (state.getFieldU32 sfFlags) before after = true
  · simp only [reserved, if_true]
    cases root : v.read (getAccountRootIndex sender) with
    | none => rfl
    | some sle =>
      have flags : (defaultSide high (state.getFieldU32 sfFlags) state <$> (do
          if !(some sle).isSome then throw .nullPointer
          return (← deref (getAccountRootIndex sender)).getFlags) : LES Bool)
            (v.cached (getAccountRootIndex sender)) =
          .ok (defaultSide high (state.getFieldU32 sfFlags) state sle.getFlags,
            v.cached (getAccountRootIndex sender)) := by
        simp only [Option.isSome_some, Bool.not_true, reduceCtorEq, if_false, map_bind]
        rw [bind_apply_ok (deref_cached root)]
        rfl
      rw [bind_apply_ok flags]
      dsimp only
      cases defaultSide high (state.getFieldU32 sfFlags) state sle.getFlags <;> rfl
  · simp only [reserved]
    rfl

variable (alive : action ≠ .taaDELETE) (high : Bool) (sender receiver : Account) (amount : STAmount)
  (apart : getAccountRootIndex sender ≠ line)
include alive apart

theorem creditLine_agrees :
    Agree (creditLine line high sender receiver amount v) ((do
      let balance := (← deref line).getFieldAmount sfBalance
      let start := if high then balance.negate else balance
      let final ← start.sub amount
      let delete ← checkState line high sender start final
      settleLine line high sender receiver delete (if high then final.negate else final) :
        LES TER) v) := by
  rw [creditLine, bind_apply_ok (deref_eq entry), bind_apply_ok (deref_eq entry)]
  generalize (if high then (state.getFieldAmount sfBalance).negate
    else state.getFieldAmount sfBalance) = start
  cases start.sub amount with
  | error e => trivial
  | ok final =>
    rw [bind_apply_ok (lift_apply_ok rfl v), bind_apply_ok (lift_apply_ok rfl v)]
    have checked := checkState_eq entry high sender start final
    simp only [releasesReserve_eq]
    by_cases reserved : reservedDebit high (state.getFieldU32 sfFlags) start final = true
    · rw [if_pos reserved] at checked ⊢
      have flags := rootFlags_eq sender v
      cases root : v.read (getAccountRootIndex sender) with
      | none =>
        rw [root] at checked flags
        rw [map_eq_pure_bind, bind_assoc, bind_apply_error flags, bind_apply_error checked]
        trivial
      | some sle =>
        rw [root] at checked flags
        dsimp only at checked
        rw [map_eq_pure_bind, bind_assoc, bind_apply_ok flags, pure_bind]
        cases released : defaultSide high (state.getFieldU32 sfFlags) state sle.getFlags with
        | false =>
          rw [released] at checked
          rw [bind_apply_ok checked]
          exact .refl _
        | true =>
          rw [released] at checked
          dsimp only at checked ⊢
          rw [bind_apply_congr checked, bind_assoc,
            bind_apply_congr (decrementOwnerCount_cached sender root)]
          exact .refl _
    · rw [if_neg reserved] at checked ⊢
      have there : (v.cached (getAccountRootIndex sender)).mEntries[line]? = some ⟨state, action⟩ := by
        rw [getElem?_cached, if_neg apart, entry]
      rw [bind_apply_ok checked, settleLine_kept there alive, pure_bind]
      dsimp only [releaseLine]
      rw [pure_bind, settleLine_kept entry alive]
      exact ⟨rfl, (sameView_cached v).setEntry line _⟩

/-- On an existing line the two pieces of code agree. -/
theorem moveOnLine_agrees : Agree ((do
        cacheCredit sender receiver amount
        creditLine line high sender receiver amount : LES TER) v)
      (moveOnLine line high sender receiver amount v) := by
  let m : LES (Bool × STAmount) := do
    let balance := (← deref line).getFieldAmount sfBalance
    let start := if high then balance.negate else balance
    let final ← start.sub amount
    let delete ← checkState line high sender start final
    return (delete, if high then final.negate else final)
  have blind : Blind m :=
    (blind_deref line).bind fun _ => blind_lift.bind fun _ =>
      (blind_checkState line high sender).bind fun _ => blind_pure
  have recorded := record_later blind sender receiver amount
    (fun r => settleLine line high sender receiver r.1 r.2) v
  simp only [m, bind_assoc] at recorded
  refine Agree.trans ?_ recorded
  have crediting := cacheCredit_apply sender receiver amount v
  cases credits : newCredits v.mDeferredCredits sender receiver amount with
  | error e =>
    rw [credits] at crediting
    rw [bind_apply_error crediting, bind_apply_error crediting]
    trivial
  | ok d =>
    rw [credits] at crediting
    rw [bind_apply_ok crediting, bind_apply_ok crediting]
    exact creditLine_agrees (v := v.withCredits d) entry alive high sender receiver amount apart

end

section
omit [Sha512Half]

theorem getSkywellStateIndex_comm (a b : Account) (currency : Currency) :
    getSkywellStateIndex a b currency = getSkywellStateIndex b a currency := by
  rw [getSkywellStateIndex, getSkywellStateIndex]
  rcases lt_trichotomy a b with less | rfl | more
  · rw [if_pos less, if_neg (Nat.lt_asymm less)]
  · rfl
  · rw [if_neg (Nat.lt_asymm more), if_pos more]

theorem root_ne_line (a b c : Account) (currency : Currency) :
    getAccountRootIndex a ≠ getSkywellStateIndex b c currency := by
  rw [getSkywellStateIndex]
  split_ifs <;> exact nofun

end

/-- `skywellCredit` on a line that exists. -/
theorem skywellCredit_agrees {sender receiver : Account} {amount : STAmount}
    (shown : v.read (getSkywellStateIndex sender receiver amount.getCurrency) = some state) :
    Agree (moveOnLine (getSkywellStateIndex sender receiver amount.getCurrency)
        (decide (sender > receiver)) sender receiver amount
        (v.cached (getSkywellStateIndex sender receiver amount.getCurrency)))
      (skywellCredit sender receiver amount v) := by
  obtain ⟨action, alive, entry⟩ := getElem?_cached_of_read shown
  have agrees := moveOnLine_agrees entry alive (decide (sender > receiver)) sender receiver amount
    (root_ne_line sender sender receiver amount.getCurrency)
  rw [skywellCredit_eq, bind_apply_ok entryCache_eq, shown]
  exact agrees.symm

theorem issue_iou_eq (account : Account) (amount : STAmount) :
    issue_iou account amount amount.mIssue = (do
      let line := getSkywellStateIndex amount.getIssuer account amount.getCurrency
      if !(← entryCache line) then
        let root := getAccountRootIndex account
        if !(← entryCache root) then throw .nullPointer
        let noSkywell := (← deref root).getFlags &&& lsfDefaultSkywell == 1
        trustCreate (decide (amount.getIssuer > account)) amount.getIssuer account line root false
          noSkywell false (amount.setIssuer noAccount) (zeroOf ⟨amount.getCurrency, account⟩) 0 0
      else moveOnLine line (decide (amount.getIssuer > account)) amount.getIssuer account amount) :=
  rfl

/-- `issue_iou` agrees with `skywellCredit` from the issuer and `redeem_iou` with `skywellCredit` to
the issuer where there is a line; where there is none, `issue_iou` is `skywellCredit`. -/
theorem iou_agrees_with_skywellCredit (v : LedgerEntrySet) (account : Account) (amount : STAmount) :
    (v.read (getSkywellStateIndex account amount.getIssuer amount.getCurrency) ≠ none →
      Agree (issue_iou account amount amount.mIssue v)
          (skywellCredit amount.getIssuer account amount v) ∧
        Agree (redeem_iou account amount amount.mIssue v)
          (skywellCredit account amount.getIssuer amount v)) ∧
    (v.read (getSkywellStateIndex account amount.getIssuer amount.getCurrency) = none →
      issue_iou account amount amount.mIssue v =
        skywellCredit amount.getIssuer account amount v) := by
  have symmetric := getSkywellStateIndex_comm account amount.getIssuer amount.getCurrency
  refine ⟨fun some_ => ?_, fun none => ?_⟩
  · obtain ⟨state, shown⟩ := Option.ne_none_iff_exists'.1 some_
    constructor
    · rw [symmetric] at shown
      rw [issue_iou_eq, bind_apply_ok entryCache_eq, shown]
      exact skywellCredit_agrees shown
    · change Agree ((entryCache
        (getSkywellStateIndex account amount.getIssuer amount.getCurrency) >>= _) v) _
      rw [bind_apply_ok entryCache_eq, shown]
      exact skywellCredit_agrees shown
  · rw [symmetric] at none
    rw [issue_iou_eq, skywellCredit_eq, bind_apply_ok entryCache_eq,
      bind_apply_ok entryCache_eq, none]
    rfl

end Skywell.LedgerEntrySet
