import JingtumCore.AmountValues
import JingtumCore.DirectoryRuns
import JingtumCore.SameViews

/-!
# Sending native amounts

`accountSend` on a native amount. It records the credit before it looks at the
sender's balance, so that with deferred credits a send that fails leaves the
credit behind; apart from that a failed send changes nothing. A send between two
accounts leaves the sum of their balances as it was.
-/
namespace Skywell

namespace DeferredCredits
open STAmount

theorem find_put (d : DeferredCredits) (a b : Account) (c : Currency) (x : STAmount × STAmount) :
    (d.put a b c x).find a b c = some x := by
  rw [find, put]
  by_cases less : a < b
  · simp [less, min_eq_left less.le, max_eq_right less.le]
  · simp [less]

theorem getSNValue_ofInt64 (n : Int64) : (ofInt64 n).getSNValue = .ok n := by
  by_cases negative : n < 0 <;> simp [ofInt64, getSNValue, negative]

theorem add_ne_self {x a r : STAmount} (drops : a.IsDrops) (nonzero : a.isZero = false)
    (h : x.add a = .ok r) : r ≠ x := by
  have value : a.mValue ≠ 0 := fun zero => by simp [isZero_iff_mValue.2 zero] at nonzero
  obtain ⟨⟨⟩, comparable, h⟩ := ExceptFold.bind_eq_ok.1 h
  rw [nonzero, if_neg Bool.false_ne_true] at h
  have native : x.mIsNative = true := by
    by_contra issued
    simp [throwComparable, isComparable, issued, drops.native] at comparable
  rintro rfl
  by_cases zero : r.isZero = true
  · rw [if_pos zero, drops.offset] at h
    by_cases swt : isSWT r.mIssue.currency = true
    · rw [ofIssue_drops_eq swt value] at h
      split at h
      · cases h
      · have kept := congrArg mValue (Except.ok.inj h)
        exact value (kept.trans (isZero_iff_mValue.1 zero))
    · obtain ⟨-, issued, -⟩ := ofIssue_issued (Bool.not_eq_true _ ▸ swt) value h
      rw [native] at issued
      cases issued
  · obtain ⟨n, sn, same⟩ := getSNValue_drops drops
    rw [if_neg zero, if_pos native, sn] at h
    obtain ⟨m, sm, sum⟩ := ExceptFold.bind_eq_ok.1 h
    have again := getSNValue_ofInt64 (m + n)
    rw [Except.ok.inj sum, sm] at again
    have none : n = 0 := by simpa using (Except.ok.inj again).symm
    have drops_zero : a.drops = 0 := by
      rw [← same, none]
      rfl
    rw [isZero_iff.2 drops_zero] at nonzero
    cases nonzero

/-- Recording a native amount other than zero changes the table. -/
theorem credit_ne_self {d d' : DeferredCredits} {sender receiver : Account} {amount : STAmount}
    (drops : amount.IsDrops) (nonzero : amount.isZero = false)
    (h : d.credit sender receiver amount = .ok d') : d' ≠ d := by
  rintro rfl
  rw [credit] at h
  cases found : d'.find sender receiver amount.getCurrency with
  | none =>
    rw [found] at h
    have put := Except.ok.inj h
    have recorded := d'.find_put sender receiver amount.getCurrency
      (if sender < receiver then (amount.zeroed, amount) else (amount, amount.zeroed))
    rw [put, found] at recorded
    cases recorded
  | some both =>
    obtain ⟨low, high⟩ := both
    rw [found] at h
    dsimp only at h
    split at h
    · obtain ⟨high', sum, ended⟩ := ExceptFold.bind_eq_ok.1 h
      have recorded := d'.find_put sender receiver amount.getCurrency (low, high')
      rw [Except.ok.inj ended, found] at recorded
      exact add_ne_self drops nonzero sum (by simpa using recorded.symm)
    · obtain ⟨low', sum, ended⟩ := ExceptFold.bind_eq_ok.1 h
      have recorded := d'.find_put sender receiver amount.getCurrency (low', high)
      rw [Except.ok.inj ended, found] at recorded
      exact add_ne_self drops nonzero sum (by simpa using recorded.symm)

end DeferredCredits

namespace LedgerEntrySet
open StateExcept STAmount AmountField
variable [Sha512Half] {v w : LedgerEntrySet} {sender receiver : Account} {amount : STAmount}

/-- `entryCache` on the root of an account; account zero has none. -/
def cacheRoot (a : Account) : LES Bool :=
  if a ≠ 0 then entryCache (getAccountRootIndex a) else pure false

/-- The set after `cacheRoot`. -/
def cachedRoot (v : LedgerEntrySet) (a : Account) : LedgerEntrySet :=
  if a ≠ 0 then v.cached (getAccountRootIndex a) else v

/-- The root of an account in the view; account zero has none. -/
def rootOf (v : LedgerEntrySet) (a : Account) : Option SLE :=
  if a ≠ 0 then v.read (getAccountRootIndex a) else none

variable {a : Account} {paid : Bool} {k : Key} {action : LedgerEntryAction} {v1 : LedgerEntrySet}
  {sle : SLE}

theorem sameView_cachedRoot : SameView v (v.cachedRoot a) := by
  rw [cachedRoot]
  split_ifs
  · exact sameView_cached v
  · exact .refl v

theorem rootOf_cachedRoot {b : Account} :
    (v.cachedRoot b).rootOf a = v.rootOf a := by
  rw [rootOf, rootOf, sameView_cachedRoot.read]

theorem cacheRoot_eq :
    cacheRoot a v = .ok ((v.rootOf a).isSome, v.cachedRoot a) := by
  rw [cacheRoot, rootOf, cachedRoot]
  split_ifs with some_
  · exact entryCache_eq
  · rfl

/-- The set after the credit has been recorded. -/
def recorded (v : LedgerEntrySet) (sender receiver : Account) (amount : STAmount) :
    Except Fault LedgerEntrySet :=
  match v.mDeferredCredits with
  | some d => do return { v with mDeferredCredits := some (← d.credit sender receiver amount) }
  | none => .ok v

theorem cacheCredit_eq :
    cacheCredit sender receiver amount v =
      (v.recorded sender receiver amount).map fun w => ((), w) := by
  rw [cacheCredit, get_bind_apply, recorded]
  cases v.mDeferredCredits with
  | none => rfl
  | some d =>
    cases credited : d.credit sender receiver amount with
    | error e =>
      dsimp only
      rw [credited]
      rfl
    | ok d' =>
      dsimp only
      rw [credited]
      rfl

theorem recorded_read (h : v.recorded sender receiver amount = .ok w) (a : Account) :
    w.rootOf a = v.rootOf a := by
  rw [recorded] at h
  cases deferred : v.mDeferredCredits with
  | none =>
    rw [deferred] at h
    cases h
    rfl
  | some d =>
    rw [deferred] at h
    obtain ⟨d', -, ended⟩ := ExceptFold.bind_eq_ok.1 h
    cases ended
    rfl

theorem entry_of_rootOf (h : v.rootOf a = some sle) : a ≠ 0 ∧ ∃ action, action ≠ .taaDELETE ∧
      (v.cachedRoot a).mEntries[getAccountRootIndex a]? = some ⟨sle, action⟩ := by
  rw [rootOf] at h
  split_ifs at h with some_
  refine ⟨some_, ?_⟩
  rw [cachedRoot, if_pos some_]
  exact getElem?_cached_of_read h

theorem getElem?_cachedRoot {e : LedgerEntrySetEntry} (h : v.mEntries[k]? = some e) (a : Account) :
    (v.cachedRoot a).mEntries[k]? = some e := by
  rw [cachedRoot]
  split_ifs
  · rw [getElem?_cached]
    split_ifs with same
    · rw [same, h]
      rfl
    · exact h
  · exact h

theorem rootOf_setEntry {b : Account} (some_ : a ≠ 0) (sle : SLE) (alive : action ≠ .taaDELETE) :
    (v.setEntry (getAccountRootIndex a) ⟨sle, action⟩).rootOf b =
      if a = b then some sle else v.rootOf b := by
  have shown : LedgerEntrySetEntry.shown ⟨sle, action⟩ = some sle := if_neg alive
  rw [rootOf, rootOf, read_setEntry, shown]
  by_cases same : a = b
  · subst same
    simp [some_]
  · have other : getAccountRootIndex a ≠ getAccountRootIndex b := fun h => same (Key.account.inj h)
    simp [same, other]

theorem debitRoot_eq (h : v.mEntries[k]? = some ⟨sle, action⟩) (alive : action ≠ .taaDELETE)
    (ran : debitRoot k amount v = .ok (paid, w)) :
    (paid = false ∧ w = v ∧ (sle.getFieldAmount sfBalance).lt amount = .ok true) ∨
      (paid = true ∧ ∃ b, (sle.getFieldAmount sfBalance).sub amount = .ok b ∧
        w = v.setEntry k ⟨sle.setFieldAmount sfBalance b, modified action⟩) := by
  rw [debitRoot, bind_apply_ok (deref_eq h)] at ran
  obtain ⟨less, v1, comparing, rest⟩ := bind_eq_ok.1 ran
  obtain ⟨compared, rfl⟩ := lift_eq_ok.1 comparing
  cases less with
  | true =>
    cases rest
    exact .inl ⟨rfl, rfl, compared⟩
  | false =>
    obtain ⟨b, v2, subtracting, ended⟩ := bind_eq_ok.1 rest
    obtain ⟨subtracted, rfl⟩ := lift_eq_ok.1 subtracting
    rw [update_eq h alive] at ended
    cases ended
    exact .inr ⟨rfl, b, subtracted, rfl⟩

theorem creditRoot_eq (h : v.mEntries[k]? = some ⟨sle, action⟩) (alive : action ≠ .taaDELETE)
    (ran : creditRoot k amount v = .ok ((), w)) :
    ∃ b, (sle.getFieldAmount sfBalance).add amount = .ok b ∧
      w = v.setEntry k ⟨sle.setFieldAmount sfBalance b, modified action⟩ := by
  rw [creditRoot, bind_apply_ok (deref_eq h)] at ran
  obtain ⟨b, v2, adding, rest⟩ := bind_eq_ok.1 ran
  obtain ⟨added, rfl⟩ := lift_eq_ok.1 adding
  rw [bind_apply_ok (assign_eq h _)] at rest
  have again := @entryModify_eq _ (v2.setEntry k ⟨sle.setFieldAmount sfBalance b, action⟩) k
    action (sle.setFieldAmount sfBalance b) (by simp) alive
  rw [setEntry_setEntry] at again
  cases again.symm.trans rest
  exact ⟨b, added, rfl⟩

/-- What `accountSend` does after it has recorded the credit. -/
def moveBalances (sender receiver : Account) (amount : STAmount) : LES TER :=
  cacheRoot sender >>= fun hasSender => cacheRoot receiver >>= fun hasReceiver =>
    (if hasSender then debitRoot (getAccountRootIndex sender) amount else pure true) >>= fun paid => do
      if !paid then return if ← isOpenLedger then .telFAILED_PROCESSING else .tecFAILED_PROCESSING
      if hasReceiver then creditRoot (getAccountRootIndex receiver) amount
      return .tesSUCCESS

theorem accountSend_eq (native : amount.isNative = true) (nonzero : amount.isZero = false)
    (apart : sender ≠ receiver) : accountSend sender receiver amount =
      cacheCredit sender receiver amount >>= fun _ => moveBalances sender receiver amount := by
  have moves : (amount.isZero || decide (sender = receiver)) ≠ true := by simp [nonzero, apart]
  rw [accountSend, if_neg moves]
  simp only [native, ite_bind_eq]
  rfl

/-- The sender's side of a send: too little is there, or the balance is reduced and the receiver's
root is ready to be changed. -/
theorem debit_cases {v2 : LedgerEntrySet} (apart : sender ≠ receiver)
    (credited : v.recorded sender receiver amount = .ok v1)
    (debiting : (if (v.rootOf sender).isSome then debitRoot (getAccountRootIndex sender) amount
      else pure true : LES Bool) ((v1.cachedRoot sender).cachedRoot receiver) = .ok (paid, v2)) :
    (paid = false ∧ v2 = (v1.cachedRoot sender).cachedRoot receiver ∧
        ∃ sle, v.rootOf sender = some sle ∧ (sle.getFieldAmount sfBalance).lt amount = .ok true) ∨
      (paid = true ∧ (∀ sle, v.rootOf sender = some sle →
          ∃ b, (sle.getFieldAmount sfBalance).sub amount = .ok b ∧
            v2.rootOf sender = some (sle.setFieldAmount sfBalance b)) ∧
        ∀ sle, v.rootOf receiver = some sle → receiver ≠ 0 ∧ ∃ action, action ≠ .taaDELETE ∧
          v2.mEntries[getAccountRootIndex receiver]? = some ⟨sle, action⟩) := by
  have receiving (sle : SLE) (root : v.rootOf receiver = some sle) :
      receiver ≠ 0 ∧ ∃ action, action ≠ .taaDELETE ∧
        ((v1.cachedRoot sender).cachedRoot receiver).mEntries[getAccountRootIndex receiver]? =
          some ⟨sle, action⟩ := by
    apply entry_of_rootOf
    rw [rootOf_cachedRoot, recorded_read credited, root]
  cases root : v.rootOf sender with
  | none =>
    rw [root] at debiting
    cases debiting
    exact .inr ⟨rfl, nofun, receiving⟩
  | some sle =>
    rw [root] at debiting
    obtain ⟨some_, action, alive, entry⟩ :=
      entry_of_rootOf ((recorded_read credited sender).trans root)
    rcases debitRoot_eq (getElem?_cachedRoot entry receiver) alive debiting with
      ⟨rfl, rfl, less⟩ | ⟨rfl, b, subtracted, rfl⟩
    · exact .inl ⟨rfl, rfl, sle, rfl, less⟩
    · refine .inr ⟨rfl, fun sle' same => ?_, fun sle' root' => ?_⟩
      · cases same
        refine ⟨b, subtracted, ?_⟩
        rw [rootOf_setEntry some_ _ modified_alive, if_pos rfl]
      · obtain ⟨some', action', alive', entry'⟩ := receiving sle' root'
        refine ⟨some', action', alive', ?_⟩
        have other : getAccountRootIndex sender ≠ getAccountRootIndex receiver :=
          fun h => apart (Key.account.inj h)
        rw [getElem?_setEntry, if_neg other, entry']

/-- What a send of a native amount does: nothing, if it is zero or to oneself; else the credit is
recorded, and the send fails for lack of funds or the balances are changed. -/
theorem accountSend_cases (native : amount.isNative = true) {ter : TER}
    (ran : accountSend sender receiver amount v = .ok (ter, w)) :
    ((amount.isZero = true ∨ sender = receiver) ∧ ter = .tesSUCCESS ∧ w = v) ∨
    (amount.isZero = false ∧ sender ≠ receiver ∧ ∃ v1, v.recorded sender receiver amount = .ok v1 ∧
      ((ter ≠ .tesSUCCESS ∧ w = (v1.cachedRoot sender).cachedRoot receiver ∧
          ∃ sle, v.rootOf sender = some sle ∧ (sle.getFieldAmount sfBalance).lt amount = .ok true) ∨
        (ter = .tesSUCCESS ∧
          (∀ sle, v.rootOf sender = some sle → ∃ b, (sle.getFieldAmount sfBalance).sub amount = .ok b ∧
            w.rootOf sender = some (sle.setFieldAmount sfBalance b)) ∧
          ∀ sle, v.rootOf receiver = some sle → ∃ b, (sle.getFieldAmount sfBalance).add amount = .ok b ∧
            w.rootOf receiver = some (sle.setFieldAmount sfBalance b)))) := by
  by_cases trivial_ : amount.isZero = true ∨ sender = receiver
  · have none : (amount.isZero || decide (sender = receiver)) = true := by simpa using trivial_
    rw [accountSend, if_pos none] at ran
    cases ran
    exact .inl ⟨trivial_, rfl, rfl⟩
  rw [not_or, Bool.not_eq_true] at trivial_
  rw [accountSend_eq native trivial_.1 trivial_.2] at ran
  obtain ⟨⟨⟩, v1, crediting, rest⟩ := bind_eq_ok.1 ran
  obtain ⟨v1', credited, same⟩ := ExceptFold.map_eq_ok.1 (cacheCredit_eq.symm.trans crediting)
  cases same
  refine .inr ⟨trivial_.1, trivial_.2, v1, credited, ?_⟩
  rw [moveBalances, bind_apply_ok cacheRoot_eq,
    bind_apply_ok cacheRoot_eq, rootOf_cachedRoot,
    recorded_read credited, recorded_read credited] at rest
  obtain ⟨paid, v2, debiting, ended⟩ := bind_eq_ok.1 rest
  rcases debit_cases trivial_.2 credited debiting with ⟨rfl, rfl, short⟩ | ⟨rfl, debited, receiving⟩
  · obtain ⟨opened, v3, opening, ended⟩ := bind_eq_ok.1 ended
    cases opening
    cases ended
    refine .inl ⟨?_, rfl, short⟩
    split_ifs <;> decide
  -- the receiver's side
  refine .inr ?_
  cases root : v.rootOf receiver with
  | none =>
    rw [root] at ended
    cases ended
    exact ⟨rfl, debited, nofun⟩
  | some sle =>
    rw [root] at ended
    obtain ⟨⟨⟩, v3, crediting, ended⟩ := bind_eq_ok.1 ended
    cases ended
    obtain ⟨some_, action, alive, entry⟩ := receiving sle root
    obtain ⟨b, added, rfl⟩ := creditRoot_eq entry alive crediting
    refine ⟨rfl, fun sle' root' => ?_, fun sle' same => ?_⟩
    · obtain ⟨b', subtracted, shown⟩ := debited sle' root'
      refine ⟨b', subtracted, ?_⟩
      rw [rootOf_setEntry some_ _ modified_alive, if_neg (Ne.symm trivial_.2), shown]
    · cases same
      refine ⟨b, added, ?_⟩
      rw [rootOf_setEntry some_ _ modified_alive, if_pos rfl]

/-- The sender has less than what is to be sent. -/
def LacksFunds (v : LedgerEntrySet) (sender receiver : Account) (amount : STAmount) : Prop :=
  amount.isZero = false ∧ sender ≠ receiver ∧
    ∃ sle, v.rootOf sender = some sle ∧ (sle.getFieldAmount sfBalance).lt amount = .ok true

/-- A send for which the funds are lacking returns a failure code, once it has recorded the
credit. -/
theorem accountSend_short (native : amount.isNative = true)
    (lacks : v.LacksFunds sender receiver amount)
    (credited : v.recorded sender receiver amount = .ok v1) :
    ∃ ter, accountSend sender receiver amount v =
      .ok (ter, (v1.cachedRoot sender).cachedRoot receiver) ∧ ter ≠ .tesSUCCESS := by
  obtain ⟨nonzero, apart, sle, root, less⟩ := lacks
  obtain ⟨-, action, -, entry⟩ := entry_of_rootOf ((recorded_read credited sender).trans root)
  have entry' := getElem?_cachedRoot entry receiver
  have crediting : cacheCredit sender receiver amount v = .ok ((), v1) := by
    rw [cacheCredit_eq, credited]
    rfl
  refine ⟨if v1.mParams.tapOPEN_LEDGER then .telFAILED_PROCESSING else .tecFAILED_PROCESSING, ?_, ?_⟩
  · rw [accountSend_eq native nonzero apart, bind_apply_ok crediting, moveBalances,
      bind_apply_ok cacheRoot_eq,
      bind_apply_ok cacheRoot_eq, recorded_read credited, root]
    have debiting : debitRoot (getAccountRootIndex sender) amount
        ((v1.cachedRoot sender).cachedRoot receiver) =
        .ok (false, (v1.cachedRoot sender).cachedRoot receiver) := by
      rw [debitRoot, bind_apply_ok (deref_eq entry'), bind_apply_ok (lift_apply_ok less _)]
      rfl
    have params : ((v1.cachedRoot sender).cachedRoot receiver).mParams = v1.mParams :=
      (sameView_cachedRoot.trans sameView_cachedRoot).params
    simp only [Option.isSome_some, if_true]
    rw [bind_apply_ok debiting, ← params]
    rfl
  · split_ifs <;> decide

/-- A failed send of a native amount leaves the view as it was, and a send between two accounts the
sum of their balances, unless the funds are lacking and the credit is recorded as deferred. -/
theorem accountSend_unchanged_iff (drops : amount.IsDrops)
    (balances : ∀ a sle, v.rootOf a = some sle → (sle.getFieldAmount sfBalance).IsDrops) :
    ((∀ ter w, accountSend sender receiver amount v = .ok (ter, w) → ter ≠ .tesSUCCESS →
        SameView v w) ∧
      ∀ w s r, accountSend sender receiver amount v = .ok (.tesSUCCESS, w) →
        v.rootOf sender = some s → v.rootOf receiver = some r →
        ∃ s' r', w.rootOf sender = some s' ∧ w.rootOf receiver = some r' ∧
          (s'.getFieldAmount sfBalance).drops + (r'.getFieldAmount sfBalance).drops =
            (s.getFieldAmount sfBalance).drops + (r.getFieldAmount sfBalance).drops) ↔
    ¬(v.LacksFunds sender receiver amount ∧
      ∃ d d', v.mDeferredCredits = some d ∧ d.credit sender receiver amount = .ok d') := by
  constructor
  · rintro ⟨unchanged, -⟩ ⟨lacks, d, d', deferred, credit⟩
    have credited : v.recorded sender receiver amount =
        .ok { v with mDeferredCredits := some d' } := by
      rw [recorded, deferred]
      dsimp only
      rw [credit]
      rfl
    obtain ⟨ter, ran, failed⟩ := accountSend_short drops.native lacks credited
    have same := (unchanged _ _ ran failed).credits
    rw [sameView_cachedRoot.credits, sameView_cachedRoot.credits,
      deferred] at same
    exact DeferredCredits.credit_ne_self drops lacks.1 credit (Option.some.inj same)
  · intro condition
    refine ⟨fun ter w ran failed => ?_, fun w s r ran root root' => ?_⟩
    · rcases accountSend_cases drops.native ran with ⟨-, rfl, -⟩ | ⟨nonzero, apart, v1, credited, moved⟩
      · exact absurd rfl failed
      rcases moved with ⟨-, rfl, short⟩ | ⟨rfl, -⟩
      · have same : v1 = v := by
          rw [recorded] at credited
          cases deferred : v.mDeferredCredits with
          | none =>
            rw [deferred] at credited
            exact (Except.ok.inj credited).symm
          | some d =>
            rw [deferred] at credited
            obtain ⟨d', credit, -⟩ := ExceptFold.bind_eq_ok.1 credited
            exact absurd ⟨⟨nonzero, apart, short⟩, d, d', deferred, credit⟩ condition
        rw [same]
        exact sameView_cachedRoot.trans sameView_cachedRoot
      · exact absurd rfl failed
    · rcases accountSend_cases drops.native ran with ⟨-, -, rfl⟩ | ⟨-, -, v1, -, moved⟩
      · exact ⟨s, r, root, root', rfl⟩
      rcases moved with ⟨failed, -⟩ | ⟨-, debited, credited⟩
      · exact absurd rfl failed
      obtain ⟨b, subtracted, shown⟩ := debited s root
      obtain ⟨b', added, shown'⟩ := credited r root'
      refine ⟨_, _, shown, shown', ?_⟩
      have balance (sle : SLE) (a : STAmount) :
          (sle.setFieldAmount sfBalance a).getFieldAmount sfBalance = a := by
        simp [SLE.setFieldAmount, SLE.getFieldAmount, SLE.get]
      rw [balance, balance, drops_sub (balances sender s root) drops subtracted,
        drops_add (balances receiver r root') drops added]
      omega

/-- A set with one account, which has nothing. -/
def poorAccount (deferred : Option DeferredCredits) : @LedgerEntrySet Key.coded :=
  letI := Key.coded
  { emptySet.setEntry (.account 5) ⟨SLE.new .accountRoot, .taaCREATE⟩ with
    mDeferredCredits := deferred }

section
omit [Sha512Half]

/-- The credit of a send that failed takes from what the receiver holds. -/
theorem accountSend_short_credited : ∃ (_ : Sha512Half) (v : LedgerEntrySet),
    ((do
      let ter ← accountSend 5 7 (ofNative 10)
      let balance ← adjustedBalance 7 5 (ofNative 50)
      return (ter, balance.drops) : LES (TER × Int)) v).map (fun r => r.1) =
        .ok (.tecFAILED_PROCESSING, 40) ∧
    (adjustedBalance 7 5 (ofNative 50) v).map (fun r => r.1.drops) = .ok 50 := by
  let _ := Key.coded
  exact ⟨Key.coded, poorAccount (some {}), by decide +kernel, by decide +kernel⟩

theorem accountSend_unchanged_poor : ∃ (_ : Sha512Half) (v w : LedgerEntrySet) (ter : TER),
    accountSend 5 7 (ofNative 10) v = .ok (ter, w) ∧ ter ≠ .tesSUCCESS ∧ SameView v w := by
  let _ := Key.coded
  have root (a : Account) : (poorAccount none).rootOf a =
      if 5 = a then some (SLE.new .accountRoot) else none := by
    have shown := @rootOf_setEntry _ emptySet 5 .taaCREATE a (by decide)
      (SLE.new .accountRoot) (by decide)
    apply shown.trans
    rw [rootOf, emptySet_read]
    simp
  have lacks : (poorAccount none).LacksFunds 5 7 (ofNative 10) :=
    ⟨by decide, by decide, _, root 5, by decide⟩
  obtain ⟨ter, ran, failed⟩ := accountSend_short rfl lacks rfl
  have same := ((@accountSend_unchanged_iff _ (poorAccount none) 5 7
    (ofNative 10) ⟨rfl, rfl, rfl, by decide⟩ fun a sle shown => ?_).2 ?_).1 ter _ ran failed
  · exact ⟨Key.coded, _, _, ter, ran, failed, same⟩
  · rw [root] at shown
    split_ifs at shown
    cases shown
    exact ⟨rfl, rfl, rfl, by decide⟩
  · rintro ⟨-, d, d', deferred, -⟩
    cases deferred

end

end LedgerEntrySet
end Skywell
