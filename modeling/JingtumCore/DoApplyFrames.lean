import JingtumCore.TransactorFrames

/-!
# What a transaction does to a set

Every `doApply` announces what it changes by the time it succeeds, and deletes
no account root. The same holds of whole transactions and of batches of them.
-/
namespace Skywell
open U32Field H256Field LedgerEntrySet StateExcept Caps
variable [Sha512Half] {env : Env} {t : Transactor} {v v' : LedgerEntrySet}

/-- What transactions may do; which sequences they count up, and whether they deliver,
is left open. -/
def Caps.txn (bump : Key → UInt32 → Prop) (delivers : Prop) : Caps where
  dirty _ := False
  fresh _ := False
  drops k := k.type ≠ .accountRoot
  roots _ := True
  writes _ _ := True
  bump := bump
  delivers := delivers

variable {bump : Key → UInt32 → Prop} {d : Prop} {c : Caps}
  {account dst : Account} {set_ : Bool} {h : Hooks} {w : Key → SField → Prop} {n : LES TER}
  {qualityIn qualityOut : Option UInt32} {p : Prop} {f : SField} {amount limit : STAmount}
  {t' : Transactor} {α : Type}

omit [Sha512Half] in
theorem paying_txn : Paying (Caps.txn bump d) := ⟨⟨fun _ h => h, fun _ => trivial⟩, fun _ => trivial⟩

/-- What is known after a program with a result code. Only after a success
must all changes be announced. -/
def Outcome (c : Caps) (v : LedgerEntrySet) (ter : TER) (v' : LedgerEntrySet) : Prop :=
  Frame c.loose v v' ∧ (ter = .tesSUCCESS → Frame c v v')

variable {ter : TER} {m : LES TER} {k : Key}

theorem outcome_of_frame (h : Frame c v v') : Outcome c v ter v' :=
  ⟨h.mono Caps.le_loose, fun _ => h⟩

theorem Outcome.trans {v1 : LedgerEntrySet} (h' : Outcome c v1 ter v')
    (h : Frame c v v1) : Outcome c v ter v' :=
  ⟨IsTrans.trans _ _ _ (h.mono Caps.le_loose) h'.1, fun e => IsTrans.trans _ _ _ h (h'.2 e)⟩

/-- A program that announces what it changes if it succeeds. -/
def Applies (c : Caps) (m : LES TER) : Prop := ∀ v, Spec m v (Outcome c v)

theorem applies_of_keeps (h : Keeps (Frame c) m) : Applies c m :=
  fun v => (h v).mono fun _ _ => outcome_of_frame

theorem Applies.bind {m : LES α} {f : α → LES TER} (hm : Keeps (Frame c) m)
    (hf : ∀ a, Applies c (f a)) : Applies c (m >>= f) :=
  fun v => spec_bind.2 <| (hm v).mono fun a v1 h1 => (hf a v1).mono fun _ _ h2 => h2.trans h1

theorem Applies.ite [Decidable p] (hm : Applies c m) (hn : Applies c n) :
    Applies c (if p then m else n) := by
  split
  · exact hm
  · exact hn

theorem applies_cache {f : Bool → LES TER}
    (h0 : Keeps (Frame (c.allowFresh k)) (f false)) (h1 : Applies c (f true)) :
    Applies c (entryCache k >>= f) := by
  intro v
  rw [spec_bind, spec_entryCache]
  cases hr : v.read k with
  | none =>
    refine (h0 _).mono fun _ _ h => outcome_of_frame ?_
    exact IsTrans.trans _ _ _ frame_cached (h.absent (by simpa using hr))
  | some sle => exact (h1 _).mono fun _ _ h => h.trans frame_cached

/-- The source's root is held while `doApply` runs. -/
abbrev Transactor.Held (t : Transactor) (k : Key) : Prop := t.mTxnAccount = some k

theorem keeps_pointer {R : LedgerEntrySet → LedgerEntrySet → Prop} {o : Option Key}
    {f : Key → LES α} (hf : ∀ k, o = some k → Keeps R (f k)) : Keeps R (pointer o >>= f) :=
  fun v => spec_bind.2 <| spec_pointer.2 fun k hk => hf k hk v

omit [Sha512Half] in
theorem settable_txn
    (h : f ∉ [SField.h256 sfPreviousTxnID, .u32 sfPreviousTxnLgrSeq, .u32 sfSequence]) :
    Settable (Caps.txn bump d).writes k f := by
  simp only [List.mem_cons, List.not_mem_nil, or_false, not_or] at h
  exact ⟨h.1, h.2.1, fun _ => ⟨h.2.2, trivial⟩⟩

theorem setDeliveredAmount_frame (hd : c.delivers) : Keeps (Frame c) (setDeliveredAmount amount) :=
  fun _ => spec_modify.2 ⟨rfl, rfl, rfl, fun h => absurd hd h, fun _ => .refl⟩

theorem modify_deferredCredits {f : LedgerEntrySet → LedgerEntrySet}
    (hf : ∀ v, (f v).mLedger = v.mLedger ∧ (f v).mParams = v.mParams ∧ (f v).mSet = v.mSet ∧
      (f v).mEntries = v.mEntries) : Keeps (Frame c) (modify f : LES Unit) := by
  intro v
  obtain ⟨h1, h2, h3, h4⟩ := hf v
  exact spec_modify.2 ⟨h1, h2, by rw [h3], fun _ => by rw [h3], fun k => by rw [h4]⟩

theorem PathCall.run_frame (hc : Paying c) (call : PathCall) : Keeps (Frame c) call.run := by
  cases call with
  | entryCache k => exact .map _ (entryCache_frame k)
  | accountSend sender receiver amount => exact .map _ (accountSend_frame hc)
  | skywellCredit sender receiver amount => exact .map _ (skywellCredit_frame hc.toOwning _ _ _)
  | offerDelete offer => exact .map _ (offerDelete_frame hc.toOwning)
  | consumeOffer account sequence gets pays =>
    refine .bind (entryCache_frame _) fun _ => keeps_ite (update_frame ?_) (keeps_pure _)
    exact sets_of_type (by simp [Key.type])
  | issueTrustAuto account amount issue => exact .map _ (issue_trust_auto_frame hc.toOwning)
  | setLineBalance feeAccount issuer currency balance =>
    refine .bind (entryCache_frame _) fun _ => keeps_ite (update_frame ?_) (keeps_pure _)
    exact sets_of_type (type_getSkywellStateIndex _ _ _)

theorem runPathCalls_frame (hc : Paying c) {calls : List PathCall} :
    Keeps (Frame c) (runPathCalls calls) := by
  refine .bind (modify_deferredCredits fun _ => ⟨rfl, rfl, rfl, rfl⟩) fun _ => ?_
  refine .bind (Keeps.forM (PathCall.run_frame hc) calls) fun _ => ?_
  exact modify_deferredCredits fun _ => ⟨rfl, rfl, rfl, rfl⟩

namespace Payment

theorem skywell_frame (hc : Paying c) (hd : c.delivers) {input : PathInput} :
    Keeps (Frame c) (skywell env input amount) := by
  refine .bind keeps_get fun _ => .bind keeps_lift fun _ => ?_
  refine .bind (runPathCalls_frame hc) fun _ => keeps_when ?_ fun _ => keeps_pure _
  exact setDeliveredAmount_frame hd

theorem openLine_frame (hc : Paying c) : Keeps (Frame c) (openLine dst amount) :=
  keeps_ite (.map _ (issue_trust_auto_frame hc.toOwning)) (keeps_pure _)

theorem skywellPayment_frame (hc : Paying c) (hd : c.delivers) {maxSource : STAmount}
    {paths : List (List STPathElement)} :
    Keeps (Frame c) (skywellPayment env dst amount maxSource paths t) := by
  unfold skywellPayment
  cases pathInput env dst amount maxSource paths t with
  | error ter => exact .bind (keeps_pure _) fun _ => keeps_pure _
  | ok input =>
    exact .bind (openLine_frame hc) fun _ => .bind (skywell_frame hc hd) fun _ => keeps_pure _

theorem catching_frame {body : LES TER} (h : Keeps (Frame c) body) :
    Keeps (Frame c) (catching body) := by
  intro v ter v' he
  unfold catching at he
  split at he
  · cases he
    exact refl v
  · exact h v ter v' he

variable (bump d) in
/-- The root of the destination is new, or counts as modified. -/
theorem openDestination_touched {part tag : Bool} :
    Spec (openDestination dst amount part tag t) v fun r v' => Frame (Caps.txn bump d) v v' ∧
      (r = none → v'.Touched (getAccountRootIndex dst)) := by
  have hcache : Frame (Caps.txn bump d) v (v.cached (getAccountRootIndex dst)) := frame_cached
  unfold openDestination
  rw [spec_bind, spec_entryCache]
  cases hr : v.read (getAccountRootIndex dst) with
  | none =>
    simp only [Option.isSome_none, Bool.not_false, if_true]
    refine spec_ite.2 ⟨fun _ => spec_pure.2 ⟨hcache, nofun⟩, fun _ => ?_⟩
    refine spec_ite.2 ⟨fun _ => spec_pure.2 ⟨hcache, nofun⟩, fun _ => ?_⟩
    refine spec_bind.2 <| spec_getLedger.2 <| spec_bind.2 <| spec_lift.2 fun _ _ => ?_
    refine spec_ite.2 ⟨fun _ => spec_pure.2 ⟨hcache, nofun⟩, fun _ => spec_bind.2 ?_⟩
    refine (createAccountRoot_touched (c := (Caps.txn bump d).allowFresh _) (.inr rfl) trivial
      trivial).mono fun _ _ h => spec_pure.2 ⟨?_, fun _ => h.2⟩
    exact IsTrans.trans _ _ _ hcache (h.1.absent (by simpa using hr))
  | some sle =>
    refine spec_bind.2 <| spec_deref.2 fun _ _ => ?_
    refine spec_ite.2 ⟨fun _ => spec_pure.2 ⟨hcache, nofun⟩, fun _ => spec_bind.2 ?_⟩
    refine (entryModify_touched (c := Caps.txn bump d)).mono fun _ _ h => ?_
    exact spec_pure.2 ⟨IsTrans.trans _ _ _ hcache h.1, fun _ => h.2⟩

theorem directPayment_holding :
    Keeps (Holding (fun k => t.Held k ∨ k = getAccountRootIndex dst) (Caps.txn bump d))
      (directPayment dst amount t) := by
  refine keeps_pointer fun src hsrc => .bind (keeps_holding getLedger_frame) fun _ => ?_
  refine .bind (keeps_holding deref_frame) fun _ => keeps_guard fun _ => keeps_guard fun _ => ?_
  refine .bind keeps_lift fun _ => .bind keeps_lift fun _ => keeps_ite (keeps_pure _) ?_
  refine .bind keeps_lift fun _ => .bind (assign_holding ?_ (.inl hsrc)) fun _ => ?_
  · exact sets_set (settable_txn (by decide)) _
  refine .bind (keeps_holding deref_frame) fun _ => .bind keeps_lift fun _ => ?_
  refine .bind (assign_holding ?_ (.inr rfl)) fun _ => .bind (keeps_holding deref_frame) fun _ =>
    keeps_when (assign_holding ?_ (.inr rfl)) fun _ => keeps_pure _
  all_goals exact sets_set (settable_txn (by decide)) _

theorem doApply_holding (hd : d) (ht : ∀ k, t.Held k → k.type = .accountRoot)
    {sendMax : Option STAmount} {paths : Option (List (List STPathElement))} {tag : Bool} :
    Keeps (Holding t.Held (Caps.txn bump d)) (doApply env dst amount sendMax paths tag t) := by
  have hdrops : ∀ k, t.Held k ∨ k = getAccountRootIndex dst → ¬(Caps.txn bump d).drops k := by
    rintro k (hk | rfl) h
    · exact h (ht k hk)
    · exact h rfl
  refine .bind keeps_lift fun maxSource v => spec_bind.2 ?_
  refine (openDestination_touched bump d).mono fun opened v1 ⟨h1, hdst⟩ => ?_
  have held (hK : ∀ k, t.Held k → v.Touched k) : ∀ k, t.Held k → v1.Touched k :=
    fun k hk => h1.touched (hdrops k (.inl hk)) (hK k hk)
  cases opened with
  | some ter => exact spec_pure.2 fun hK => ⟨h1, held hK⟩
  | none =>
    -- from here on both roots are held
    refine (keeps_ite (keeps_holding_of hdrops (catching_frame ?_))
      directPayment_holding v1).mono fun _ v2 h2 hK => ?_
    · exact skywellPayment_frame paying_txn hd
    obtain ⟨h2, hK2⟩ := h2 fun k hk => by
      rcases hk with hk | rfl
      · exact held hK k hk
      · exact hdst rfl
    exact ⟨IsTrans.trans _ _ _ h1 h2, fun k hk => hK2 k (.inl hk)⟩

end Payment

omit [Sha512Half] in
theorem sets_setOrUnset (hf : Settable w k f) {none_ : f.Val → Bool} {value : Option f.Val} :
    Sets w k (SetAccount.setOrUnset f none_ value) := by
  unfold SetAccount.setOrUnset
  cases value with
  | none => exact sets_id
  | some x =>
    dsimp only
    split
    · exact sets_makeFieldAbsent hf
    · exact sets_set hf _

theorem SetAccount.doApply_holding {emailHash walletLocator : Option Nat}
    {messageKey domain : Option Blob} {rate : Option UInt32} {setFlag clearFlag : UInt32} :
    Keeps (Holding t.Held (Caps.txn bump d))
      (doApply emailHash walletLocator messageKey domain rate setFlag clearFlag t) := by
  refine keeps_pointer fun root hroot => .bind (keeps_holding deref_frame) fun sle => ?_
  have set {g : SLE → SLE} (hg : Sets (Caps.txn bump d).writes root g) :
      Keeps (Holding t.Held (Caps.txn bump d)) (assign root g) := assign_holding hg hroot
  refine keeps_either (keeps_holding dirIsEmpty_frame) (keeps_pure _) fun empty => ?_
  dsimp only
  split
  · exact keeps_pure _
  refine keeps_when (set ?_) fun _ => keeps_when (set ?_) fun _ => ?_
  · exact sets_makeFieldPresent (settable_txn (by decide))
  · exact sets_makeFieldAbsent (settable_txn (by decide))
  refine .bind (set (sets_setOrUnset (settable_txn (by decide)))) fun _ => ?_
  refine .bind (set (sets_setOrUnset (settable_txn (by decide)))) fun _ => keeps_ite (keeps_pure _) ?_
  refine .bind (set (sets_setOrUnset (settable_txn (by decide)))) fun _ => keeps_ite (keeps_pure _) ?_
  refine .bind (set (sets_setOrUnset (settable_txn (by decide)))) fun _ => ?_
  have flags {out : UInt32} : Keeps (Holding t.Held (Caps.txn bump d)) (do
      if sle.getFieldU32 sfFlags ≠ out then assign root fun sle => sle.setFieldU32 sfFlags out
      return TER.tesSUCCESS) :=
    keeps_when (set (sets_set (settable_txn (by decide)) _)) fun _ => keeps_pure _
  split
  · refine keeps_ite (.bind (set ?_) fun _ => flags) (keeps_when (set ?_) fun _ => flags)
    · exact sets_makeFieldAbsent (settable_txn (by decide))
    · exact sets_set (settable_txn (by decide)) _
  · exact flags

theorem SetRegularKey.doApply_holding {key : Option Account} :
    Keeps (Holding t.Held (Caps.txn bump d)) (doApply key t) := by
  refine keeps_pointer fun root hroot => ?_
  have set {g : SLE → SLE} (hg : Sets (Caps.txn bump d).writes root g) :
      Keeps (Holding t.Held (Caps.txn bump d)) (assign root g) := assign_holding hg hroot
  refine keeps_when (set (sets_set (settable_txn (by decide)) _)) fun _ => ?_
  split
  · refine .bind (set ?_) fun _ => keeps_pure _
    exact sets_set (settable_txn (by decide)) _
  · refine .bind (keeps_holding deref_frame) fun _ => keeps_ite (keeps_pure _) ?_
    refine .bind (set (sets_makeFieldAbsent ?_)) fun _ => keeps_pure _
    exact settable_txn (by decide)

/-- A program that may change an entry while it is only cached, and has announced
the change if it succeeds. -/
def SettlesOk (k : Key) (c : Caps) (m : LES TER) : Prop :=
  ∀ v, Spec m v fun ter v' => Frame (c.allowDirty k) v v' ∧ (ter = .tesSUCCESS → v'.Announced k)

theorem SettlesOk.bind {m : LES α} {f : α → LES TER} (hm : Keeps (Frame (c.allowDirty k)) m)
    (hf : ∀ a, SettlesOk k c (f a)) : SettlesOk k c (m >>= f) :=
  fun v => spec_bind.2 <| (hm v).mono fun a v1 h1 => (hf a v1).mono fun _ _ ⟨h2, ha⟩ =>
    ⟨IsTrans.trans _ _ _ h1 h2, ha⟩

theorem SettlesOk.ite [Decidable p] (hm : SettlesOk k c m) (hn : SettlesOk k c n) :
    SettlesOk k c (if p then m else n) := by
  split
  · exact hm
  · exact hn

theorem Settles.ok (h : Settles k c m) : SettlesOk k c m :=
  fun v => (h v).mono fun _ _ ⟨h, ha⟩ => ⟨h, fun _ => ha⟩

theorem settlesOk_fail (h : ter ≠ .tesSUCCESS) : SettlesOk k c (pure ter) :=
  fun v => spec_pure.2 ⟨refl v, fun e => absurd e h⟩

theorem SettlesOk.applies (h : SettlesOk k c m) : Applies c m :=
  fun v => (h v).mono fun _ _ ⟨hf, ha⟩ => ⟨hf.mono Caps.le_loose, fun e =>
    hf.clean fun k' hk => hk.imp_right fun e' : k' = k => e' ▸ ha e⟩

namespace SetTrust

omit [Sha512Half] in
theorem sets_setQuality {k : Key} (hk : k.type ≠ .accountRoot) {f : U32Field}
    (hf : f ≠ sfPreviousTxnLgrSeq) {given : Bool} {quality : UInt32} :
    Sets w k (setQuality f given quality) := by
  have settable : Settable w k (.u32 f) :=
    ⟨by simp, by simpa using hf, fun h => absurd h hk⟩
  intro s g hg
  unfold setQuality
  split
  · rfl
  split
  · exact sets_set settable (fun _ => quality) s g hg
  · exact sets_makeFieldAbsent settable s g hg

theorem adjustReserve_frame (hc : ∀ k, c.writes k (.u32 sfOwnerCount)) {k : Key} {reserve : UInt32}
    {reserved : Bool} {out : UInt32} :
    Keeps (Frame c) (adjustReserve k reserve set_ reserved out) := by
  refine keeps_ite (.bind (incrementOwnerCountRef_frame hc) fun _ => keeps_pure _) ?_
  exact keeps_ite (.bind (decrementOwnerCountRef_frame hc) fun _ => keeps_pure _) (keeps_pure _)

theorem modifyLine_settles (hc : Owning c) {line : Key} (hl : line.type ≠ .accountRoot)
    {high : Bool} {reserve : UInt64} {root : Key} :
    SettlesOk line c (modifyLine line high dst limit qualityIn qualityOut reserve root t) := by
  have set {g : SLE → SLE} (hg : Sets c.writes line g) :
      Keeps (Frame (c.allowDirty line)) (assign line g) := assign_frame hg (.inr rfl)
  refine .bind deref_frame fun _ => .bind (set ?_) fun _ => .bind (set ?_) fun _ =>
    .bind (set ?_) fun _ => ?_
  · exact sets_of_type hl (fun s => by cases high <;> rfl) fun s => by cases high <;> rfl
  · exact sets_setQuality hl (by cases high <;> decide)
  · exact sets_setQuality hl (by cases high <;> decide)
  refine .bind deref_frame fun _ => .bind deref_frame fun _ => ?_
  refine .bind deref_frame fun _ => .bind deref_frame fun _ => ?_
  refine .bind (adjustReserve_frame (c := c.allowDirty line) hc.ownerCount) fun _ => ?_
  refine .bind (adjustReserve_frame (c := c.allowDirty line) hc.ownerCount) fun _ => ?_
  refine .ite (.bind (set (sets_of_type hl)) fun _ => ?_) ?_
  all_goals
    refine .ite (Settles.ok (trustDelete_settles hc.drops hl)) (.ite ?_ ?_)
    · refine .bind keeps_lift fun _ => .ite (settlesOk_fail (by decide)) ?_
      exact Settles.ok (entryModify_settles.pure _)
    · refine .bind (keeps_pure _) fun _ => .ite (settlesOk_fail (by decide)) ?_
      exact Settles.ok (entryModify_settles.pure _)

theorem doApply_applies (hc : Owning c) : Applies c (doApply limit qualityIn qualityOut t) := by
  have ht := type_getSkywellStateIndex t.mTxnAccountID limit.getIssuer limit.getCurrency
  unfold doApply
  dsimp only
  generalize getSkywellStateIndex t.mTxnAccountID limit.getIssuer limit.getCurrency = line at ht
  refine .bind pointer_frame fun root => .bind deref_frame fun _ => ?_
  refine .bind getLedger_frame fun _ => .ite (applies_of_keeps (keeps_pure _)) (.ite ?_ ?_)
  · refine applies_of_keeps (.bind (entryCache_frame _) fun _ => keeps_ite ?_ (keeps_pure _))
    exact (trustDelete_settles hc.drops ht).keeps
  refine .bind (entryCache_frame _) fun _ => .ite (applies_of_keeps (keeps_pure _)) ?_
  refine applies_cache ?_ (modifyLine_settles hc ht).applies
  refine keeps_if (fun h => by cases h) fun _ => keeps_ite (keeps_pure _) ?_
  refine .bind keeps_lift fun _ => keeps_ite (keeps_pure _) ?_
  exact trustCreate_frame (c := c.allowFresh line) hc.ownerCount (.inr rfl) ht

end SetTrust

theorem SetREL.doApply_frame (hc : Owning c) {relation : UInt32} :
    Keeps (Frame c) (doApply set_ dst relation limit t) := by
  have ht : (getTrustStateIndex t.mTxnAccountID dst relation limit.getIssuer
      limit.getCurrency).type ≠ .accountRoot := by
    unfold getTrustStateIndex
    split <;> simp [Key.type]
  unfold doApply
  dsimp only
  generalize getTrustStateIndex t.mTxnAccountID dst relation limit.getIssuer limit.getCurrency = index
    at ht
  refine .bind (entryCache_frame _) fun _ => keeps_ite (keeps_pure _) (keeps_cache ?_ ?_)
  · refine keeps_if (fun h => by simp at h) fun _ => keeps_ite ?_ ?_
    · refine .bind pointer_frame fun root => .bind (relationCreate_frame
        hc.ownerCount (.inr rfl) ht) fun ter => keeps_ite ?_ (keeps_pure _)
      refine .bind (entryCache_frame _) fun _ => keeps_guard fun _ => ?_
      exact frame_update (sets_of_type ht) fun _ => keeps_pure _
    · exact keeps_if (fun h => by simp at h) fun _ => keeps_pure _
  · apply keeps_ite (trustDelete_settles hc.drops ht).keeps
    refine keeps_if (fun h => by simp at h) fun _ => keeps_ite ?_ (keeps_pure _)
    refine frame_update (sets_of_type ht (fun s => ?_) fun s => ?_) fun _ => keeps_pure _
    · split <;> rfl
    · split <;> rfl

theorem SetSign.doApply_frame (hc : Owning c) (masterWeight : UInt16) (quorum quorumHigh : UInt32)
    (entries : List SignerEntry) :
    Keeps (Frame c) (doApply masterWeight quorum quorumHigh entries t) := by
  have ht : (getSignStateIndex t.mTxn.getSourceAccount).type ≠ .accountRoot := by
    simp [getSignStateIndex, Key.type]
  unfold doApply
  dsimp only
  generalize getSignStateIndex t.mTxn.getSourceAccount = index at ht
  refine keeps_ite (keeps_pure _) (.bind (entryCache_frame _) fun _ => keeps_cache ?_ ?_)
  · refine keeps_if (fun _ => ?_) fun h => by simp at h
    exact .bind pointer_frame fun _ => signCreate_frame (c := c.allowFresh index)
      hc.ownerCount (.inr rfl) ht
  · refine keeps_if (fun h => by simp at h) fun _ => ?_
    refine frame_update (sets_of_type ht (fun s => ?_) fun s => ?_) fun _ => keeps_pure _
    · split_ifs <;> rfl
    · split_ifs <;> rfl

theorem entryCreate_frame (hk : c.fresh k) (ht : k.type ≠ .accountRoot) :
    Keeps (Frame c) (entryCreate k) :=
  fun _ => (entryCreate_touched (.inr hk) ht).mono fun _ _ h => h.1

/-- An entry that is created where there is none, and what follows in either case. -/
theorem keeps_ensure (ht : k.type ≠ .accountRoot) {f : Unit → LES α}
    (hf : ∀ c u, Keeps (Frame c) (f u)) : Keeps (Frame c) (do
      if !(← entryCache k) then f (← entryCreate k) else f ()) :=
  keeps_cache (.bind (entryCreate_frame (.inr rfl) ht) fun _ => hf _ _) (hf _ _)

theorem SetNickName.doApply_frame (domain nickname : Option Blob) :
    Keeps (Frame c) (doApply domain nickname t) := by
  have ht : (getNickNameIndex t.mTxn.getSourceAccount).type ≠ .accountRoot := by
    simp [getNickNameIndex, Key.type]
  unfold doApply
  dsimp only
  generalize getNickNameIndex t.mTxn.getSourceAccount = nick at ht
  have set (c : Caps) {f : VLField} {value : Option Blob} : Sets c.writes nick
      (SetAccount.setOrUnset (.vl f) List.isEmpty value) :=
    sets_setOrUnset ⟨by simp, by simp, fun h => absurd h ht⟩
  refine keeps_cache (keeps_of_holding (keeps_hold (fun _ => entryCreate_touched ?_ ht) fun _ =>
    .bind (assign_holding (sets_of_type ht) (.inr rfl)) fun _ => keeps_holding ?_)) ?_
  · exact .inr (.inr rfl)
  all_goals
    apply keeps_of_holding
    refine keeps_hold (fun _ => entryModify_touched) fun _ => keeps_ite (keeps_pure _) ?_
    refine .bind (assign_holding (set _) (.inr rfl)) fun _ => keeps_ite (keeps_pure _) ?_
    exact .bind (assign_holding (set _) (.inr rfl)) fun _ => keeps_pure _

theorem Change.applyAmendment_frame {amendment : Nat} :
    Keeps (Frame c) (applyAmendment amendment) := by
  refine keeps_ensure (by decide) fun _ _ => ?_
  refine .bind deref_frame fun _ => keeps_ite (keeps_pure _) ?_
  exact frame_update (sets_of_type (by decide)) fun _ => keeps_pure _

theorem Change.applyFee_frame {baseFee : UInt64} {units base increment : UInt32} :
    Keeps (Frame c) (applyFee baseFee units base increment) := by
  refine keeps_ensure (by decide) fun _ _ => ?_
  exact frame_update (sets_of_type (by decide)) fun _ => keeps_pure _

theorem ManageTransactor.applyManage_frame (ht : k.type ≠ .accountRoot) {field : AccountField} :
    Keeps (Frame c) (applyManage k field account) := by
  refine keeps_ensure ht fun _ _ => ?_
  exact frame_update (sets_of_type ht) fun _ => keeps_pure _

theorem ManageTransactor.applyManageBlackList_frame (hc : Owning c) :
    Keeps (Frame c) (applyManageBlackList account set_) := by
  have ht : (getBlackListIndex account).type ≠ .accountRoot := by
    simp [getBlackListIndex, Key.type]
  unfold applyManageBlackList
  generalize getBlackListIndex account = index at ht
  apply keeps_cache
  · refine keeps_ite (.bind (entryCreate_frame (.inr rfl) ht) fun _ => ?_) ?_
    · exact frame_update (sets_of_type ht) fun _ => keeps_pure _
    · exact keeps_if (fun h => by simp at h) fun _ => keeps_pure _
  · refine keeps_if (fun h => by simp at h) fun _ => keeps_ite ?_ (keeps_pure _)
    exact .bind (entryDelete_frame (hc.drops _ ht)) fun _ => keeps_pure _

theorem Ready.held (hr : Ready h t t' v) (k : Key) (hk : t'.Held k) :
    k.type = .accountRoot ∧ v.Touched k := by
  obtain ⟨rfl, ht⟩ := hr.txnAccount k hk
  exact ⟨rfl, ht⟩

theorem outcome_of_holding (hr : Ready h t t' v) (hm : Keeps (Holding t'.Held c) m) :
    Spec m v (Outcome c v) :=
  (hm v).mono fun _ _ h => outcome_of_frame (h fun k hk => (hr.held k hk).2).1

def isPayment : TxFields → Bool
  | .payment .. => true
  | _ => false

def isBatch : TxFields → Bool
  | .operation .. => true
  | _ => false

/-- Only payments deliver, and batches of them. -/
theorem doApply_outcome {txn : STTx} {loop : List Account → TransactionEngineParams → LES TER}
    (hd : isPayment txn.fields = true → d) (hloop : isBatch txn.fields = true →
      ∀ signers params, Applies (Caps.txn bump d) (loop signers params))
    (hm : ∀ dst, txn.fields ≠ .accountMerge dst) (hr : Ready (transactorOf env loop txn) t t' v) :
    Spec ((transactorOf env loop txn).doApply t') v (Outcome (Caps.txn bump d) v) := by
  have hc : Paying (Caps.txn bump d) := paying_txn
  obtain ⟨common, fields, operations⟩ := txn
  cases fields with
  | payment =>
    exact outcome_of_holding hr (Payment.doApply_holding (hd rfl) fun k hk => (hr.held k hk).1)
  | accountSet => exact outcome_of_holding hr SetAccount.doApply_holding
  | regularKeySet => exact outcome_of_holding hr SetRegularKey.doApply_holding
  | trustSet => exact SetTrust.doApply_applies hc.toOwning v
  | relSet | relDel => exact applies_of_keeps (SetREL.doApply_frame hc.toOwning) v
  | amendment => exact applies_of_keeps Change.applyAmendment_frame v
  | fee => exact applies_of_keeps Change.applyFee_frame v
  | ticketCreate | ticketCancel => exact applies_of_keeps (keeps_pure _) v
  | nicknameSet => exact applies_of_keeps (SetNickName.doApply_frame _ _) v
  | accountMerge dst => exact absurd rfl (hm dst)
  | mngFee | mngIssuer =>
    exact applies_of_keeps (ManageTransactor.applyManage_frame (by decide)) v
  | blkListSet | blkListRmv =>
    exact applies_of_keeps (ManageTransactor.applyManageBlackList_frame hc.toOwning) v
  | signSet => exact applies_of_keeps (SetSign.doApply_frame hc.toOwning _ _ _ _) v
  | message =>
    exact applies_of_keeps (.bind (entryCache_frame _) fun _ =>
      keeps_ite (keeps_pure _) (keeps_pure _)) v
  | operation => exact Applies.ite (applies_of_keeps (keeps_pure _)) (hloop rfl _ _) v

theorem precheckSig_frame {signers : List Account} {source : Account}
    {params : TransactionEngineParams} :
    Keeps (Frame c) (Operations.precheckSig signers source params) := by
  refine .bind (entryCache_frame _) fun _ => keeps_either deref_frame keeps_throw fun _ => ?_
  refine keeps_ite (keeps_ite (keeps_pure _) (keeps_pure _)) (keeps_ite (keeps_pure _) ?_)
  refine keeps_ite (.bind (entryCache_frame _) fun _ => keeps_ite ?_ (keeps_pure _)) (keeps_pure _)
  exact .bind deref_frame fun _ => keeps_ite (keeps_pure _) (keeps_pure _)

theorem Applies.andThen {f : LES TER} (hm : Applies c m) (hf : Applies c f) :
    Applies c (do
      let ter ← m
      if ter ≠ .tesSUCCESS then return ter
      f) := by
  refine fun v => spec_bind.2 <| (hm v).mono fun ter v1 h1 => spec_ite.2 ⟨fun hne => ?_, fun he => ?_⟩
  · exact spec_pure.2 ⟨h1.1, fun e => absurd e hne⟩
  · exact (hf v1).mono fun _ _ h2 => h2.trans (h1.2 (not_not.1 he))

mutual

/-- Outside a batch a transaction counts up its own sequence only. -/
theorem transact_applies (env : Env) : (txn : STTx) → (params : TransactionEngineParams) →
    (params.tapPRE_CHECKED = false →
      bump (getAccountRootIndex txn.getSourceAccount) txn.getSequence) →
    Applies (Caps.txn bump True) (transact env txn params)
  | .mk common fields operations, params, hb => by
    refine .ite (applies_of_keeps (keeps_pure _)) fun v => ?_
    have hcharge : params.tapPRE_CHECKED = false → Charging (Caps.txn bump True) common.account
        common.sequence :=
      fun hp => ⟨fun _ => trivial, fun _ => trivial, fun _ => trivial, fun _ => trivial, hb hp⟩
    refine spec_bind.2 fun r v' hp => ?_
    obtain ⟨hloose, hok, herror⟩ := prepare_spec (known_transactorOf ..) hcharge
      (preCheck_frame_transactorOf rfl paying_txn) (preCheck_sources_transactorOf rfl) r v' hp
    cases r with
    | error ter => exact spec_pure.2 ⟨hloose, fun e => absurd (e ▸ rfl) herror⟩
    | ok t' =>
    obtain ⟨hframe, hr⟩ := hok t' rfl
    exact (doApply_outcome (fun _ => trivial) (fun _ => applyAll_applies env operations)
      (not_merge_of_prepare rfl hp) hr).mono fun _ _ h => h.trans hframe

theorem applyAll_applies (env : Env) : (ops : List STTx) → (signers : List Account) →
    (params : TransactionEngineParams) →
    Applies (Caps.txn bump True) (Operations.applyAll env ops signers params)
  | [], signers, params => by
    exact applies_of_keeps (keeps_pure _)
  | sttx :: rest, signers, params => by
    refine .bind precheckSig_frame fun ⟨ter, params'⟩ => ?_
    refine .ite (applies_of_keeps (keeps_pure _)) (.andThen ?_ (applyAll_applies env rest _ _))
    exact transact_applies env sttx _ fun h => by cases h

end

variable {txn : STTx} {params : TransactionEngineParams}
  {loop : List Account → TransactionEngineParams → LES TER}

theorem transact_ledger (h : transact env txn params v = .ok (ter, v')) : v'.mLedger = v.mLedger := by
  have hout : Outcome (Caps.txn (fun _ _ => True) True) v ter v' :=
    transact_applies env txn params (fun _ => trivial) v ter v' h
  exact hout.1.ledger

variable (d) in
theorem prepare_transactorOf :
    Spec ((transactorOf env loop txn).prepare env { mTxn := txn, mParams := params }) v
      (Prepared (transactorOf env loop txn) (Caps.txn (fun _ _ => True) d)
        { mTxn := txn, mParams := params } v) :=
  prepare_spec (known_transactorOf ..) (fun _ => ⟨fun _ => trivial, fun _ => trivial,
    fun _ => trivial, fun _ => trivial, trivial⟩) (preCheck_frame_transactorOf rfl paying_txn)
    (preCheck_sources_transactorOf rfl)

/-- The members with which `doApply` was called, if the transaction succeeded. -/
theorem transact_succeeds (h : transact env txn params v = .ok (.tesSUCCESS, v')) :
    let hooks := transactorOf env (Operations.applyAll env txn.operations) txn
    ∃ t' v1, hooks.prepare env { mTxn := txn, mParams := params } v = .ok (.ok t', v1) ∧
      Ready hooks { mTxn := txn, mParams := params } t' v1 ∧
      hooks.doApply t' v1 = .ok (.tesSUCCESS, v') := by
  obtain ⟨common, fields, operations⟩ := txn
  rw [transact] at h
  split at h
  · cases h
  obtain ⟨r, v1, prepared, h⟩ := bind_eq_ok.1 h
  obtain ⟨-, ready, failed⟩ := prepare_transactorOf True r v1 prepared
  cases r with
  | error ter =>
    cases h
    exact absurd rfl failed
  | ok t' => exact ⟨t', v1, prepared, (ready t' rfl).2, h⟩

end Skywell
