import JingtumCore.Frames

/-!
# Frames of the directory and trust line functions

Directory functions touch pages of directories only. The functions on lines
also count owners and, where they pay in native currency, write balances.
-/
namespace Skywell.LedgerEntrySet
open U32Field U64Field AmountField StateExcept Caps
variable [Sha512Half] {c : Caps} {k : Key} {v : LedgerEntrySet}
  {w : Key → SField → Prop} {root : Key} {src : Account}

omit [Sha512Half] in
theorem sets_page (hk : k.type = .dirNode) {g : SLE → SLE}
    (h : ∀ s, (g s).field (.h256 .sfPreviousTxnID) = s.field (.h256 .sfPreviousTxnID) := by intro; rfl)
    (h' : ∀ s, (g s).field (.u32 sfPreviousTxnLgrSeq) = s.field (.u32 sfPreviousTxnLgrSeq) := by
      intro; rfl) : Sets w k g :=
  sets_of_type (by simp [hk]) h h'

variable {account dst issuer low receiver sender : Account}
  {high keepRoot soft srcHigh stable : Bool} {currency : Currency} {zeroIfFrozen : FreezeHandling}
  {index : Key} {amount balance limit : STAmount} {qualityIn qualityOut : UInt32} {page : UInt64}

theorem dirAdd_frame (hr : root.type = .dirNode) {owner : Account} :
    Keeps (Frame c) (dirAdd root index (ownerDirDescriber owner)) := by
  apply keeps_of_holding
  have hn := type_getDirNodeIndex hr
  refine .bind (keeps_holding (entryCache_frame _)) fun found => keeps_ite ?_ ?_
  · refine keeps_hold (fun v => entryCreate_touched (.inl hr) (by simp [hr])) fun _ => ?_
    refine .bind (assign_holding (sets_page hr) (.inr rfl)) fun _ => ?_
    exact .bind (assign_holding (sets_page hr) (.inr rfl)) fun _ => keeps_pure _
  refine .bind (keeps_holding deref_frame) fun sleRoot => ?_
  refine .bind (keeps_holding (entryCache_frame _)) fun hasNode => keeps_ite keeps_throw ?_
  refine .bind (keeps_holding deref_frame) fun sleNode =>
    keeps_ite ?_ (keeps_ite (keeps_pure _) ?_)
  · refine keeps_hold (fun v => entryModify_touched) fun _ => ?_
    exact .bind (assign_holding (sets_page (hn _)) (.inr rfl)) fun _ => keeps_pure _
  -- the page is full: the next one is made
  refine keeps_update (sets_page (hn _)) fun _ => ?_
  refine keeps_update (sets_page hr) fun _ => ?_
  refine keeps_hold (fun v => entryCreate_touched (.inl (hn _)) (by simp [hn])) fun _ => ?_
  refine .bind (assign_holding (sets_page (hn _)) (.inr rfl)) fun _ =>
    keeps_when (assign_holding (sets_page (hn _)) (.inr rfl)) fun _ => ?_
  refine .bind (assign_holding (sets_page (hn _)) (.inr rfl)) fun _ => ?_
  exact .bind (assign_holding (sets_page (hn _)) (.inr rfl)) fun _ => keeps_pure _

section
variable (hc : ∀ k : Key, k.type = .dirNode → c.drops k)
include hc

theorem dirDeleteEmptied_frame (hp : (getDirNodeIndex root page).type = .dirNode) :
    Keeps (Frame c) (dirDeleteEmptied keepRoot page root) := by
  refine .bind deref_frame fun sleNode => keeps_if (fun h => ?_) fun _ =>
    keeps_if (fun hnext => ?_) fun _ => keeps_ite (keeps_pure _) ?_
  · -- the root was emptied
    have hn := type_getDirNodeIndex (show root.type = .dirNode by rwa [h] at hp)
    refine keeps_ite (.bind (entryDelete_frame (hc _ hp)) fun _ => keeps_pure _) ?_
    refine keeps_ite (.bind (entryCache_frame _) fun _ => keeps_guard fun _ => ?_) (keeps_pure _)
    refine .bind deref_frame fun _ => keeps_ite ?_ (keeps_pure _)
    exact .bind (entryDelete_frame (hc _ hp)) fun _ => .bind (entryDelete_frame (hc _ (hn _)))
      fun _ => keeps_pure _
  · -- a page between the root and the last one was emptied
    refine .bind (entryCache_frame _) fun _ => .bind (entryCache_frame _) fun _ => ?_
    refine keeps_ite (keeps_pure _) (keeps_ite (keeps_pure _) (keeps_guard fun hprev => ?_))
    have hprev : (getDirNodeIndex root (sleNode.getFieldU64 sfIndexPrevious)).type = .dirNode := by
      simpa using hprev
    have hnode : (getDirNodeIndex root (sleNode.getFieldU64 sfIndexNext)).type = .dirNode := by
      simp [getDirNodeIndex, hnext, Key.type]
    refine frame_update (sets_page hprev) fun _ => ?_
    refine frame_update (sets_page hnode) fun _ => ?_
    exact .bind (entryDelete_frame (hc _ hp)) fun _ => keeps_pure _
  · refine .bind (entryCache_frame _) fun _ => keeps_guard fun _ => keeps_guard fun hr => ?_
    refine .bind deref_frame fun _ => keeps_ite ?_ (keeps_pure _)
    exact .bind (entryDelete_frame (hc _ (by simpa using hr))) fun _ =>
      .bind (entryDelete_frame (hc _ hp)) fun _ => keeps_pure _

theorem dirDeleteAt_frame {missing : LES TER} (hm : Keeps (Frame c) missing) :
    Keeps (Frame c) (dirDeleteAt keepRoot page root index stable missing) := by
  refine .bind (entryCache_frame _) fun found => keeps_guard fun hp =>
    keeps_if (fun hf => ?_) fun hf => ?_
  · have hp : (getDirNodeIndex root page).type = .dirNode := by simpa [hf] using hp
    refine .bind (.map _ deref_frame) fun svIndexes => keeps_ite hm ?_
    refine frame_update (sets_page hp) fun _ => ?_
    exact keeps_ite (dirDeleteEmptied_frame hc hp) (keeps_pure _)
  · simpa using hm

theorem dirDeleteFrom_frame {tries : Nat} :
    Keeps (Frame c) (dirDeleteFrom keepRoot root index stable tries page soft) := by
  induction tries generalizing page soft with
  | zero => exact dirDeleteAt_frame hc (keeps_pure _)
  | succ tries ih =>
    exact dirDeleteAt_frame hc (keeps_ite (keeps_pure _) ih)

theorem dirDelete_frame (keepRoot : Bool) :
    Keeps (Frame c) (dirDelete keepRoot page root index stable soft) :=
  dirDeleteFrom_frame hc

end

theorem dirIsEmpty_frame : Keeps (Frame c) (dirIsEmpty root) := by
  refine .bind (entryCache_frame _) fun _ => keeps_ite (keeps_pure _) ?_
  exact .bind deref_frame fun _ => keeps_ite (keeps_pure _) (keeps_pure _)

/-- What the functions on lines need: deletion of entries other than account
roots, and counting owners. -/
structure Owning (c : Caps) : Prop where
  drops : ∀ k : Key, k.type ≠ .accountRoot → c.drops k
  ownerCount : ∀ k, c.writes k (.u32 sfOwnerCount)

section
omit [Sha512Half]

theorem Owning.pages (hc : Owning c) (h : k.type = .dirNode) : c.drops k :=
  hc.drops k (by simp [h])

theorem sets_ownerCount (hw : ∀ k, w k (.u32 sfOwnerCount)) (k : Key)
    {n : UInt32} : Sets w k fun sle => sle.setFieldU32 sfOwnerCount n :=
  sets_set ⟨by decide, by decide, fun _ => ⟨by decide, hw k⟩⟩ _

end

section
variable (hc : ∀ k, c.writes k (.u32 sfOwnerCount))
include hc

theorem incrementOwnerCountRef_frame {k : Key} : Keeps (Frame c) (incrementOwnerCountRef k) := by
  exact .bind deref_frame fun _ => keeps_ite (keeps_pure _)
    (update_frame (sets_ownerCount hc k))

theorem decrementOwnerCountRef_frame : Keeps (Frame c) (decrementOwnerCountRef k) := by
  exact .bind deref_frame fun _ => keeps_ite (keeps_pure _)
    (update_frame (sets_ownerCount hc k))

theorem decrementOwnerCount_frame {owner : Account} : Keeps (Frame c) (decrementOwnerCount owner) :=
  .bind (entryCache_frame _) fun _ => keeps_guard fun _ => decrementOwnerCountRef_frame hc

end

theorem cacheCredit_frame : Keeps (Frame c) (cacheCredit sender receiver amount) := by
  intro v
  simp only [cacheCredit, spec_bind, spec_get]
  split
  · simp only [spec_bind, spec_lift, spec_set]
    exact fun _ _ => ⟨rfl, rfl, rfl, fun _ => rfl, fun _ => .refl⟩
  · exact spec_pure.2 (refl v)

theorem adjustedBalance_frame {main other : Account} :
    Keeps (Frame c) (adjustedBalance main other amount) := by
  refine .bind keeps_get fun v => ?_
  split
  · exact keeps_lift
  · exact keeps_pure _

theorem dirAddBoth_frame {high : Account} : Keeps (Frame c) (dirAddBoth index low high) := by
  refine .bind (dirAdd_frame rfl) fun _ => keeps_ite (keeps_pure _) ?_
  exact .bind (dirAdd_frame rfl) fun _ => keeps_pure _

omit [Sha512Half] in
theorem sets_fillLine (hk : k.type ≠ .accountRoot) {lowNode highNode : UInt64}
    {peerLimit : STAmount} :
    Sets w k (fillLine high lowNode highNode limit peerLimit qualityIn qualityOut) := by
  refine sets_of_type hk (fun s => ?_) fun s => ?_ <;>
  · unfold fillLine
    cases high <;> split_ifs <;> rfl

section
variable (hc : ∀ k, c.writes k (.u32 sfOwnerCount)) (hk : c.fresh k) (ht : k.type ≠ .accountRoot)
include hc hk ht

theorem relationCreate_frame :
    Keeps (Frame c) (relationCreate srcHigh src dst k root balance limit qualityIn qualityOut) := by
  apply keeps_of_holding
  refine keeps_hold (fun v => entryCreate_touched (.inr hk) ht) fun _ => ?_
  refine .bind (keeps_holding dirAddBoth_frame) fun _ => keeps_ite (keeps_pure _) ?_
  refine .bind (keeps_holding (entryCache_frame _)) fun _ => ?_
  refine .bind (assign_holding (sets_fillLine ht) (.inr rfl)) fun _ => ?_
  refine .bind (keeps_holding (incrementOwnerCountRef_frame (c := c.keep) hc)) fun _ => ?_
  refine .bind (assign_holding (sets_of_type ht) (.inr rfl)) fun _ => ?_
  exact .bind (keeps_holding cacheCredit_frame) fun _ => keeps_pure _

theorem signCreate_frame {masterWeight : UInt16} {quorum quorumHigh : UInt32}
    {entries : List SignerEntry} :
    Keeps (Frame c) (signCreate k root src masterWeight quorum quorumHigh entries) := by
  apply keeps_of_holding
  refine keeps_hold (fun v => entryCreate_touched (.inr hk) ht) fun _ => ?_
  refine .bind (keeps_holding (dirAdd_frame rfl)) fun _ => keeps_ite (keeps_pure _) ?_
  refine .bind (assign_holding (sets_of_type ht (fun _ => ?_) fun _ => ?_) (.inr rfl)) fun _ => ?_
  · split_ifs <;> rfl
  · split_ifs <;> rfl
  exact .bind (keeps_holding (incrementOwnerCountRef_frame (c := c.keep) hc)) fun _ => keeps_pure _

theorem trustCreate_frame {auth noSkywell freeze : Bool} :
    Keeps (Frame c) (trustCreate srcHigh src dst k root auth noSkywell freeze balance limit
      qualityIn qualityOut) := by
  apply keeps_of_holding
  refine keeps_hold (fun v => entryCreate_touched (.inr hk) ht) fun _ => ?_
  refine .bind (keeps_holding dirAddBoth_frame) fun _ => keeps_ite (keeps_pure _) ?_
  refine .bind (keeps_holding (entryCache_frame _)) fun _ => ?_
  refine .bind (assign_holding (sets_fillLine ht) (.inr rfl)) fun _ =>
    keeps_guard fun _ => ?_
  refine .bind (keeps_holding deref_frame) fun _ => ?_
  refine .bind (assign_holding (sets_of_type ht) (.inr rfl)) fun _ => ?_
  refine .bind (keeps_holding (incrementOwnerCountRef_frame (c := c.keep) hc)) fun _ => ?_
  refine .bind (assign_holding (sets_of_type ht) (.inr rfl)) fun _ => ?_
  exact .bind (keeps_holding cacheCredit_frame) fun _ => keeps_pure _

end

/-- The line itself may have been changed and only cached before. -/
theorem trustDelete_settles (hc : ∀ k : Key, k.type ≠ .accountRoot → c.drops k)
    (ht : k.type ≠ .accountRoot) {high : Account} : Settles k c (trustDelete k low high) := by
  have hp (k : Key) (h : k.type = .dirNode) : c.drops k := hc k (by simp [h])
  have last (ter : TER) : Settles k c (do entryDelete k; return ter) :=
    (entryDelete_settles (hc k ht)).pure ter
  refine .bind deref_frame fun sle =>
    .bind (dirDelete_frame (c := c.allowDirty k) hp _) fun ter => ?_
  exact .ite (.bind (dirDelete_frame (c := c.allowDirty k) hp _) last)
    (.bind (keeps_pure _) last)

omit [Sha512Half] in
theorem type_getSkywellStateIndex (a b : Account) (currency : Currency) :
    (getSkywellStateIndex a b currency).type ≠ .accountRoot := by
  unfold getSkywellStateIndex
  split <;> simp [Key.type]

theorem releasesReserve_frame {flags : UInt32} {state : SLE} {before after : STAmount}
    {senderFlags : LES UInt32} (h : Keeps (Frame c) senderFlags) :
    Keeps (Frame c) (releasesReserve high flags state before after senderFlags) := by
  refine keeps_ite (keeps_pure _) (keeps_ite (keeps_pure _) ?_)
  exact .bind h fun _ => keeps_pure _

theorem keeps_cache {α : Type} {f : Bool → LES α} (h0 : Keeps (Frame (c.allowFresh k)) (f false))
    (h1 : Keeps (Frame c) (f true)) : Keeps (Frame c) (entryCache k >>= f) := by
  intro v
  rw [spec_bind, spec_entryCache]
  cases hr : v.read k with
  | none =>
    exact (h0 _).mono fun _ _ h => IsTrans.trans _ _ _ frame_cached (h.absent (by simpa using hr))
  | some state => exact (h1 _).mono fun _ _ h => IsTrans.trans _ _ _ frame_cached h

theorem skywellCredit_frame (hc : Owning c) (sender receiver : Account) (amount : STAmount) :
    Keeps (Frame c) (skywellCredit sender receiver amount) := by
  simp only [skywellCredit]
  have ht := type_getSkywellStateIndex sender receiver amount.getCurrency
  generalize getSkywellStateIndex sender receiver amount.getCurrency = line at ht
  refine keeps_cache ?_ (Settles.keeps (k := line) ?_)
  · refine .bind (entryCache_frame _) fun _ => keeps_guard fun _ => ?_
    refine .bind deref_frame fun _ => ?_
    exact trustCreate_frame (c := c.allowFresh line) hc.ownerCount (.inr rfl) ht
  · refine .bind cacheCredit_frame fun _ => .bind deref_frame fun _ => ?_
    refine .bind keeps_lift fun _ => .bind (releasesReserve_frame ?_) fun released => ?_
    · exact .bind (entryCache_frame _) fun _ => keeps_guard fun _ =>
        .bind deref_frame fun _ => keeps_pure _
    have setLine {g : SLE → SLE} (hg : Sets c.writes line g) :
        Keeps (Frame (c.allowDirty line)) (assign line g) := assign_frame hg (.inr rfl)
    refine .ite (.bind (decrementOwnerCount_frame (c := c.allowDirty line) hc.ownerCount)
      fun _ => .bind (setLine (sets_of_type ht)) fun _ => ?_) ?_
    all_goals
      refine .bind (setLine (sets_of_type ht)) fun _ => ?_
      exact .ite (trustDelete_settles hc.drops ht) (entryModify_settles.pure _)

theorem skywellTransferRate_frame : Keeps (Frame c) (skywellTransferRate issuer currency) := by
  refine .bind (entryCache_frame _) fun _ => keeps_ite (keeps_pure _) ?_
  refine .bind deref_frame fun sleAccount => keeps_ite (keeps_pure _) ?_
  split
  · exact keeps_lift
  · exact keeps_pure _

theorem skywellTransferFee_frame :
    Keeps (Frame c) (skywellTransferFee sender receiver issuer amount) := by
  refine keeps_ite (.bind skywellTransferRate_frame fun _ => ?_) (keeps_pure _)
  refine keeps_ite ?_ (keeps_pure _)
  exact .bind keeps_lift fun _ => .bind keeps_lift fun _ =>
    keeps_lift

theorem skywellSend_frame (hc : Owning c) :
    Keeps (Frame c) (skywellSend sender receiver amount) := by
  refine keeps_ite (.bind (skywellCredit_frame hc _ _ _) fun _ => keeps_pure _) ?_
  refine .bind skywellTransferFee_frame fun _ => ?_
  have last (actual : STAmount) := Keeps.bind (skywellCredit_frame hc amount.getIssuer receiver amount)
    fun ter => keeps_ite (c := ter = .tesSUCCESS)
      (skywellCredit_frame hc sender amount.getIssuer (actual.setIssuer amount.getIssuer)) (keeps_pure ter)
  exact keeps_ite (.bind (keeps_pure _) last) (.bind keeps_lift last)

/-- What paying in native currency needs besides. -/
structure Paying (c : Caps) : Prop extends Owning c where
  balance : ∀ k, c.writes k (.amount sfBalance)

omit [Sha512Half] in
theorem sets_balance (hw : ∀ k, w k (.amount sfBalance)) (k : Key)
    (b : STAmount) : Sets w k fun sle => sle.setFieldAmount sfBalance b :=
  sets_set ⟨by decide, by decide, fun _ => ⟨by decide, hw k⟩⟩ _

theorem debitRoot_frame (hc : Paying c) : Keeps (Frame c) (debitRoot root amount) := by
  refine .bind deref_frame fun _ => .bind keeps_lift fun _ => keeps_ite (keeps_pure _) ?_
  exact .bind keeps_lift fun _ => frame_update (sets_balance hc.balance _ _) fun _ =>
    keeps_pure _

theorem creditRoot_frame (hc : Paying c) : Keeps (Frame c) (creditRoot root amount) := by
  exact .bind deref_frame fun _ => .bind keeps_lift fun _ =>
    update_frame (sets_balance hc.balance _ _)

theorem accountSend_frame (hc : Paying c) :
    Keeps (Frame c) (accountSend sender receiver amount) := by
  refine keeps_ite (keeps_pure _) (keeps_ite (skywellSend_frame hc.toOwning) ?_)
  refine .bind cacheCredit_frame fun _ => ?_
  refine keeps_either (entryCache_frame _) (keeps_pure _) fun _ => ?_
  refine keeps_either (entryCache_frame _) (keeps_pure _) fun _ => ?_
  refine keeps_either (debitRoot_frame hc) (keeps_pure _) fun _ => keeps_ite ?_ ?_
  · exact .bind isOpenLedger_frame fun _ => keeps_pure _
  · exact keeps_when (creditRoot_frame hc) fun _ => keeps_pure _

theorem issue_trust_auto_frame (hc : Owning c) {issue : Issue} :
    Keeps (Frame c) (issue_trust_auto account amount issue) := by
  have ht := type_getSkywellStateIndex account issue.account amount.getCurrency
  refine keeps_cache ?_ (keeps_pure _)
  refine .bind (entryCache_frame _) fun _ => keeps_guard fun _ => ?_
  refine .bind deref_frame fun _ => .bind keeps_lift fun _ => ?_
  exact trustCreate_frame (c := c.allowFresh _) hc.ownerCount (.inr rfl) ht

theorem offerDelete_frame (hc : Owning c) {offer : Key} : Keeps (Frame c) (offerDelete offer) := by
  refine .bind (entryCache_frame _) fun _ => keeps_ite (keeps_pure _) (keeps_guard fun ht => ?_)
  have ht : offer.type ≠ .accountRoot := by
    have : offer.type = .offer := by simpa using ht
    simp [this]
  refine .bind deref_frame fun _ => ?_
  refine .bind (dirDelete_frame (fun _ => hc.pages) _) fun _ => ?_
  refine .bind (dirDelete_frame (fun _ => hc.pages) _) fun _ => ?_
  exact keeps_when (decrementOwnerCount_frame hc.ownerCount) fun _ =>
    .bind (entryDelete_frame (hc.drops _ ht)) fun _ => keeps_pure _

theorem isFrozen_frame : Keeps (Frame c) (isFrozen account currency issuer) := by
  refine keeps_ite (keeps_pure _) (.bind (entryCache_frame _) fun _ => ?_)
  refine keeps_ite (.bind deref_frame fun _ => keeps_ite (keeps_pure _) ?_) ?_
  all_goals
    refine keeps_ite (.bind (entryCache_frame _) fun _ => keeps_ite ?_ (keeps_pure _)) (keeps_pure _)
    exact .bind deref_frame fun _ => keeps_ite (keeps_pure _) (keeps_pure _)

theorem skywellHolds_frame :
    Keeps (Frame c) (skywellHolds account currency issuer zeroIfFrozen) := by
  refine .bind (entryCache_frame _) fun _ => keeps_ite adjustedBalance_frame ?_
  refine keeps_either isFrozen_frame (keeps_pure _) fun _ => ?_
  exact keeps_ite adjustedBalance_frame (.bind deref_frame fun _ =>
    adjustedBalance_frame)

theorem accountHolds_frame :
    Keeps (Frame c) (accountHolds account currency issuer zeroIfFrozen) := by
  refine keeps_ite (.bind (entryCache_frame _) fun _ => keeps_guard fun _ => ?_)
    skywellHolds_frame
  refine .bind deref_frame fun _ => .bind getLedger_frame fun _ => .bind keeps_lift fun _ => ?_
  exact keeps_either (keeps_pure _) keeps_lift fun _ => adjustedBalance_frame

theorem accountFunds_frame : Keeps (Frame c) (accountFunds account amount zeroIfFrozen) :=
  keeps_ite (keeps_pure _) accountHolds_frame

theorem authorizeAccountGet_frame : Keeps (Frame c) (authorizeAccountGet account currency) :=
  .bind getLedger_frame fun _ => .bind keeps_lift fun _ => keeps_pure _

theorem authorPays_frame (hc : Paying c) {funded freeze ownerFunds : STAmount} :
    Keeps (Frame c) (authorPays account amount funded freeze ownerFunds) := by
  refine .bind authorizeAccountGet_frame fun _ => keeps_ite (keeps_pure _) ?_
  refine .bind getLedger_frame fun _ => .bind keeps_lift fun _ => ?_
  refine .bind accountFunds_frame fun _ => .bind keeps_lift fun _ => ?_
  refine keeps_ite (keeps_pure _) (.bind keeps_lift fun _ => .bind keeps_lift fun _ => ?_)
  refine .bind keeps_lift fun _ => keeps_ite (keeps_pure _) (.bind keeps_lift fun _ => ?_)
  refine .bind keeps_lift fun _ => .bind (accountSend_frame hc) fun _ => ?_
  exact keeps_ite (keeps_pure _) (keeps_pure _)

theorem accountFundsCheck_frame (hc : Paying c) {config : Config} :
    Keeps (Frame c) (accountFundsCheck config account amount) := by
  refine .bind getLedger_frame fun _ => keeps_ite (keeps_pure _) (.bind keeps_lift fun _ => ?_)
  refine .bind keeps_lift fun _ => .bind keeps_lift fun _ => .bind keeps_lift fun _ => ?_
  refine .bind accountFunds_frame fun _ => keeps_ite (.bind (keeps_pure _) fun _ => ?_)
    (.bind keeps_lift fun _ => .bind keeps_lift fun _ => ?_)
  all_goals exact keeps_ite (keeps_pure _) (authorPays_frame hc)

end Skywell.LedgerEntrySet
