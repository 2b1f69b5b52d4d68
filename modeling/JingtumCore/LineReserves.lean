import JingtumCore.DirectoryScope
import JingtumCore.LineCredits
import JingtumCore.Transactors

/-!
# Reserves of new trust lines

A credit between two accounts without a line creates one. What `trustCreate` writes
is compared with what `SetTrust` and `skywellCredit` take for the default state of a
side, and the line is followed until the whole balance is sent back.
-/
namespace Skywell.LedgerEntrySet
open StateExcept STAmount AmountField U32Field U64Field
variable [Sha512Half] {u v w : LedgerEntrySet} {k : Key}
  {b low : Account} {dh dl : Directory} {k' : Key} {e : LedgerEntrySetEntry}

theorem cached_of_entry (h : v.mEntries[k]? = some e) : v.cached k = v := by
  rw [cached, h]

theorem setEntry_self (h : v.mEntries[k]? = some e) : v.setEntry k e = v := by
  have same : v.mEntries.insert k e = v.mEntries := by
    refine Std.ExtTreeMap.ext_getElem? fun i => ?_
    simp only [Std.ExtTreeMap.getElem?_insert, Key.cmp_eq_iff]
    split_ifs with here
    · rw [← here, h]
    · rfl
  rw [setEntry, same]

theorem getElem?_setEntry_self (v : LedgerEntrySet) (k : Key) (e : LedgerEntrySetEntry) :
    (v.setEntry k e).mEntries[k]? = some e := by
  rw [getElem?_setEntry, if_pos rfl]

theorem setEntry_comm (apart : k ≠ k') (e e' : LedgerEntrySetEntry) :
    (v.setEntry k e).setEntry k' e' = (v.setEntry k' e').setEntry k e := by
  have same : (v.mEntries.insert k e).insert k' e' = (v.mEntries.insert k' e').insert k e := by
    refine Std.ExtTreeMap.ext_getElem? fun i => ?_
    simp only [Std.ExtTreeMap.getElem?_insert, Key.cmp_eq_iff]
    split_ifs with there here
    · exact absurd (here.trans there.symm) apart
    · rfl
    · rfl
    · rfl
  simp [setEntry, same]

variable {action : LedgerEntryAction} {sle : SLE} {a : Account} {line : Key}

section
variable (h : v.mEntries[k]? = some ⟨sle, action⟩) (alive : action ≠ .taaDELETE)
include h alive

theorem read_of_entry : v.read k = some sle := by
  rw [LedgerEntrySet.read, h]
  exact if_neg alive

/-- A root after `incrementOwnerCount`; the largest count stays. -/
def incremented (sle : SLE) : SLE :=
  if sle.getFieldU32 sfOwnerCount = 0xffffffff then sle
  else sle.setFieldU32 sfOwnerCount (sle.getFieldU32 sfOwnerCount + 1)

/-- A root after `decrementOwnerCount`. -/
def decremented (sle : SLE) : SLE :=
  if sle.getFieldU32 sfOwnerCount = 0 then sle
  else sle.setFieldU32 sfOwnerCount (sle.getFieldU32 sfOwnerCount - 1)

theorem setOwnerCount_eq (stays : Prop) [Decidable stays] (count : UInt32) :
    ∃ action', action' ≠ .taaDELETE ∧ (if stays then pure () else do
      assign k fun sle => sle.setFieldU32 sfOwnerCount count
      entryModify k : LES Unit) v = .ok ((), v.setEntry k
        ⟨if stays then sle else sle.setFieldU32 sfOwnerCount count, action'⟩) := by
  split_ifs
  · exact ⟨action, alive, by rw [setEntry_self h]; rfl⟩
  · refine ⟨modified action, modified_alive, ?_⟩
    simpa using update_eq h alive (·.setFieldU32 sfOwnerCount count) (pure ())

theorem incrementOwnerCountRef_eq :
    ∃ action', action' ≠ .taaDELETE ∧
      incrementOwnerCountRef k v = .ok ((), v.setEntry k ⟨incremented sle, action'⟩) := by
  rw [incrementOwnerCountRef, bind_apply_ok (deref_eq h)]
  exact setOwnerCount_eq h alive _ _

theorem decrementOwnerCountRef_eq :
    ∃ action', action' ≠ .taaDELETE ∧
      decrementOwnerCountRef k v = .ok ((), v.setEntry k ⟨decremented sle, action'⟩) := by
  rw [decrementOwnerCountRef, bind_apply_ok (deref_eq h)]
  exact setOwnerCount_eq h alive _ _

end

theorem Shows.of_pagesOnly {d : Directory} (h : Shows v (getOwnerDirIndex a) d) (apart : a ≠ b)
    (only : PagesOnly (getOwnerDirIndex b) v w) : Shows w (getOwnerDirIndex a) d :=
  h.of_entries only.ledger fun m => only.others _ fun n => ownerDir_pages_apart apart m n

/-- Entries that are no directory pages, the ledger and the credits stay. -/
structure DirectoriesOnly (v w : LedgerEntrySet) : Prop where
  ledger : w.mLedger = v.mLedger
  credits : w.mDeferredCredits = v.mDeferredCredits
  others : ∀ k : Key, k.type ≠ .dirNode → w.mEntries[k]? = v.mEntries[k]?

theorem PagesOnly.directories (h : PagesOnly (getOwnerDirIndex a) v w) :
    DirectoriesOnly v w :=
  ⟨h.ledger, h.credits, fun k type => h.others k fun n => ne_page type a n⟩

theorem DirectoriesOnly.trans (h : DirectoriesOnly u v) (h' : DirectoriesOnly v w) :
    DirectoriesOnly u w :=
  ⟨h'.ledger.trans h.ledger, h'.credits.trans h.credits,
    fun k type => (h'.others k type).trans (h.others k type)⟩

/-- The line stands on the page `n` of an account's owner directory. -/
def Listed (v : LedgerEntrySet) (a : Account) (n : UInt64) (line : Key) : Prop :=
  ∃ d, Shows v (getOwnerDirIndex a) d ∧ (n, line) ∈ d.entries

theorem Listed.of_entries {n : UInt64} (h : Listed v a n line)
    (ledger : w.mLedger = v.mLedger)
    (pages : ∀ k : Key, k.type = .dirNode → w.mEntries[k]? = v.mEntries[k]?) : Listed w a n line := by
  obtain ⟨d, shows, member⟩ := h
  exact ⟨d, shows.of_entries ledger fun m => pages _ (type_getDirNodeIndex rfl m), member⟩

theorem dirAddBoth_listed {high : Account} {nLow nHigh : UInt64} (apart : low ≠ high)
    (showsLow : Shows v (getOwnerDirIndex low) dl) (showsHigh : Shows v (getOwnerDirIndex high) dh)
    (ran : dirAddBoth line low high v = .ok ((.tesSUCCESS, nLow, nHigh), w)) :
    DirectoriesOnly v w ∧ Listed w low nLow line ∧ Listed w high nHigh line := by
  obtain ⟨⟨ter1, n1⟩, v1, run1, ran⟩ := bind_eq_ok.1 ran
  have only1 := dirAdd_pages line (ownerDirDescriber low) _ _ _ run1
  dsimp only at ran
  by_cases success1 : ter1 = .tesSUCCESS
  swap
  · rw [if_pos success1] at ran
    cases ran
    exact absurd rfl success1
  subst success1
  obtain ⟨⟨ter2, n2⟩, v2, run2, ran⟩ := bind_eq_ok.1 ran
  have only2 := dirAdd_pages line (ownerDirDescriber high) _ _ _ run2
  cases ran
  refine ⟨only1.directories.trans only2.directories, ?_, ?_⟩
  · obtain ⟨d', shows, entries⟩ := showsLow.added (f := ownerDescriber low) rfl run1
    exact ⟨d', shows.of_pagesOnly apart only2, by simp [entries]⟩
  · obtain ⟨d', shows, entries⟩ :=
      (showsHigh.of_pagesOnly apart.symm only1).added (f := ownerDescriber high) rfl run2
    exact ⟨d', shows, by simp [entries]⟩

/-- A line that both directories list is deleted. -/
theorem trustDelete_listed {high : Account} {nLow nHigh : UInt64} (apart : low ≠ high)
    (type : line.type ≠ .dirNode) (entry : v.mEntries[line]? = some ⟨sle, action⟩)
    (alive : action ≠ .taaDELETE) (fresh : action = .taaCREATE → v.mLedger.getSLE line = none)
    (lowNode : sle.field (.u64 sfLowNode) = some nLow)
    (highNode : sle.field (.u64 sfHighNode) = some nHigh) (listedLow : Listed v low nLow line)
    (listedHigh : Listed v high nHigh line) :
    ∃ w, trustDelete line low high v = .ok (.tesSUCCESS, w) ∧ w.read line = none ∧
      ∀ k : Key, k.type ≠ .dirNode → k ≠ line → w.read k = v.read k := by
  obtain ⟨dl, showsLow, memberLow⟩ := listedLow
  obtain ⟨dh, showsHigh, memberHigh⟩ := listedHigh
  obtain ⟨v1, -, run1, -⟩ := dirDelete_shows showsLow rfl memberLow false false
  have only1 := dirDelete_pages false nLow line false _ _ _ run1
  obtain ⟨v2, -, run2, -⟩ :=
    dirDelete_shows (showsHigh.of_pagesOnly apart.symm only1) rfl memberHigh false false
  have only2 := dirDelete_pages false nHigh line false _ _ _ run2
  have only := only1.directories.trans only2.directories
  have entry2 := (only.others line type).trans entry
  have others (k : Key) (page : k.type ≠ .dirNode) : v2.read k = v.read k := by
    rw [LedgerEntrySet.read, LedgerEntrySet.read, only.others k page, only.ledger]
  have front : trustDelete line low high v = (do entryDelete line; return .tesSUCCESS : LES TER) v2 := by
    rw [trustDelete, bind_apply_ok (deref_eq entry)]
    simp only [SLE.isFieldPresent, SLE.getFieldU64, SLE.get, lowNode, highNode, Option.isSome_some,
      Option.getD_some, Bool.not_true]
    rw [bind_apply_ok run1]
    simp only [if_true]
    rw [bind_apply_ok run2]
  have held : v2.Held line sle := by
    refine ⟨by rw [InSet, entry2]; rfl, read_of_entry entry2 alive, fun e found create => ?_⟩
    cases entry2.symm.trans found
    rw [only.ledger]
    exact fresh create
  obtain ⟨w, run, leads⟩ := held.entryDelete
  refine ⟨w, ?_, ?_, fun k page other => ?_⟩
  · rw [front, bind_apply_ok run]
    rfl
  · rw [leads.read, Function.update_self]
  · rw [leads.read, Function.update_of_ne other, others k page]

theorem mEntries_withCredits (d : Option DeferredCredits) :
    (v.withCredits d).mEntries = v.mEntries := rfl

theorem read_withCredits (d : Option DeferredCredits) :
    (v.withCredits d).read = v.read := rfl

section
variable {sender receiver : Account} {amount : STAmount} {s r : SLE} {line : Key} {high : Bool}
  {nLow nHigh : UInt64}

/-- The line that a first credit creates; `high` says on which side the receiver is. -/
def freshLine (high : Bool) (sender receiver : Account) (amount : STAmount)
    (nLow nHigh : UInt64) : SLE :=
  let balance := amount.setIssuer noAccount
  let filled := fillLine high nLow nHigh (zeroOf ⟨amount.getCurrency, receiver⟩)
    (zeroOf ⟨amount.getCurrency, sender⟩) 0 0 (SLE.new .skywellState)
  (filled.setFieldU32 sfFlags (if high then lsfHighReserve else lsfLowReserve)).setFieldAmount
    sfBalance (if high then balance.neg else balance)

/-- The set after a credit that has created a line. -/
structure Created (v w : LedgerEntrySet) (line : Key) (high : Bool) (sender receiver : Account)
    (amount : STAmount) (s r : SLE) (nLow nHigh : UInt64) : Prop where
  before : v.read (getAccountRootIndex sender) = some s
  after : w.read (getAccountRootIndex sender) = some s
  entry : ∃ action, action ≠ .taaDELETE ∧ (action = .taaCREATE → w.mLedger.getSLE line = none) ∧
    w.mEntries[line]? = some ⟨freshLine high sender receiver amount nLow nHigh, action⟩
  root : ∃ action, action ≠ .taaDELETE ∧
    w.mEntries[getAccountRootIndex receiver]? = some ⟨incremented r, action⟩
  listedLow : Listed w (if high then sender else receiver) nLow line
  listedHigh : Listed w (if high then receiver else sender) nHigh line
  credits : newCredits v.mDeferredCredits sender receiver (amount.setIssuer noAccount) =
    .ok w.mDeferredCredits

section
omit [Sha512Half]

theorem and_lsfDefaultSkywell_ne_one (flags : UInt32) : flags &&& lsfDefaultSkywell ≠ 1 := by
  intro one
  have bit := congrArg (fun n : UInt32 => n.toBitVec.getLsbD 0) one
  simp [lsfDefaultSkywell] at bit

theorem isZero_zeroOf (issue : Issue) : (zeroOf issue).isZero = true := by
  rw [zeroOf]
  split_ifs <;> rfl

theorem getIssuer_zeroOf (issue : Issue) : (zeroOf issue).getIssuer = issue.account := by
  rw [zeroOf]
  split_ifs <;> rfl

theorem type_line {currency : Currency} :
    (getSkywellStateIndex a b currency).type = .skywellState := by
  rw [getSkywellStateIndex]
  split_ifs <;> rfl

theorem root_ne_root (apart : a ≠ b) :
    getAccountRootIndex a ≠ getAccountRootIndex b := fun same => apart (Key.account.inj same)

theorem ne_root (type : line.type = .skywellState) (a : Account) : line ≠ getAccountRootIndex a := by
  rintro rfl
  cases type

theorem root_not_page (a : Account) : (getAccountRootIndex a).type ≠ .dirNode := by
  change LedgerEntryType.accountRoot ≠ .dirNode
  decide

theorem line_not_page (type : line.type = .skywellState) : line.type ≠ .dirNode := by
  rw [type]
  decide

end

theorem getElem?_setEntry_page (other : k.type ≠ .dirNode) (page : k'.type = .dirNode) :
    (v.setEntry k e).mEntries[k']? = v.mEntries[k']? := by
  rw [getElem?_setEntry, if_neg (ne_of_apply_ne Key.type (page ▸ other))]

theorem getElem?_cached_page (other : k.type ≠ .dirNode) (page : k'.type = .dirNode) :
    (v.cached k).mEntries[k']? = v.mEntries[k']? := by
  rw [getElem?_cached, if_neg (ne_of_apply_ne Key.type (page ▸ other))]

omit [Sha512Half] in
theorem sides_apart (apart : sender ≠ receiver) (high : Bool) :
    (if high then sender else receiver) ≠ if high then receiver else sender := by
  cases high
  · exact apart.symm
  · exact apart

/-- What `trustCreate` does once the directories list the line. -/
def finishLine (high : Bool) (line : Key) (sender receiver : Account) (amount : STAmount)
    (nLow nHigh : UInt64) : LES TER := do
  let peer ← entryCache (getAccountRootIndex sender)
  assign line (fillLine high nLow nHigh (zeroOf ⟨amount.getCurrency, receiver⟩)
    (zeroOf ⟨amount.getCurrency, sender⟩) 0 0)
  if !peer then throw .nullPointer
  let _ ← deref (getAccountRootIndex sender)
  assign line fun sle =>
    sle.setFieldU32 sfFlags (if high then lsfHighReserve else lsfLowReserve)
  incrementOwnerCountRef (getAccountRootIndex receiver)
  assign line fun sle => sle.setFieldAmount sfBalance
    (if high then (amount.setIssuer noAccount).neg else amount.setIssuer noAccount)
  cacheCredit sender receiver (amount.setIssuer noAccount)
  return .tesSUCCESS

/-- `trustCreate` as a first credit calls it. -/
theorem trustCreate_first :
    trustCreate (!high) sender receiver line (getAccountRootIndex receiver) false false false
      (amount.setIssuer noAccount) (zeroOf ⟨amount.getCurrency, receiver⟩) 0 0 = (do
        entryCreate line
        let (ter, nLow, nHigh) ← dirAddBoth line (if high then sender else receiver)
          (if high then receiver else sender)
        if ter ≠ .tesSUCCESS then return ter
        finishLine high line sender receiver amount nLow nHigh) := by
  have peerSide : (if high then (if high then sender else receiver)
      else if high then receiver else sender) = sender := by
    cases high <;> rfl
  have highSide : (if (!high) then sender else receiver) = if high then receiver else sender := by
    cases high <;> rfl
  have currency : (amount.setIssuer noAccount).getCurrency = amount.getCurrency := rfl
  rw [trustCreate]
  simp only [Bool.not_not, highSide, getIssuer_zeroOf, beq_self_eq_true, Bool.xor_true, peerSide,
    and_lsfDefaultSkywell_ne_one]
  refine congrArg _ (funext fun _ => congrArg _ (funext fun added => ?_))
  obtain ⟨ter, n, n'⟩ := added
  by_cases success : ter = .tesSUCCESS
  · rw [success]
    rfl
  · rw [if_pos success, if_pos success]

variable {action rootAction : LedgerEntryAction}

/-- What is written once the directories list the line. -/
theorem finishLine_eq (entry : v.mEntries[line]? = some ⟨SLE.new .skywellState, action⟩)
    (rootEntry : v.mEntries[getAccountRootIndex receiver]? = some ⟨r, rootAction⟩)
    (rootAlive : rootAction ≠ .taaDELETE) (type : line.type = .skywellState)
    (ran : finishLine high line sender receiver amount nLow nHigh v = .ok (.tesSUCCESS, w)) :
    ∃ s d rootAction', v.read (getAccountRootIndex sender) = some s ∧ rootAction' ≠ .taaDELETE ∧
      newCredits v.mDeferredCredits sender receiver (amount.setIssuer noAccount) = .ok d ∧
      w = (((v.cached (getAccountRootIndex sender)).setEntry (getAccountRootIndex receiver)
        ⟨incremented r, rootAction'⟩).setEntry line
          ⟨freshLine high sender receiver amount nLow nHigh, action⟩).withCredits d := by
  have lineRoot := ne_root type
  rw [finishLine, bind_apply_ok entryCache_eq] at ran
  have entry1 : (v.cached (getAccountRootIndex sender)).mEntries[line]? =
      some ⟨SLE.new .skywellState, action⟩ := by
    rw [getElem?_cached, if_neg (lineRoot sender).symm, entry]
  have rootEntry1 : (v.cached (getAccountRootIndex sender)).mEntries[getAccountRootIndex receiver]? =
      some ⟨r, rootAction⟩ := by
    rw [getElem?_cached]
    split_ifs with same
    · rw [same, rootEntry]
      rfl
    · exact rootEntry
  rw [bind_apply_ok (assign_eq entry1 _)] at ran
  cases peer : v.read (getAccountRootIndex sender) with
  | none =>
    rw [peer] at ran
    cases ran
  | some s =>
    obtain ⟨peerAction, -, peerEntry⟩ := getElem?_cached_of_read peer
    rw [peer] at ran
    simp only [Option.isSome_some, Bool.not_true, reduceCtorEq, if_false] at ran
    have peerEntry1 (e : LedgerEntrySetEntry) :
        ((v.cached (getAccountRootIndex sender)).setEntry line e).mEntries[getAccountRootIndex
          sender]? = some ⟨s, peerAction⟩ := by
      rw [getElem?_setEntry, if_neg (lineRoot sender), peerEntry]
    have rootEntry2 (e : LedgerEntrySetEntry) :
        ((v.cached (getAccountRootIndex sender)).setEntry line e).mEntries[getAccountRootIndex
          receiver]? = some ⟨r, rootAction⟩ := by
      rw [getElem?_setEntry, if_neg (lineRoot receiver), rootEntry1]
    have there (u : LedgerEntrySet) := getElem?_setEntry_self u line
    rw [bind_apply_ok (deref_eq (peerEntry1 _)), bind_apply_ok (assign_eq (there _ _) _),
      setEntry_setEntry] at ran
    obtain ⟨rootAction', rootAlive', counted⟩ := incrementOwnerCountRef_eq (rootEntry2 _) rootAlive
    rw [bind_apply_ok counted, setEntry_comm (lineRoot receiver),
      bind_apply_ok (assign_eq (there _ _) _), setEntry_setEntry] at ran
    obtain ⟨⟨⟩, v6, crediting, ran⟩ := bind_eq_ok.1 ran
    cases ran
    rw [cacheCredit_apply] at crediting
    obtain ⟨d, credits, stored⟩ := ExceptFold.map_eq_ok.1 crediting
    cases stored
    have table : newCredits v.mDeferredCredits sender receiver (amount.setIssuer noAccount) = .ok d := by
      rw [← mDeferredCredits_cached]
      exact credits
    exact ⟨s, d, rootAction', rfl, rootAlive', table, rfl⟩

theorem trustCreate_created (high : Bool) (apart : sender ≠ receiver)
    (type : line.type = .skywellState) (noLine : v.read line = none)
    (receiverRoot : v.read (getAccountRootIndex receiver) = some r)
    (showsLow : Shows v (getOwnerDirIndex (if high then sender else receiver)) dl)
    (showsHigh : Shows v (getOwnerDirIndex (if high then receiver else sender)) dh)
    (ran : trustCreate (!high) sender receiver line (getAccountRootIndex receiver) false false false
      (amount.setIssuer noAccount) (zeroOf ⟨amount.getCurrency, receiver⟩) 0 0
      (v.cached (getAccountRootIndex receiver)) = .ok (.tesSUCCESS, w)) :
    ∃ s nLow nHigh, Created v w line high sender receiver amount s r nLow nHigh := by
  have lineRoot := ne_root type
  have linePage := line_not_page type
  have sides := sides_apart apart high
  obtain ⟨rootAction, rootAlive, rootEntry⟩ := getElem?_cached_of_read receiverRoot
  obtain ⟨action, alive, fresh, create⟩ :=
    @entryCreate_eq _ (v.cached (getAccountRootIndex receiver)) line (read_cached.trans noLine)
  rw [type] at create
  rw [trustCreate_first, bind_apply_ok create] at ran
  obtain ⟨⟨ter, nLow, nHigh⟩, v3, adding, ran⟩ := bind_eq_ok.1 ran
  dsimp only at ran
  by_cases success : ter = .tesSUCCESS
  swap
  · rw [if_pos success] at ran
    cases ran
    exact absurd rfl success
  subst success
  -- no page has changed until here
  have pages (k : Key) (dir : k.type = .dirNode) :
      ((v.cached (getAccountRootIndex receiver)).setEntry line
        ⟨SLE.new .skywellState, action⟩).mEntries[k]? = v.mEntries[k]? := by
    rw [getElem?_setEntry_page linePage dir, getElem?_cached_page (root_not_page receiver) dir]
  have ledger : ((v.cached (getAccountRootIndex receiver)).setEntry line
      ⟨SLE.new .skywellState, action⟩).mLedger = v.mLedger := mLedger_cached
  obtain ⟨only, listedLow, listedHigh⟩ := dirAddBoth_listed sides
    (showsLow.of_entries ledger fun n => pages _ (type_getDirNodeIndex rfl n))
    (showsHigh.of_entries ledger fun n => pages _ (type_getDirNodeIndex rfl n)) adding
  have entry3 : v3.mEntries[line]? = some ⟨SLE.new .skywellState, action⟩ := by
    rw [only.others line linePage, getElem?_setEntry, if_pos rfl]
  have roots (a : Account) : v3.mEntries[getAccountRootIndex a]? =
      (v.cached (getAccountRootIndex receiver)).mEntries[getAccountRootIndex a]? := by
    rw [only.others _ (root_not_page a), getElem?_setEntry, if_neg (lineRoot a)]
  obtain ⟨s, d, rootAction', peer, rootAlive', credits, rfl⟩ :=
    finishLine_eq entry3 ((roots receiver).trans rootEntry) rootAlive type ran
  have sameRead (a : Account) : v3.read (getAccountRootIndex a) = v.read (getAccountRootIndex a) := by
    rw [LedgerEntrySet.read, roots, only.ledger]
    exact read_cached
  have finished (e e' : LedgerEntrySetEntry) (k : Key) (dir : k.type = .dirNode) :
      ((((v3.cached (getAccountRootIndex sender)).setEntry (getAccountRootIndex receiver) e).setEntry
        line e').withCredits d).mEntries[k]? = v3.mEntries[k]? := by
    rw [mEntries_withCredits, getElem?_setEntry_page linePage dir,
      getElem?_setEntry_page (root_not_page receiver) dir,
      getElem?_cached_page (root_not_page sender) dir]
  have finishedLedger (e e' : LedgerEntrySetEntry) :
      ((((v3.cached (getAccountRootIndex sender)).setEntry (getAccountRootIndex receiver) e).setEntry
        line e').withCredits d).mLedger = v3.mLedger := mLedger_cached
  refine ⟨s, nLow, nHigh, (sameRead sender).symm.trans peer, ?_, ⟨action, alive, fun new => ?_, ?_⟩,
    ⟨rootAction', rootAlive', ?_⟩, listedLow.of_entries (finishedLedger _ _) (finished _ _),
    listedHigh.of_entries (finishedLedger _ _) (finished _ _), ?_⟩
  · rw [read_withCredits, read_setEntry, if_neg (lineRoot sender), read_setEntry,
      if_neg (root_ne_root apart.symm), read_cached, peer]
  · rw [finishedLedger, only.ledger]
    exact fresh new
  · rw [mEntries_withCredits, getElem?_setEntry, if_pos rfl]
  · rw [mEntries_withCredits, getElem?_setEntry, if_neg (lineRoot receiver), getElem?_setEntry,
      if_pos rfl]
  · have kept : v3.mDeferredCredits = v.mDeferredCredits :=
      only.credits.trans mDeferredCredits_cached
    rw [kept] at credits
    exact credits

omit [Sha512Half] in
theorem decide_gt_swap (apart : a ≠ b) : decide (a > b) = !decide (b > a) := by
  rcases Nat.lt_or_gt_of_ne apart with less | more
  · simp [less, Nat.lt_asymm less]
  · simp [more, Nat.lt_asymm more]

/-- A credit between accounts without a line creates it. -/
theorem skywellCredit_created {ds dr : Directory} (apart : sender ≠ receiver)
    (noLine : v.read (getSkywellStateIndex sender receiver amount.getCurrency) = none)
    (showsSender : Shows v (getOwnerDirIndex sender) ds)
    (showsReceiver : Shows v (getOwnerDirIndex receiver) dr)
    (ran : skywellCredit sender receiver amount v = .ok (.tesSUCCESS, w)) :
    ∃ s r nLow nHigh, v.read (getAccountRootIndex receiver) = some r ∧
      Created v w (getSkywellStateIndex sender receiver amount.getCurrency)
        (decide (receiver > sender)) sender receiver amount s r nLow nHigh := by
  rw [skywellCredit_eq, bind_apply_ok (entryCache_none noLine)] at ran
  simp only [Bool.not_false, if_true] at ran
  rw [bind_apply_ok entryCache_eq] at ran
  cases root : v.read (getAccountRootIndex receiver) with
  | none =>
    rw [root] at ran
    cases ran
  | some r =>
    rw [root] at ran
    simp only [Option.isSome_some, Bool.not_true, reduceCtorEq, if_false] at ran
    have never : (r.getFlags &&& lsfDefaultSkywell == 1) = false :=
      beq_eq_false_iff_ne.2 (and_lsfDefaultSkywell_ne_one _)
    rw [bind_apply_ok (deref_cached root), never, decide_gt_swap apart] at ran
    cases side : decide (receiver > sender) with
    | false =>
      rw [side] at ran
      obtain ⟨s, nLow, nHigh, created⟩ := trustCreate_created false apart type_line noLine root
        showsReceiver showsSender ran
      exact ⟨s, r, nLow, nHigh, rfl, created⟩
    | true =>
      rw [side] at ran
      obtain ⟨s, nLow, nHigh, created⟩ := trustCreate_created true apart type_line noLine root
        showsSender showsReceiver ran
      exact ⟨s, r, nLow, nHigh, rfl, created⟩

omit [Sha512Half] in
theorem new_get (t : LedgerEntryType) (f : SField) : (SLE.new t).get f = f.default := by
  rw [SLE.get, SLE.new]
  dsimp only
  split_ifs <;> rfl

section
variable (high : Bool) (sender receiver : Account) (amount : STAmount) (nLow nHigh : UInt64)

section
omit [Sha512Half]

theorem freshLine_balance : (freshLine high sender receiver amount nLow nHigh).getFieldAmount
    sfBalance = if high then (amount.setIssuer noAccount).neg else amount.setIssuer noAccount := by
  simp [freshLine, SLE.getFieldAmount, SLE.setFieldAmount, SLE.get]

theorem freshLine_flags : (freshLine high sender receiver amount nLow nHigh).getFieldU32
    sfFlags = if high then lsfHighReserve else lsfLowReserve := by
  simp [freshLine, SLE.getFieldU32, SLE.setFieldAmount, SLE.setFieldU32, SLE.get]

theorem freshLine_quality {f : U32Field} (other : f ≠ sfFlags) :
    (freshLine high sender receiver amount nLow nHigh).getFieldU32 f = 0 := by
  have absent : ((SLE.new .skywellState).field (.u32 f)).getD 0 = 0 :=
    new_get .skywellState (.u32 f)
  simp [freshLine, fillLine, SLE.getFieldU32, SLE.setFieldAmount, SLE.setFieldU32, SLE.setFieldU64,
    SLE.get, other, absent, SField.default]

theorem freshLine_limit (own : Bool) : ((freshLine high sender receiver amount nLow
    nHigh).getFieldAmount (if own then sfLowLimit else sfHighLimit)).isZero = true := by
  cases high <;> cases own <;> simp [freshLine, fillLine, SLE.getFieldAmount, SLE.setFieldAmount,
    SLE.setFieldU32, SLE.get, isZero_zeroOf]

end

end

/-- What the holder of a line has on it, as an amount issued by the other side. -/
def wholeBalance (holder issuer : Account) (line : SLE) : STAmount :=
  let balance := line.getFieldAmount sfBalance
  (if holder > issuer then balance.negate else balance).setIssuer issuer

/-- `bLowReserveSet` or `bHighReserveSet`, as `SetTrust` computes it for an account's side of a
line. -/
def sideReserveSet (account other : Account) (line : SLE) (accountFlags : UInt32) : Bool :=
  let balance := line.getFieldAmount sfBalance
  let flags := line.getFieldU32 sfFlags
  if account > other then
    SetTrust.reserveSet (line.getFieldU32 sfHighQualityIn) (line.getFieldU32 sfHighQualityOut) flags
      lsfHighNoSkywell lsfHighFreeze accountFlags (line.getFieldAmount sfHighLimit) balance.neg
  else
    SetTrust.reserveSet (line.getFieldU32 sfLowQualityIn) (line.getFieldU32 sfLowQualityOut) flags
      lsfLowNoSkywell lsfLowFreeze accountFlags (line.getFieldAmount sfLowLimit) balance

section
omit [Sha512Half]

theorem positive_iff : 0 < amount.signum ↔ amount.mValue ≠ 0 ∧ amount.mIsNegative = false := by
  rw [signum]
  by_cases zero : amount.mValue = 0
  · simp [zero]
  · cases amount.mIsNegative <;> simp [zero]

theorem negate_neg (positive : 0 < amount.signum) : amount.neg.negate = amount := by
  obtain ⟨nonzero, sign⟩ := positive_iff.1 positive
  have negative : amount.neg = { amount with mIsNegative := true } := by
    rw [neg, if_neg nonzero, sign]
    rfl
  have signed : ({ amount with mIsNegative := true } : STAmount).isZero = false := by
    simp [isZero, signum, nonzero]
  rw [negative, negate, signed]
  simp [← sign]

/-- An issued amount less the same amount of another issuer. -/
theorem sub_setIssuer (issued : amount.mIsNative = false) (other : Account)
    (same : (amount.setIssuer other).mIsNative = false) (nonzero : amount.isZero = false) :
    amount.sub (amount.setIssuer other) = .ok (zeroOf amount.mIssue) := by
  have value : (amount.setIssuer other).isZero = false := nonzero
  have comparable : throwComparable amount (amount.setIssuer other) = .ok () := by
    rw [throwComparable, isComparable, issued, same]
    simp [getCurrency, setIssuer, setIssue]
  rw [sub, comparable, ExceptFold.ok_bind, value, same]
  simp only [reduceCtorEq, if_false]
  have scale : (amount.setIssuer other).scaled = amount.scaled := rfl
  rw [scale, Int64.sub_self]
  exact if_pos (by decide)

/-- The other side of a new line is in its default state unless that account is one of those whose
lines skywell by default. -/
theorem sideReserveSet_fresh (apart : sender ≠ receiver) (positive : 0 < amount.signum)
    (accountFlags : UInt32) :
    sideReserveSet sender receiver
        (freshLine (decide (receiver > sender)) sender receiver amount nLow nHigh) accountFlags =
      hasFlag accountFlags lsfDefaultSkywell := by
  have positive' : 0 < (amount.setIssuer noAccount).signum := positive
  obtain ⟨nonzero, sign⟩ := positive_iff.1 positive'
  have negative : ¬(amount.setIssuer noAccount).neg.signum > 0 := by
    rw [neg, sign]
    simp [signum, nonzero]
  have swapped := decide_gt_swap apart
  rw [sideReserveSet, freshLine_balance, freshLine_flags]
  cases side : decide (receiver > sender) with
  | false =>
    rw [side] at swapped
    have limit := freshLine_limit false sender receiver amount nLow nHigh false
    rw [if_pos (of_decide_eq_true swapped), freshLine_quality _ _ _ _ _ _ (by decide),
      freshLine_quality _ _ _ _ _ _ (by decide), SetTrust.reserveSet]
    simp only [reduceCtorEq, if_false] at limit ⊢
    rw [limit, decide_eq_false negative]
    cases hasFlag accountFlags lsfDefaultSkywell <;> decide
  | true =>
    rw [side] at swapped
    have limit := freshLine_limit true sender receiver amount nLow nHigh true
    rw [if_neg (of_decide_eq_false swapped), freshLine_quality _ _ _ _ _ _ (by decide),
      freshLine_quality _ _ _ _ _ _ (by decide), SetTrust.reserveSet]
    simp only [if_true] at limit ⊢
    rw [limit, decide_eq_false negative]
    cases hasFlag accountFlags lsfDefaultSkywell <;> decide

theorem defaultSide_fresh (senderFlags : UInt32) :
    defaultSide high (if high then lsfHighReserve else lsfLowReserve)
        (freshLine high sender receiver amount nLow nHigh) senderFlags =
      !hasFlag senderFlags lsfDefaultSkywell := by
  have limit := freshLine_limit high sender receiver amount nLow nHigh (!high)
  rw [defaultSide, limit, freshLine_quality _ _ _ _ _ _ (by cases high <;> decide),
    freshLine_quality _ _ _ _ _ _ (by cases high <;> decide)]
  cases high <;> cases hasFlag senderFlags lsfDefaultSkywell <;> decide

end

/-- The receiver's credit of its whole balance, on the line and the root. -/
theorem creditLine_fresh (issued : amount.getCurrency ≠ 0)
    (positive : 0 < amount.signum) (alive : action ≠ .taaDELETE)
    (entry : v.mEntries[line]? =
      some ⟨freshLine high sender receiver amount nLow nHigh, action⟩)
    (rootAlive : rootAction ≠ .taaDELETE)
    (rootEntry : v.mEntries[getAccountRootIndex receiver]? = some ⟨r, rootAction⟩) :
    let zero := zeroOf (amount.setIssuer noAccount).mIssue
    let final := if high then zero.negate else zero
    creditLine line high receiver sender ((amount.setIssuer noAccount).setIssuer sender) v =
      if hasFlag r.getFlags lsfDefaultSkywell then
        .ok (.tesSUCCESS, v.setEntry line
          ⟨(freshLine high sender receiver amount nLow nHigh).setFieldAmount sfBalance final,
            modified action⟩)
      else (do
        decrementOwnerCountRef (getAccountRootIndex receiver)
        assign line fun sle => sle.setFieldU32 sfFlags 0
        assign line fun sle => sle.setFieldAmount sfBalance final
        trustDelete line (if high then sender else receiver) (if high then receiver else sender) :
          LES TER) v := by
  intro zero final
  let balance := amount.setIssuer noAccount
  have positive' : 0 < balance.signum := positive
  have native : isSWT amount.mIssue.currency = false := decide_eq_false issued
  have nonzero : balance.isZero = false := by
    rw [isZero, beq_eq_false_iff_ne]
    omega
  have before : (if high then (if high then balance.neg else balance).negate
      else if high then balance.neg else balance) = balance := by
    cases high
    · rfl
    · exact negate_neg positive'
  have after : balance.sub (balance.setIssuer sender) = .ok zero :=
    sub_setIssuer native sender native nonzero
  have emptied : zero.isZero = true := isZero_zeroOf _
  have debit : reservedDebit high (if high then lsfHighReserve else lsfLowReserve) balance zero =
      true := by
    have none : zero.signum ≤ 0 := (eq_of_beq emptied).le
    rw [reservedDebit, decide_eq_true positive', decide_eq_true none]
    cases high <;> decide
  have shown : v.read (getAccountRootIndex receiver) = some r := read_of_entry rootEntry rootAlive
  have flags := rootFlags_eq receiver v
  have counting := decrementOwnerCount_cached receiver shown
  rw [shown, cached_of_entry rootEntry] at flags
  rw [cached_of_entry rootEntry] at counting
  rw [creditLine, bind_apply_ok (deref_eq entry)]
  rw [freshLine_balance, freshLine_flags, before, bind_apply_ok (lift_apply_ok after v),
    releasesReserve_eq, if_pos debit, map_eq_pure_bind, bind_assoc, bind_apply_ok flags, pure_bind,
    defaultSide_fresh]
  cases hasFlag r.getFlags lsfDefaultSkywell with
  | true =>
    change settleLine line high receiver sender false final v = _
    rw [settleLine_kept entry alive]
    rfl
  | false =>
    rw [Bool.not_false]
    dsimp only
    rw [bind_apply_congr counting]
    dsimp only [releaseLine]
    rw [emptied]
    have cleared : (if high then lsfHighReserve else lsfLowReserve) &&& ~~~senderReserve high = 0 := by
      cases high <;> decide
    have unreserved : hasFlag (if high then lsfHighReserve else lsfLowReserve)
        (senderReserve (!high)) = false := by
      cases high <;> decide
    rw [cleared, unreserved]
    simp only [bind_assoc]
    rfl

section
omit [Sha512Half]

theorem incremented_flags : (incremented sle).getFlags = sle.getFlags := by
  rw [incremented]
  split_ifs
  · rfl
  · simp [SLE.getFlags, SLE.getFieldU32, SLE.setFieldU32, SLE.get]

theorem getFieldU32_set (f : U32Field) (n : UInt32) :
    (sle.setFieldU32 f n).getFieldU32 f = n := by
  simp [SLE.getFieldU32, SLE.setFieldU32, SLE.get]

theorem decremented_incremented (sle : SLE) :
    (decremented (incremented sle)).getFieldU32 sfOwnerCount = sle.getFieldU32 sfOwnerCount ↔
      sle.getFieldU32 sfOwnerCount ≠ 0xffffffff := by
  by_cases full : sle.getFieldU32 sfOwnerCount = 0xffffffff
  · have kept : incremented sle = sle := if_pos full
    rw [kept, decremented, full, if_neg (by decide), getFieldU32_set]
    decide
  · have next : sle.getFieldU32 sfOwnerCount + 1 ≠ 0 := by
      intro wrapped
      refine full ?_
      rw [← UInt32.toNat_inj] at wrapped ⊢
      have bound := (sle.getFieldU32 sfOwnerCount).toNat_lt
      rw [UInt32.toNat_add] at wrapped
      change (_ + 1) % 2 ^ 32 = 0 at wrapped
      change _ = 4294967295
      omega
    rw [incremented, if_neg full, decremented, getFieldU32_set, if_neg next, UInt32.add_sub_cancel]
    exact ⟨fun _ => full, fun _ => rfl⟩

end

/-- The number of entries an account is charged for. -/
def ownerCount (v : LedgerEntrySet) (a : Account) : Option UInt32 :=
  (v.read (getAccountRootIndex a)).map fun sle => sle.getFieldU32 sfOwnerCount

/-- A receiver whose lines do not skywell by default gets rid of the line. -/
theorem creditLine_deletes (created : Created v w line high sender receiver amount s r nLow nHigh)
    (apart : sender ≠ receiver) (type : line.type = .skywellState)
    (receiverRoot : v.read (getAccountRootIndex receiver) = some r)
    (issued : amount.getCurrency ≠ 0) (positive : 0 < amount.signum)
    (plain : hasFlag r.getFlags lsfDefaultSkywell = false) (d : Option DeferredCredits) :
    ∃ u, creditLine line high receiver sender ((amount.setIssuer noAccount).setIssuer sender)
        (w.withCredits d) = .ok (.tesSUCCESS, u) ∧ u.read line = none ∧
      u.ownerCount sender = v.ownerCount sender ∧
      (u.ownerCount receiver = v.ownerCount receiver ↔
        r.getFieldU32 sfOwnerCount ≠ 0xffffffff) := by
  have lineRoot := ne_root type
  have linePage := line_not_page type
  obtain ⟨action, alive, fresh, entry⟩ := created.entry
  obtain ⟨rootAction, rootAlive, rootEntry⟩ := created.root
  have lines := @creditLine_fresh _ (w.withCredits d) _ _ _ _ _ _ _ _ _ _ issued positive alive entry
    rootAlive rootEntry
  obtain ⟨rootAction', rootAlive', counted⟩ :=
    @decrementOwnerCountRef_eq _ (w.withCredits d) _ _ _ rootEntry rootAlive
  let v1 := (w.withCredits d).setEntry (getAccountRootIndex receiver)
    ⟨decremented (incremented r), rootAction'⟩
  have entry1 : v1.mEntries[line]? =
      some ⟨freshLine high sender receiver amount nLow nHigh, action⟩ := by
    rw [getElem?_setEntry, if_neg (lineRoot receiver).symm, mEntries_withCredits, entry]
  have there (u : LedgerEntrySet) := getElem?_setEntry_self u line
  have pages (e : LedgerEntrySetEntry) (k : Key) (dir : k.type = .dirNode) :
      (v1.setEntry line e).mEntries[k]? = w.mEntries[k]? := by
    rw [getElem?_setEntry_page linePage dir, getElem?_setEntry_page (root_not_page receiver) dir]
    rfl
  rw [lines, incremented_flags, plain]
  rw [bind_apply_ok counted, bind_apply_ok (assign_eq entry1 _),
    bind_apply_ok (assign_eq (there _ _) _), setEntry_setEntry]
  obtain ⟨u, deleted, gone, others⟩ := trustDelete_listed (sides_apart apart high) linePage
    (there v1 ⟨((freshLine high sender receiver amount nLow nHigh).setFieldU32 sfFlags 0).setFieldAmount
      sfBalance _, action⟩) alive fresh
    (by simp [freshLine, fillLine, SLE.setFieldAmount, SLE.setFieldU32, SLE.setFieldU64])
    (by simp [freshLine, fillLine, SLE.setFieldAmount, SLE.setFieldU32, SLE.setFieldU64])
    (created.listedLow.of_entries rfl (pages _)) (created.listedHigh.of_entries rfl (pages _))
  refine ⟨u, deleted, gone, ?_, ?_⟩
  · rw [ownerCount, others _ (root_not_page sender) (lineRoot sender).symm, read_setEntry,
      if_neg (lineRoot sender), read_setEntry, if_neg (root_ne_root apart.symm), read_withCredits,
      created.after, ownerCount, created.before]
  · rw [ownerCount, others _ (root_not_page receiver) (lineRoot receiver).symm, read_setEntry,
      if_neg (lineRoot receiver), read_setEntry, if_pos rfl, LedgerEntrySetEntry.shown,
      if_neg rootAlive', ownerCount, receiverRoot]
    exact Option.some_inj.trans (decremented_incremented r)

/-- A new line is in its default state on the side of the account that received nothing, and goes
away when the balance is sent back, unless one of the two accounts has lines that skywell by
default, the receiver's count is full, or the credit cannot be recorded. -/
theorem freshLine_returns_iff {ds dr : Directory} (apart : sender ≠ receiver)
    (issued : amount.getCurrency ≠ 0) (positive : 0 < amount.signum)
    (noLine : v.read (getSkywellStateIndex sender receiver amount.getCurrency) = none)
    (showsSender : Shows v (getOwnerDirIndex sender) ds)
    (showsReceiver : Shows v (getOwnerDirIndex receiver) dr)
    (ran : skywellCredit sender receiver amount v = .ok (.tesSUCCESS, w) ∨
      amount.getIssuer = sender ∧
        issue_iou receiver amount amount.mIssue v = .ok (.tesSUCCESS, w)) :
    ∃ s r line, v.read (getAccountRootIndex sender) = some s ∧
      w.read (getAccountRootIndex sender) = some s ∧
      v.read (getAccountRootIndex receiver) = some r ∧
      w.read (getSkywellStateIndex sender receiver amount.getCurrency) = some line ∧
      ((sideReserveSet sender receiver line s.getFlags = false ∧
          ∃ u, skywellCredit receiver sender (wholeBalance receiver sender line) w =
              .ok (.tesSUCCESS, u) ∧
            u.read (getSkywellStateIndex sender receiver amount.getCurrency) = none ∧
            u.ownerCount sender = v.ownerCount sender ∧
            u.ownerCount receiver = v.ownerCount receiver) ↔
        hasFlag s.getFlags lsfDefaultSkywell = false ∧
          hasFlag r.getFlags lsfDefaultSkywell = false ∧
          r.getFieldU32 sfOwnerCount ≠ 0xffffffff ∧
          ∃ d d', newCredits v.mDeferredCredits sender receiver (amount.setIssuer noAccount) =
              .ok d ∧
            newCredits d receiver sender (amount.setIssuer sender) = .ok d') := by
  have credited : skywellCredit sender receiver amount v = .ok (.tesSUCCESS, w) := by
    rcases ran with ran | ⟨rfl, ran⟩
    · exact ran
    · rw [issue_iou_eq, bind_apply_ok entryCache_eq, noLine] at ran
      rw [skywellCredit_eq, bind_apply_ok entryCache_eq, noLine]
      exact ran
  obtain ⟨s, r, nLow, nHigh, receiverRoot, created⟩ :=
    skywellCredit_created apart noLine showsSender showsReceiver credited
  obtain ⟨action, alive, fresh, entry⟩ := created.entry
  obtain ⟨rootAction, rootAlive, rootEntry⟩ := created.root
  have whole : wholeBalance receiver sender
      (freshLine (decide (receiver > sender)) sender receiver amount nLow nHigh) =
        (amount.setIssuer noAccount).setIssuer sender := by
    have positive' : 0 < (amount.setIssuer noAccount).signum := positive
    rw [wholeBalance, freshLine_balance]
    by_cases side : receiver > sender
    · simp only [side, decide_true, if_true]
      rw [negate_neg positive']
    · simp [side, Bool.false_eq_true]
  refine ⟨s, r, _, created.before, created.after, receiverRoot, read_of_entry entry alive, ?_⟩
  let balance := (amount.setIssuer noAccount).setIssuer sender
  -- a credit of the whole balance back, up to what it does to the line
  have back : skywellCredit receiver sender balance w = (do
      cacheCredit receiver sender balance
      creditLine (getSkywellStateIndex sender receiver amount.getCurrency)
        (decide (receiver > sender)) receiver sender balance : LES TER) w := by
    have currency : balance.getCurrency = amount.getCurrency := rfl
    rw [skywellCredit_eq, currency, getSkywellStateIndex_comm,
      bind_apply_ok entryCache_eq, cached_of_entry entry, read_of_entry entry alive]
    rfl
  have deletes := creditLine_deletes created apart type_line
    receiverRoot issued positive
  rw [whole, sideReserveSet_fresh apart positive, back]
  constructor
  · rintro ⟨plain, u, returned, gone, -, count⟩
    obtain ⟨⟨⟩, w1, recording, rest⟩ := bind_eq_ok.1 returned
    rw [cacheCredit_apply] at recording
    obtain ⟨d', recorded, stored⟩ := ExceptFold.map_eq_ok.1 recording
    cases stored
    have plainReceiver : hasFlag r.getFlags lsfDefaultSkywell = false := by
      by_contra default
      rw [Bool.not_eq_false, ← incremented_flags] at default
      rw [@creditLine_fresh _ (w.withCredits d') _ _ _ _ _ _ _ _ _ _ issued positive alive entry
        rootAlive rootEntry, if_pos default] at rest
      cases rest
      rw [read_setEntry, if_pos rfl] at gone
      exact absurd ((if_neg modified_alive).symm.trans gone) nofun
    obtain ⟨u', ran', -, -, exact_⟩ := deletes plainReceiver d'
    cases ran'.symm.trans rest
    exact ⟨plain, plainReceiver, exact_.1 count, _, d', created.credits, recorded⟩
  · rintro ⟨plain, plainReceiver, room, d, d', made, recorded⟩
    cases made.symm.trans created.credits
    obtain ⟨u, ran', gone, sameSender, exact_⟩ := deletes plainReceiver d'
    refine ⟨plain, u, ?_, gone, sameSender, exact_.2 room⟩
    have recording : cacheCredit receiver sender ((amount.setIssuer noAccount).setIssuer sender) w =
        .ok ((), w.withCredits d') := by
      rw [cacheCredit_apply]
      exact ExceptFold.map_eq_ok.2 ⟨d', recorded, rfl⟩
    rw [bind_apply_ok recording, ran']

end

section
omit [Sha512Half]

/-- Two accounts with the same flags and nothing else. -/
def twoAccounts (flags : UInt32) : @LedgerEntrySet Key.coded :=
  let _ := Key.coded
  let root := (SLE.new .accountRoot).setFieldU32 sfFlags flags
  (emptySet.setEntry (getAccountRootIndex 5) ⟨root, .taaCREATE⟩).setEntry (getAccountRootIndex 7)
    ⟨root, .taaCREATE⟩

theorem twoAccounts_read (flags : UInt32) (other : k.type ≠ .accountRoot) :
    @LedgerEntrySet.read Key.coded (twoAccounts flags) k = none := by
  let _ := Key.coded
  have apart (a : Account) : getAccountRootIndex a ≠ k := by
    rintro rfl
    exact other rfl
  rw [twoAccounts, read_setEntry, if_neg (apart 7), read_setEntry, if_neg (apart 5), emptySet_read]

theorem twoAccounts_root (flags : UInt32) (some_ : a = 5 ∨ a = 7) :
    @LedgerEntrySet.read Key.coded (twoAccounts flags) (getAccountRootIndex a) =
      some ((SLE.new .accountRoot).setFieldU32 sfFlags flags) := by
  let _ := Key.coded
  rw [twoAccounts, read_setEntry, read_setEntry]
  rcases some_ with rfl | rfl
  · rfl
  · rfl

/-- Between accounts whose lines skywell by default the new line is not in its default state, and
it stays after the balance has been sent back. -/
theorem freshLine_stays : ∃ (_ : Sha512Half) (v w u : LedgerEntrySet) (s line : SLE),
    let index := getSkywellStateIndex 5 7 1
    let amount : STAmount := ⟨⟨1, 5⟩, 1000000000000000, -15, false, false⟩
    v.read (getAccountRootIndex 5) = some s ∧ v.read index = none ∧
    skywellCredit 5 7 amount v = .ok (.tesSUCCESS, w) ∧ w.read index = some line ∧
    sideReserveSet 5 7 line s.getFlags = true ∧
    skywellCredit 7 5 (wholeBalance 7 5 line) w = .ok (.tesSUCCESS, u) ∧ u.read index ≠ none ∧
    v.ownerCount 7 = some 0 ∧ u.ownerCount 7 = some 1 := by
  let _ := Key.coded
  have outcome : (skywellCredit 5 7 ⟨⟨1, 5⟩, 1000000000000000, -15, false, false⟩
      (twoAccounts lsfDefaultSkywell)).map (fun r =>
        (r.1, (r.2.read (getSkywellStateIndex 5 7 1)).map fun line =>
          (sideReserveSet 5 7 line lsfDefaultSkywell,
            match skywellCredit 7 5 (wholeBalance 7 5 line) r.2 with
            | .ok q => q.1 == .tesSUCCESS && (q.2.read (getSkywellStateIndex 5 7 1)).isSome &&
              q.2.ownerCount 7 == some 1
            | .error _ => false))) = .ok (.tesSUCCESS, some (true, true)) := by
    decide +kernel
  obtain ⟨⟨ter, w⟩, ran, probe⟩ := ExceptFold.map_eq_ok.1 outcome
  obtain ⟨rfl, returned⟩ := Prod.mk.inj probe
  obtain ⟨line, shown, rest⟩ := Option.map_eq_some_iff.1 returned
  obtain ⟨reserved, back⟩ := Prod.mk.inj rest
  cases ran' : skywellCredit 7 5 (wholeBalance 7 5 line) w with
  | error e =>
    rw [ran'] at back
    cases back
  | ok q =>
    obtain ⟨ter', u⟩ := q
    simp only [ran', Bool.and_eq_true, beq_iff_eq] at back
    obtain ⟨⟨rfl, stays⟩, count⟩ := back
    exact ⟨Key.coded, twoAccounts lsfDefaultSkywell, w, u, _, line, twoAccounts_root _ (.inl rfl),
      twoAccounts_read _ (by decide), ran, shown, reserved, ran',
      Option.isSome_iff_ne_none.1 stays, by decide +kernel, count⟩

theorem freshLine_returns_plain : ∃ (_ : Sha512Half) (v w u : LedgerEntrySet) (line : SLE),
    skywellCredit 5 7 ⟨⟨1, 5⟩, 1000000000000000, -15, false, false⟩ v = .ok (.tesSUCCESS, w) ∧
    w.read (getSkywellStateIndex 5 7 1) = some line ∧
    skywellCredit 7 5 (wholeBalance 7 5 line) w = .ok (.tesSUCCESS, u) ∧
    u.read (getSkywellStateIndex 5 7 1) = none ∧ u.ownerCount 7 = v.ownerCount 7 := by
  let _ := Key.coded
  have outcome : (skywellCredit 5 7 ⟨⟨1, 5⟩, 1000000000000000, -15, false, false⟩
      (twoAccounts 0)).map (fun r => r.1) = .ok .tesSUCCESS := by
    decide +kernel
  obtain ⟨⟨ter, w⟩, ran, rfl⟩ := ExceptFold.map_eq_ok.1 outcome
  have absent (a : Account) (n : UInt64) :
      (twoAccounts 0).read (getDirNodeIndex (getOwnerDirIndex a) n) = none :=
    twoAccounts_read 0 (by rw [type_getDirNodeIndex rfl]; decide)
  obtain ⟨s, r, line, senderRoot, -, receiverRoot, shown, exact_⟩ :=
    freshLine_returns_iff (by decide) (by decide) (by decide)
      (twoAccounts_read 0 (by decide)) (shows_empty (absent 5)) (shows_empty (absent 7)) (.inl ran)
  cases (twoAccounts_root 0 (.inl rfl)).symm.trans senderRoot
  cases (twoAccounts_root 0 (.inr rfl)).symm.trans receiverRoot
  obtain ⟨-, u, ran', gone, -, count⟩ := exact_.2 ⟨by decide, by decide, by decide, none, none, rfl, rfl⟩
  exact ⟨Key.coded, _, w, u, line, ran, shown, ran', gone, count⟩

end

end Skywell.LedgerEntrySet
