import JingtumCore.Ledger

/-!
# The ledger entry set

The view through which a transaction reads and changes a ledger, with the
directory functions. A pointer to an entry is the entry's index: the pointers
the code holds always come from the set, and a change made through one is a
change of the entry in the set, whatever its action. The copy-on-read sequence
numbers that let sets share entries are left out. Assertions have no effect.
-/
namespace Skywell
open U32Field U64Field AccountField IndexField Std

/-- The `tap` flags. -/
structure TransactionEngineParams where
  tapNO_CHECK_SIGN : Bool := false
  tapOPEN_LEDGER : Bool := false
  tapRETRY : Bool := false
  tapADMIN : Bool := false
  tapPRE_CHECKED : Bool := false
  tapMASTER_SIGN : Bool := false
  deriving DecidableEq

inductive LedgerEntryAction where
  | taaCACHED | taaMODIFY | taaDELETE | taaCREATE
  deriving DecidableEq

structure LedgerEntrySetEntry where
  mEntry : SLE
  mAction : LedgerEntryAction

/-- The credits of a payment so far: for the low account, the high account and
the currency, what each of the two has been sent. -/
structure DeferredCredits where
  map : Account → Account → Currency → Option (STAmount × STAmount) := fun _ _ _ => none

namespace DeferredCredits

def find (d : DeferredCredits) (a b : Account) (c : Currency) : Option (STAmount × STAmount) :=
  if a < b then d.map a b c else d.map b a c

def put (d : DeferredCredits) (a b : Account) (c : Currency) (v : STAmount × STAmount) :
    DeferredCredits :=
  let low := min a b
  let high := max a b
  ⟨fun x y z => if x = low ∧ y = high ∧ z = c then some v else d.map x y z⟩

def credit (d : DeferredCredits) (sender receiver : Account) (amount : STAmount) :
    Except Fault DeferredCredits :=
  let c := amount.getCurrency
  match d.find sender receiver c with
  | none =>
    .ok (d.put sender receiver c
      (if sender < receiver then (amount.zeroed, amount) else (amount, amount.zeroed)))
  | some (low, high) => do
    if sender < receiver then
      let high ← high.add amount
      return d.put sender receiver c (low, high)
    else
      let low ← low.add amount
      return d.put sender receiver c (low, high)

def adjustedBalance (d : DeferredCredits) (main other : Account) (curBalance : STAmount) :
    Except Fault STAmount :=
  match d.find main other curBalance.getCurrency with
  | none => .ok curBalance
  | some (low, high) => curBalance.sub (if main < other then low else high)

end DeferredCredits

structure LedgerEntrySet [Sha512Half] where
  mLedger : Ledger
  mEntries : ExtTreeMap Key LedgerEntrySetEntry Key.cmp := ∅
  mDeferredCredits : Option DeferredCredits := none
  mSet : TransactionMetaSet := {}
  mParams : TransactionEngineParams := {}

/-- What a call on the set does: it returns a value and a new set, or faults. -/
abbrev LES [Sha512Half] := StateT LedgerEntrySet (Except Fault)

namespace LedgerEntrySet
variable [Sha512Half]

def init (v : LedgerEntrySet) (ledger : Ledger) (txID : TxID) (ledgerID : UInt32)
    (params : TransactionEngineParams) : LedgerEntrySet :=
  { v with
    mEntries := ∅
    mDeferredCredits := v.mDeferredCredits.map fun _ => {}
    mLedger := ledger
    mSet := v.mSet.init txID ledgerID
    mParams := params }

def clear (v : LedgerEntrySet) : LedgerEntrySet :=
  { v with
    mEntries := ∅
    mSet := v.mSet.clear
    mDeferredCredits := v.mDeferredCredits.map fun _ => {} }

def setEntry (v : LedgerEntrySet) (k : Key) (e : LedgerEntrySetEntry) : LedgerEntrySet :=
  { v with mEntries := v.mEntries.insert k e }

/-- The entry a pointer points to. -/
def deref (k : Key) : LES SLE := do
  match (← get).mEntries[k]? with
  | some e => return e.mEntry
  | none => throw .nullPointer

/-- A change of the entry a pointer points to. -/
def assign (k : Key) (f : SLE → SLE) : LES Unit := do
  let v ← get
  match v.mEntries[k]? with
  | some e => set (v.setEntry k { e with mEntry := f e.mEntry })
  | none => throw .nullPointer

/-- `entryCache (type, index)`: whether the pointer returned is not null. -/
def entryCache (k : Key) : LES Bool := do
  let v ← get
  match v.mEntries[k]? with
  | some e => return e.mAction != .taaDELETE
  | none =>
    match v.mLedger.getSLE k with
    | some sle =>
      set (v.setEntry k ⟨sle, .taaCACHED⟩)
      return true
    | none => return false

/-- `entryCreate (type, index)`. -/
def entryCreate (k : Key) : LES Unit := do
  let v ← get
  match v.mEntries[k]? with
  | none => set (v.setEntry k ⟨SLE.new k.type, .taaCREATE⟩)
  | some e =>
    match e.mAction with
    | .taaDELETE => set (v.setEntry k ⟨SLE.new k.type, .taaMODIFY⟩)
    | .taaMODIFY => throw (.runtimeError "Create after modify")
    | .taaCREATE => throw (.runtimeError "Create after create")
    | .taaCACHED => throw (.runtimeError "Create after cache")

/-- `entryModify (SLE::ref)` for an entry that may not be in the set yet. -/
def entryModifyRef (k : Key) (sle : SLE) : LES Unit := do
  let v ← get
  match v.mEntries[k]? with
  | none => set (v.setEntry k ⟨sle, .taaMODIFY⟩)
  | some e =>
    match e.mAction with
    | .taaCACHED | .taaMODIFY => set (v.setEntry k ⟨sle, .taaMODIFY⟩)
    | .taaCREATE => set (v.setEntry k ⟨sle, .taaCREATE⟩)
    | .taaDELETE => throw (.runtimeError "Modify after delete")

def entryModify (k : Key) : LES Unit := do entryModifyRef k (← deref k)

def entryDelete (k : Key) : LES Unit := do
  let v ← get
  match v.mEntries[k]? with
  | none => throw .nullPointer
  | some e =>
    match e.mAction with
    | .taaCACHED | .taaMODIFY => set (v.setEntry k { e with mAction := .taaDELETE })
    | .taaCREATE => set { v with mEntries := v.mEntries.erase k }
    | .taaDELETE => return ()

def getLedger : LES Ledger := do return (← get).mLedger

def isOpenLedger : LES Bool := do return (← get).mParams.tapOPEN_LEDGER

def setDeliveredAmount (amount : STAmount) : LES Unit :=
  modify fun v => { v with mSet := v.mSet.setDeliveredAmount amount }

def DIR_NODE_MAX : Nat := 32

def ownerDirDescriber (owner : Account) (sle : SLE) : SLE := sle.setFieldAccount sfOwner owner

/-- Appends an index to a directory; with the result comes the page it is on. -/
def dirAdd (uRootIndex uLedgerIndex : Key) (fDescriber : SLE → SLE) : LES (TER × UInt64) := do
  if !(← entryCache uRootIndex) then
    -- no root, make it
    entryCreate uRootIndex
    assign uRootIndex fun sle => fDescriber (sle.setFieldIndex sfRootIndex uRootIndex)
    assign uRootIndex fun sle => sle.setIndexes [uLedgerIndex]
    return (.tesSUCCESS, 0)
  let uNodeDir := (← deref uRootIndex).getFieldU64 sfIndexPrevious
  let node := getDirNodeIndex uRootIndex uNodeDir
  if !(← entryCache node) then throw .nullPointer
  let svIndexes := (← deref node).getIndexes
  if svIndexes.length ≠ DIR_NODE_MAX then
    entryModify node
    assign node fun sle => sle.setIndexes (svIndexes ++ [uLedgerIndex])
    return (.tesSUCCESS, uNodeDir)
  let uNodeDir := uNodeDir + 1
  if uNodeDir = 0 then return (.tecDIR_FULL, uNodeDir)
  -- the old last page points to the new one, and so does the root
  assign node fun sle => sle.setFieldU64 sfIndexNext uNodeDir
  entryModify node
  assign uRootIndex fun sle => sle.setFieldU64 sfIndexPrevious uNodeDir
  entryModify uRootIndex
  let page := getDirNodeIndex uRootIndex uNodeDir
  entryCreate page
  assign page fun sle => sle.setFieldIndex sfRootIndex uRootIndex
  if uNodeDir ≠ 1 then
    assign page fun sle => sle.setFieldU64 sfIndexPrevious (uNodeDir - 1)
  assign page fDescriber
  assign page fun sle => sle.setIndexes [uLedgerIndex]
  return (.tesSUCCESS, uNodeDir)

/-- The entries of a page without one of them: in place, or with the last entry
moved into its place. -/
def removeIndex (svIndexes : List Key) (uLedgerIndex : Key) (bStable : Bool) : List Key :=
  if bStable then svIndexes.erase uLedgerIndex
  else match svIndexes.getLast? with
    | some last => (svIndexes.set (svIndexes.idxOf uLedgerIndex) last).dropLast
    | none => []

/-- The pages that go away when the entry removed was the last one of page
`uNodeCur`. -/
def dirDeleteEmptied (bKeepRoot : Bool) (uNodeCur : UInt64) (uRootIndex : Key) : LES TER := do
  let node := getDirNodeIndex uRootIndex uNodeCur
  let sleNode ← deref node
  let uNodePrevious := sleNode.getFieldU64 sfIndexPrevious
  let uNodeNext := sleNode.getFieldU64 sfIndexNext
  if uNodeCur = 0 then
    if uNodePrevious = 0 then
      -- the root never overflowed
      entryDelete node
    else if !bKeepRoot && uNodePrevious == uNodeNext then
      let last := getDirNodeIndex uRootIndex uNodeNext
      if !(← entryCache last) then throw .nullPointer
      if (← deref last).getIndexes.isEmpty then
        entryDelete node
        entryDelete last
    return .tesSUCCESS
  if uNodeNext ≠ 0 then
    -- neither the root nor the last page
    let previous := getDirNodeIndex uRootIndex uNodePrevious
    let next := getDirNodeIndex uRootIndex uNodeNext
    let hasPrevious ← entryCache previous
    let hasNext ← entryCache next
    if !hasPrevious then return .tefBAD_LEDGER
    if !hasNext then return .tefBAD_LEDGER
    if previous.type != .dirNode then throw (.runtimeError "Field not found")
    assign previous fun sle => sle.setFieldU64 sfIndexNext uNodeNext
    entryModify previous
    assign next fun sle => sle.setFieldU64 sfIndexPrevious uNodePrevious
    entryModify next
    entryDelete node
    return .tesSUCCESS
  if bKeepRoot || uNodePrevious != 0 then return .tesSUCCESS
  -- the last page, and the only one besides the root
  if !(← entryCache uRootIndex) then throw .nullPointer
  if uRootIndex.type != .dirNode then throw (.runtimeError "Field not found")
  if (← deref uRootIndex).getIndexes.isEmpty then
    entryDelete uRootIndex
    entryDelete node
  return .tesSUCCESS

/-- `dirDelete` on page `uNodeDir`; `missing` goes on when the entry is not there. -/
def dirDeleteAt (bKeepRoot : Bool) (uNodeDir : UInt64) (uRootIndex uLedgerIndex : Key)
    (bStable : Bool) (missing : LES TER) : LES TER := do
  let node := getDirNodeIndex uRootIndex uNodeDir
  let found ← entryCache node
  if found && node.type != .dirNode then throw (.runtimeError "Field not found")
  let svIndexes ← if found then SLE.getIndexes <$> deref node else pure []
  if !svIndexes.contains uLedgerIndex then missing
  else
    let svIndexes :=
      if svIndexes.length > 1 then removeIndex svIndexes uLedgerIndex bStable else []
    assign node fun sle => sle.setIndexes svIndexes
    entryModify node
    if svIndexes.isEmpty then dirDeleteEmptied bKeepRoot uNodeDir uRootIndex
    else return .tesSUCCESS

/-- `dirDelete` from page `uNodeDir` on; `tries` is `20 - uNodeDir`, the pages a
soft search may still go on to. -/
def dirDeleteFrom (bKeepRoot : Bool) (uRootIndex uLedgerIndex : Key) (bStable : Bool) :
    Nat → UInt64 → Bool → LES TER
  | 0, uNodeDir, _ =>
    dirDeleteAt bKeepRoot uNodeDir uRootIndex uLedgerIndex bStable (return .tefBAD_LEDGER)
  | tries + 1, uNodeDir, bSoft =>
    dirDeleteAt bKeepRoot uNodeDir uRootIndex uLedgerIndex bStable <|
      if !bSoft then return .tefBAD_LEDGER
      else dirDeleteFrom bKeepRoot uRootIndex uLedgerIndex bStable tries (uNodeDir + 1) true

def dirDelete (bKeepRoot : Bool) (uNodeDir : UInt64) (uRootIndex uLedgerIndex : Key)
    (bStable bSoft : Bool) : LES TER :=
  dirDeleteFrom bKeepRoot uRootIndex uLedgerIndex bStable (20 - uNodeDir.toNat) uNodeDir bSoft

def dirIsEmpty (uRootIndex : Key) : LES Bool := do
  if !(← entryCache uRootIndex) then return true
  let sleNode ← deref uRootIndex
  if !sleNode.getIndexes.isEmpty then return false
  return sleNode.getFieldU64 sfIndexNext == 0

/-- `incrementOwnerCount (SLE::ref)`. -/
def incrementOwnerCountRef (account : Key) : LES Unit := do
  let count := (← deref account).getFieldU32 sfOwnerCount
  if count = 0xffffffff then return ()
  assign account fun sle => sle.setFieldU32 sfOwnerCount (count + 1)
  entryModify account

/-- `decrementOwnerCount (SLE::ref)`. -/
def decrementOwnerCountRef (account : Key) : LES Unit := do
  let count := (← deref account).getFieldU32 sfOwnerCount
  if count = 0 then return ()
  assign account fun sle => sle.setFieldU32 sfOwnerCount (count - 1)
  entryModify account

def decrementOwnerCount (owner : Account) : LES Unit := do
  let root := getAccountRootIndex owner
  if !(← entryCache root) then throw .nullPointer
  decrementOwnerCountRef root

end LedgerEntrySet

end Skywell
