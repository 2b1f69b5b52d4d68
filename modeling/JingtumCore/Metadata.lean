import JingtumCore.LedgerEntrySet

/-!
# Metadata of a transaction

`LedgerEntrySet::calcRawMeta`: one pass over the entries of the set in the
order of their indexes, which describes the changed ones and threads the
transaction to their owners. Owners' roots that the set does not hold are kept
apart in `newMods` until the pass is over.
-/
namespace Skywell.LedgerEntrySet
open Std
variable [Sha512Half]

abbrev NewMods := ExtTreeMap Key SLE Key.cmp

/-- `threadTx (SLE::ref)`: the entry as it is afterwards, if it was threaded, and
the value returned. -/
def threadTx (k : Key) (sle : SLE) : LES (Option SLE × Bool) := do
  let v ← get
  match sle.thread v.mSet.mTransactionID v.mSet.mLedger with
  | none => return (none, false)
  | some (threaded, prevTxID, prevLgrID) =>
    if prevTxID = 0 then return (some threaded, true)
    let nodes := v.mSet.getAffectedNode k .modified
    set { v with mSet := nodes.thread k prevTxID prevLgrID }
    return (some threaded, !nodes.hasThread k)

/-- Threads an entry of the set. -/
def threadEntry (k : Key) : LES Bool := do
  let (threaded, ok) ← threadTx k (← deref k)
  match threaded with
  | some sle => assign k fun _ => sle
  | none => pure ()
  return ok

/-- `getForMod` and `threadTx (SkywellAddress)`: threads the root of an account,
which becomes modified if the set only had it cached. -/
def threadAccount (account : Account) (newMods : NewMods) : LES (Bool × NewMods) := do
  let k := getAccountRootIndex account
  let v ← get
  match v.mEntries[k]? with
  | some e =>
    if e.mAction = .taaDELETE then return (false, newMods)
    if e.mAction = .taaCACHED then set (v.setEntry k { e with mAction := .taaMODIFY })
    return (← threadEntry k, newMods)
  | none =>
    match (newMods[k]?).or (v.mLedger.getSLE k) with
    | none => return (false, newMods)
    | some sle =>
      let (threaded, ok) ← threadTx k sle
      return (ok, newMods.insert k (threaded.getD sle))

/-- The second owner is threaded only if threading the first one succeeded. -/
def threadOwners (k : Key) (node : SLE) (newMods : NewMods) : LES (Bool × NewMods) := do
  if k.type.hasOneOwner then threadAccount node.getOwner newMods
  else if k.type.hasTwoOwners then
    let (ok, newMods) ← threadAccount node.getFirstOwner newMods
    if ok then threadAccount node.getSecondOwner newMods else return (false, newMods)
  else return (false, newMods)

/-- The fields of an entry that satisfy a test, unless there are none. -/
def collect (test : SField → Bool) (source : SLE) : Option SLE :=
  if SField.all.any test then some ⟨fun f => if test f then source.field f else none⟩ else none

def previousFields (orig cur : SLE) : Option SLE :=
  collect (fun f => f.shouldMeta [.changeOrig] && !cur.hasMatchingEntry orig f) orig

def finalFields (attributes : List SMD) (cur : SLE) : Option SLE :=
  collect (fun f => f.shouldMeta attributes) cur

def newFields (cur : SLE) : Option SLE :=
  collect (fun f => (cur.field f).any (fun v => !f.isDefault v) &&
    f.shouldMeta [.create, .always]) cur

def updateNode (k : Key) (f : AffectedNode → AffectedNode) : LES Unit :=
  modify fun v => { v with mSet := v.mSet.updateNode k f }

def setAffectedNode (k : Key) (kind : NodeKind) : LES Unit :=
  modify fun v => { v with mSet := v.mSet.setAffectedNode k kind k.type }

/-- The body of the pass for an entry to be deleted. -/
def calcDeleted (k : Key) (orig cur : SLE) (newMods : NewMods) : LES NewMods := do
  setAffectedNode k .deleted
  let (_, newMods) ← threadOwners k orig newMods
  updateNode k fun n => { n with
    previousFields := previousFields orig cur
    finalFields := finalFields [.always, .deleteFinal] cur }
  return newMods

/-- The body of the pass for a modified entry. -/
def calcModified (k : Key) (orig : SLE) : LES Unit := do
  setAffectedNode k .modified
  if k.type.isThreadedType then discard (threadEntry k)
  let cur ← deref k
  updateNode k fun n => { n with
    previousFields := previousFields orig cur
    finalFields := finalFields [.always, .changeNew] cur }

/-- The body of the pass for a created entry. -/
def calcCreated (k : Key) (cur : SLE) (newMods : NewMods) : LES NewMods := do
  setAffectedNode k .created
  let (_, newMods) ← threadOwners k cur newMods
  if k.type.isThreadedType then discard (threadEntry k)
  let cur ← deref k
  updateNode k fun n => { n with newFields := newFields cur }
  return newMods

/-- One step of the pass over the entries. -/
def calcNode (k : Key) (newMods : NewMods) : LES NewMods := do
  let v ← get
  match v.mEntries[k]? with
  | none => return newMods
  | some e =>
    match e.mAction, v.mLedger.getSLE k with
    | .taaCACHED, _ => return newMods
    | .taaMODIFY, none | .taaDELETE, none => throw .nullPointer
    | .taaMODIFY, some orig =>
      if !e.mEntry.eqv orig then calcModified k orig
      return newMods
    | .taaDELETE, some orig => calcDeleted k orig e.mEntry newMods
    | .taaCREATE, _ => calcCreated k e.mEntry newMods

def calcNodes : List Key → NewMods → LES NewMods
  | [], newMods => return newMods
  | k :: rest, newMods => do calcNodes rest (← calcNode k newMods)

/-- The metadata that is stored with the transaction. -/
def calcRawMeta (result : TER) (index : UInt32) : LES TransactionMetaSet := do
  let newMods ← calcNodes (← get).mEntries.keys ∅
  newMods.toList.forM fun (k, sle) => entryModifyRef k sle
  let v ← get
  let stored := v.mSet.addRaw result index
  set { v with mSet := stored }
  return stored

end Skywell.LedgerEntrySet
