import JingtumCore.STAmount
import Mathlib.Data.Nat.Pairing
import Mathlib.Tactic.Common

/-!
# Ledger indexes, fields and entries

An index is kept as the data that is hashed into it, so that two indexes are
equal exactly when their preimages are. The order of indexes is the order of
the hashes, of which only injectivity is known. An entry holds a value for
each field that is present; its type is that of its index.
-/
namespace Skywell

structure Book where
  in_ : Issue
  out : Issue
  deriving DecidableEq

/-- A ledger index, by name space and contents. A page of number zero is the
root of its directory and has the root's index. -/
inductive Key where
  | account (a : Account)
  | ownerDir (a : Account)
  | dirNode (root : Key) (page : UInt64)
  | bookDir (book : Book) (quality : UInt64)
  | skywell (low high : Account) (currency : Currency)
  | trust (low high : Account) (type : UInt32) (issuer : Account) (currency : Currency)
  | offer (a : Account) (sequence : UInt32)
  | ticket (a : Account) (sequence : UInt32)
  | sign (a : Account)
  | nickname (a : Account)
  | blackList (a : Account)
  | manageFee
  | manageIssuer
  | fee
  | amendment
  | skipList
  | skipListOf (group : UInt32)
  deriving DecidableEq

def getAccountRootIndex (a : Account) : Key := .account a

def getOwnerDirIndex (a : Account) : Key := .ownerDir a

def getDirNodeIndex (root : Key) (page : UInt64) : Key :=
  if page ≠ 0 then .dirNode root page else root

def getSkywellStateIndex (a b : Account) (currency : Currency) : Key :=
  if a < b then .skywell a b currency else .skywell b a currency

def getTrustStateIndex (a b : Account) (type : UInt32) (issuer : Account)
    (currency : Currency) : Key :=
  if a < b then .trust a b type issuer currency else .trust b a type issuer currency

def getSignStateIndex (a : Account) : Key := .sign a

def getNickNameIndex (a : Account) : Key := .nickname a

def getBlackListIndex (a : Account) : Key := .blackList a

/-- SHA-512 half, as far as the ledger depends on it. -/
class Sha512Half where
  hash : Key → Nat
  injective : Function.Injective hash

section
variable [Sha512Half]

/-- `operator<` of two 256-bit indexes. -/
def Key.cmp (a b : Key) : Ordering := compare (Sha512Half.hash a) (Sha512Half.hash b)

instance : Std.TransCmp Key.cmp where
  eq_swap := Std.OrientedOrd.eq_swap
  isLE_trans := Std.TransOrd.isLE_trans

instance : Std.LawfulEqCmp Key.cmp where
  compare_self := Std.ReflOrd.compare_self
  eq_of_compare h := Sha512Half.injective (Std.LawfulEqOrd.eq_of_compare h)

@[simp] theorem Key.cmp_eq_iff {a b : Key} : Key.cmp a b = .eq ↔ a = b :=
  Std.LawfulEqCmp.compare_eq_iff_eq

end

/-- A hash to run the model with. -/
def Key.code : Key → Nat
  | account a => Nat.pair 0 a
  | ownerDir a => Nat.pair 1 a
  | dirNode root page => Nat.pair 2 (Nat.pair root.code page.toNat)
  | bookDir book quality => Nat.pair 3 (Nat.pair quality.toNat (Nat.pair
      (Nat.pair book.in_.currency book.in_.account) (Nat.pair book.out.currency book.out.account)))
  | skywell low high currency => Nat.pair 4 (Nat.pair low (Nat.pair high currency))
  | trust low high type issuer currency =>
    Nat.pair 5 (Nat.pair low (Nat.pair high (Nat.pair type.toNat (Nat.pair issuer currency))))
  | offer a sequence => Nat.pair 6 (Nat.pair a sequence.toNat)
  | ticket a sequence => Nat.pair 7 (Nat.pair a sequence.toNat)
  | sign a => Nat.pair 8 a
  | nickname a => Nat.pair 9 a
  | blackList a => Nat.pair 10 a
  | manageFee => Nat.pair 11 0
  | manageIssuer => Nat.pair 11 1
  | fee => Nat.pair 11 2
  | amendment => Nat.pair 11 3
  | skipList => Nat.pair 11 4
  | skipListOf group => Nat.pair 12 group.toNat

theorem Key.code_injective : Function.Injective Key.code := by
  intro a
  induction a with
  | dirNode root page ih =>
    intro b h
    cases b <;> simp only [code, Nat.pair_eq_pair] at h <;> try omega
    rw [ih h.2.1, UInt64.toNat_inj.1 h.2.2]
  | _ =>
    intro b h
    cases b <;> simp only [code, Nat.pair_eq_pair, UInt64.toNat_inj, UInt32.toNat_inj] at h <;>
      grind [Issue, Book]

@[reducible] def Key.coded : Sha512Half := ⟨Key.code, Key.code_injective⟩

inductive LedgerEntryType where
  | accountRoot | dirNode | skywellState | trustState | ticket | manageFee | manageIssuer
  | blackList | offer | ledgerHashes | amendments | feeSettings | nickname | signerList
  deriving DecidableEq

/-- The type of the entry that an index names. -/
def Key.type : Key → LedgerEntryType
  | account _ => .accountRoot
  | ownerDir _ | dirNode _ _ | bookDir _ _ => .dirNode
  | skywell _ _ _ => .skywellState
  | trust _ _ _ _ _ => .trustState
  | offer _ _ => .offer
  | ticket _ _ => .ticket
  | sign _ => .signerList
  | nickname _ => .nickname
  | blackList _ => .blackList
  | manageFee => .manageFee
  | manageIssuer => .manageIssuer
  | fee => .feeSettings
  | amendment => .amendments
  | skipList | skipListOf _ => .ledgerHashes

theorem type_getDirNodeIndex {root : Key} (h : root.type = .dirNode) (page : UInt64) :
    (getDirNodeIndex root page).type = .dirNode := by
  unfold getDirNodeIndex
  split
  · rfl
  · exact h

abbrev TxID := Nat

abbrev Blob := List UInt8

inductive U16Field where
  | sfMasterWeight
  deriving DecidableEq

inductive U32Field where
  | sfFlags | sfSequence | sfPreviousTxnLgrSeq | sfExpiration | sfTransferRate | sfWalletSize
  | sfOwnerCount | sfHighQualityIn | sfHighQualityOut | sfLowQualityIn | sfLowQualityOut
  | sfFirstLedgerSequence | sfLastLedgerSequence | sfReferenceFeeUnits | sfReserveBase
  | sfReserveIncrement | sfRelationType | sfQuorum | sfQuorumHigh
  deriving DecidableEq

inductive U64Field where
  | sfIndexNext | sfIndexPrevious | sfBookNode | sfOwnerNode | sfBaseFee | sfExchangeRate
  | sfLowNode | sfHighNode
  deriving DecidableEq

inductive H128Field where
  | sfEmailHash
  deriving DecidableEq

inductive H160Field where
  | sfTakerPaysCurrency | sfTakerPaysIssuer | sfTakerGetsCurrency | sfTakerGetsIssuer
  deriving DecidableEq

inductive H256Field where
  | sfPreviousTxnID | sfWalletLocator | sfAccountTxnID
  deriving DecidableEq

/-- 256-bit fields that hold a ledger index. -/
inductive IndexField where
  | sfRootIndex | sfBookDirectory
  deriving DecidableEq

inductive AmountField where
  | sfBalance | sfTakerPays | sfTakerGets | sfLowLimit | sfHighLimit
  deriving DecidableEq

inductive VLField where
  | sfMessageKey | sfDomain | sfNickname
  deriving DecidableEq

inductive AccountField where
  | sfAccount | sfOwner | sfTarget | sfRegularKey | sfFeeAccountID | sfBlackListAccountID
  | sfIssuerAccountID
  deriving DecidableEq

inductive V256Field where
  | sfHashes | sfAmendments
  deriving DecidableEq

inductive SField where
  | u16 (f : U16Field)
  | u32 (f : U32Field)
  | u64 (f : U64Field)
  | h128 (f : H128Field)
  | h160 (f : H160Field)
  | h256 (f : H256Field)
  | index (f : IndexField)
  | amount (f : AmountField)
  | vl (f : VLField)
  | account (f : AccountField)
  | sfIndexes
  | v256 (f : V256Field)
  | sfSignerEntries
  | sfCurrencyRates
  deriving DecidableEq

structure SignerEntry where
  account : Account
  weight : UInt16
  deriving DecidableEq

/-- The value a field holds. An account field may be present and empty; a
currency rate is the amount in its entry. -/
abbrev SField.Val : SField → Type
  | u16 _ => UInt16
  | u32 _ => UInt32
  | u64 _ => UInt64
  | h128 _ => Nat
  | h160 _ => Nat
  | h256 _ => TxID
  | index _ => Key
  | amount _ => STAmount
  | vl _ => Blob
  | account _ => Option Account
  | sfIndexes => List Key
  | v256 _ => List Nat
  | sfSignerEntries => List SignerEntry
  | sfCurrencyRates => List STAmount

instance SField.decidableEqVal : (f : SField) → DecidableEq f.Val
  | u16 _ => inferInstanceAs (DecidableEq UInt16)
  | u32 _ => inferInstanceAs (DecidableEq UInt32)
  | u64 _ => inferInstanceAs (DecidableEq UInt64)
  | h128 _ | h160 _ | h256 _ => inferInstanceAs (DecidableEq Nat)
  | index _ => inferInstanceAs (DecidableEq Key)
  | amount _ => inferInstanceAs (DecidableEq STAmount)
  | vl _ => inferInstanceAs (DecidableEq Blob)
  | account _ => inferInstanceAs (DecidableEq (Option Account))
  | sfIndexes => inferInstanceAs (DecidableEq (List Key))
  | v256 _ => inferInstanceAs (DecidableEq (List Nat))
  | sfSignerEntries => inferInstanceAs (DecidableEq (List SignerEntry))
  | sfCurrencyRates => inferInstanceAs (DecidableEq (List STAmount))

/-- `STBase::isEquivalent` on the values of one field: `operator==` of amounts
does not look at the issuer. -/
def SField.equivalent : (f : SField) → f.Val → f.Val → Bool
  | amount _, x, y => STAmount.eqv x y
  | sfCurrencyRates, x, y =>
    x.length == y.length && (List.zipWith STAmount.eqv x y).all id
  | _, x, y => decide (x = y)

def SField.isDefault : (f : SField) → f.Val → Bool
  | u16 _, v => v == (0 : UInt16)
  | u32 _, v => v == (0 : UInt32)
  | u64 _, v => v == (0 : UInt64)
  | h128 _, v | h160 _, v | h256 _, v => v == (0 : Nat)
  | index _, _ => false
  | amount _, v => STAmount.isDefault v
  | vl _, v => List.isEmpty v
  | account _, v => Option.isNone v
  | sfIndexes, v => List.isEmpty v
  | v256 _, v => List.isEmpty v
  | sfSignerEntries, v => List.isEmpty v
  | sfCurrencyRates, v => List.isEmpty v

inductive SMD where
  | changeOrig | changeNew | deleteFinal | create | always
  deriving DecidableEq

/-- The `sMD_` attributes of a field. -/
def SField.meta : SField → List SMD
  | u32 .sfPreviousTxnLgrSeq => [.deleteFinal]
  | h256 .sfPreviousTxnID => [.deleteFinal]
  | index .sfRootIndex => [.always]
  | sfIndexes => []
  | _ => [.changeOrig, .changeNew, .deleteFinal, .create]

def SField.shouldMeta (f : SField) (c : List SMD) : Bool := f.meta.any (c.contains ·)

inductive SOE where
  | required | optional
  deriving DecidableEq

open U16Field U32Field U64Field H128Field H160Field H256Field IndexField AmountField VLField
  AccountField V256Field

def LedgerEntryType.elements : LedgerEntryType → List (SField × SOE)
  | .accountRoot => [(.account sfAccount, .required), (.u32 sfSequence, .required),
      (.amount sfBalance, .required), (.u32 sfOwnerCount, .required),
      (.h256 sfPreviousTxnID, .required), (.u32 sfPreviousTxnLgrSeq, .required),
      (.h256 sfAccountTxnID, .optional), (.account sfRegularKey, .optional),
      (.h128 sfEmailHash, .optional), (.h256 sfWalletLocator, .optional),
      (.u32 sfWalletSize, .optional), (.vl sfMessageKey, .optional),
      (.u32 sfTransferRate, .optional), (.vl sfDomain, .optional), (.vl sfNickname, .optional),
      (.sfCurrencyRates, .optional), (.u32 sfFlags, .required)]
  | .dirNode => [(.account sfOwner, .optional), (.h160 sfTakerPaysCurrency, .optional),
      (.h160 sfTakerPaysIssuer, .optional), (.h160 sfTakerGetsCurrency, .optional),
      (.h160 sfTakerGetsIssuer, .optional), (.u64 sfExchangeRate, .optional),
      (.sfIndexes, .required), (.index sfRootIndex, .required), (.u64 sfIndexNext, .optional),
      (.u64 sfIndexPrevious, .optional), (.u32 sfFlags, .required)]
  | .offer => [(.account sfAccount, .required), (.u32 sfSequence, .required),
      (.amount sfTakerPays, .required), (.amount sfTakerGets, .required),
      (.index sfBookDirectory, .required), (.u64 sfBookNode, .required),
      (.u64 sfOwnerNode, .required), (.h256 sfPreviousTxnID, .required),
      (.u32 sfPreviousTxnLgrSeq, .required), (.u32 sfExpiration, .optional),
      (.u32 sfFlags, .required)]
  | .skywellState => [(.amount sfBalance, .required), (.amount sfLowLimit, .required),
      (.amount sfHighLimit, .required), (.h256 sfPreviousTxnID, .required),
      (.u32 sfPreviousTxnLgrSeq, .required), (.u64 sfLowNode, .optional),
      (.u32 sfLowQualityIn, .optional), (.u32 sfLowQualityOut, .optional),
      (.u64 sfHighNode, .optional), (.u32 sfHighQualityIn, .optional),
      (.u32 sfHighQualityOut, .optional), (.u32 sfFlags, .required)]
  | .trustState => [(.amount sfBalance, .required), (.u32 sfRelationType, .optional),
      (.amount sfLowLimit, .required), (.amount sfHighLimit, .required),
      (.u64 sfLowNode, .optional), (.u32 sfLowQualityIn, .optional),
      (.u32 sfLowQualityOut, .optional), (.u64 sfHighNode, .optional),
      (.u32 sfHighQualityIn, .optional), (.u32 sfHighQualityOut, .optional),
      (.u32 sfFlags, .required)]
  | .ledgerHashes => [(.u32 sfFirstLedgerSequence, .optional),
      (.u32 sfLastLedgerSequence, .optional), (.v256 sfHashes, .required),
      (.u32 sfFlags, .required)]
  | .amendments => [(.v256 sfAmendments, .required), (.u32 sfFlags, .required)]
  | .feeSettings => [(.u64 sfBaseFee, .required), (.u32 sfReferenceFeeUnits, .required),
      (.u32 sfReserveBase, .required), (.u32 sfReserveIncrement, .required),
      (.u32 sfFlags, .required)]
  | .ticket => [(.account sfAccount, .required), (.u32 sfSequence, .required),
      (.u64 sfOwnerNode, .required), (.account sfTarget, .optional),
      (.u32 sfExpiration, .optional), (.u32 sfFlags, .required)]
  | .manageFee => [(.account sfFeeAccountID, .required), (.u32 sfFlags, .required)]
  | .manageIssuer => [(.account sfIssuerAccountID, .required), (.u32 sfFlags, .required)]
  | .blackList => [(.account sfBlackListAccountID, .required), (.u32 sfFlags, .required)]
  | .signerList => [(.account sfAccount, .required), (.u16 sfMasterWeight, .required),
      (.u32 sfQuorum, .required), (.u32 sfQuorumHigh, .required), (.sfSignerEntries, .required),
      (.u32 sfFlags, .required)]
  | .nickname => [(.account sfAccount, .required), (.vl sfDomain, .optional),
      (.vl sfNickname, .optional), (.u32 sfFlags, .required)]

/-- `getFieldIndex (f) != -1`: the template of the type has the field. -/
def LedgerEntryType.hasField (t : LedgerEntryType) (f : SField) : Bool :=
  t.elements.any fun e => decide (e.1 = f)

/-- The value of a field made present by the template. A required index is set
right after the entry is made, so the value here is never read. -/
def SField.default : (f : SField) → f.Val
  | u16 _ => (0 : UInt16)
  | u32 _ => (0 : UInt32)
  | u64 _ => (0 : UInt64)
  | h128 _ | h160 _ | h256 _ => (0 : Nat)
  | index _ => Key.skipList
  | amount _ => ({} : STAmount)
  | vl _ => ([] : Blob)
  | account _ => (none : Option Account)
  | sfIndexes => ([] : List Key)
  | v256 _ => ([] : List Nat)
  | sfSignerEntries => ([] : List SignerEntry)
  | sfCurrencyRates => ([] : List STAmount)

/-- Every field, in the order of its type code. -/
def SField.all : List SField :=
  [.u16 sfMasterWeight] ++
  [sfFlags, sfSequence, sfPreviousTxnLgrSeq, sfExpiration, sfTransferRate, sfWalletSize,
    sfOwnerCount, sfHighQualityIn, sfHighQualityOut, sfLowQualityIn, sfLowQualityOut,
    sfFirstLedgerSequence, sfLastLedgerSequence, sfReferenceFeeUnits, sfReserveBase,
    sfReserveIncrement, sfRelationType, sfQuorum, sfQuorumHigh].map .u32 ++
  [sfIndexNext, sfIndexPrevious, sfBookNode, sfOwnerNode, sfBaseFee, sfExchangeRate, sfLowNode,
    sfHighNode].map .u64 ++
  [.h128 sfEmailHash] ++
  [sfTakerPaysCurrency, sfTakerPaysIssuer, sfTakerGetsCurrency, sfTakerGetsIssuer].map .h160 ++
  [sfPreviousTxnID, sfWalletLocator, sfAccountTxnID].map .h256 ++
  [sfRootIndex, sfBookDirectory].map .index ++
  [sfBalance, sfTakerPays, sfTakerGets, sfLowLimit, sfHighLimit].map .amount ++
  [sfMessageKey, sfDomain, sfNickname].map .vl ++
  [sfAccount, sfOwner, sfTarget, sfRegularKey, sfFeeAccountID, sfBlackListAccountID,
    sfIssuerAccountID].map .account ++
  [.sfIndexes] ++ [sfHashes, sfAmendments].map .v256 ++ [.sfSignerEntries, .sfCurrencyRates]

/-- A ledger entry: the value of each field that is present. -/
@[ext] structure SLE where
  field : (f : SField) → Option f.Val

namespace SLE

/-- `STLedgerEntry (type, index)`: the required fields of the template, with
their default values. -/
def new (t : LedgerEntryType) : SLE :=
  ⟨fun f => if (f, SOE.required) ∈ t.elements then some f.default else none⟩

def set (s : SLE) (f : SField) (v : f.Val) : SLE := ⟨Function.update s.field f (some v)⟩

def makeFieldAbsent (s : SLE) (f : SField) : SLE := ⟨Function.update s.field f none⟩

def isFieldPresent (s : SLE) (f : SField) : Bool := (s.field f).isSome

def makeFieldPresent (s : SLE) (f : SField) : SLE :=
  if s.isFieldPresent f then s else s.set f f.default

@[simp] theorem field_set_self (s : SLE) (f : SField) (v : f.Val) :
    (s.set f v).field f = some v := Function.update_self ..

@[simp] theorem field_set_of_ne (s : SLE) {f g : SField} (h : f ≠ g) (v : g.Val) :
    (s.set g v).field f = s.field f := Function.update_of_ne h ..

@[simp] theorem field_makeFieldAbsent_of_ne (s : SLE) {f g : SField} (h : f ≠ g) :
    (s.makeFieldAbsent g).field f = s.field f := Function.update_of_ne h ..

/-- Reading an absent field of the template gives its default value. -/
def get (s : SLE) (f : SField) : f.Val := (s.field f).getD f.default

def getFieldU16 (s : SLE) (f : U16Field) : UInt16 := s.get (.u16 f)

def getFieldU32 (s : SLE) (f : U32Field) : UInt32 := s.get (.u32 f)

def getFieldU64 (s : SLE) (f : U64Field) : UInt64 := s.get (.u64 f)

def getFieldH256 (s : SLE) (f : H256Field) : TxID := s.get (.h256 f)

def getFieldAmount (s : SLE) (f : AmountField) : STAmount := s.get (.amount f)

def getFieldAccount160 (s : SLE) (f : AccountField) : Account := (s.get (.account f)).getD 0

def getIndexes (s : SLE) : List Key := s.get .sfIndexes

def getFlags (s : SLE) : UInt32 := s.getFieldU32 sfFlags

def isFlag (s : SLE) (f : UInt32) : Bool := s.getFlags &&& f == f

def setFieldU16 (s : SLE) (f : U16Field) (v : UInt16) : SLE := s.set (.u16 f) v

def setFieldU32 (s : SLE) (f : U32Field) (v : UInt32) : SLE := s.set (.u32 f) v

def setFieldU64 (s : SLE) (f : U64Field) (v : UInt64) : SLE := s.set (.u64 f) v

def setFieldH256 (s : SLE) (f : H256Field) (v : TxID) : SLE := s.set (.h256 f) v

def setFieldIndex (s : SLE) (f : IndexField) (v : Key) : SLE := s.set (.index f) v

def setFieldAmount (s : SLE) (f : AmountField) (v : STAmount) : SLE := s.set (.amount f) v

def setFieldAccount (s : SLE) (f : AccountField) (v : Account) : SLE :=
  s.set (.account f) (some v)

def setIndexes (s : SLE) (v : List Key) : SLE := s.set .sfIndexes v

def setFlag (s : SLE) (f : UInt32) : SLE := s.setFieldU32 sfFlags (s.getFlags ||| f)

def clearFlag (s : SLE) (f : UInt32) : SLE := s.setFieldU32 sfFlags (s.getFlags &&& ~~~f)

/-- Two copies of one field match: both absent, or both present and equivalent. -/
def matchField (f : SField) : Option f.Val → Option f.Val → Bool
  | none, none => true
  | some x, some y => f.equivalent x y
  | _, _ => false

/-- `STObject::operator==`. -/
def eqv (a b : SLE) : Bool := SField.all.all fun f => matchField f (a.field f) (b.field f)

def hasMatchingEntry (s o : SLE) (f : SField) : Bool := matchField f (o.field f) (s.field f)

end SLE

namespace LedgerEntryType

def isThreadedType (t : LedgerEntryType) : Bool := t.hasField (.h256 sfPreviousTxnID)

def hasOneOwner (t : LedgerEntryType) : Bool :=
  t != .accountRoot && t.hasField (.account sfAccount)

def hasTwoOwners (t : LedgerEntryType) : Bool := t == .skywellState

end LedgerEntryType

namespace SLE

def getOwner (s : SLE) : Account := s.getFieldAccount160 sfAccount

def getFirstOwner (s : SLE) : Account := (s.getFieldAmount sfLowLimit).getIssuer

def getSecondOwner (s : SLE) : Account := (s.getFieldAmount sfHighLimit).getIssuer

/-- `STLedgerEntry::thread`: the entry afterwards and the thread before, or
nothing when the transaction is already threaded. -/
def thread (s : SLE) (txID : TxID) (ledgerSeq : UInt32) : Option (SLE × TxID × UInt32) :=
  let oldPrevTxID := s.getFieldH256 sfPreviousTxnID
  if oldPrevTxID = txID then none
  else some ((s.setFieldH256 sfPreviousTxnID txID).setFieldU32 sfPreviousTxnLgrSeq ledgerSeq,
    oldPrevTxID, s.getFieldU32 sfPreviousTxnLgrSeq)

end SLE

def lsfPasswordSpent : UInt32 := 0x00010000
def lsfRequireDestTag : UInt32 := 0x00020000
def lsfRequireAuth : UInt32 := 0x00040000
def lsfDisallowSWT : UInt32 := 0x00080000
def lsfDisableMaster : UInt32 := 0x00100000
def lsfNoFreeze : UInt32 := 0x00200000
def lsfGlobalFreeze : UInt32 := 0x00400000
def lsfDefaultSkywell : UInt32 := 0x00800000

def lsfLowReserve : UInt32 := 0x00010000
def lsfHighReserve : UInt32 := 0x00020000
def lsfLowAuth : UInt32 := 0x00040000
def lsfHighAuth : UInt32 := 0x00080000
def lsfLowNoSkywell : UInt32 := 0x00100000
def lsfHighNoSkywell : UInt32 := 0x00200000
def lsfLowFreeze : UInt32 := 0x00400000
def lsfHighFreeze : UInt32 := 0x00800000

end Skywell
