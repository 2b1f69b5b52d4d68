import JingtumCore.LedgerFormats

/-!
# Result codes and transactions

The result codes with their numeric classes, and transactions as the engine
reads them: the common fields and, for each type, the fields of its template.
-/
namespace Skywell

inductive TER where
  | telLOCAL_ERROR | telBAD_DOMAIN | telBAD_PATH_COUNT | telBAD_PUBLIC_KEY
  | telFAILED_PROCESSING | telINSUF_FEE_P | telNO_DST_PARTIAL | telBLKLIST | telINSUF_FUND
  | telBAD_NICKNAME | temMALFORMED | temBAD_AMOUNT | temBAD_AUTH_MASTER | temBAD_CURRENCY
  | temBAD_EXPIRATION | temBAD_FEE | temBAD_ISSUER | temBAD_LIMIT | temBAD_QUORUM
  | temBAD_WEIGHT | temBAD_OFFER | temBAD_PATH | temBAD_PATH_LOOP | temBAD_SEND_SWT_LIMIT
  | temBAD_SEND_SWT_MAX | temBAD_SEND_SWT_NO_DIRECT | temBAD_SEND_SWT_PARTIAL
  | temBAD_SEND_SWT_PATHS | temBAD_SEQUENCE | temBAD_SIGNATURE | temBAD_SRC_ACCOUNT
  | temBAD_TRANSFER_RATE | temDST_IS_SRC | temDST_NEEDED | temINVALID | temINVALID_FLAG
  | temREDUNDANT | temREDUNDANTSIGN | temSKYWELL_EMPTY | temDISABLED | temUNCERTAIN
  | temUNKNOWN | tefFAILURE | tefALREADY | tefBAD_ADD_AUTH | tefBAD_AUTH | tefBAD_LEDGER
  | tefCREATED | tefEXCEPTION | tefINTERNAL | tefNO_AUTH_REQUIRED | tefPAST_SEQ
  | tefWRONG_PRIOR | tefMASTER_DISABLED | tefMAX_LEDGER | terRETRY | terFUNDS_SPENT
  | terINSUF_FEE_B | terNO_ACCOUNT | terNO_AUTH | terNO_LINE | terOWNERS | terPRE_SEQ | terLAST
  | terNO_SKYWELL | tesSUCCESS | tecCLAIM | tecPATH_PARTIAL | tecUNFUNDED_ADD
  | tecUNFUNDED_OFFER | tecUNFUNDED_PAYMENT | tecFAILED_PROCESSING | tecDIR_FULL
  | tecINSUF_RESERVE_LINE | tecINSUF_RESERVE_OFFER | tecNO_DST | tecNO_DST_INSUF_SWT
  | tecNO_LINE_INSUF_RESERVE | tecNO_LINE_REDUNDANT | tecPATH_DRY | tecUNFUNDED
  | tecMASTER_DISABLED | tecNO_REGULAR_KEY | tecOWNERS | tecNO_ISSUER | tecNO_AUTH | tecNO_LINE
  | tecINSUFF_FEE | tecFROZEN | tecNO_TARGET | tecNO_PERMISSION | tecNO_ENTRY
  | tecINSUFFICIENT_RESERVE | tecNEED_MASTER_KEY | tecDST_TAG_NEEDED | tecINTERNAL
  deriving DecidableEq, Repr

def TER.code : TER → Int
  | telLOCAL_ERROR => -399 | telBAD_DOMAIN => -398 | telBAD_PATH_COUNT => -397
  | telBAD_PUBLIC_KEY => -396 | telFAILED_PROCESSING => -395 | telINSUF_FEE_P => -394
  | telNO_DST_PARTIAL => -393 | telBLKLIST => -392 | telINSUF_FUND => -391
  | telBAD_NICKNAME => -390 | temMALFORMED => -299 | temBAD_AMOUNT => -298
  | temBAD_AUTH_MASTER => -297 | temBAD_CURRENCY => -296 | temBAD_EXPIRATION => -295
  | temBAD_FEE => -294 | temBAD_ISSUER => -293 | temBAD_LIMIT => -292 | temBAD_QUORUM => -291
  | temBAD_WEIGHT => -290 | temBAD_OFFER => -289 | temBAD_PATH => -288
  | temBAD_PATH_LOOP => -287 | temBAD_SEND_SWT_LIMIT => -286 | temBAD_SEND_SWT_MAX => -285
  | temBAD_SEND_SWT_NO_DIRECT => -284 | temBAD_SEND_SWT_PARTIAL => -283
  | temBAD_SEND_SWT_PATHS => -282 | temBAD_SEQUENCE => -281 | temBAD_SIGNATURE => -280
  | temBAD_SRC_ACCOUNT => -279 | temBAD_TRANSFER_RATE => -278 | temDST_IS_SRC => -277
  | temDST_NEEDED => -276 | temINVALID => -275 | temINVALID_FLAG => -274 | temREDUNDANT => -273
  | temREDUNDANTSIGN => -272 | temSKYWELL_EMPTY => -271 | temDISABLED => -270
  | temUNCERTAIN => -269 | temUNKNOWN => -268 | tefFAILURE => -199 | tefALREADY => -198
  | tefBAD_ADD_AUTH => -197 | tefBAD_AUTH => -196 | tefBAD_LEDGER => -195 | tefCREATED => -194
  | tefEXCEPTION => -193 | tefINTERNAL => -192 | tefNO_AUTH_REQUIRED => -191
  | tefPAST_SEQ => -190 | tefWRONG_PRIOR => -189 | tefMASTER_DISABLED => -188
  | tefMAX_LEDGER => -187 | terRETRY => -99 | terFUNDS_SPENT => -98 | terINSUF_FEE_B => -97
  | terNO_ACCOUNT => -96 | terNO_AUTH => -95 | terNO_LINE => -94 | terOWNERS => -93
  | terPRE_SEQ => -92 | terLAST => -91 | terNO_SKYWELL => -90 | tesSUCCESS => 0
  | tecCLAIM => 100 | tecPATH_PARTIAL => 101 | tecUNFUNDED_ADD => 102
  | tecUNFUNDED_OFFER => 103 | tecUNFUNDED_PAYMENT => 104 | tecFAILED_PROCESSING => 105
  | tecDIR_FULL => 121 | tecINSUF_RESERVE_LINE => 122 | tecINSUF_RESERVE_OFFER => 123
  | tecNO_DST => 124 | tecNO_DST_INSUF_SWT => 125 | tecNO_LINE_INSUF_RESERVE => 126
  | tecNO_LINE_REDUNDANT => 127 | tecPATH_DRY => 128 | tecUNFUNDED => 129
  | tecMASTER_DISABLED => 130 | tecNO_REGULAR_KEY => 131 | tecOWNERS => 132
  | tecNO_ISSUER => 133 | tecNO_AUTH => 134 | tecNO_LINE => 135 | tecINSUFF_FEE => 136
  | tecFROZEN => 137 | tecNO_TARGET => 138 | tecNO_PERMISSION => 139 | tecNO_ENTRY => 140
  | tecINSUFFICIENT_RESERVE => 141 | tecNEED_MASTER_KEY => 142 | tecDST_TAG_NEEDED => 143
  | tecINTERNAL => 144

def isTelLocal (x : TER) : Bool := x.code ≥ TER.telLOCAL_ERROR.code && x.code < TER.temMALFORMED.code

def isTemMalformed (x : TER) : Bool :=
  x.code ≥ TER.temMALFORMED.code && x.code < TER.tefFAILURE.code

def isTefFailure (x : TER) : Bool := x.code ≥ TER.tefFAILURE.code && x.code < TER.terRETRY.code

def isTerRetry (x : TER) : Bool := x.code ≥ TER.terRETRY.code && x.code < TER.tesSUCCESS.code

def isTesSuccess (x : TER) : Bool := x == .tesSUCCESS

def isTecClaim (x : TER) : Bool := x.code ≥ TER.tecCLAIM.code

inductive TxType where
  | ttPAYMENT | ttACCOUNT_SET | ttREGULAR_KEY_SET | ttNICKNAME_SET | ttTICKET_CREATE
  | ttTICKET_CANCEL | ttACCOUNT_MERGE | ttTRUST_SET | ttREL_SET | ttREL_DEL | ttAMENDMENT | ttFEE
  | ttMNGFEE | ttBLKLISTSET | ttBLKLISTRMV | ttMNGISSUER | ttOPERATION | ttSIGN_SET | ttMESSAGE
  deriving DecidableEq

structure STPathElement where
  account : Account
  currency : Currency
  issuer : Account
  deriving DecidableEq

/-- The cached verdict `sig_state_` on a transaction's signature. -/
inductive SigState where
  | good | bad | indeterminate
  deriving DecidableEq

/-- The fields of one transaction type, by its template. A field whose absence
reads as its default is given by that value. -/
inductive TxFields where
  | payment (destination : Account) (amount : STAmount) (sendMax : Option STAmount)
      (paths : Option (List (List STPathElement))) (destinationTag : Option UInt32)
  | accountSet (emailHash walletLocator : Option Nat) (messageKey domain : Option Blob)
      (transferRate : Option UInt32) (setFlag clearFlag : UInt32)
  | regularKeySet (regularKey : Option Account)
  | trustSet (limitAmount : STAmount) (qualityIn qualityOut : Option UInt32)
  | relSet (target : Account) (relationType : UInt32) (limitAmount : STAmount)
  | relDel (target : Account) (relationType : UInt32) (limitAmount : STAmount)
  | amendment (amendment : Nat)
  | fee (baseFee : UInt64) (referenceFeeUnits reserveBase reserveIncrement : UInt32)
  | ticketCreate
  | ticketCancel
  | nicknameSet (domain nickname : Option Blob)
  | accountMerge (destination : Account)
  | mngFee (feeAccountID : Account)
  | mngIssuer (issuerAccountID : Account)
  | blkListSet (blackListAccountID : Account)
  | blkListRmv (blackListAccountID : Account)
  | signSet (masterWeight : UInt16) (quorum quorumHigh : UInt32)
      (signerEntries : List SignerEntry)
  | message (destination : Account)
  /-- `legal` says that every entry of `sfOperations` is a transaction of a
  known format; `signs` are the public keys of `sfSigns`. -/
  | operation (legal : Bool) (signs : Option (List Blob))

/-- The fields every transaction has. `checkSign` is the outcome of verifying
the signature, which is not modelled. -/
structure TxCommon where
  txID : TxID
  account : Account
  flags : UInt32 := 0
  sequence : UInt32 := 0
  fee : STAmount := {}
  signingPubKey : Blob := []
  txnSignature : Blob := []
  sigState : SigState := .indeterminate
  checkSign : Bool := false
  previousTxnID : Option TxID := none
  accountTxnID : Option TxID := none
  lastLedgerSequence : Option UInt32 := none
  timestamp : UInt32 := 0

/-- A transaction; the last component holds the entries of `sfOperations`. -/
inductive STTx where
  | mk (common : TxCommon) (fields : TxFields) (operations : List STTx)

namespace STTx

def common : STTx → TxCommon
  | mk c _ _ => c

def fields : STTx → TxFields
  | mk _ f _ => f

def operations : STTx → List STTx
  | mk _ _ ops => ops

def getTxnType (txn : STTx) : TxType :=
  match txn.fields with
  | .payment .. => .ttPAYMENT
  | .accountSet .. => .ttACCOUNT_SET
  | .regularKeySet .. => .ttREGULAR_KEY_SET
  | .trustSet .. => .ttTRUST_SET
  | .relSet .. => .ttREL_SET
  | .relDel .. => .ttREL_DEL
  | .amendment .. => .ttAMENDMENT
  | .fee .. => .ttFEE
  | .ticketCreate => .ttTICKET_CREATE
  | .ticketCancel => .ttTICKET_CANCEL
  | .nicknameSet .. => .ttNICKNAME_SET
  | .accountMerge .. => .ttACCOUNT_MERGE
  | .mngFee .. => .ttMNGFEE
  | .mngIssuer .. => .ttMNGISSUER
  | .blkListSet .. => .ttBLKLISTSET
  | .blkListRmv .. => .ttBLKLISTRMV
  | .signSet .. => .ttSIGN_SET
  | .message .. => .ttMESSAGE
  | .operation .. => .ttOPERATION

def getTransactionID (txn : STTx) : TxID := txn.common.txID

def getSourceAccount (txn : STTx) : Account := txn.common.account

def getSequence (txn : STTx) : UInt32 := txn.common.sequence

def getTimestamp (txn : STTx) : UInt32 := txn.common.timestamp

def getTransactionFee (txn : STTx) : STAmount := txn.common.fee

def getFlags (txn : STTx) : UInt32 := txn.common.flags

def getSigningPubKey (txn : STTx) : Blob := txn.common.signingPubKey

def isKnownGood (txn : STTx) : Bool := txn.common.sigState == .good

def isKnownBad (txn : STTx) : Bool := txn.common.sigState == .bad

end STTx

def tfFullyCanonicalSig : UInt32 := 0x80000000

def tfUniversalMask : UInt32 := ~~~tfFullyCanonicalSig

def requireDestTag : UInt32 := 0x00010000
def tfOptionalDestTag : UInt32 := 0x00020000
def tfRequireAuth : UInt32 := 0x00040000
def tfOptionalAuth : UInt32 := 0x00080000
def tfDisallowSWT : UInt32 := 0x00100000
def tfAllowSWT : UInt32 := 0x00200000

def tfAccountSetMask : UInt32 :=
  ~~~(tfFullyCanonicalSig ||| requireDestTag ||| tfOptionalDestTag ||| tfRequireAuth |||
    tfOptionalAuth ||| tfDisallowSWT ||| tfAllowSWT)

def asfRequireDest : UInt32 := 1
def asfRequireAuth : UInt32 := 2
def asfDisallowSWT : UInt32 := 3
def asfDisableMaster : UInt32 := 4
def asfAccountTxnID : UInt32 := 5
def asfNoFreeze : UInt32 := 6
def asfGlobalFreeze : UInt32 := 7
def asfDefaultSkywell : UInt32 := 8

def tfNoSkywellDirect : UInt32 := 0x00010000
def tfPartialPayment : UInt32 := 0x00020000
def tfLimitQuality : UInt32 := 0x00040000

def tfPaymentMask : UInt32 :=
  ~~~(tfFullyCanonicalSig ||| tfPartialPayment ||| tfLimitQuality ||| tfNoSkywellDirect)

def tfSetfAuth : UInt32 := 0x00010000
def tfSetNoSkywell : UInt32 := 0x00020000
def tfClearNoSkywell : UInt32 := 0x00040000
def tfSetFreeze : UInt32 := 0x00100000
def tfClearFreeze : UInt32 := 0x00200000

def tfTrustSetMask : UInt32 :=
  ~~~(tfFullyCanonicalSig ||| tfSetfAuth ||| tfSetNoSkywell ||| tfClearNoSkywell |||
    tfSetFreeze ||| tfClearFreeze)

def tfRelationSetMask : UInt32 := ~~~tfFullyCanonicalSig

def tfAccountMergeMask : UInt32 := ~~~tfFullyCanonicalSig

/-- `flags & mask` as a condition. -/
def hasFlag (flags mask : UInt32) : Bool := flags &&& mask != 0

def QUALITY_ONE : UInt32 := 1000000000

end Skywell
