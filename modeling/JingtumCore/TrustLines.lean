import JingtumCore.LedgerEntrySet

/-!
# Trust lines, relations, signer lists and transfers

The functions of the ledger entry set that create, change and delete entries
charged to an account, and those that move balances.
-/
namespace Skywell.LedgerEntrySet
open U16Field U32Field U64Field AmountField AccountField
variable [Sha512Half]

def adjustedBalance (main other : Account) (amount : STAmount) : LES STAmount := do
  match (← get).mDeferredCredits with
  | some d => d.adjustedBalance main other amount
  | none => return amount

def cacheCredit (sender receiver : Account) (amount : STAmount) : LES Unit := do
  let v ← get
  match v.mDeferredCredits with
  | some d =>
    let d ← d.credit sender receiver amount
    set { v with mDeferredCredits := some d }
  | none => return ()

/-- `offerDelete (SLE::pointer)` for an offer in the set. -/
def offerDelete (offer : Key) : LES TER := do
  if !(← entryCache offer) then return .tesSUCCESS
  if offer.type != .offer then throw (.runtimeError "Field not found")
  let sleOffer ← deref offer
  let owner := sleOffer.getFieldAccount160 sfAccount
  let bOwnerNode := sleOffer.isFieldPresent (.u64 sfOwnerNode)
  let uDirectory := sleOffer.get (.index .sfBookDirectory)
  let terResult ← dirDelete false (sleOffer.getFieldU64 sfOwnerNode) (getOwnerDirIndex owner)
    offer false (!bOwnerNode)
  let terResult2 ← dirDelete false (sleOffer.getFieldU64 sfBookNode) uDirectory offer true false
  if terResult = .tesSUCCESS then decrementOwnerCount owner
  entryDelete offer
  return if terResult = .tesSUCCESS then terResult2 else terResult

inductive FreezeHandling where
  | fhIGNORE_FREEZE | fhZERO_IF_FROZEN
  deriving DecidableEq

def isFrozen (account : Account) (currency : Currency) (issuer : Account) : LES Bool := do
  if isSWT currency then return false
  if ← entryCache (getAccountRootIndex issuer) then
    if (← deref (getAccountRootIndex issuer)).isFlag lsfGlobalFreeze then return true
  if issuer ≠ account then
    let line := getSkywellStateIndex account issuer currency
    if ← entryCache line then
      if (← deref line).isFlag (if issuer > account then lsfHighFreeze else lsfLowFreeze) then
        return true
  return false

def skywellHolds (account : Account) (currency : Currency) (issuer : Account)
    (zeroIfFrozen : FreezeHandling) : LES STAmount := do
  let line := getSkywellStateIndex account issuer currency
  if !(← entryCache line) then
    return ← adjustedBalance account issuer (STAmount.clearIssue {} ⟨currency, issuer⟩)
  let frozen ← if zeroIfFrozen = .fhZERO_IF_FROZEN then isFrozen account currency issuer
    else pure false
  if frozen then
    return ← adjustedBalance account issuer (STAmount.clearIssue {} ⟨currency, issuer⟩)
  let saBalance := (← deref line).getFieldAmount sfBalance
  let saBalance := if account > issuer then saBalance.negate else saBalance
  adjustedBalance account issuer (saBalance.setIssuer issuer)

def accountHolds (account : Account) (currency : Currency) (issuer : Account)
    (zeroIfFrozen : FreezeHandling) : LES STAmount := do
  if currency = 0 then
    let root := getAccountRootIndex account
    if !(← entryCache root) then throw .nullPointer
    let sleAccount ← deref root
    let uReserve := (← getLedger).getReserve (sleAccount.getFieldU32 sfOwnerCount)
    let saBalance := sleAccount.getFieldAmount sfBalance
    let saAmount ← if ← saBalance.ltNative uReserve then pure (STAmount.clear {})
      else saBalance.subNative uReserve
    adjustedBalance account issuer saAmount
  else skywellHolds account currency issuer zeroIfFrozen

def accountFunds (account : Account) (saDefault : STAmount) (zeroIfFrozen : FreezeHandling) :
    LES STAmount :=
  if !saDefault.isNative && saDefault.getIssuer == account then return saDefault
  else accountHolds account saDefault.getCurrency saDefault.getIssuer zeroIfFrozen

/-- The directory entries of an object between two accounts: its pages in the
low account's and in the high account's owner directory. -/
def dirAddBoth (index : Key) (uLowAccountID uHighAccountID : Account) :
    LES (TER × UInt64 × UInt64) := do
  let (terResult, uLowNode) ← dirAdd (getOwnerDirIndex uLowAccountID) index
    (ownerDirDescriber uLowAccountID)
  if terResult ≠ .tesSUCCESS then return (terResult, uLowNode, 0)
  let (terResult, uHighNode) ← dirAdd (getOwnerDirIndex uHighAccountID) index
    (ownerDirDescriber uHighAccountID)
  return (terResult, uLowNode, uHighNode)

/-- The fields that `relationCreate` and `trustCreate` set alike: deletion
hints, limits and qualities. -/
def fillLine (bSetHigh : Bool) (uLowNode uHighNode : UInt64) (saLimit saPeerLimit : STAmount)
    (uQualityIn uQualityOut : UInt32) (sle : SLE) : SLE :=
  let sle := (sle.setFieldU64 sfLowNode uLowNode).setFieldU64 sfHighNode uHighNode
  let sle := sle.setFieldAmount (if bSetHigh then sfHighLimit else sfLowLimit) saLimit
  let sle := sle.setFieldAmount (if bSetHigh then sfLowLimit else sfHighLimit) saPeerLimit
  let sle := if uQualityIn ≠ 0 then
      sle.setFieldU32 (if bSetHigh then sfHighQualityIn else sfLowQualityIn) uQualityIn
    else sle
  if uQualityOut ≠ 0 then
    sle.setFieldU32 (if bSetHigh then sfHighQualityOut else sfLowQualityOut) uQualityOut
  else sle

/-- `sleAccount` is the root of the account being set. -/
def relationCreate (bSrcHigh : Bool) (uSrcAccountID uDstAccountID : Account) (uIndex : Key)
    (sleAccount : Key) (saBalance saLimit : STAmount) (uQualityIn uQualityOut : UInt32) :
    LES TER := do
  let uLowAccountID := if !bSrcHigh then uSrcAccountID else uDstAccountID
  let uHighAccountID := if bSrcHigh then uSrcAccountID else uDstAccountID
  entryCreate uIndex
  let (terResult, uLowNode, uHighNode) ← dirAddBoth uIndex uLowAccountID uHighAccountID
  if terResult ≠ .tesSUCCESS then return terResult
  let bSetDst := saLimit.getIssuer == uDstAccountID
  let bSetHigh := xor bSrcHigh bSetDst
  let _ ← entryCache (getAccountRootIndex (if bSetHigh then uLowAccountID else uHighAccountID))
  let saPeerLimit := STAmount.zeroOf
    ⟨saBalance.getCurrency, if bSetDst then uSrcAccountID else uDstAccountID⟩
  assign uIndex (fillLine bSetHigh uLowNode uHighNode saLimit saPeerLimit uQualityIn uQualityOut)
  incrementOwnerCountRef sleAccount
  assign uIndex fun sle =>
    sle.setFieldAmount sfBalance (if bSetHigh then saBalance.neg else saBalance)
  cacheCredit uSrcAccountID uDstAccountID saBalance
  return terResult

def signCreate (uIndex sleAccount : Key) (uSrcAccountID : Account) (uMasterWeight : UInt16)
    (uQuorum uQuorumHigh : UInt32) (saSignEntries : List SignerEntry) : LES TER := do
  entryCreate uIndex
  let (terResult, _) ← dirAdd (getOwnerDirIndex uSrcAccountID) uIndex
    (ownerDirDescriber uSrcAccountID)
  if terResult ≠ .tesSUCCESS then return terResult
  assign uIndex fun sle =>
    let sle := sle.setFieldAccount sfAccount uSrcAccountID
    let sle := if uMasterWeight ≠ 0 then sle.setFieldU16 sfMasterWeight uMasterWeight else sle
    let sle := if uQuorum ≠ 0 then sle.setFieldU32 sfQuorum uQuorum else sle
    let sle := if uQuorumHigh ≠ 0 then sle.setFieldU32 sfQuorumHigh uQuorumHigh else sle
    if !saSignEntries.isEmpty then sle.set .sfSignerEntries saSignEntries else sle
  incrementOwnerCountRef sleAccount
  return terResult

def trustCreate (bSrcHigh : Bool) (uSrcAccountID uDstAccountID : Account) (uIndex : Key)
    (sleAccount : Key) (bAuth bNoSkywell bFreeze : Bool) (saBalance saLimit : STAmount)
    (uQualityIn uQualityOut : UInt32) : LES TER := do
  let uLowAccountID := if !bSrcHigh then uSrcAccountID else uDstAccountID
  let uHighAccountID := if bSrcHigh then uSrcAccountID else uDstAccountID
  entryCreate uIndex
  let (terResult, uLowNode, uHighNode) ← dirAddBoth uIndex uLowAccountID uHighAccountID
  if terResult ≠ .tesSUCCESS then return terResult
  let bSetDst := saLimit.getIssuer == uDstAccountID
  let bSetHigh := xor bSrcHigh bSetDst
  let slePeer := getAccountRootIndex (if bSetHigh then uLowAccountID else uHighAccountID)
  let peer ← entryCache slePeer
  let saPeerLimit := STAmount.zeroOf
    ⟨saBalance.getCurrency, if bSetDst then uSrcAccountID else uDstAccountID⟩
  assign uIndex (fillLine bSetHigh uLowNode uHighNode saLimit saPeerLimit uQualityIn uQualityOut)
  if !peer then throw .nullPointer
  let peerFlags := (← deref slePeer).getFlags
  let uFlags := if bSetHigh then lsfHighReserve else lsfLowReserve
  let uFlags := if bAuth then uFlags ||| (if bSetHigh then lsfHighAuth else lsfLowAuth) else uFlags
  let uFlags := if bNoSkywell then
      uFlags ||| (if bSetHigh then lsfHighNoSkywell else lsfLowNoSkywell)
    else uFlags
  let uFlags := if bFreeze then
      uFlags ||| (if !bSetHigh then lsfLowFreeze else lsfHighFreeze)
    else uFlags
  -- the flag is not bit zero, so this never happens
  let uFlags := if peerFlags &&& lsfDefaultSkywell = 1 then
      uFlags ||| (if bSetHigh then lsfLowNoSkywell else lsfHighNoSkywell)
    else uFlags
  assign uIndex fun sle => sle.setFieldU32 sfFlags uFlags
  incrementOwnerCountRef sleAccount
  assign uIndex fun sle =>
    sle.setFieldAmount sfBalance (if bSetHigh then saBalance.neg else saBalance)
  cacheCredit uSrcAccountID uDstAccountID saBalance
  return terResult

def trustDelete (line : Key) (uLowAccountID uHighAccountID : Account) : LES TER := do
  let sle ← deref line
  let bLowNode := sle.isFieldPresent (.u64 sfLowNode)
  let bHighNode := sle.isFieldPresent (.u64 sfHighNode)
  let uLowNode := sle.getFieldU64 sfLowNode
  let uHighNode := sle.getFieldU64 sfHighNode
  let terResult ← dirDelete false uLowNode (getOwnerDirIndex uLowAccountID) line false (!bLowNode)
  let terResult ← if terResult = .tesSUCCESS then
      dirDelete false uHighNode (getOwnerDirIndex uHighAccountID) line false (!bHighNode)
    else pure terResult
  entryDelete line
  return terResult

/-- The conditions under which a debit releases the sender's reserve, in the
order the code tests them; the sender's root is read only when it comes to it. -/
def releasesReserve (bSenderHigh : Bool) (uFlags : UInt32) (state : SLE)
    (before after : STAmount) (senderFlags : LES UInt32) : LES Bool := do
  if !(before.signum > 0 && after.signum ≤ 0) then return false
  if !hasFlag uFlags (if !bSenderHigh then lsfLowReserve else lsfHighReserve) then return false
  let noSkywell := hasFlag uFlags (if !bSenderHigh then lsfLowNoSkywell else lsfHighNoSkywell)
  let defaultSkywell := hasFlag (← senderFlags) lsfDefaultSkywell
  return noSkywell == defaultSkywell
    && !hasFlag uFlags (if !bSenderHigh then lsfLowFreeze else lsfHighFreeze)
    && (state.getFieldAmount (if !bSenderHigh then sfLowLimit else sfHighLimit)).isZero
    && state.getFieldU32 (if !bSenderHigh then sfLowQualityIn else sfHighQualityIn) == 0
    && state.getFieldU32 (if !bSenderHigh then sfLowQualityOut else sfHighQualityOut) == 0

def senderReserve (bSenderHigh : Bool) : UInt32 :=
  if !bSenderHigh then lsfLowReserve else lsfHighReserve

def skywellCredit (uSenderID uReceiverID : Account) (saAmount : STAmount) : LES TER := do
  let currency := saAmount.getCurrency
  let bSenderHigh : Bool := uSenderID > uReceiverID
  let uIndex := getSkywellStateIndex uSenderID uReceiverID currency
  if !(← entryCache uIndex) then
    let saReceiverLimit := STAmount.zeroOf ⟨currency, uReceiverID⟩
    let saBalance := saAmount.setIssuer noAccount
    let sleAccount := getAccountRootIndex uReceiverID
    if !(← entryCache sleAccount) then throw .nullPointer
    let noSkywell := (← deref sleAccount).getFlags &&& lsfDefaultSkywell == 1
    trustCreate bSenderHigh uSenderID uReceiverID uIndex sleAccount false noSkywell false
      saBalance saReceiverLimit 0 0
  else
    cacheCredit uSenderID uReceiverID saAmount
    let state ← deref uIndex
    let saBalance := state.getFieldAmount sfBalance
    let saBefore := if bSenderHigh then saBalance.negate else saBalance
    let saBalance ← saBefore.sub saAmount
    let uFlags := state.getFieldU32 sfFlags
    let senderFlags : LES UInt32 := do
      if !(← entryCache (getAccountRootIndex uSenderID)) then throw .nullPointer
      return (← deref (getAccountRootIndex uSenderID)).getFlags
    let released ← releasesReserve bSenderHigh uFlags state saBefore saBalance senderFlags
    if released then
      decrementOwnerCount uSenderID
      assign uIndex fun sle => sle.setFieldU32 sfFlags (uFlags &&& ~~~senderReserve bSenderHigh)
    let bDelete := released && saBalance.isZero &&
      !hasFlag uFlags (senderReserve (!bSenderHigh))
    let saBalance := if bSenderHigh then saBalance.negate else saBalance
    assign uIndex fun sle => sle.setFieldAmount sfBalance saBalance
    if bDelete then
      trustDelete uIndex (if bSenderHigh then uReceiverID else uSenderID)
        (if !bSenderHigh then uReceiverID else uSenderID)
    else
      entryModify uIndex
      return .tesSUCCESS

/-- `skywellTransferRate (issuer, currency)`. -/
def skywellTransferRate (issuer : Account) (currency : Currency) : LES UInt32 := do
  let root := getAccountRootIndex issuer
  if !(← entryCache root) then return QUALITY_ONE
  let sleAccount ← deref root
  let transferRate := match sleAccount.field (.u32 sfTransferRate) with
    | some rate => rate
    | none => QUALITY_ONE
  if currency = noCurrency then return transferRate
  match (sleAccount.get .sfCurrencyRates).find? fun fee => fee.getCurrency = currency with
  | some fee => lexicalCastU32 fee.getText
  | none => return transferRate

def skywellTransferFee (sender receiver issuer : Account) (saAmount : STAmount) :
    LES STAmount := do
  if sender ≠ issuer && receiver ≠ issuer then
    let uTransitRate ← skywellTransferRate issuer saAmount.getCurrency
    if QUALITY_ONE ≠ uTransitRate then
      let rate ← STAmount.amountFromRate uTransitRate.toUInt64
      let saTransferTotal ← STAmount.multiply saAmount rate saAmount.mIssue
      return ← saTransferTotal.sub saAmount
  return saAmount.zeroed

/-- The result of the direct credit is not looked at. -/
def skywellSend (uSenderID uReceiverID : Account) (saAmount : STAmount) : LES TER := do
  let issuer := saAmount.getIssuer
  if uSenderID = issuer || uReceiverID = issuer || issuer = noAccount then
    let _ ← skywellCredit uSenderID uReceiverID saAmount
    return .tesSUCCESS
  let saTransitFee ← skywellTransferFee uSenderID uReceiverID issuer saAmount
  let saActual ← if saTransitFee.isZero then pure saAmount else saAmount.add saTransitFee
  let saActual := saActual.setIssuer issuer
  let terResult ← skywellCredit issuer uReceiverID saAmount
  if terResult = .tesSUCCESS then skywellCredit uSenderID issuer saActual
  else return terResult

/-- Takes an amount from a root, unless the balance is too small. -/
def debitRoot (root : Key) (saAmount : STAmount) : LES Bool := do
  let balance := (← deref root).getFieldAmount sfBalance
  if ← balance.lt saAmount then return false
  let balance ← balance.sub saAmount
  assign root fun sle => sle.setFieldAmount sfBalance balance
  entryModify root
  return true

def creditRoot (root : Key) (saAmount : STAmount) : LES Unit := do
  let balance ← ((← deref root).getFieldAmount sfBalance).add saAmount
  assign root fun sle => sle.setFieldAmount sfBalance balance
  entryModify root

/-- `accountSend`; account zero stands for no account on that side. -/
def accountSend (uSenderID uReceiverID : Account) (saAmount : STAmount) : LES TER := do
  if saAmount.isZero || uSenderID = uReceiverID then return .tesSUCCESS
  if !saAmount.isNative then return ← skywellSend uSenderID uReceiverID saAmount
  cacheCredit uSenderID uReceiverID saAmount
  let sender := getAccountRootIndex uSenderID
  let receiver := getAccountRootIndex uReceiverID
  let hasSender ← if uSenderID ≠ 0 then entryCache sender else pure false
  let hasReceiver ← if uReceiverID ≠ 0 then entryCache receiver else pure false
  let paid ← if hasSender then debitRoot sender saAmount else pure true
  if !paid then return if ← isOpenLedger then .telFAILED_PROCESSING else .tecFAILED_PROCESSING
  if hasReceiver then creditRoot receiver saAmount
  return .tesSUCCESS

/-- `checkState`: releases the sender's reserve and says whether the line is to
be deleted. -/
def checkState (line : Key) (bSenderHigh : Bool) (sender : Account) (before after : STAmount) :
    LES Bool := do
  let state ← deref line
  let flags := state.getFieldU32 sfFlags
  let root := getAccountRootIndex sender
  let hasRoot ← entryCache root
  let senderFlags : LES UInt32 := do
    if !hasRoot then throw .nullPointer
    return (← deref root).getFlags
  if ← releasesReserve bSenderHigh flags state before after senderFlags then
    decrementOwnerCountRef root
    assign line fun sle => sle.setFieldU32 sfFlags (flags &&& ~~~senderReserve bSenderHigh)
    return after.isZero && !hasFlag flags (senderReserve (!bSenderHigh))
  return false

/-- The common part of `issue_iou` and `redeem_iou` on an existing line. -/
def moveOnLine (index : Key) (bSenderHigh : Bool) (sender receiver : Account)
    (amount : STAmount) : LES TER := do
  let balance := (← deref index).getFieldAmount sfBalance
  let start_balance := if bSenderHigh then balance.negate else balance
  let final_balance ← start_balance.sub amount
  let must_delete ← checkState index bSenderHigh sender start_balance final_balance
  let final_balance := if bSenderHigh then final_balance.negate else final_balance
  cacheCredit sender receiver amount
  assign index fun sle => sle.setFieldAmount sfBalance final_balance
  if must_delete then
    trustDelete index (if bSenderHigh then receiver else sender)
      (if bSenderHigh then sender else receiver)
  else
    entryModify index
    return .tesSUCCESS

def issue_iou (account : Account) (amount : STAmount) (issue : Issue) : LES TER := do
  let bSenderHigh : Bool := issue.account > account
  let index := getSkywellStateIndex issue.account account issue.currency
  if !(← entryCache index) then
    let limit := STAmount.zeroOf ⟨issue.currency, account⟩
    let final_balance := amount.setIssuer noAccount
    let receiverAccount := getAccountRootIndex account
    if !(← entryCache receiverAccount) then throw .nullPointer
    let noSkywell := (← deref receiverAccount).getFlags &&& lsfDefaultSkywell == 1
    trustCreate bSenderHigh issue.account account index receiverAccount false noSkywell false
      final_balance limit 0 0
  else moveOnLine index bSenderHigh issue.account account amount

def redeem_iou (account : Account) (amount : STAmount) (issue : Issue) : LES TER := do
  let bSenderHigh : Bool := account > issue.account
  let index := getSkywellStateIndex account issue.account issue.currency
  if !(← entryCache index) then return .tefINTERNAL
  else moveOnLine index bSenderHigh account issue.account amount

/-- `issue_trust_auto` with `autodel` off; the limit is the text "10000000000". -/
def issue_trust_auto (account : Account) (amount : STAmount) (issue : Issue) : LES TER := do
  let bSenderHigh : Bool := account > issue.account
  let index := getSkywellStateIndex account issue.account amount.getCurrency
  if !(← entryCache index) then
    let final_balance := amount.setIssuer noAccount
    let receiverAccount := getAccountRootIndex account
    if !(← entryCache receiverAccount) then throw .nullPointer
    let noSkywell := (← deref receiverAccount).getFlags &&& lsfDefaultSkywell == 0
    let limit ← STAmount.ofIssue ⟨issue.currency, account⟩ 10000000000 0 false
    trustCreate bSenderHigh account issue.account index receiverAccount false noSkywell false
      final_balance limit 0 0
  else return .tesSUCCESS

/-- Whether a relation entry has a given type. -/
def isRelation (type : UInt32) (item : Key × Option SLE) : Option SLE :=
  if item.1.type = .trustState then
    item.2.filter fun sle => sle.getFieldU32 sfRelationType == type
  else none

/-- `AuthorizeAccountGet`. -/
def authorizeAccountGet (account : Account) (currency : Currency) : LES Account := do
  let items ← (← getLedger).visitAccountItems account
  let side (own other : AmountField) (sle : SLE) : Bool :=
    account == (sle.getFieldAmount own).getIssuer &&
      (sle.getFieldAmount own).getCurrency == currency && (sle.getFieldAmount other).signum > 0
  let found := (items.filterMap (isRelation 1)).findSome? fun sle =>
    if side sfLowLimit sfHighLimit sle then some (sle.getFieldAmount sfHighLimit).getIssuer
    else if side sfHighLimit sfLowLimit sle then some (sle.getFieldAmount sfLowLimit).getIssuer
    else none
  return found.getD noAccount

/-- What the owner's offers ask for, on top of `saTakerGets`. -/
def offersFunded (saTakerGets : STAmount) (items : List (Key × Option SLE)) :
    Except Fault STAmount :=
  items.foldlM (fun funded item =>
    match item.1.type, item.2 with
    | .offer, some offer =>
      let takerGets := offer.getFieldAmount sfTakerGets
      if takerGets.getCurrency = saTakerGets.getCurrency ∧
          takerGets.getIssuer = saTakerGets.getIssuer then funded.add takerGets
      else .ok funded
    | _, _ => .ok funded) saTakerGets

/-- What the freeze relations of the account hold back, on top of `saTakerGets`. -/
def frozenBy (account : Account) (saTakerGets : STAmount) (items : List (Key × Option SLE)) :
    Except Fault STAmount :=
  (items.filterMap (isRelation 3)).foldlM (fun frozen sle =>
    let low := sle.getFieldAmount sfLowLimit
    let high := sle.getFieldAmount sfHighLimit
    if account = low.getIssuer ∧ low.getCurrency = saTakerGets.getCurrency ∧ high.signum ≥ 0 then
      frozen.add low
    else if account = high.getIssuer ∧ high.getCurrency = saTakerGets.getCurrency ∧
        low.signum ≥ 0 then frozen.add high
    else .ok frozen) saTakerGets

/-- The amount the authorizing account has set aside; the last relation counts. -/
def authorsAmount (author : Account) (saTakerGets : STAmount) (items : List (Key × Option SLE)) :
    STAmount :=
  (items.filterMap (isRelation 1)).foldl (fun authors sle =>
    let low := sle.getFieldAmount sfLowLimit
    let high := sle.getFieldAmount sfHighLimit
    if low.getIssuer = author ∧ low.getCurrency = saTakerGets.getCurrency ∧ low.signum > 0 then low
    else if high.getIssuer = author ∧ high.getCurrency = saTakerGets.getCurrency ∧
        high.signum > 0 then high
    else authors) {}

/-- The part of `accountFundsCheck` for an account that is short of funds: what
is missing is taken from the account that authorized it. -/
def authorPays (account : Account) (saTakerGets saTakerGetsFunded saFreeze ownerFunds : STAmount) :
    LES TER := do
  let author ← authorizeAccountGet account saTakerGets.getCurrency
  if author = noAccount then return .telINSUF_FUND
  let ledger ← getLedger
  let authors := authorsAmount author saTakerGets (← ledger.visitAccountItems author)
  let authorFunds ← accountFunds author saTakerGets .fhIGNORE_FREEZE
  let authors := if ← authors.le authorFunds then authors else authorFunds
  if authors.isZero then return .telINSUF_FUND
  let total ← (← authors.add ownerFunds).sub saFreeze
  if !(← total.ge saTakerGetsFunded) then return .telINSUF_FUND
  let missing ← (← saTakerGetsFunded.sub ownerFunds).add saFreeze
  if (← accountSend author account missing) = .tesSUCCESS then return .tesSUCCESS
  return .telINSUF_FUND

def accountFundsCheck (config : Config) (account : Account) (saTakerGets : STAmount) :
    LES TER := do
  let ledger ← getLedger
  if !saTakerGets.isNative && ledger.getIssuerOpAccountID config == account then
    return .tesSUCCESS
  let items ← ledger.visitAccountItems account
  let saTakerGetsFunded ← offersFunded saTakerGets items
  let saFreeze ← frozenBy account saTakerGets items
  let saFreeze ← saFreeze.sub saTakerGets
  let ownerFunds ← accountFunds account saTakerGets .fhIGNORE_FREEZE
  let short ← if ownerFunds.isZero then pure true
    else do (← ownerFunds.sub saFreeze).lt saTakerGetsFunded
  if !short then return .tesSUCCESS
  authorPays account saTakerGets saTakerGetsFunded saFreeze ownerFunds

end Skywell.LedgerEntrySet
