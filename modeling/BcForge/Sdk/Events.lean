import BcForge.Sdk.Emitted

/-! The SDK's view of a contract event: `decodeEvent` and the decoders of the data tuples. -/
namespace BcForge.Sdk

open Soroban

/-- `bcForgeEventType`. -/
inductive EventType where
  | initialized | mint | burn | transfer | transferFrom | approve | ownershipTransferred
  | paused | unpaused | clawback | locked | withdrawLocked
  deriving DecidableEq, Repr

def EventType.symbol : EventType → String
  | .initialized => "init"
  | .mint => "mint"
  | .burn => "burn"
  | .transfer => "xfer"
  | .transferFrom => "xfer_frm"
  | .approve => "approve"
  | .ownershipTransferred => "own_xfer"
  | .paused => "paused"
  | .unpaused => "unpause"
  | .clawback => "clawback"
  | .locked => "lock"
  | .withdrawLocked => "unlock"

/-- `Object.values(bcForgeEventType)`. -/
def EventType.values : List EventType :=
  [.initialized, .mint, .burn, .transfer, .transferFrom, .approve, .ownershipTransferred,
    .paused, .unpaused, .clawback, .locked, .withdrawLocked]

/-- What `scValToNative` returns. -/
inductive Native where
  | undefined
  | boolean (b : Bool)
  | number (n : ℤ)
  | bigint (n : ℤ)
  | bytes (b : BytesN32)
  | text (s : String)
  | array (vs : List Native)
  | object (entries : List (String × Native))

/-- `t === value` for a string `t`. -/
def Native.isText : Native → String → Bool
  | .text s, t => s == t
  | _, _ => false

/-- What `Number` returns: a number is kept; nothing below looks into any other conversion. -/
inductive JsNumber where
  | int (n : ℤ)
  | converted (v : Native)

def toNumber : Native → JsNumber
  | .number n => .int n
  | v => .converted v

structure EventResponse where
  topic : Option (List ScVal)
  value : ScVal
  ledger : ℕ
  contractId : Option String
  txHash : Option String
  id : Option String

/-- `bcForgeEvent`. -/
structure BcForgeEvent where
  type : EventType
  ledger : ℕ
  contractId : String
  data : Native
  txHash : Option String

/-- The type whose string value this is, if there is one. -/
def EventType.find (topicSymbol : Native) : Option EventType :=
  EventType.values.find? fun t => topicSymbol.isText t.symbol

/-- `scValToNative` belongs to another package; `none` is an exception it throws. -/
def decodeEvent (scValToNative : ScVal → Option Native) (event : EventResponse) :
    Option BcForgeEvent :=
  match event.topic with
  | none | some [] => none
  | some (topic :: _) => do
    -- the catch clause turns an exception of either conversion into `null`
    let topicSymbol ← scValToNative topic
    let type ← EventType.find topicSymbol
    let data ← scValToNative event.value
    return {
      type
      ledger := event.ledger
      contractId := event.contractId.getD ""
      data
      txHash := event.txHash <|> event.id }

structure VersionedTuple where
  fields : List Native
  version : JsNumber

/-- The element at a position; past the end it is `undefined`. -/
def VersionedTuple.at (t : VersionedTuple) (i : ℕ) : Native := t.fields.getD i .undefined

def decodeVersionedTuple (data : Native) (fieldCount : ℕ) : Option VersionedTuple :=
  match data with
  | .array vs =>
    if vs.length = fieldCount + 1 then
      some ⟨vs, toNumber (vs.getD fieldCount .undefined)⟩
    else if vs.length = fieldCount then
      -- emitted before the events carried a version
      some ⟨vs, .int 0⟩
    else none
  | _ => none

structure MintEventData where
  version : JsNumber
  admin : Native
  dst : Native
  amount : Native
  newBalance : Native
  newSupply : Native

def decodeMintEventData (data : Native) : Option MintEventData := do
  let decoded ← decodeVersionedTuple data 5
  return ⟨decoded.version, decoded.at 0, decoded.at 1, decoded.at 2, decoded.at 3, decoded.at 4⟩

structure BurnEventData where
  version : JsNumber
  src : Native
  amount : Native
  newBalance : Native
  newSupply : Native

def decodeBurnEventData (data : Native) : Option BurnEventData := do
  let decoded ← decodeVersionedTuple data 4
  return ⟨decoded.version, decoded.at 0, decoded.at 1, decoded.at 2, decoded.at 3⟩

structure TransferEventData where
  version : JsNumber
  src : Native
  dst : Native
  amount : Native

def decodeTransferEventData (data : Native) : Option TransferEventData := do
  let decoded ← decodeVersionedTuple data 3
  return ⟨decoded.version, decoded.at 0, decoded.at 1, decoded.at 2⟩

structure TransferFromEventData where
  version : JsNumber
  spender : Native
  src : Native
  dst : Native
  amount : Native
  remainingAllowance : Native

def decodeTransferFromEventData (data : Native) : Option TransferFromEventData := do
  let decoded ← decodeVersionedTuple data 5
  return ⟨decoded.version, decoded.at 0, decoded.at 1, decoded.at 2, decoded.at 3, decoded.at 4⟩

structure DepositEventData where
  version : JsNumber
  caller : Native
  assets : Native
  shares : Native

def decodeDepositEventData (data : Native) : Option DepositEventData := do
  let decoded ← decodeVersionedTuple data 3
  return ⟨decoded.version, decoded.at 0, decoded.at 1, decoded.at 2⟩

structure WithdrawEventData where
  version : JsNumber
  caller : Native
  shares : Native
  underlyingAmount : Native

def decodeWithdrawEventData (data : Native) : Option WithdrawEventData := do
  let decoded ← decodeVersionedTuple data 3
  return ⟨decoded.version, decoded.at 0, decoded.at 1, decoded.at 2⟩

end BcForge.Sdk
