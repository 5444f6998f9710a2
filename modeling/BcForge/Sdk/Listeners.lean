import BcForge.Sdk.Events

/-! The polling listeners of the SDK, and which events their callbacks get to see. -/
namespace BcForge.Sdk

/-- What a listener makes of an event. -/
inductive Selection (α : Type) where
  | ignored
  /-- Its key, and what the callback is called with unless the data do not decode. -/
  | selected (key : Option String) (data : Option α)
  /-- The conversion of the data throws, with the key noted already. -/
  | thrown (key : Option String)

def truthy (s : Option String) : Option String := s.filter (· ≠ "")

def selectMint (scValToNative : ScVal → Option Native) (event : EventResponse) :
    Selection (BcForgeEvent × MintEventData) :=
  match decodeEvent scValToNative event with
  | none => .ignored
  | some decoded =>
    if decoded.type = .mint then
      .selected (truthy decoded.txHash <|> truthy event.txHash <|> truthy event.id)
        ((decodeMintEventData decoded.data).map fun data => (decoded, data))
    else .ignored

def selectTransfer (scValToNative : ScVal → Option Native) (event : EventResponse) :
    Selection (BcForgeEvent × (TransferEventData ⊕ TransferFromEventData)) :=
  match decodeEvent scValToNative event with
  | none => .ignored
  | some decoded =>
    if decoded.type = .transfer ∨ decoded.type = .transferFrom then
      .selected (truthy decoded.txHash <|> truthy event.txHash <|> truthy event.id)
        (if decoded.type = .transfer then
          (decodeTransferEventData decoded.data).map fun data => (decoded, .inl data)
        else (decodeTransferFromEventData decoded.data).map fun data => (decoded, .inr data))
    else .ignored

/-- The event made up for a deposit; its type is the string `deposit`, which the enum lacks. -/
structure VaultDeposit where
  ledger : ℕ
  contractId : String
  data : Native
  txHash : Option String

def selectVaultDeposit (scValToNative : ScVal → Option Native) (contractId : String)
    (event : EventResponse) : Selection (VaultDeposit × DepositEventData) :=
  -- an exception of this conversion is ignored
  let topicSymbol := (event.topic.bind List.head?).bind scValToNative
  if topicSymbol.any (·.isText "deposit") then
    let key := truthy event.txHash <|> truthy event.id
    match scValToNative event.value with
    | none => .thrown key
    | some value => .selected key ((decodeDepositEventData value).map fun data =>
        (⟨event.ledger, event.contractId.getD contractId, value,
          truthy event.txHash <|> event.id⟩, data))
  else .ignored

/-- The variables of a listener, and the calls of its callback so far. -/
structure Listening (α : Type) where
  lastLedger : ℕ
  seenTxHashes : List String
  delivered : List α

variable {α : Type}

def Listening.advance (l : Listening α) (event : EventResponse) : Listening α :=
  if l.lastLedger ≤ event.ledger then { l with lastLedger := event.ledger + 1 } else l

/-- The events of a page, each with whether the callback throws when it is called with it. -/
abbrev Page := List (EventResponse × Bool)

/-- The loop over a page; an exception ends it. -/
def handlePage (select : EventResponse → Selection α) : Listening α → Page → Listening α
  | l, [] => l
  | l, (event, callbackThrows) :: rest =>
    match select event with
    | .ignored => handlePage select (l.advance event) rest
    | .thrown key =>
      -- `continue` skips the cursor
      if key.any (· ∈ l.seenTxHashes) then handlePage select l rest
      else { l with seenTxHashes := l.seenTxHashes ++ key.toList }
    | .selected key data =>
      if key.any (· ∈ l.seenTxHashes) then handlePage select l rest
      else
        let noted := { l with seenTxHashes := l.seenTxHashes ++ key.toList }
        match data with
        | none => handlePage select (noted.advance event) rest
        | some data =>
          let called := { noted with delivered := noted.delivered ++ [data] }
          if callbackThrows then called
          else handlePage select (called.advance event) rest

/-- What `getEvents` answers to a poll. Of the contract's events `skipped` come before the page; the
listener is not told. -/
inductive Answer where
  | failed
  | page (skipped : ℕ) (events : Page)

def pollEvents (select : EventResponse → Selection α) (l : Listening α) : Answer → Listening α
  | .failed => l
  | .page _ events => handlePage select l events

/-- The ledger a listener starts from, given the option and the answer of `getLatestLedger`. -/
def startLedger (option latest : Option ℕ) : ℕ := option.getD (latest.getD 0)

def listen (select : EventResponse → Selection α) (start : ℕ) (answers : List Answer) :
    Listening α :=
  answers.foldl (pollEvents select) ⟨start, [], []⟩

def onMint (scValToNative : ScVal → Option Native) (option latest : Option ℕ)
    (answers : List Answer) : Listening (BcForgeEvent × MintEventData) :=
  listen (selectMint scValToNative) (startLedger option latest) answers

def onTransfer (scValToNative : ScVal → Option Native) (option latest : Option ℕ)
    (answers : List Answer) :
    Listening (BcForgeEvent × (TransferEventData ⊕ TransferFromEventData)) :=
  listen (selectTransfer scValToNative) (startLedger option latest) answers

def onVaultDeposit (scValToNative : ScVal → Option Native) (contractId : String)
    (option latest : Option ℕ) (answers : List Answer) :
    Listening (VaultDeposit × DepositEventData) :=
  listen (selectVaultDeposit scValToNative contractId) (startLedger option latest) answers

namespace Selection

def key : Selection α → Option String
  | .ignored => none
  | .selected key _ | .thrown key => key

/-- What the callback is due. -/
def due : Selection α → Option α
  | .selected _ data => data
  | .ignored | .thrown _ => none

def throws : Selection α → Bool
  | .thrown _ => true
  | .ignored | .selected _ _ => false

end Selection

end BcForge.Sdk
