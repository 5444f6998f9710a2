import BcForge.Indexer.Ledger

/-! What the RPC delivers and what `processEvent` reads out of it. -/
namespace BcForge.Indexer

/-- A value after `scValToNative`: addresses and symbols become strings, integers bigints. -/
inductive Native where
  | text (s : String)
  | int (n : ℤ)
  deriving DecidableEq, Repr

/-- The first topic of an event; `other` is any symbol the switch has no case for. -/
inductive Topic where
  | mint | burn | xfer | xferFrm | deposit | wrap | unwrap | vRel | pyoSucc
  | other (symbol : String)
  deriving DecidableEq, Repr

structure EventResponse where
  /-- Absent when the event has no topics. -/
  topic : Option Topic
  /-- The data tuple, decoded. -/
  value : List Native
  ledger : ℕ
  txHash : String
  /-- Absent when the RPC sends no parseable close time. -/
  ledgerClosedAt : Option ℤ
  deriving DecidableEq, Repr

/-- The event tables of the schema. -/
inductive Model where
  | mint | transfer | burn | vaultDeposit | wrapperUpdate | vestingClaim | splitDistribution
  deriving DecidableEq, Repr

/-- The tables of the token's own events, the ones with aggregates. -/
def Model.isToken : Model → Bool
  | .mint | .transfer | .burn => true
  | .vaultDeposit | .wrapperUpdate | .vestingClaim | .splitDistribution => false

inductive WrapKind where
  | wrap | unwrap
  deriving DecidableEq, Repr

/-- The columns of a row that differ from table to table. -/
inductive RowData where
  | mint (dst : String) (amount : ℤ)
  | transfer (src dst : String) (amount : ℤ)
  | burn (src : String) (amount : ℤ)
  | vaultDeposit (caller assets shares : String)
  | wrapperUpdate (kind : WrapKind) (caller amount resultAmount : String)
  | vestingClaim (beneficiary amount : String)
  | splitDistribution (invoiceId recipient amount : String)
  deriving DecidableEq, Repr

structure Row where
  data : RowData
  ledger : ℕ
  txHash : String
  deriving DecidableEq, Repr

/-- What the catch clause of `processEvent` can see. -/
inductive IndexerError where
  | missingField
  | invalidValue
  /-- Prisma's `P2002`. -/
  | uniqueConstraint
  | databaseFailure
  deriving DecidableEq, Repr

/-- What a case of the switch hands to the database: a row for one table and, for the token's own
events, the ledger event with the `new_supply` of the payload. -/
structure Entry where
  model : Model
  data : RowData
  change : Option (LedgerEvent × Option ℤ)
  deriving DecidableEq, Repr

/-- A column of type `String`: Prisma refuses anything else. -/
def addressAt (decoded : List Native) (i : ℕ) : Except IndexerError String :=
  match decoded[i]? with
  | some (.text s) => .ok s
  | _ => .error .invalidValue

/-- An amount that `toBigInt` accepts. -/
def amountAt (decoded : List Native) (i : ℕ) : Except IndexerError ℤ :=
  match decoded[i]? with
  | some (.int n) => .ok n
  | _ => .error .invalidValue

/-- The optional `new_supply`. -/
def supplyAt (decoded : List Native) (i : ℕ) : Except IndexerError (Option ℤ) :=
  match decoded[i]? with
  | none => .ok none
  | some (.int n) => .ok (some n)
  | some (.text _) => .error .invalidValue

def scValString : Option Native → Except IndexerError String
  | none => .error .missingField
  | some (.int n) => .ok (toString n)
  | some (.text s) => .ok s

/-- The switch on the topic. The tuple is read at fixed positions only, so trailing fields are
free to change. -/
def decodeEvent (event : EventResponse) : Except IndexerError (Option Entry) :=
  let decoded := event.value
  match event.topic with
  | some .mint => do
    -- (admin, to, amount, new_balance, new_supply, version)
    let dst ← addressAt decoded 1
    let amount ← amountAt decoded 2
    let newSupply ← supplyAt decoded 4
    return some ⟨.mint, .mint dst amount, some (.mint dst amount, newSupply)⟩
  | some .burn => do
    -- (from, amount, new_balance, new_supply, version)
    let src ← addressAt decoded 0
    let amount ← amountAt decoded 1
    let newSupply ← supplyAt decoded 3
    return some ⟨.burn, .burn src amount, some (.burn src amount, newSupply)⟩
  | some .xfer => do
    -- (from, to, amount, version)
    let src ← addressAt decoded 0
    let dst ← addressAt decoded 1
    let amount ← amountAt decoded 2
    return some ⟨.transfer, .transfer src dst amount, some (.transfer src dst amount, none)⟩
  | some .xferFrm => do
    -- (spender, from, to, amount, remaining_allowance, version)
    let src ← addressAt decoded 1
    let dst ← addressAt decoded 2
    let amount ← amountAt decoded 3
    return some ⟨.transfer, .transfer src dst amount, some (.transfer src dst amount, none)⟩
  | some .deposit => do
    let caller ← scValString decoded[0]?
    let assets ← scValString decoded[1]?
    let shares ← scValString decoded[2]?
    return some ⟨.vaultDeposit, .vaultDeposit caller assets shares, none⟩
  | some .wrap => do
    let caller ← scValString decoded[0]?
    let amount ← scValString decoded[1]?
    let resultAmount ← scValString decoded[2]?
    return some ⟨.wrapperUpdate, .wrapperUpdate .wrap caller amount resultAmount, none⟩
  | some .unwrap => do
    let caller ← scValString decoded[0]?
    let amount ← scValString decoded[1]?
    let resultAmount ← scValString decoded[2]?
    return some ⟨.wrapperUpdate, .wrapperUpdate .unwrap caller amount resultAmount, none⟩
  | some .vRel => do
    let beneficiary ← scValString decoded[0]?
    let amount ← scValString decoded[1]?
    return some ⟨.vestingClaim, .vestingClaim beneficiary amount, none⟩
  | some .pyoSucc => do
    let invoiceId ← scValString decoded[0]?
    let recipient ← scValString decoded[1]?
    let amount ← scValString decoded[2]?
    return some ⟨.splitDistribution, .splitDistribution invoiceId recipient amount, none⟩
  | some (.other _) | none => return none

/-- The mint, burn and transfer events as the token contract publishes them. -/
inductive TokenEvent where
  | mint (admin dst : String) (amount newBalance newSupply : ℤ)
  | burn (src : String) (amount newBalance newSupply : ℤ)
  | transfer (src dst : String) (amount : ℤ)
  | transferFrom (spender src dst : String) (amount remainingAllowance : ℤ)
  deriving DecidableEq, Repr

namespace TokenEvent

def EVENT_SCHEMA_VERSION : ℤ := 1

def topic : TokenEvent → Topic
  | .mint .. => .mint
  | .burn .. => .burn
  | .transfer .. => .xfer
  | .transferFrom .. => .xferFrm

/-- The data tuple, in the order of the contract's `emit_*` functions. -/
def data : TokenEvent → List Native
  | .mint admin dst amount newBalance newSupply =>
    [.text admin, .text dst, .int amount, .int newBalance, .int newSupply,
      .int EVENT_SCHEMA_VERSION]
  | .burn src amount newBalance newSupply =>
    [.text src, .int amount, .int newBalance, .int newSupply, .int EVENT_SCHEMA_VERSION]
  | .transfer src dst amount =>
    [.text src, .text dst, .int amount, .int EVENT_SCHEMA_VERSION]
  | .transferFrom spender src dst amount remainingAllowance =>
    [.text spender, .text src, .text dst, .int amount, .int remainingAllowance,
      .int EVENT_SCHEMA_VERSION]

/-- The table an event belongs to. -/
def model : TokenEvent → Model
  | .mint .. => .mint
  | .burn .. => .burn
  | .transfer .. | .transferFrom .. => .transfer

/-- What an event says happened to the ledger. -/
def ledgerEvent : TokenEvent → LedgerEvent
  | .mint _ dst amount _ _ => .mint dst amount
  | .burn src amount _ _ => .burn src amount
  | .transfer src dst amount | .transferFrom _ src dst amount _ => .transfer src dst amount

/-- The row that records an event. -/
def rowData : TokenEvent → RowData
  | .mint _ dst amount _ _ => .mint dst amount
  | .burn src amount _ _ => .burn src amount
  | .transfer src dst amount | .transferFrom _ src dst amount _ => .transfer src dst amount

def newSupply : TokenEvent → Option ℤ
  | .mint _ _ _ _ newSupply | .burn _ _ _ newSupply => some newSupply
  | .transfer .. | .transferFrom .. => none

end TokenEvent

/-- A token event in its place on the chain. -/
structure Emission where
  event : TokenEvent
  ledger : ℕ
  txHash : String
  ledgerClosedAt : Option ℤ
  deriving DecidableEq, Repr

namespace Emission

def response (e : Emission) : EventResponse where
  topic := some e.event.topic
  value := e.event.data
  ledger := e.ledger
  txHash := e.txHash
  ledgerClosedAt := e.ledgerClosedAt

def row (e : Emission) : Row := ⟨e.event.rowData, e.ledger, e.txHash⟩

/-- The switch reads every token event back as it was published. -/
theorem decode_response (e : Emission) : decodeEvent e.response =
    .ok (some ⟨e.event.model, e.event.rowData, some (e.event.ledgerEvent, e.event.newSupply)⟩) := by
  obtain ⟨event, _, _, _⟩ := e
  cases event <;> rfl

end Emission

end BcForge.Indexer
