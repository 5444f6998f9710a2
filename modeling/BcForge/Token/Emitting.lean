import BcForge.Sdk.Emitted
import BcForge.Soroban.Publish
import BcForge.Token.Allowance

/-! The token's entry points with the events they publish. The events of the library calls inside
them are not among these. -/
namespace BcForge.BcForgeToken.Emitting

open Soroban Call Admin Sdk

abbrev EmittingCall := Call (Logged Store TokenEvent) TokenError

def reentrancyGuard {α : Type} (g : Guard) (body : EmittingCall α) : EmittingCall α :=
  guarded (loggedFlag (guardLens g))
    "Reentrancy detected: function is being called recursively" body

/-- The event carries the balance and the supply just written. -/
def internalMint (adminAddress dst : Address) (amount : ℤ) : EmittingCall Unit := do
  silently (BcForgeToken.internalMint dst amount)
  emits fun s => [.mint adminAddress dst amount (s.balance dst) s.supply]

def mint (minter dst : Address) (amount : ℤ) : EmittingCall Unit := do
  silently (failIf (amount ≤ 0) .invalidAmount)
  reentrancyGuard .mint do
    silently ensureInitialized
    silently ensureNotPaused
    silently (admin (requireRoleGuard .minter minter))
    silently (checkMintRateLimit minter)
    internalMint minter dst amount

def mintAll (minter : Address) : List Recipient → EmittingCall Unit
  | [] => pure ()
  | r :: rest => do
    silently (checkMintRateLimit minter)
    internalMint minter r.dst r.amount
    mintAll minter rest

def batchMint (minter : Address) (recipients : List Recipient) : EmittingCall Unit :=
  reentrancyGuard .batchMint do
    silently ensureInitialized
    silently ensureNotPaused
    silently
      (failIf (recipients.any (fun r => decide (r.amount ≤ 0)) = true) .invalidAmount)
    silently (admin (requireRoleGuard .minter minter))
    mintAll minter recipients

/-- A move and the event every caller of it publishes behind it. -/
def moveAndEmit (src dst : Address) (amount : ℤ) : EmittingCall Unit := do
  silently (moveBalance src dst amount)
  emits fun _ => [.transfer src dst amount]

def transferAll (src : Address) : List (Address × ℤ) → EmittingCall Unit
  | [] => pure ()
  | (dst, amount) :: rest => do
    silently (checkTransferRateLimit src)
    moveAndEmit src dst amount
    transferAll src rest

def batchTransfer (src : Address) (recipients : List (Address × ℤ)) : EmittingCall Unit :=
  reentrancyGuard .batchTransfer do
    silently ensureInitialized
    silently ensureNotPaused
    silently (requireAuth src)
    let total ← silently (batchTotal recipients 0)
    let spendable ← silently (gets (getSpendableBalance · src))
    silently (failIf (spendable < total) .insufficientBalance)
    transferAll src recipients

def executeOperation (src : Address) : BatchOp → EmittingCall Unit
  | .approve spender amount expiration => do
    silently (failIf (amount < 0) .invalidAmount)
    silently (writeAllowance src spender amount expiration)
    emits fun _ => [.approve src spender amount expiration]
  | .transfer dst amount => do
    silently (failIf (amount ≤ 0) .invalidAmount)
    silently (checkTransferRateLimit src)
    moveAndEmit src dst amount

def executeAll (src : Address) : List BatchOp → EmittingCall Unit
  | [] => pure ()
  | op :: rest => do
    executeOperation src op
    executeAll src rest

def executeFromContract (src : Address) (operations : List BatchOp) (nonce maxLedger : ℕ) :
    EmittingCall Unit :=
  reentrancyGuard .executeFromContract do
    silently ensureInitialized
    silently ensureNotPaused
    silently (failIf (operations = []) .batchEmpty)
    silently (failIf (8 < operations.length) .batchTooLarge)
    let ledger ← silently Call.ledger
    silently (failIf (0 < maxLedger ∧ maxLedger < ledger.sequence) .payloadExpired)
    silently (requireAuth src)
    let currentNonce ← silently (gets (·.nonce src))
    silently (failIf (nonce ≠ currentNonce) .payloadReplayed)
    let nextNonce ← silently (u64 (currentNonce + 1))
    silently (modify fun s => { s with nonce := Function.update s.nonce src nextNonce })
    executeAll src operations
    emits fun _ => [.batchExecute src operations.length]

def transfer (src dst : Address) (amount : ℤ) : EmittingCall Unit :=
  reentrancyGuard .transfer do
    silently ensureInitialized
    silently ensureNotPaused
    silently (requireAuth src)
    silently (failIf (amount ≤ 0) .invalidAmount)
    silently (checkTransferRateLimit src)
    moveAndEmit src dst amount

/-- The event carries the allowance just written. -/
def transferFrom (spender src dst : Address) (amount : ℤ) : EmittingCall Unit := do
  silently (BcForgeToken.transferFrom spender src dst amount)
  emits fun s => [.transferFrom spender src dst amount (effective s src spender).amount]

def burn (src : Address) (amount : ℤ) : EmittingCall Unit := do
  silently (BcForgeToken.burn src amount)
  emits fun s => [.burn src amount (s.balance src) s.supply]

def burnFrom (spender src : Address) (amount : ℤ) : EmittingCall Unit := do
  silently (BcForgeToken.burnFrom spender src amount)
  emits fun s => [.burn src amount (s.balance src) s.supply]

def withdrawLocked (user : Address) : EmittingCall Unit := do
  let lock ← silently (gets (·.lockup user))
  silently (BcForgeToken.withdrawLocked user)
  emits fun _ => (lock.map fun l => .withdrawLocked user l.amount).toList

def transferOwnership (newAdmin : Address) : EmittingCall Unit := do
  let currentAdmin ← silently (gets (·.access.admin))
  silently (BcForgeToken.transferOwnership newAdmin)
  emits fun _ => (currentAdmin.map (.ownershipTransferred · newAdmin)).toList

def updateName (newName : String) : EmittingCall Unit := do
  let oldName ← silently (gets storedName)
  silently (BcForgeToken.updateName newName)
  emits fun s => (s.access.admin.map (.updateName · oldName newName)).toList

def updateSymbol (newSymbol : String) : EmittingCall Unit := do
  let oldSymbol ← silently (gets storedSymbol)
  silently (BcForgeToken.updateSymbol newSymbol)
  emits fun s => (s.access.admin.map (.updateSymbol · oldSymbol newSymbol)).toList

/-- A call that publishes one event, made of its own arguments, when it is done. -/
def announced (x : TokenCall Unit) (e : TokenEvent) : EmittingCall Unit := do
  silently x
  emits fun _ => [e]

def exec : Op → EmittingCall Unit
  | .lockTokens caller user amount unlock => do
    silently (BcForgeToken.lockTokens caller user amount unlock)
    emits fun s => ((s.lockup user).map (.locked user amount ·.unlockTimestamp)).toList
  | .withdrawLocked user => withdrawLocked user
  | .initializeToken admin decimal name symbol =>
    announced (BcForgeToken.initializeToken admin decimal name symbol)
      (.initialized admin decimal name symbol)
  | .mint minter dst amount => mint minter dst amount
  | .batchMint minter recipients => batchMint minter recipients
  | .batchTransfer src recipients => batchTransfer src recipients
  | .setMaxSupply caller maxSupply =>
    announced (BcForgeToken.setMaxSupply caller maxSupply) (.maxSupplyChanged caller maxSupply)
  | .transferOwnership newAdmin => transferOwnership newAdmin
  | .rescueTokens caller token recipient amount =>
    announced (BcForgeToken.rescueTokens caller token recipient amount)
      (.rescued caller token recipient amount)
  | .pause caller => announced (BcForgeToken.pause caller) (.paused caller)
  | .unpause caller => announced (BcForgeToken.unpause caller) (.unpaused caller)
  | .upgrade upgrader hash =>
    announced (BcForgeToken.upgrade upgrader hash) (.upgraded upgrader hash)
  | .pauseAs caller => announced (BcForgeToken.pauseAs caller) (.paused caller)
  | .unpauseAs caller => announced (BcForgeToken.unpauseAs caller) (.unpaused caller)
  | .setFeeConfig caller config =>
    announced (BcForgeToken.setFeeConfig caller config) (.feeConfigSet caller config)
  | .setTreasury caller treasury =>
    announced (BcForgeToken.setTreasury caller treasury) (.treasurySet caller treasury)
  | .setFeeExemption caller a exemptionType =>
    announced (BcForgeToken.setFeeExemption caller a exemptionType)
      (.feeExemptionSet caller a exemptionType)
  | .removeFeeExemption caller a =>
    announced (BcForgeToken.removeFeeExemption caller a) (.feeExemptionRemoved caller a)
  | .executeFromContract src operations nonce maxLedger =>
    executeFromContract src operations nonce maxLedger
  | .approve owner spender amount exp =>
    announced (BcForgeToken.approve owner spender amount exp) (.approve owner spender amount exp)
  | .transfer src dst amount => transfer src dst amount
  | .transferFrom spender src dst amount => transferFrom spender src dst amount
  | .burn src amount => burn src amount
  | .burnFrom spender src amount => burnFrom spender src amount
  | .updateName newName => updateName newName
  | .updateSymbol newSymbol => updateSymbol newSymbol
  | .setMetadata caller name symbol decimals =>
    announced (BcForgeToken.setMetadata caller name symbol decimals)
      (.metadataUpdated caller name symbol)
  | .updateMetadata caller name symbol =>
    announced (BcForgeToken.updateMetadata caller name symbol)
      (.metadataUpdated caller name symbol)
  | op => silently (BcForgeToken.exec op)

variable {α : Type} {src : Address}

theorem erases_reentrancyGuard {g : Guard} {y : EmittingCall α} {x : TokenCall α}
    (h : Erases y x) : Erases (reentrancyGuard g y) (BcForgeToken.reentrancyGuard g x) :=
  erases_guarded h

theorem erases_internalMint (minter dst : Address) (amount : ℤ) :
    Erases (internalMint minter dst amount) (BcForgeToken.internalMint dst amount) :=
  erases_silently.emits _

theorem erases_moveAndEmit (dst : Address) (amount : ℤ) :
    Erases (moveAndEmit src dst amount) (moveBalance src dst amount) :=
  erases_silently.emits _

theorem erases_announced (x : TokenCall Unit) (e : TokenEvent) : Erases (announced x e) x :=
  erases_silently.emits _

theorem erases_mintAll (minter : Address) (recipients : List Recipient) :
    Erases (mintAll minter recipients) (BcForgeToken.mintAll minter recipients) := by
  induction recipients with
  | nil => exact erases_pure ()
  | cons r rest ih =>
    exact erases_silently.bind fun _ => (erases_internalMint _ _ _).bind fun _ => ih

theorem erases_transferAll (recipients : List (Address × ℤ)) :
    Erases (transferAll src recipients) (BcForgeToken.transferAll src recipients) := by
  induction recipients with
  | nil => exact erases_pure ()
  | cons r rest ih =>
    exact erases_silently.bind fun _ => (erases_moveAndEmit _ _).bind fun _ => ih

theorem erases_executeOperation (op : BatchOp) :
    Erases (executeOperation src op) (BcForgeToken.executeOperation src op) := by
  cases op with
  | approve spender amount expiration =>
    exact erases_silently.bind fun _ => erases_silently.emits _
  | transfer dst amount =>
    exact erases_silently.bind fun _ => erases_silently.bind fun _ => erases_moveAndEmit _ _

theorem erases_executeAll (operations : List BatchOp) :
    Erases (executeAll src operations) (BcForgeToken.executeAll src operations) := by
  induction operations with
  | nil => exact erases_pure ()
  | cons op rest ih => exact (erases_executeOperation op).bind fun _ => ih

/-- Publishing changes nothing else: without its events every entry point is the one it was. -/
theorem erases_exec (op : Op) : Erases (exec op) (BcForgeToken.exec op) := by
  cases op with
  | lockTokens caller user amount unlock => exact erases_silently.emits _
  | withdrawLocked user => exact erases_silently_gets fun _ => erases_silently.emits _
  | mint minter dst amount =>
    exact erases_silently.bind fun _ => erases_reentrancyGuard <| erases_silently.bind fun _ =>
      erases_silently.bind fun _ => erases_silently.bind fun _ => erases_silently.bind fun _ =>
      erases_internalMint minter dst amount
  | batchMint minter recipients =>
    exact erases_reentrancyGuard <| erases_silently.bind fun _ => erases_silently.bind fun _ =>
      erases_silently.bind fun _ => erases_silently.bind fun _ => erases_mintAll minter recipients
  | batchTransfer src recipients =>
    exact erases_reentrancyGuard <| erases_silently.bind fun _ => erases_silently.bind fun _ =>
      erases_silently.bind fun _ => erases_silently.bind fun _ => erases_silently.bind fun _ =>
      erases_silently.bind fun _ => erases_transferAll recipients
  | transferOwnership newAdmin => exact erases_silently_gets fun _ => erases_silently.emits _
  | executeFromContract src operations nonce maxLedger =>
    exact erases_reentrancyGuard <| erases_silently.bind fun _ => erases_silently.bind fun _ =>
      erases_silently.bind fun _ => erases_silently.bind fun _ => erases_silently.bind fun _ =>
      erases_silently.bind fun _ => erases_silently.bind fun _ => erases_silently.bind fun _ =>
      erases_silently.bind fun _ => erases_silently.bind fun _ => erases_silently.bind fun _ =>
      (erases_executeAll operations).emits _
  | transfer src dst amount =>
    exact erases_reentrancyGuard <| erases_silently.bind fun _ => erases_silently.bind fun _ =>
      erases_silently.bind fun _ => erases_silently.bind fun _ => erases_silently.bind fun _ =>
      erases_moveAndEmit dst amount
  | transferFrom spender src dst amount => exact erases_silently.emits _
  | burn src amount => exact erases_silently.emits _
  | burnFrom spender src amount => exact erases_silently.emits _
  | updateName newName => exact erases_silently_gets fun _ => erases_silently.emits _
  | updateSymbol newSymbol => exact erases_silently_gets fun _ => erases_silently.emits _
  | _ => first | exact erases_announced _ _ | exact erases_silently

end BcForge.BcForgeToken.Emitting
