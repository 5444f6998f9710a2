import BcForge.RateLimit
import BcForge.Wrapper.Book

/-! The yield vault: shares over one underlying SEP-41 token at the plain pro-rata price, with
rate-limited deposits and queued withdrawals. Configuration, queue entries and emergency windows are
the records of the wrapper. -/
namespace BcForge.YieldVault

open Soroban Call Admin Wrapper

inductive VaultError where
  | alreadyInitialized
  | notInitialized
  | invalidAmount
  | insufficientBalance
  | contractPaused
  | cannotRescueUnderlying
  | rateLimited
  | cooldownNotMet
  | emergencyCapExceeded
  | noQueuedWithdrawal
  | access (e : AdminError)
deriving DecidableEq

/-- The contract's storage, and beside it the ledgers of the tokens it calls. No entry point pauses
the vault or sets a rate limit, but both are read. -/
structure Store where
  access : Admin.Store
  paused : Bool
  rateLimit : RateLimit.Store
  underlyingToken : Option Address
  supply : ℤ
  balance : Address → ℤ
  cooldownConfig : Option CooldownConfig
  queuedWithdrawal : Address → Option QueuedWithdrawal
  userEmergencyState : Address → Option UserEmergencyState
  underlying : Token
  foreign : Address → Token

/-- A deployed contract before `initialize` ran. -/
def Store.empty (underlying : Token) (foreign : Address → Token) : Store where
  access := Admin.Store.empty
  paused := false
  rateLimit := RateLimit.Store.empty
  underlyingToken := none
  supply := 0
  balance _ := 0
  cooldownConfig := none
  queuedWithdrawal _ := none
  userEmergencyState _ := none
  underlying := underlying
  foreign := foreign

abbrev VaultCall := Call Store VaultError

def accessLens : Lens Store Admin.Store where
  get s := s.access
  set a s := { s with access := a }

def rateLimitLens : Lens Store RateLimit.Store where
  get s := s.rateLimit
  set r s := { s with rateLimit := r }

def underlyingLens : Lens Store Token where
  get s := s.underlying
  set t s := { s with underlying := t }

def foreignLens (token : Address) : Lens Store Token where
  get s := s.foreign token
  set t s := { s with foreign := Function.update s.foreign token t }

def admin {α : Type} (x : AdminCall α) : VaultCall α := within accessLens .access x

def ensureInitialized : VaultCall Unit := do
  let initialized ← gets fun s => hasAdmin s.access
  failIf (initialized = false) .notInitialized

def ensureNotPaused : VaultCall Unit := do
  let paused ← gets (·.paused)
  failIf (paused = true) .contractPaused

def rateLimitDeposits (caller : Address) : VaultCall Unit := do
  let allowed ← within rateLimitLens id (RateLimit.internalCheckRateLimit (some caller) "deposit")
  failIf (allowed = false) .rateLimited

def readUnderlying : VaultCall Address := do
  let token ← gets (·.underlyingToken)
  expect token (.panic "underlying token not set")

def writeSupply (x : ℤ) (s : Store) : Store := { s with supply := x }

def writeBalance (a : Address) (x : ℤ) (s : Store) : Store :=
  { s with balance := Function.update s.balance a x }

def readCooldownConfig (s : Store) : CooldownConfig := s.cooldownConfig.getD ⟨false, 0, 0, 0⟩

def writeQueuedWithdrawal (user : Address) (q : QueuedWithdrawal) (s : Store) : Store :=
  { s with queuedWithdrawal := Function.update s.queuedWithdrawal user (some q) }

def removeQueuedWithdrawal (user : Address) (s : Store) : Store :=
  { s with queuedWithdrawal := Function.update s.queuedWithdrawal user none }

def writeUserEmergencyState (user : Address) (state : UserEmergencyState) (s : Store) : Store :=
  { s with userEmergencyState := Function.update s.userEmergencyState user (some state) }

def checkAndUpdateEmergencyCap (user : Address) (requested : ℤ) (config : CooldownConfig) :
    VaultCall Unit :=
  if 0 < config.emergencyCap then do
    let ledger ← Call.ledger
    let stored ← gets (·.userEmergencyState user)
    let window := currentWindow ledger config stored
    let withdrawn ← okOr (I128.checkedAdd window.amountWithdrawn requested) .invalidAmount
    failIf (config.emergencyCap < withdrawn) .emergencyCapExceeded
    modify (writeUserEmergencyState user { window with amountWithdrawn := withdrawn })
  else pure ()

/-- `a.checked_mul(b)` and then `checked_div(c)`. -/
def mulDiv (a b c : ℤ) : Option ℤ :=
  (I128.checkedMul a b).bind fun product => if c = 0 then none else I128.checked (product.tdiv c)

def initializeVault (admin token : Address) : VaultCall Unit := do
  let self ← Call.self
  requireAuth self
  let initialized ← gets fun s => hasAdmin s.access
  failIf (initialized = true) .alreadyInitialized
  YieldVault.admin (setAdmin admin)
  modify fun s => { s with underlyingToken := some token, supply := 0 }

/-- Shares one to one while there are none, and while there is nothing behind them. -/
def sharesFor (assets totalShares totalAssetsAfter : ℤ) : Option ℤ :=
  if totalShares = 0 then some assets
  else
    let totalAssetsBefore := (I128.checkedSub totalAssetsAfter assets).getD 0
    if totalAssetsBefore ≤ 0 then some assets
    else mulDiv assets totalShares totalAssetsBefore

def deposit (caller : Address) (assets minSharesOut : ℤ) : VaultCall ℤ := do
  ensureInitialized
  ensureNotPaused
  requireAuth caller
  failIf (assets ≤ 0) .invalidAmount
  rateLimitDeposits caller
  let _ ← readUnderlying
  let self ← Call.self
  TokenClient.transferFrom underlyingLens self caller self assets
  let totalShares ← gets (·.supply)
  let totalAssetsAfter ← TokenClient.balance underlyingLens self
  let sharesOut ← okOr (sharesFor assets totalShares totalAssetsAfter) .invalidAmount
  failIf (sharesOut ≤ 0) .invalidAmount
  failIf (sharesOut < minSharesOut) .invalidAmount
  let balance ← gets (·.balance caller)
  let newBalance ← i128 (balance + sharesOut)
  modify (writeBalance caller newBalance)
  let newSupply ← i128 (totalShares + sharesOut)
  modify (writeSupply newSupply)
  pure sharesOut

def setCooldownConfig (caller : Address) (config : CooldownConfig) : VaultCall Unit := do
  ensureInitialized
  admin (requireAdmin caller)
  failIf (config.emergencyCap < 0) .invalidAmount
  modify fun s => { s with cooldownConfig := some config }

def claimWithdrawal (caller : Address) : VaultCall ℤ := do
  ensureInitialized
  requireAuth caller
  let queued ← gets (·.queuedWithdrawal caller)
  let queued ← okOr queued .noQueuedWithdrawal
  let ledger ← Call.ledger
  failIf (ledger.sequence < queued.releaseLedger) .cooldownNotMet
  modify (removeQueuedWithdrawal caller)
  let _ ← readUnderlying
  let self ← Call.self
  TokenClient.transfer underlyingLens self caller queued.amount
  pure queued.amount

/-- The exit itself: the price counts everything the vault holds, what it has queued included. -/
def withdrawShares (caller : Address) (shares minTokensOut : ℤ) : VaultCall ℤ := do
  let balance ← gets (·.balance caller)
  failIf (balance < shares) .insufficientBalance
  let _ ← readUnderlying
  let self ← Call.self
  let totalShares ← gets (·.supply)
  let totalAssets ← TokenClient.balance underlyingLens self
  let tokensOut ← okOr (mulDiv shares totalAssets totalShares) .invalidAmount
  failIf (tokensOut ≤ 0 ∨ tokensOut < minTokensOut) .invalidAmount
  let config ← gets readCooldownConfig
  checkAndUpdateEmergencyCap caller tokensOut config
  let rest ← i128 (balance - shares)
  modify (writeBalance caller rest)
  let newSupply ← i128 (totalShares - shares)
  modify (writeSupply newSupply)
  if config.enabled = true then
    let ledger ← Call.ledger
    modify (writeQueuedWithdrawal caller
      ⟨shares, tokensOut, saturatingU32 (ledger.sequence + config.cooldownLedgers)⟩)
    pure 0
  else
    TokenClient.transfer underlyingLens self caller tokensOut
    pure tokensOut

/-- Zero shares claim a pending withdrawal. Unlike deposits, exits are open while paused. -/
def withdraw (caller : Address) (shares minTokensOut : ℤ) : VaultCall ℤ := do
  ensureInitialized
  requireAuth caller
  let queued ← gets (·.queuedWithdrawal caller)
  if shares = 0 then
    if queued.isSome = true then claimWithdrawal caller else fail .invalidAmount
  else
    failIf (shares < 0) .invalidAmount
    failIf (queued.isSome = true) .cooldownNotMet
    withdrawShares caller shares minTokensOut

/-- The vault has no `transfer` of its own, and the host refuses to call back into it. -/
def rescueTokens (caller token recipient : Address) (amount : ℤ) : VaultCall Unit := do
  ensureInitialized
  admin (requireAdmin caller)
  let underlying ← readUnderlying
  failIf (token = underlying) .cannotRescueUnderlying
  failIf (amount ≤ 0) .invalidAmount
  let self ← Call.self
  trapIf (token = self) .host
  TokenClient.transfer (foreignLens token) self recipient amount

/-- The vault's entry points, and what others do on the underlying token. -/
inductive Op where
  | deposit (caller : Address) (assets minSharesOut : ℤ)
  | withdraw (caller : Address) (shares minTokensOut : ℤ)
  | claimWithdrawal (caller : Address)
  | setCooldownConfig (caller : Address) (config : CooldownConfig)
  | rescueTokens (caller token recipient : Address) (amount : ℤ)
  | underlyingMint (dst : Address) (amount : ℤ)
  | underlyingTransfer (src dst : Address) (amount : ℤ)
  | underlyingApprove (owner spender : Address) (amount : ℤ)

def exec : Op → VaultCall Unit
  | .deposit caller assets minSharesOut => do
    let _ ← YieldVault.deposit caller assets minSharesOut
    pure ()
  | .withdraw caller shares minTokensOut => do
    let _ ← YieldVault.withdraw caller shares minTokensOut
    pure ()
  | .claimWithdrawal caller => do
    let _ ← YieldVault.claimWithdrawal caller
    pure ()
  | .setCooldownConfig caller config => YieldVault.setCooldownConfig caller config
  | .rescueTokens caller token recipient amount =>
    YieldVault.rescueTokens caller token recipient amount
  | .underlyingMint dst amount => TokenClient.commit underlyingLens (·.mint dst amount)
  | .underlyingTransfer src dst amount => do
    requireAuth src
    TokenClient.transfer underlyingLens src dst amount
  | .underlyingApprove owner spender amount => do
    requireAuth owner
    TokenClient.commit underlyingLens fun t => some (t.approve owner spender amount)

end BcForge.YieldVault
