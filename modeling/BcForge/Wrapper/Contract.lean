import BcForge.Lifecycle
import BcForge.Soroban.Run
import BcForge.Soroban.Sep41
import BcForge.Wrapper.Math

/-! The wrapper vault: shares over one underlying SEP-41 token, with two entry and two exit
prices, queued withdrawals, and its own SEP-41 interface. -/
namespace BcForge.Wrapper

open Soroban Call Admin

structure VaultState where
  feeRateBps : ℕ
  feeReceiver : Address
  minDeposit : ℤ
  maxDeposit : ℤ
  exchangeRate : ℤ
  accumulatedFees : ℤ
  lastUpdateTimestamp : ℕ

structure CooldownConfig where
  enabled : Bool
  cooldownLedgers : ℕ
  emergencyCap : ℤ
  emergencyWindowLedgers : ℕ
deriving DecidableEq

structure QueuedWithdrawal where
  shares : ℤ
  amount : ℤ
  releaseLedger : ℕ

structure UserEmergencyState where
  amountWithdrawn : ℤ
  windowStartLedger : ℕ

inductive WrapperError where
  | alreadyInitialized
  | notInitialized
  | invalidAmount
  | insufficientBalance
  | insufficientAllowance
  | contractPaused
  | reentrant
  | alreadyPaused
  | notPaused
  | tokensLocked
  | zeroShares
  | vaultStateNotSet
  | invalidVaultState
  | cooldownNotMet
  | emergencyCapExceeded
  | noQueuedWithdrawal
  | underlyingAssetProtected
  | invalidRescueAmount
  | shareTokenProtected
  | access (e : AdminError)
deriving DecidableEq

/-- The contract's storage, and beside it the ledgers of the tokens it calls: the underlying one
and, by address, any other. -/
structure Store where
  access : Admin.Store
  paused : Bool
  underlyingToken : Option Address
  decimals : Option ℕ
  supply : ℤ
  pendingRewards : ℤ
  balance : Address → ℤ
  allowance : Address → Address → ℤ
  allowanceExp : Address → Address → Option ℕ
  lock : Bool
  vaultState : Option VaultState
  unlockTime : Address → Option ℕ
  cooldownConfig : Option CooldownConfig
  queuedWithdrawal : Address → Option QueuedWithdrawal
  userEmergencyState : Address → Option UserEmergencyState
  underlying : Token
  foreign : Address → Token

/-- A deployed contract before `initialize` ran. -/
def Store.empty (underlying : Token) (foreign : Address → Token) : Store where
  access := Admin.Store.empty
  paused := false
  underlyingToken := none
  decimals := none
  supply := 0
  pendingRewards := 0
  balance _ := 0
  allowance _ _ := 0
  allowanceExp _ _ := none
  lock := false
  vaultState := none
  unlockTime _ := none
  cooldownConfig := none
  queuedWithdrawal _ := none
  userEmergencyState _ := none
  underlying := underlying
  foreign := foreign

abbrev WrapperCall := Call Store WrapperError

def accessLens : Lens Store Admin.Store where
  get s := s.access
  set a s := { s with access := a }

def pausedLens : Lens Store Bool where
  get s := s.paused
  set b s := { s with paused := b }

def underlyingLens : Lens Store Token where
  get s := s.underlying
  set t s := { s with underlying := t }

def foreignLens (token : Address) : Lens Store Token where
  get s := s.foreign token
  set t s := { s with foreign := Function.update s.foreign token t }

def admin {α : Type} (x : AdminCall α) : WrapperCall α := within accessLens .access x

def ensureInitialized : WrapperCall Unit := do
  let initialized ← gets fun s => hasAdmin s.access
  failIf (initialized = false) .notInitialized

def ensureNotPaused : WrapperCall Unit := do
  let paused ← gets (·.paused)
  failIf (paused = true) .contractPaused

def requireUnlocked (user : Address) : WrapperCall Unit := do
  let unlock ← gets (·.unlockTime user)
  let ledger ← Call.ledger
  failIf (unlock.any (fun t => decide (ledger.timestamp < t)) = true) .tokensLocked

def acquireLock : WrapperCall Unit := do
  let held ← gets (·.lock)
  failIf (held = true) .reentrant
  modify fun s => { s with lock := true }

def releaseLock : WrapperCall Unit := modify fun s => { s with lock := false }

def readAdmin : WrapperCall Address := do
  let admin ← gets (·.access.admin)
  okOr admin .notInitialized

def readUnderlying : WrapperCall Address := do
  let token ← gets (·.underlyingToken)
  expect token (.panic "underlying token not set")

def writeBalance (a : Address) (x : ℤ) (s : Store) : Store :=
  { s with balance := Function.update s.balance a x }

def writeSupply (x : ℤ) (s : Store) : Store := { s with supply := x }

/-- An expired allowance reads as zero; expiry ledger 0 means none. -/
def readAllowance (l : Ledger) (owner spender : Address) (s : Store) : ℤ :=
  if (s.allowanceExp owner spender).any (fun e => decide (0 < e ∧ e < l.sequence)) then 0
  else s.allowance owner spender

def writeAllowance (owner spender : Address) (x : ℤ) (expiry : ℕ) (s : Store) : Store :=
  { s with
    allowance := fun o => if o = owner then Function.update (s.allowance owner) spender x
      else s.allowance o
    allowanceExp := fun o => if o = owner then
        Function.update (s.allowanceExp owner) spender (some expiry)
      else s.allowanceExp o }

def moveBalance (src dst : Address) (x : ℤ) : WrapperCall Unit := do
  let srcBalance ← gets (·.balance src)
  failIf (srcBalance < x) .insufficientBalance
  if src = dst then pure ()
  else
    let rest ← i128 (srcBalance - x)
    modify (writeBalance src rest)
    let dstBalance ← gets (·.balance dst)
    let sum ← i128 (dstBalance + x)
    modify (writeBalance dst sum)

def wrapperDecimals (s : Store) : ℕ := s.decimals.getD 7

/-- Shares at the flat rate: decimal scaling and the admin's exchange rate. -/
def calcSharesForAssets (s : Store) (underlyingDecimals : ℕ) (assets : ℤ) : Option ℤ :=
  if assets ≤ 0 then none
  else do
    let scaled ← scaleDecimalsDown assets underlyingDecimals (wrapperDecimals s)
    match s.vaultState with
    | some state =>
      if 0 < state.exchangeRate then mulDivDown scaled SCALING_FACTOR state.exchangeRate
      else some scaled
    | none => some scaled

def calcAssetsForShares (s : Store) (underlyingDecimals : ℕ) (shares : ℤ) : Option ℤ :=
  if shares ≤ 0 then none
  else do
    let scaled ← match s.vaultState with
      | some state =>
        if 0 < state.exchangeRate then mulDivDown shares state.exchangeRate SCALING_FACTOR
        else some shares
      | none => some shares
    scaleDecimalsDown scaled (wrapperDecimals s) underlyingDecimals

def readCooldownConfig (s : Store) : CooldownConfig :=
  s.cooldownConfig.getD ⟨false, 0, 0, 0⟩

def writeQueuedWithdrawal (user : Address) (q : QueuedWithdrawal) (s : Store) : Store :=
  { s with queuedWithdrawal := Function.update s.queuedWithdrawal user (some q) }

def removeQueuedWithdrawal (user : Address) (s : Store) : Store :=
  { s with queuedWithdrawal := Function.update s.queuedWithdrawal user none }

/-- The window's state as of now: restarted once the configured number of ledgers is over. -/
def currentWindow (l : Ledger) (config : CooldownConfig) :
    Option UserEmergencyState → UserEmergencyState
  | some state =>
    if 0 < config.emergencyWindowLedgers ∧
        saturatingU32 (state.windowStartLedger + config.emergencyWindowLedgers) ≤ l.sequence then
      ⟨0, l.sequence⟩
    else state
  | none => ⟨0, l.sequence⟩

def writeUserEmergencyState (user : Address) (state : UserEmergencyState) (s : Store) : Store :=
  { s with userEmergencyState := Function.update s.userEmergencyState user (some state) }

def checkAndUpdateEmergencyCap (user : Address) (requested : ℤ) (config : CooldownConfig) :
    WrapperCall Unit :=
  if 0 < config.emergencyCap then do
    let ledger ← Call.ledger
    let stored ← gets (·.userEmergencyState user)
    let window := currentWindow ledger config stored
    let withdrawn ← okOr (I128.checkedAdd window.amountWithdrawn requested) .invalidAmount
    failIf (config.emergencyCap < withdrawn) .emergencyCapExceeded
    modify (writeUserEmergencyState user { window with amountWithdrawn := withdrawn })
  else pure ()

def initializeVault (admin token : Address) (decimal : ℕ) : WrapperCall Unit := do
  let self ← Call.self
  requireAuth self
  let initialized ← gets fun s => hasAdmin s.access
  failIf (initialized = true) .alreadyInitialized
  Wrapper.admin (setAdmin admin)
  modify fun s => { s with underlyingToken := some token, decimals := some decimal, supply := 0 }

def mintShares (caller : Address) (shares : ℤ) : WrapperCall Unit := do
  let balance ← gets (·.balance caller)
  let newBalance ← i128 (balance + shares)
  modify (writeBalance caller newBalance)
  let supply ← gets (·.supply)
  let newSupply ← i128 (supply + shares)
  modify (writeSupply newSupply)

def wrap (caller : Address) (amount : ℤ) : WrapperCall Unit := do
  ensureInitialized
  ensureNotPaused
  requireAuth caller
  failIf (amount ≤ 0) .invalidAmount
  acquireLock
  let _ ← readUnderlying
  let self ← Call.self
  TokenClient.transferFrom underlyingLens self caller self amount
  let underlyingDecimals ← TokenClient.decimals underlyingLens
  let wrapped ← gets (calcSharesForAssets · underlyingDecimals amount)
  let wrapped ← okOr wrapped .invalidAmount
  failIf (wrapped ≤ 0) .invalidAmount
  mintShares caller wrapped
  releaseLock

/-- Shares at the price before the deposit, which the transfer has already raised. -/
def deposit (caller : Address) (assets : ℤ) : WrapperCall ℤ := do
  ensureInitialized
  ensureNotPaused
  requireAuth caller
  failIf (assets ≤ 0) .invalidAmount
  acquireLock
  let _ ← readUnderlying
  let self ← Call.self
  TokenClient.transferFrom underlyingLens self caller self assets
  let totalShares ← gets (·.supply)
  let totalAssetsAfter ← TokenClient.balance underlyingLens self
  let totalAssetsBefore ← okOr (I128.checkedSub totalAssetsAfter assets) .invalidAmount
  failIf (totalAssetsBefore < 0) .invalidAmount
  let sharesOut ← okOr (convertToShares assets totalShares totalAssetsBefore) .invalidAmount
  failIf (sharesOut ≤ 0) .invalidAmount
  mintShares caller sharesOut
  releaseLock
  pure sharesOut

def burnShares (owner : Address) (shares : ℤ) : WrapperCall Unit := do
  let balance ← gets (·.balance owner)
  let rest ← i128 (balance - shares)
  modify (writeBalance owner rest)
  let supply ← gets (·.supply)
  let newSupply ← i128 (supply - shares)
  modify (writeSupply newSupply)

def unwrap (caller : Address) (wrappedAmount : ℤ) : WrapperCall Unit := do
  ensureInitialized
  ensureNotPaused
  requireAuth caller
  failIf (wrappedAmount ≤ 0) .invalidAmount
  requireUnlocked caller
  let balance ← gets (·.balance caller)
  failIf (balance < wrappedAmount) .insufficientBalance
  acquireLock
  let _ ← readUnderlying
  let underlyingDecimals ← TokenClient.decimals underlyingLens
  let amount ← gets (calcAssetsForShares · underlyingDecimals wrappedAmount)
  let amount ← okOr amount .invalidAmount
  failIf (amount ≤ 0) .invalidAmount
  burnShares caller wrappedAmount
  let self ← Call.self
  TokenClient.transfer underlyingLens self caller amount
  releaseLock

def rescueTokens (caller token recipient : Address) (amount : ℤ) : WrapperCall Unit := do
  ensureInitialized
  admin (requireAdmin caller)
  let underlying ← readUnderlying
  failIf (token = underlying) .underlyingAssetProtected
  let self ← Call.self
  failIf (token = self) .shareTokenProtected
  failIf (amount ≤ 0) .invalidRescueAmount
  let balance ← TokenClient.balance (foreignLens token) self
  failIf (balance < amount) .insufficientBalance
  TokenClient.transfer (foreignLens token) self recipient amount

def pauseAs (caller : Address) : WrapperCall Unit := do
  ensureInitialized
  let paused ← gets (·.paused)
  failIf (paused = true) .alreadyPaused
  Lifecycle.pause accessLens pausedLens .access caller

def unpauseAs (caller : Address) : WrapperCall Unit := do
  ensureInitialized
  let paused ← gets (·.paused)
  failIf (paused = false) .notPaused
  Lifecycle.unpause accessLens pausedLens .access caller

def pause : WrapperCall Unit := do
  let admin ← readAdmin
  let paused ← gets (·.paused)
  failIf (paused = true) .alreadyPaused
  Lifecycle.pause accessLens pausedLens .access admin

def unpause : WrapperCall Unit := do
  let admin ← readAdmin
  let paused ← gets (·.paused)
  failIf (paused = false) .notPaused
  Lifecycle.unpause accessLens pausedLens .access admin

def distributeRewards (caller : Address) (amount : ℤ) : WrapperCall Unit := do
  ensureInitialized
  ensureNotPaused
  requireAuth caller
  failIf (amount ≤ 0) .invalidAmount
  acquireLock
  let _ ← readUnderlying
  let self ← Call.self
  TokenClient.transferFrom underlyingLens self caller self amount
  let pending ← gets (·.pendingRewards)
  let total ← okOr (I128.checkedAdd pending amount) .invalidAmount
  modify fun s => { s with pendingRewards := total }
  releaseLock

def setCooldownConfig (caller : Address) (config : CooldownConfig) : WrapperCall Unit := do
  ensureInitialized
  admin (requireAdmin caller)
  failIf (config.emergencyCap < 0) .invalidAmount
  modify fun s => { s with cooldownConfig := some config }

def claimWithdrawal (caller : Address) : WrapperCall ℤ := do
  ensureInitialized
  ensureNotPaused
  requireAuth caller
  let queued ← gets (·.queuedWithdrawal caller)
  let queued ← okOr queued .noQueuedWithdrawal
  let ledger ← Call.ledger
  failIf (ledger.sequence < queued.releaseLedger) .cooldownNotMet
  acquireLock
  modify (removeQueuedWithdrawal caller)
  let _ ← readUnderlying
  let self ← Call.self
  TokenClient.transfer underlyingLens self caller queued.amount
  releaseLock
  pure queued.amount

/-- The exit itself. With the cooldown on, the payout is queued and stays in the vault. -/
def withdrawShares (caller : Address) (shares : ℤ) : WrapperCall ℤ := do
  requireUnlocked caller
  let balance ← gets (·.balance caller)
  failIf (balance < shares) .insufficientBalance
  acquireLock
  let _ ← readUnderlying
  let self ← Call.self
  let totalShares ← gets (·.supply)
  let totalAssets ← TokenClient.balance underlyingLens self
  let tokensOut ← okOr (convertToAssets shares totalShares totalAssets) .invalidAmount
  failIf (tokensOut ≤ 0) .invalidAmount
  let config ← gets readCooldownConfig
  checkAndUpdateEmergencyCap caller tokensOut config
  burnShares caller shares
  if config.enabled = true then
    let ledger ← Call.ledger
    modify (writeQueuedWithdrawal caller
      ⟨shares, tokensOut, saturatingU32 (ledger.sequence + config.cooldownLedgers)⟩)
    releaseLock
    pure 0
  else
    TokenClient.transfer underlyingLens self caller tokensOut
    releaseLock
    pure tokensOut

/-- Zero shares claim a pending withdrawal, so no second one can be queued meanwhile. -/
def withdraw (caller : Address) (shares : ℤ) : WrapperCall ℤ := do
  ensureInitialized
  ensureNotPaused
  requireAuth caller
  let queued ← gets (·.queuedWithdrawal caller)
  if shares = 0 then
    if queued.isSome = true then claimWithdrawal caller else fail .invalidAmount
  else
    failIf (shares < 0) .invalidAmount
    failIf (queued.isSome = true) .cooldownNotMet
    withdrawShares caller shares

def setUnlockTime (caller user : Address) (unlock : ℕ) : WrapperCall Unit := do
  ensureInitialized
  admin (requireAdmin caller)
  modify fun s => { s with unlockTime := Function.update s.unlockTime user (some unlock) }

def clearUnlockTime (caller user : Address) : WrapperCall Unit := do
  ensureInitialized
  admin (requireAdmin caller)
  modify fun s => { s with unlockTime := Function.update s.unlockTime user none }

def setVaultState (caller : Address) (state : VaultState) : WrapperCall Unit := do
  ensureInitialized
  admin (requireAdmin caller)
  failIf (10000 < state.feeRateBps ∨ state.minDeposit < 0 ∨ state.maxDeposit < state.minDeposit ∨
    state.exchangeRate ≤ 0 ∨ state.accumulatedFees < 0) .invalidVaultState
  modify fun s => { s with vaultState := some state }

/-- The contract's own conversions are at the flat rate. -/
def WrapperContract.convertToShares (assets : ℤ) : WrapperCall ℤ := do
  ensureInitialized
  failIf (assets ≤ 0) .invalidAmount
  let _ ← readUnderlying
  let underlyingDecimals ← TokenClient.decimals underlyingLens
  let shares ← gets (calcSharesForAssets · underlyingDecimals assets)
  okOr shares .invalidAmount

def WrapperContract.convertToAssets (shares : ℤ) : WrapperCall ℤ := do
  ensureInitialized
  failIf (shares ≤ 0) .invalidAmount
  let _ ← readUnderlying
  let underlyingDecimals ← TokenClient.decimals underlyingLens
  let assets ← gets (calcAssetsForShares · underlyingDecimals shares)
  okOr assets .invalidAmount

def previewDeposit (assets : ℤ) : WrapperCall ℤ := WrapperContract.convertToShares assets

def previewWithdraw (shares : ℤ) : WrapperCall ℤ := WrapperContract.convertToAssets shares

def approve (owner spender : Address) (amount : ℤ) (expiry : ℕ) : WrapperCall Unit := do
  ensureInitialized
  requireAuth owner
  failIf (amount < 0) .invalidAmount
  modify (writeAllowance owner spender amount expiry)

def transfer (src dst : Address) (amount : ℤ) : WrapperCall Unit := do
  ensureInitialized
  ensureNotPaused
  requireAuth src
  failIf (amount ≤ 0) .invalidAmount
  moveBalance src dst amount

/-- The remaining allowance keeps its expiry. -/
def spendAllowance (owner spender : Address) (rest : ℤ) : WrapperCall Unit := do
  let expiry ← gets (·.allowanceExp owner spender)
  modify (writeAllowance owner spender rest (expiry.getD 0))

def transferFrom (spender src dst : Address) (amount : ℤ) : WrapperCall Unit := do
  ensureInitialized
  ensureNotPaused
  requireAuth spender
  failIf (amount ≤ 0) .invalidAmount
  let ledger ← Call.ledger
  let allowance ← gets (readAllowance ledger src spender)
  failIf (allowance < amount) .insufficientAllowance
  moveBalance src dst amount
  let rest ← i128 (allowance - amount)
  spendAllowance src spender rest

def burn (owner : Address) (amount : ℤ) : WrapperCall Unit := do
  ensureInitialized
  ensureNotPaused
  requireAuth owner
  failIf (amount ≤ 0) .invalidAmount
  let balance ← gets (·.balance owner)
  failIf (balance < amount) .insufficientBalance
  burnShares owner amount

def burnFrom (spender owner : Address) (amount : ℤ) : WrapperCall Unit := do
  ensureInitialized
  ensureNotPaused
  requireAuth spender
  failIf (amount ≤ 0) .invalidAmount
  let ledger ← Call.ledger
  let allowance ← gets (readAllowance ledger owner spender)
  failIf (allowance < amount) .insufficientAllowance
  let balance ← gets (·.balance owner)
  failIf (balance < amount) .insufficientBalance
  let rest ← i128 (allowance - amount)
  spendAllowance owner spender rest
  burnShares owner amount

/-- The vault's entry points, and what others do on the underlying token. -/
inductive Op where
  | wrap (caller : Address) (amount : ℤ)
  | deposit (caller : Address) (assets : ℤ)
  | unwrap (caller : Address) (wrappedAmount : ℤ)
  | withdraw (caller : Address) (shares : ℤ)
  | claimWithdrawal (caller : Address)
  | distributeRewards (caller : Address) (amount : ℤ)
  | rescueTokens (caller token recipient : Address) (amount : ℤ)
  | pause
  | unpause
  | pauseAs (caller : Address)
  | unpauseAs (caller : Address)
  | setCooldownConfig (caller : Address) (config : CooldownConfig)
  | setUnlockTime (caller user : Address) (unlock : ℕ)
  | clearUnlockTime (caller user : Address)
  | setVaultState (caller : Address) (state : VaultState)
  | approve (owner spender : Address) (amount : ℤ) (expiry : ℕ)
  | transfer (src dst : Address) (amount : ℤ)
  | transferFrom (spender src dst : Address) (amount : ℤ)
  | burn (owner : Address) (amount : ℤ)
  | burnFrom (spender owner : Address) (amount : ℤ)
  | underlyingMint (dst : Address) (amount : ℤ)
  | underlyingTransfer (src dst : Address) (amount : ℤ)
  | underlyingApprove (owner spender : Address) (amount : ℤ)

def exec : Op → WrapperCall Unit
  | .wrap caller amount => Wrapper.wrap caller amount
  | .deposit caller assets => do
    let _ ← Wrapper.deposit caller assets
    pure ()
  | .unwrap caller wrappedAmount => Wrapper.unwrap caller wrappedAmount
  | .withdraw caller shares => do
    let _ ← Wrapper.withdraw caller shares
    pure ()
  | .claimWithdrawal caller => do
    let _ ← Wrapper.claimWithdrawal caller
    pure ()
  | .distributeRewards caller amount => Wrapper.distributeRewards caller amount
  | .rescueTokens caller token recipient amount =>
    Wrapper.rescueTokens caller token recipient amount
  | .pause => Wrapper.pause
  | .unpause => Wrapper.unpause
  | .pauseAs caller => Wrapper.pauseAs caller
  | .unpauseAs caller => Wrapper.unpauseAs caller
  | .setCooldownConfig caller config => Wrapper.setCooldownConfig caller config
  | .setUnlockTime caller user unlock => Wrapper.setUnlockTime caller user unlock
  | .clearUnlockTime caller user => Wrapper.clearUnlockTime caller user
  | .setVaultState caller state => Wrapper.setVaultState caller state
  | .approve owner spender amount expiry => Wrapper.approve owner spender amount expiry
  | .transfer src dst amount => Wrapper.transfer src dst amount
  | .transferFrom spender src dst amount => Wrapper.transferFrom spender src dst amount
  | .burn owner amount => Wrapper.burn owner amount
  | .burnFrom spender owner amount => Wrapper.burnFrom spender owner amount
  | .underlyingMint dst amount => TokenClient.commit underlyingLens (·.mint dst amount)
  | .underlyingTransfer src dst amount => do
    requireAuth src
    TokenClient.transfer underlyingLens src dst amount
  | .underlyingApprove owner spender amount => do
    requireAuth owner
    TokenClient.commit underlyingLens fun t => some (t.approve owner spender amount)

end BcForge.Wrapper
