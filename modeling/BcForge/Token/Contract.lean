import BcForge.Admin.Multisig
import BcForge.Lifecycle
import BcForge.RateLimit
import BcForge.Soroban.Sep41

/-! The token contract: a SEP-41 token with minters, lockups, batches, replay-protected delegated
batches and the shared administration. -/
namespace BcForge.BcForgeToken

open Soroban Call Admin

structure Recipient where
  dst : Address
  amount : ℤ

inductive BatchOp where
  | approve (spender : Address) (amount : ℤ) (expiration : ℕ)
  | transfer (dst : Address) (amount : ℤ)

structure FeeConfig where
  baseFee : ℤ
  complexityMultiplier : ℕ
  maxFee : ℤ
  enabled : Bool

structure AllowanceData where
  amount : ℤ
  expirationLedger : ℕ

/-- What is stored under an allowance key: a bare amount before the migration. -/
inductive AllowanceEntry where
  | legacy (amount : ℤ)
  | data (d : AllowanceData)

structure LockupState where
  amount : ℤ
  unlockTimestamp : ℕ

inductive TokenError where
  | alreadyInitialized
  | notInitialized
  | invalidAmount
  | insufficientBalance
  | insufficientAllowance
  | contractPaused
  | maxSupplyExceeded
  | alreadyPaused
  | notPaused
  | batchTooLarge
  | batchEmpty
  | payloadExpired
  | payloadReplayed
  | unknownToken
  | decimalsImmutable
  | timelockNotElapsed
  | privilegeProposalNotFound
  | lockupNotFound
  | tokensStillLocked
  | access (e : AdminError)
deriving DecidableEq

/-- The entry points that hold a reentrancy flag of their own. -/
inductive Guard where
  | mint
  | batchMint
  | batchTransfer
  | executeFromContract
  | approve
  | transfer
deriving DecidableEq

structure Store where
  access : Admin.Store
  paused : Bool
  rateLimit : RateLimit.Store
  guard : Guard → Bool
  balance : Address → ℤ
  supply : ℤ
  maxSupply : ℤ
  allowance : Address → Address → Option AllowanceEntry
  allowanceExp : Address → Address → Option ℕ
  lockup : Address → Option LockupState
  nonce : Address → ℕ
  feeConfig : Option FeeConfig
  treasury : Option Address
  feeExemption : Address → Option ℕ
  decimals : Option ℕ
  name : Option String
  symbol : Option String
  foreign : Address → Token

/-- A deployed contract before `initialize` ran. -/
def Store.empty (foreign : Address → Token) : Store where
  access := Admin.Store.empty
  paused := false
  rateLimit := RateLimit.Store.empty
  guard _ := false
  balance _ := 0
  supply := 0
  maxSupply := I128.MAX
  allowance _ _ := none
  allowanceExp _ _ := none
  lockup _ := none
  nonce _ := 0
  feeConfig := none
  treasury := none
  feeExemption _ := none
  decimals := none
  name := none
  symbol := none
  foreign := foreign

abbrev TokenCall := Call Store TokenError

def accessLens : Lens Store Admin.Store where
  get s := s.access
  set a s := { s with access := a }

def pausedLens : Lens Store Bool where
  get s := s.paused
  set b s := { s with paused := b }

def rateLimitLens : Lens Store RateLimit.Store where
  get s := s.rateLimit
  set r s := { s with rateLimit := r }

def guardLens (g : Guard) : Lens Store Bool where
  get s := s.guard g
  set b s := { s with guard := Function.update s.guard g b }

def foreignLens (token : Address) : Lens Store Token where
  get s := s.foreign token
  set t s := { s with foreign := Function.update s.foreign token t }

def admin {α : Type} (x : AdminCall α) : TokenCall α := within accessLens .access x

def reentrancyGuard {α : Type} (g : Guard) (body : TokenCall α) : TokenCall α :=
  guarded (guardLens g) "Reentrancy detected: function is being called recursively" body

def ensureInitialized : TokenCall Unit := do
  let initialized ← gets fun s => hasAdmin s.access
  failIf (initialized = false) .notInitialized

/-- `expect` on the same check: a plain panic instead of a contract error. -/
def expectInitialized : TokenCall Unit := do
  let initialized ← gets fun s => hasAdmin s.access
  trapIf (initialized = false) (.panic "token must be initialized")

def ensureNotPaused : TokenCall Unit := do
  let paused ← gets (·.paused)
  failIf (paused = true) .contractPaused

/-- A rejected operation is reported as an invalid amount. -/
def checkRateLimit (operation : String) (a : Address) : TokenCall Unit := do
  let allowed ← within rateLimitLens (fun e : TokenError => e)
    (RateLimit.internalCheckRateLimit (some a) operation)
  failIf (allowed = false) .invalidAmount

def checkMintRateLimit (a : Address) : TokenCall Unit := checkRateLimit "mint" a

def checkTransferRateLimit (a : Address) : TokenCall Unit := checkRateLimit "transfer" a

def checkTransferFromRateLimit (a : Address) : TokenCall Unit := checkRateLimit "transfer_from" a

def checkBurnRateLimit (a : Address) : TokenCall Unit := checkRateLimit "burn" a

def checkBurnFromRateLimit (a : Address) : TokenCall Unit := checkRateLimit "burn_from" a

def writeBalance (a : Address) (x : ℤ) (s : Store) : Store :=
  { s with balance := Function.update s.balance a x }

def writeSupply (x : ℤ) (s : Store) : Store := { s with supply := x }

def update₂ {α : Type} (f : Address → Address → α) (owner spender : Address) (x : α) :
    Address → Address → α :=
  Function.update f owner (Function.update (f owner) spender x)

/-- Writing the struct entry drops the legacy expiration. -/
def persistAllowanceData (owner spender : Address) (d : AllowanceData) (s : Store) : Store :=
  { s with
    allowance := update₂ s.allowance owner spender (some (.data d))
    allowanceExp := update₂ s.allowanceExp owner spender none }

/-- Reading migrates: a legacy amount and expiration become one struct entry, and a stale
expiration beside a struct entry is dropped. -/
def readAllowanceData (owner spender : Address) : TokenCall AllowanceData := do
  let value ← gets (·.allowance owner spender)
  let exp ← gets (·.allowanceExp owner spender)
  match value with
  | some (.data d) =>
    modify fun s => { s with allowanceExp := update₂ s.allowanceExp owner spender none }
    pure d
  | some (.legacy amount) =>
    modify (persistAllowanceData owner spender ⟨amount, exp.getD 0⟩)
    pure ⟨amount, exp.getD 0⟩
  | none =>
    match exp with
    | some expiration =>
      modify (persistAllowanceData owner spender ⟨0, expiration⟩)
      pure ⟨0, expiration⟩
    | none => pure ⟨0, 0⟩

/-- Expiration ledger 0 means none. -/
def allowanceAmount (owner spender : Address) : TokenCall ℤ := do
  let d ← readAllowanceData owner spender
  let ledger ← Call.ledger
  pure (if 0 < d.expirationLedger ∧ d.expirationLedger < ledger.sequence then 0 else d.amount)

def writeAllowance (owner spender : Address) (amount : ℤ) (exp : ℕ) : TokenCall Unit :=
  modify (persistAllowanceData owner spender ⟨amount, exp⟩)

def getLockedAmount (s : Store) (u : Address) : ℤ := (s.lockup u).elim 0 (·.amount)

/-- A lock reserves its amount until it is withdrawn, also after its time. -/
def getSpendableBalance (s : Store) (u : Address) : ℤ :=
  (I128.checkedSub (s.balance u) (getLockedAmount s u)).getD 0

def moveBalance (src dst : Address) (x : ℤ) : TokenCall Unit := do
  let srcBalance ← gets (·.balance src)
  let spendable ← gets (getSpendableBalance · src)
  failIf (spendable < x) .insufficientBalance
  if src = dst then pure ()
  else
    let dstBalance ← gets (·.balance dst)
    let rest ← i128 (srcBalance - x)
    modify (writeBalance src rest)
    let sum ← i128 (dstBalance + x)
    modify (writeBalance dst sum)

def internalMint (dst : Address) (amount : ℤ) : TokenCall Unit := do
  failIf (amount ≤ 0) .invalidAmount
  let maxSupply ← gets (·.maxSupply)
  let supply ← gets (·.supply)
  let newSupply ← i128 (supply + amount)
  failIf (maxSupply < newSupply) .maxSupplyExceeded
  let balance ← gets (·.balance dst)
  let newBalance ← i128 (balance + amount)
  modify (writeBalance dst newBalance)
  modify (writeSupply newSupply)

def writeLockup (u : Address) (state : Option LockupState) (s : Store) : Store :=
  { s with lockup := Function.update s.lockup u state }

/-- Locks accumulate, and their unlock time only moves back. -/
def lockTokens (caller user : Address) (amount : ℤ) (unlockTimestamp : ℕ) : TokenCall Unit := do
  ensureInitialized
  admin (requireAdmin caller)
  failIf (amount ≤ 0) .invalidAmount
  let existing ← gets (·.lockup user)
  let locked := existing.elim 0 (·.amount)
  let balance ← gets (·.balance user)
  let spendable ← okOr (I128.checkedSub balance locked) .insufficientBalance
  failIf (spendable < amount) .insufficientBalance
  let accumulated ← okOr (I128.checkedAdd locked amount) .invalidAmount
  modify (writeLockup user (some
    ⟨accumulated, existing.elim unlockTimestamp fun l => max l.unlockTimestamp unlockTimestamp⟩))

def withdrawLocked (user : Address) : TokenCall Unit := do
  ensureInitialized
  requireAuth user
  let lock ← gets (·.lockup user)
  let lock ← okOr lock .lockupNotFound
  let ledger ← Call.ledger
  failIf (ledger.timestamp < lock.unlockTimestamp) .tokensStillLocked
  modify (writeLockup user none)

def initializeToken (adminAddress : Address) (decimal : ℕ) (name symbol : String) :
    TokenCall Unit := do
  let self ← Call.self
  requireAuth self
  let initialized ← gets fun s => hasAdmin s.access
  failIf (initialized = true) .alreadyInitialized
  admin (setAdmin adminAddress)
  modify fun s => { s with
    decimals := some decimal
    name := some name
    symbol := some symbol
    supply := 0
    maxSupply := I128.MAX }

def mint (minter dst : Address) (amount : ℤ) : TokenCall Unit := do
  failIf (amount ≤ 0) .invalidAmount
  reentrancyGuard .mint do
    ensureInitialized
    ensureNotPaused
    admin (requireRoleGuard .minter minter)
    checkMintRateLimit minter
    internalMint dst amount

def mintAll (minter : Address) : List Recipient → TokenCall Unit
  | [] => pure ()
  | r :: rest => do
    checkMintRateLimit minter
    internalMint r.dst r.amount
    mintAll minter rest

/-- All amounts are checked before the role is. -/
def batchMint (minter : Address) (recipients : List Recipient) : TokenCall Unit :=
  reentrancyGuard .batchMint do
    ensureInitialized
    ensureNotPaused
    failIf (recipients.any (fun r => decide (r.amount ≤ 0)) = true) .invalidAmount
    admin (requireRoleGuard .minter minter)
    mintAll minter recipients

/-- The checked sum of positive amounts. -/
def batchTotal : List (Address × ℤ) → ℤ → TokenCall ℤ
  | [], total => pure total
  | (_, amount) :: rest, total => do
    failIf (amount ≤ 0) .invalidAmount
    let total ← okOr (I128.checkedAdd total amount) .invalidAmount
    batchTotal rest total

def transferAll (src : Address) : List (Address × ℤ) → TokenCall Unit
  | [] => pure ()
  | (dst, amount) :: rest => do
    checkTransferRateLimit src
    moveBalance src dst amount
    transferAll src rest

def batchTransfer (src : Address) (recipients : List (Address × ℤ)) : TokenCall Unit :=
  reentrancyGuard .batchTransfer do
    ensureInitialized
    ensureNotPaused
    requireAuth src
    let total ← batchTotal recipients 0
    let spendable ← gets (getSpendableBalance · src)
    failIf (spendable < total) .insufficientBalance
    transferAll src recipients

def setMaxSupply (caller : Address) (maxSupply : ℤ) : TokenCall Unit := do
  ensureInitialized
  failIf (maxSupply < 0) .invalidAmount
  admin (requireMinter caller)
  modify fun s => { s with maxSupply := maxSupply }

/-- Errors of a consumed proposal, as the token reports them. -/
def privilegeError : AdminError → TokenError
  | .privilegeTimelockActive => .timelockNotElapsed
  | _ => .privilegeProposalNotFound

def transferOwnership (newAdmin : Address) : TokenCall Unit := do
  ensureInitialized
  let currentAdmin ← admin getAdmin
  admin (requireAdmin currentAdmin)
  within accessLens privilegeError (consumePrivilegeProposal (.transferOwnership newAdmin))
  admin (setAdmin newAdmin)

/-- The library panics on a caller without the role; its returned errors are all reported as a
missing proposal. -/
def proposalError : AdminError → TokenError
  | .unauthorizedRole => .access .unauthorizedRole
  | _ => .privilegeProposalNotFound

def proposePrivilegeAction (submitter : Address) (action : PrivilegeAction) : TokenCall ℕ := do
  ensureInitialized
  within accessLens proposalError (Admin.proposePrivilegeAction submitter action)

def cancelPrivilegeAction (caller : Address) (action : PrivilegeAction) : TokenCall Unit := do
  ensureInitialized
  within accessLens proposalError (Admin.cancelPrivilegeAction caller action)

def rescueTokens (caller token recipient : Address) (amount : ℤ) : TokenCall Unit := do
  ensureInitialized
  admin (requireAdmin caller)
  let self ← Call.self
  failIf (token = self) .unknownToken
  failIf (amount ≤ 0) .invalidAmount
  let balance ← TokenClient.balance (foreignLens token) self
  failIf (balance < amount) .insufficientBalance
  TokenClient.transfer (foreignLens token) self recipient amount

def pause (caller : Address) : TokenCall Unit := do
  ensureInitialized
  let allowed ← gets fun s => isAdminOrPauser s.access caller
  failIf (allowed = false) .contractPaused
  requireAuth caller
  let paused ← gets (·.paused)
  failIf (paused = true) .alreadyPaused
  modify fun s => { s with paused := true }

def unpause (caller : Address) : TokenCall Unit := do
  ensureInitialized
  let allowed ← gets fun s => isAdminOrPauser s.access caller
  failIf (allowed = false) .contractPaused
  requireAuth caller
  let paused ← gets (·.paused)
  failIf (paused = false) .notPaused
  modify fun s => { s with paused := false }

def upgrade (upgrader : Address) (hash : BytesN32) : TokenCall Unit := do
  ensureInitialized
  admin (requireSuperAdmin upgrader)
  admin (updateCurrentContractWasm hash)

def pauseAs (caller : Address) : TokenCall Unit := do
  ensureInitialized
  let paused ← gets (·.paused)
  failIf (paused = true) .alreadyPaused
  Lifecycle.pause accessLens pausedLens .access caller

def unpauseAs (caller : Address) : TokenCall Unit := do
  ensureInitialized
  let paused ← gets (·.paused)
  failIf (paused = false) .notPaused
  Lifecycle.unpause accessLens pausedLens .access caller

def setFeeConfig (caller : Address) (config : FeeConfig) : TokenCall Unit := do
  ensureInitialized
  admin (requireAdmin caller)
  failIf (config.baseFee < 0 ∨ config.maxFee < 0) .invalidAmount
  within accessLens privilegeError (consumePrivilegeProposal .setFeeConfig)
  modify fun s => { s with feeConfig := some config }

def setTreasury (caller treasury : Address) : TokenCall Unit := do
  ensureInitialized
  admin (requireAdmin caller)
  modify fun s => { s with treasury := some treasury }

/-- `none` removes the exemption. -/
def writeFeeExemption (caller a : Address) (exemption : Option ℕ) : TokenCall Unit := do
  ensureInitialized
  admin (requireAdmin caller)
  modify fun s => { s with feeExemption := Function.update s.feeExemption a exemption }

def setFeeExemption (caller a : Address) (exemptionType : ℕ) : TokenCall Unit :=
  writeFeeExemption caller a (some exemptionType)

def removeFeeExemption (caller a : Address) : TokenCall Unit := writeFeeExemption caller a none

/-- The administration's entry points, open once the token is initialized. -/
def governed {α : Type} (x : AdminCall α) : TokenCall α := do
  expectInitialized
  admin x

def executeOperation (src : Address) : BatchOp → TokenCall Unit
  | .approve spender amount expiration => do
    failIf (amount < 0) .invalidAmount
    writeAllowance src spender amount expiration
  | .transfer dst amount => do
    failIf (amount ≤ 0) .invalidAmount
    checkTransferRateLimit src
    moveBalance src dst amount

def executeAll (src : Address) : List BatchOp → TokenCall Unit
  | [] => pure ()
  | op :: rest => do
    executeOperation src op
    executeAll src rest

/-- The nonce is consumed before the operations run. -/
def executeFromContract (src : Address) (operations : List BatchOp) (nonce maxLedger : ℕ) :
    TokenCall Unit :=
  reentrancyGuard .executeFromContract do
    ensureInitialized
    ensureNotPaused
    failIf (operations = []) .batchEmpty
    failIf (8 < operations.length) .batchTooLarge
    let ledger ← Call.ledger
    failIf (0 < maxLedger ∧ maxLedger < ledger.sequence) .payloadExpired
    requireAuth src
    let currentNonce ← gets (·.nonce src)
    failIf (nonce ≠ currentNonce) .payloadReplayed
    let nextNonce ← u64 (currentNonce + 1)
    modify fun s => { s with nonce := Function.update s.nonce src nextNonce }
    executeAll src operations

def allowance (owner spender : Address) : TokenCall ℤ := do
  ensureInitialized
  allowanceAmount owner spender

def approve (owner spender : Address) (amount : ℤ) (exp : ℕ) : TokenCall Unit :=
  reentrancyGuard .approve do
    ensureInitialized
    requireAuth owner
    failIf (amount < 0) .invalidAmount
    writeAllowance owner spender amount exp

def transfer (src dst : Address) (amount : ℤ) : TokenCall Unit :=
  reentrancyGuard .transfer do
    ensureInitialized
    ensureNotPaused
    requireAuth src
    failIf (amount ≤ 0) .invalidAmount
    checkTransferRateLimit src
    moveBalance src dst amount

/-- The remaining allowance keeps its expiration. -/
def transferFrom (spender src dst : Address) (amount : ℤ) : TokenCall Unit := do
  ensureInitialized
  ensureNotPaused
  requireAuth spender
  failIf (amount ≤ 0) .invalidAmount
  checkTransferFromRateLimit spender
  let allowance ← allowanceAmount src spender
  failIf (allowance < amount) .insufficientAllowance
  let d ← readAllowanceData src spender
  moveBalance src dst amount
  let rest ← i128 (allowance - amount)
  writeAllowance src spender rest d.expirationLedger

def burn (src : Address) (amount : ℤ) : TokenCall Unit := do
  ensureInitialized
  ensureNotPaused
  requireAuth src
  failIf (amount ≤ 0) .invalidAmount
  checkBurnRateLimit src
  let balance ← gets (·.balance src)
  let spendable ← gets (getSpendableBalance · src)
  failIf (spendable < amount) .insufficientBalance
  let newBalance ← i128 (balance - amount)
  let supply ← gets (·.supply)
  let newSupply ← i128 (supply - amount)
  modify (writeBalance src newBalance)
  modify (writeSupply newSupply)

def burnFrom (spender src : Address) (amount : ℤ) : TokenCall Unit := do
  ensureInitialized
  ensureNotPaused
  requireAuth spender
  failIf (amount ≤ 0) .invalidAmount
  checkBurnFromRateLimit spender
  let allowance ← allowanceAmount src spender
  failIf (allowance < amount) .insufficientAllowance
  let d ← readAllowanceData src spender
  let balance ← gets (·.balance src)
  let spendable ← gets (getSpendableBalance · src)
  failIf (spendable < amount) .insufficientBalance
  let newBalance ← i128 (balance - amount)
  let supply ← gets (·.supply)
  let newSupply ← i128 (supply - amount)
  let rest ← i128 (allowance - amount)
  writeAllowance src spender rest d.expirationLedger
  modify (writeBalance src newBalance)
  modify (writeSupply newSupply)

def storedName (s : Store) : String := s.name.getD "bc-forge"

def storedSymbol (s : Store) : String := s.symbol.getD "SFG"

def storedDecimals (s : Store) : ℕ := s.decimals.getD 7

def updateName (newName : String) : TokenCall Unit := do
  ensureInitialized
  let adminAddress ← admin getAdmin
  admin (requireAdmin adminAddress)
  modify fun s => { s with name := some newName }

def updateSymbol (newSymbol : String) : TokenCall Unit := do
  ensureInitialized
  let adminAddress ← admin getAdmin
  admin (requireAdmin adminAddress)
  modify fun s => { s with symbol := some newSymbol }

def setMetadata (caller : Address) (name symbol : String) (decimals : ℕ) : TokenCall Unit := do
  ensureInitialized
  admin (requireAdmin caller)
  let stored ← gets storedDecimals
  failIf (decimals ≠ stored) .decimalsImmutable
  modify fun s => { s with name := some name, symbol := some symbol }

def updateMetadata (caller : Address) (name symbol : String) : TokenCall Unit := do
  ensureInitialized
  admin (requireAdmin caller)
  modify fun s => { s with name := some name, symbol := some symbol }

/-- The rate-limit crate is linked into the token, and with it its entry points. -/
def setGlobalRateLimit (caller : Address) (operation : String) (limit windowSeconds : ℕ) :
    TokenCall Unit := do
  admin (requireRoleGuard .admin caller)
  within rateLimitLens (fun e : TokenError => e)
    (RateLimit.internalSetGlobalRateLimit operation limit windowSeconds)

def setAddressRateLimit (caller a : Address) (operation : String) (limit windowSeconds : ℕ) :
    TokenCall Unit := do
  admin (requireRoleGuard .admin caller)
  within rateLimitLens (fun e : TokenError => e)
    (RateLimit.internalSetAddressRateLimit a operation limit windowSeconds)

/-- The entry points that can change the store. -/
inductive Op where
  | lockTokens (caller user : Address) (amount : ℤ) (unlockTimestamp : ℕ)
  | withdrawLocked (user : Address)
  | initializeToken (adminAddress : Address) (decimal : ℕ) (name symbol : String)
  | mint (minter dst : Address) (amount : ℤ)
  | batchMint (minter : Address) (recipients : List Recipient)
  | batchTransfer (src : Address) (recipients : List (Address × ℤ))
  | setMaxSupply (caller : Address) (maxSupply : ℤ)
  | transferOwnership (newAdmin : Address)
  | proposePrivilegeAction (submitter : Address) (action : PrivilegeAction)
  | cancelPrivilegeAction (caller : Address) (action : PrivilegeAction)
  | rescueTokens (caller token recipient : Address) (amount : ℤ)
  | pause (caller : Address)
  | unpause (caller : Address)
  | upgrade (upgrader : Address) (hash : BytesN32)
  | pauseAs (caller : Address)
  | unpauseAs (caller : Address)
  | setFeeConfig (caller : Address) (config : FeeConfig)
  | setTreasury (caller treasury : Address)
  | setFeeExemption (caller a : Address) (exemptionType : ℕ)
  | removeFeeExemption (caller a : Address)
  | createProposal (creator : Address) (description : String)
  | grantRole (caller : Address) (r : Role) (a : Address)
  | revokeRole (caller : Address) (r : Role) (a : Address)
  | createRoleProposal (creator : Address) (r : Role) (target : Address) (description : String)
  | approveProposal (admin : Address) (id : ℕ)
  | executeRoleProposal (executor : Address) (id : ℕ)
  | setAdminPool (pool : List Address) (threshold : ℕ)
  | executeUpgrade (executor : Address) (id : ℕ) (hash : BytesN32)
  | executeFromContract (src : Address) (operations : List BatchOp) (nonce maxLedger : ℕ)
  | allowance (owner spender : Address)
  | approve (owner spender : Address) (amount : ℤ) (exp : ℕ)
  | transfer (src dst : Address) (amount : ℤ)
  | transferFrom (spender src dst : Address) (amount : ℤ)
  | burn (src : Address) (amount : ℤ)
  | burnFrom (spender src : Address) (amount : ℤ)
  | updateName (newName : String)
  | updateSymbol (newSymbol : String)
  | setMetadata (caller : Address) (name symbol : String) (decimals : ℕ)
  | updateMetadata (caller : Address) (name symbol : String)
  | setGlobalRateLimit (caller : Address) (operation : String) (limit windowSeconds : ℕ)
  | setAddressRateLimit (caller a : Address) (operation : String) (limit windowSeconds : ℕ)

def discard {α : Type} (x : TokenCall α) : TokenCall Unit := do
  let _ ← x
  pure ()

def exec : Op → TokenCall Unit
  | .lockTokens caller user amount unlock => BcForgeToken.lockTokens caller user amount unlock
  | .withdrawLocked user => BcForgeToken.withdrawLocked user
  | .initializeToken admin decimal name symbol =>
    BcForgeToken.initializeToken admin decimal name symbol
  | .mint minter dst amount => BcForgeToken.mint minter dst amount
  | .batchMint minter recipients => BcForgeToken.batchMint minter recipients
  | .batchTransfer src recipients => BcForgeToken.batchTransfer src recipients
  | .setMaxSupply caller maxSupply => BcForgeToken.setMaxSupply caller maxSupply
  | .transferOwnership newAdmin => BcForgeToken.transferOwnership newAdmin
  | .proposePrivilegeAction submitter action =>
    discard (BcForgeToken.proposePrivilegeAction submitter action)
  | .cancelPrivilegeAction caller action => BcForgeToken.cancelPrivilegeAction caller action
  | .rescueTokens caller token recipient amount =>
    BcForgeToken.rescueTokens caller token recipient amount
  | .pause caller => BcForgeToken.pause caller
  | .unpause caller => BcForgeToken.unpause caller
  | .upgrade upgrader hash => BcForgeToken.upgrade upgrader hash
  | .pauseAs caller => BcForgeToken.pauseAs caller
  | .unpauseAs caller => BcForgeToken.unpauseAs caller
  | .setFeeConfig caller config => BcForgeToken.setFeeConfig caller config
  | .setTreasury caller treasury => BcForgeToken.setTreasury caller treasury
  | .setFeeExemption caller a exemptionType => BcForgeToken.setFeeExemption caller a exemptionType
  | .removeFeeExemption caller a => BcForgeToken.removeFeeExemption caller a
  | .createProposal creator description =>
    discard (governed (Admin.createProposal creator description))
  | .grantRole caller r a => governed (Admin.grantRole caller r a)
  | .revokeRole caller r a => governed (Admin.revokeRole caller r a)
  | .createRoleProposal creator r target description =>
    discard (governed (Admin.createRoleProposal creator r target description))
  | .approveProposal admin id => governed (Admin.approveProposal admin id)
  | .executeRoleProposal executor id => governed (Admin.executeRoleProposal executor id)
  | .setAdminPool pool threshold => governed (Admin.setAdminPool pool threshold)
  | .executeUpgrade executor id hash => governed (Admin.executeUpgrade executor id hash)
  | .executeFromContract src operations nonce maxLedger =>
    BcForgeToken.executeFromContract src operations nonce maxLedger
  | .allowance owner spender => discard (BcForgeToken.allowance owner spender)
  | .approve owner spender amount exp => BcForgeToken.approve owner spender amount exp
  | .transfer src dst amount => BcForgeToken.transfer src dst amount
  | .transferFrom spender src dst amount => BcForgeToken.transferFrom spender src dst amount
  | .burn src amount => BcForgeToken.burn src amount
  | .burnFrom spender src amount => BcForgeToken.burnFrom spender src amount
  | .updateName newName => BcForgeToken.updateName newName
  | .updateSymbol newSymbol => BcForgeToken.updateSymbol newSymbol
  | .setMetadata caller name symbol decimals => BcForgeToken.setMetadata caller name symbol decimals
  | .updateMetadata caller name symbol => BcForgeToken.updateMetadata caller name symbol
  | .setGlobalRateLimit caller operation limit windowSeconds =>
    BcForgeToken.setGlobalRateLimit caller operation limit windowSeconds
  | .setAddressRateLimit caller a operation limit windowSeconds =>
    BcForgeToken.setAddressRateLimit caller a operation limit windowSeconds

end BcForge.BcForgeToken
