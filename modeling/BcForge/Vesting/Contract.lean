import BcForge.Admin.Rbac
import BcForge.Soroban.Run
import BcForge.Soroban.Sep41

/-! The vesting contract: schedules with a cliff, a linear curve and milestone tranches, released
to their beneficiaries or revoked by the administrator. -/
namespace BcForge.Vesting

open Soroban Call Admin

structure VestingSchedule where
  beneficiary : Address
  totalAmount : ℤ
  cliffLedger : ℕ
  endLedger : ℕ
  releasedAmount : ℤ
  revocable : Bool

structure Milestone where
  unlockLedger : ℕ
  amount : ℤ

structure StoredVestingSchedule where
  schedule : VestingSchedule
  startLedger : ℕ
  revokedAtLedger : Option ℕ
  scheduleId : ℕ

structure VestingInfo where
  scheduleId : ℕ
  schedule : VestingSchedule
  startLedger : ℕ
  claimableAmount : ℤ
  revoked : Bool

inductive VestingError where
  | alreadyInitialized
  | notInitialized
  | invalidAmount
  | invalidDuration
  | cliffAfterEnd
  | scheduleNotFound
  | notRevocable
  | alreadyRevoked
  | milestonesNotSorted
  | invalidMilestoneAmount
  | milestoneTotalExceedsTotal
  | unauthorizedClaimer
  | cliffNotReached
  | access (e : AdminError)
deriving DecidableEq

inductive Guard where
  | createVesting
  | release
  | revoke
  | setMilestones
  | authorizeClaimer
  | claimOnBehalf
deriving DecidableEq

/-- The contract's storage, and beside it the token it pays in: its ledger, and the transfers it
traps on for reasons of its own, whatever the balances. -/
structure Store where
  access : Admin.Store
  tokenId : Option Address
  nextScheduleId : ℕ
  schedule : ℕ → Option StoredVestingSchedule
  beneficiarySchedules : Address → List ℕ
  claimDelegates : Address → List Address
  milestones : ℕ → List Milestone
  guard : Guard → Bool
  token : Token
  refuses : Address → Address → ℤ → Bool

def Store.empty (token : Token) (refuses : Address → Address → ℤ → Bool) : Store where
  access := Admin.Store.empty
  tokenId := none
  nextScheduleId := 0
  schedule _ := none
  beneficiarySchedules _ := []
  claimDelegates _ := []
  milestones _ := []
  guard _ := false
  token := token
  refuses := refuses

abbrev VestingCall := Call Store VestingError

def accessLens : Lens Store Admin.Store where
  get s := s.access
  set a s := { s with access := a }

def tokenLens : Lens Store Token where
  get s := s.token
  set t s := { s with token := t }

def guardLens (g : Guard) : Lens Store Bool where
  get s := s.guard g
  set b s := { s with guard := Function.update s.guard g b }

def admin {α : Type} (x : AdminCall α) : VestingCall α := within accessLens .access x

def reentrancyGuard {α : Type} (g : Guard) (body : VestingCall α) : VestingCall α :=
  guarded (guardLens g) "Reentrancy detected: function is being called recursively" body

def ensureInitialized : VestingCall Unit := do
  let initialized ← gets fun s => hasAdmin s.access && s.tokenId.isSome
  failIf (initialized = false) .notInitialized

/-- The stored administrator, who has to sign. -/
def requireStoredAdmin : VestingCall Address := do
  let adminAddress ← admin getAdmin
  admin (requireAdmin adminAddress)
  pure adminAddress

def readToken : VestingCall Address := do
  let token ← gets (·.tokenId)
  expect token (.panic "vesting token not set")

def allocateScheduleId : VestingCall ℕ := do
  let id ← gets (·.nextScheduleId)
  let next ← u64 (id + 1)
  modify fun s => { s with nextScheduleId := next }
  pure id

def readSchedule (id : ℕ) : VestingCall StoredVestingSchedule := do
  let stored ← gets (·.schedule id)
  okOr stored .scheduleNotFound

def writeSchedule (id : ℕ) (stored : StoredVestingSchedule) (s : Store) : Store :=
  { s with schedule := Function.update s.schedule id (some stored) }

def linearVestedAmount (stored : StoredVestingSchedule) (effective : ℕ) : VestingCall ℤ :=
  if effective < stored.schedule.cliffLedger then pure 0
  else if stored.schedule.endLedger ≤ effective then pure stored.schedule.totalAmount
  else do
    let elapsed ← unsignedSub effective stored.startLedger
    let totalDuration ← unsignedSub stored.schedule.endLedger stored.startLedger
    let product ← i128 (stored.schedule.totalAmount * elapsed)
    pure (product.tdiv totalDuration)

/-- The sum of the tranches unlocked by `effective`, added up in order. -/
def milestoneTotal (effective : ℕ) : List Milestone → ℤ → VestingCall ℤ
  | [], total => pure total
  | m :: rest, total =>
    if m.unlockLedger ≤ effective then do
      let total ← i128 (total + m.amount)
      milestoneTotal effective rest total
    else milestoneTotal effective rest total

/-- A revoked schedule vests up to its revocation. -/
def effectiveLedger (stored : StoredVestingSchedule) (current : ℕ) : ℕ :=
  match stored.revokedAtLedger with
  | some revokedAt => if revokedAt < current then revokedAt else current
  | none => current

/-- The greater of the linear curve and the passed tranches, up to the total. -/
def vestedAmount (stored : StoredVestingSchedule) (current : ℕ) : VestingCall ℤ :=
  if effectiveLedger stored current < stored.schedule.cliffLedger then pure 0
  else do
    let linear ← linearVestedAmount stored (effectiveLedger stored current)
    let milestones ← gets (·.milestones stored.scheduleId)
    let unlocked ← milestoneTotal (effectiveLedger stored current) milestones 0
    pure (if stored.schedule.totalAmount < max linear unlocked then stored.schedule.totalAmount
      else max linear unlocked)

def claimableAmount (stored : StoredVestingSchedule) (current : ℕ) : VestingCall ℤ := do
  let vested ← vestedAmount stored current
  i128 (vested - stored.schedule.releasedAmount)

def mintIntoVault (amount : ℤ) : VestingCall Unit := do
  let _ ← readToken
  let self ← Call.self
  TokenClient.commit tokenLens (·.mint self amount)

/-- The token's `transfer`; a refused one traps its caller. -/
def tokenTransfer (src dst : Address) (amount : ℤ) : VestingCall Unit := do
  let refuses ← gets (·.refuses)
  trapIf (refuses src dst amount = true) .host
  TokenClient.transfer tokenLens src dst amount

def transferFromVault (recipient : Address) (amount : ℤ) : VestingCall Unit :=
  if amount = 0 then pure ()
  else do
    let _ ← readToken
    let self ← Call.self
    tokenTransfer self recipient amount

def initializeVesting (adminAddress token : Address) : VestingCall Unit := do
  let self ← Call.self
  requireAuth self
  let initialized ← gets fun s => hasAdmin s.access
  failIf (initialized = true) .alreadyInitialized
  modify fun s => { s with tokenId := some token, nextScheduleId := 0 }
  admin (setAdmin adminAddress)

def createVesting (beneficiary : Address) (amount : ℤ) (cliff duration : ℕ) (revocable : Bool) :
    VestingCall ℕ :=
  reentrancyGuard .createVesting do
    ensureInitialized
    let _ ← requireStoredAdmin
    failIf (amount ≤ 0) .invalidAmount
    failIf (duration = 0) .invalidDuration
    failIf (duration < cliff) .cliffAfterEnd
    let ledger ← Call.ledger
    let id ← allocateScheduleId
    let cliffLedger ← u32 (ledger.sequence + cliff)
    let endLedger ← u32 (ledger.sequence + duration)
    mintIntoVault amount
    modify (writeSchedule id
      { schedule :=
          { beneficiary := beneficiary
            totalAmount := amount
            cliffLedger := cliffLedger
            endLedger := endLedger
            releasedAmount := 0
            revocable := revocable }
        startLedger := ledger.sequence
        revokedAtLedger := none
        scheduleId := id })
    modify fun s => { s with
      beneficiarySchedules := Function.update s.beneficiarySchedules beneficiary
        (s.beneficiarySchedules beneficiary ++ [id]) }
    pure id

def writeReleased (id : ℕ) (stored : StoredVestingSchedule) (released : ℤ) (s : Store) : Store :=
  writeSchedule id
    { stored with schedule := { stored.schedule with releasedAmount := released } } s

/-- What is claimable is booked as released, schedule by schedule. A delegated claim also stops at
a schedule whose cliff is not reached. -/
def releaseSchedules (delegated : Bool) (current : ℕ) : List ℕ → ℤ → VestingCall ℤ
  | [], total => pure total
  | id :: rest, total => do
    let stored ← readSchedule id
    failIf (delegated = true ∧ current < stored.schedule.cliffLedger) .cliffNotReached
    let claimable ← claimableAmount stored current
    if 0 < claimable then
      let released ← i128 (stored.schedule.releasedAmount + claimable)
      let total ← i128 (total + claimable)
      modify (writeReleased id stored released)
      releaseSchedules delegated current rest total
    else releaseSchedules delegated current rest total

def releaseAll (delegated : Bool) (beneficiary : Address) : VestingCall ℤ := do
  let ledger ← Call.ledger
  let ids ← gets (·.beneficiarySchedules beneficiary)
  let total ← releaseSchedules delegated ledger.sequence ids 0
  transferFromVault beneficiary total
  pure total

def release (beneficiary : Address) : VestingCall ℤ :=
  reentrancyGuard .release do
    ensureInitialized
    requireAuth beneficiary
    releaseAll false beneficiary

def revoke (id : ℕ) : VestingCall ℤ :=
  reentrancyGuard .revoke do
    ensureInitialized
    let adminAddress ← requireStoredAdmin
    let ledger ← Call.ledger
    let stored ← readSchedule id
    failIf (stored.schedule.revocable = false) .notRevocable
    failIf (stored.revokedAtLedger.isSome = true) .alreadyRevoked
    let vested ← vestedAmount stored ledger.sequence
    let unvested ← i128 (stored.schedule.totalAmount - vested)
    modify (writeSchedule id { stored with revokedAtLedger := some ledger.sequence })
    transferFromVault adminAddress unvested
    pure unvested

def vestingInfos (current : ℕ) : List ℕ → VestingCall (List VestingInfo)
  | [] => pure []
  | id :: rest => do
    let stored ← readSchedule id
    let claimable ← claimableAmount stored current
    let infos ← vestingInfos current rest
    pure (⟨id, stored.schedule, stored.startLedger, claimable, stored.revokedAtLedger.isSome⟩ ::
      infos)

def getVestingInfo (beneficiary : Address) : VestingCall (List VestingInfo) := do
  ensureInitialized
  let ledger ← Call.ledger
  let ids ← gets (·.beneficiarySchedules beneficiary)
  vestingInfos ledger.sequence ids

/-- One pass over the tranches: positive, in ledger order, and their sum. -/
def checkMilestones : List Milestone → ℕ → ℤ → VestingCall ℤ
  | [], _, total => pure total
  | m :: rest, prevLedger, total => do
    failIf (m.amount ≤ 0) .invalidMilestoneAmount
    failIf (m.unlockLedger < prevLedger) .milestonesNotSorted
    let total ← i128 (total + m.amount)
    checkMilestones rest m.unlockLedger total

def setMilestones (id : ℕ) (milestones : List Milestone) : VestingCall Unit :=
  reentrancyGuard .setMilestones do
    ensureInitialized
    let _ ← requireStoredAdmin
    let stored ← readSchedule id
    let total ← checkMilestones milestones 0 0
    failIf (stored.schedule.totalAmount < total) .milestoneTotalExceedsTotal
    modify fun s => { s with milestones := Function.update s.milestones id milestones }

def authorizeClaimer (beneficiary delegate : Address) (authorize : Bool) : VestingCall Unit :=
  reentrancyGuard .authorizeClaimer do
    ensureInitialized
    requireAuth beneficiary
    modify fun s =>
      let delegates := s.claimDelegates beneficiary
      let delegates :=
        if authorize = true ∧ delegate ∉ delegates then delegates ++ [delegate]
        else if authorize = false ∧ delegate ∈ delegates then delegates.filter (· ≠ delegate)
        else delegates
      { s with claimDelegates := Function.update s.claimDelegates beneficiary delegates }

def claimOnBehalfOf (caller beneficiary : Address) : VestingCall ℤ :=
  reentrancyGuard .claimOnBehalf do
    ensureInitialized
    requireAuth caller
    let delegates ← gets (·.claimDelegates beneficiary)
    failIf (caller ≠ beneficiary ∧ caller ∉ delegates) .unauthorizedClaimer
    releaseAll true beneficiary

/-- The contract's entry points, and what others do on the token. -/
inductive Op where
  | createVesting (beneficiary : Address) (amount : ℤ) (cliff duration : ℕ) (revocable : Bool)
  | release (beneficiary : Address)
  | revoke (id : ℕ)
  | setMilestones (id : ℕ) (milestones : List Milestone)
  | authorizeClaimer (beneficiary delegate : Address) (authorize : Bool)
  | claimOnBehalfOf (caller beneficiary : Address)
  | tokenMint (dst : Address) (amount : ℤ)
  | tokenTransfer (src dst : Address) (amount : ℤ)
  | tokenSetRefusals (refuses : Address → Address → ℤ → Bool)

def exec : Op → VestingCall Unit
  | .createVesting beneficiary amount cliff duration revocable => do
    let _ ← Vesting.createVesting beneficiary amount cliff duration revocable
    pure ()
  | .release beneficiary => do
    let _ ← Vesting.release beneficiary
    pure ()
  | .revoke id => do
    let _ ← Vesting.revoke id
    pure ()
  | .setMilestones id milestones => Vesting.setMilestones id milestones
  | .authorizeClaimer beneficiary delegate authorize =>
    Vesting.authorizeClaimer beneficiary delegate authorize
  | .claimOnBehalfOf caller beneficiary => do
    let _ ← Vesting.claimOnBehalfOf caller beneficiary
    pure ()
  | .tokenMint dst amount => TokenClient.commit tokenLens (·.mint dst amount)
  | .tokenTransfer src dst amount => do
    requireAuth src
    Vesting.tokenTransfer src dst amount
  | .tokenSetRefusals refuses => modify fun s => { s with refuses := refuses }

end BcForge.Vesting
