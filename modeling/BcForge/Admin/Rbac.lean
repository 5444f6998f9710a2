import BcForge.Soroban.Arith

/-! The access-control library every contract links: its storage, roles and role guards. -/
namespace BcForge.Admin

open Soroban

inductive AdminError where
  | roleNotGranted
  | roleNotHeld
  | unauthorizedRole
  | invalidAddress
  | invalidRole
  | alreadyInitialized
  | invalidThreshold
  | proposalNotFound
  | proposalAlreadyExecuted
  | proposalAlreadyApproved
  | thresholdNotMet
  | quorumNotMet
  | timelockActive
  | invalidWasmHash
  | notProposer
  | proposalNotCancellable
  | upgradeProposalNotFound
  | proposalNotPending
  | duplicateVote
  | unauthorized
  | batchLengthMismatch
  | roleAlreadyGranted
  | proposalExpired
  | proposalCancelled
  | privilegeTimelockActive
  | privilegeProposalNotFound
  | privilegeProposalNotOwner
  | roleNotHeldForRenounce
  | lastSuperAdmin
  | roleProposalNotFound
  | roleProposalRequiresExecution
deriving DecidableEq, Repr

inductive Role where
  | admin
  | minter
  | superAdmin
  | pauser
deriving DecidableEq, Repr

/-- A multi-sig governance proposal. -/
structure Proposal where
  creator : Address
  description : String
  approvals : List Address
  executed : Bool
  expiryLedger : Option ℕ
  cancelled : Bool

/-- The role grant bound to a proposal. -/
structure RoleGrantAction where
  role : Role
  target : Address
deriving DecidableEq

inductive ProposalStatus where
  | pending
  | approved
  | executed
  | cancelled
  | expired
deriving DecidableEq, Repr

structure UpgradeProposal where
  proposer : Address
  targets : List Address
  /-- A map in the source, which keeps its keys in order; here the latest vote comes last. -/
  votes : List (Address × ℕ)
  quorum : ℕ
  status : ProposalStatus
  expiresAt : ℕ
  timelockExpiresAt : Option ℕ

inductive PrivilegeAction where
  | setFeeConfig
  | transferOwnership (newAdmin : Address)
deriving DecidableEq

structure PrivilegeProposal where
  submitter : Address
  action : PrivilegeAction
  executableAt : ℕ
  executed : Bool
  cancelled : Bool

/-- One field per `AdminKey`; a missing entry is `none`. `wasm` is the executable the last
upgrade installed. -/
structure Store where
  admin : Option Address
  role : Role → Address → Bool
  roleMask : Address → Option (BitVec 32)
  adminPool : Option (List Address)
  threshold : Option ℕ
  proposal : ℕ → Option Proposal
  proposalIdCounter : ℕ
  proposalTimelock : ℕ → Option ℕ
  roleGrantProposal : ℕ → Option RoleGrantAction
  upgradeProposal : ℕ → Option UpgradeProposal
  upgradeProposalIdCounter : ℕ
  privilegeProposal : PrivilegeAction → Option PrivilegeProposal
  installedWasmHash : BytesN32 → Bool
  adminProposalGuard : Bool
  wasm : Option BytesN32

/-- The storage of a freshly deployed contract. -/
def Store.empty : Store where
  admin := none
  role _ _ := false
  roleMask _ := none
  adminPool := none
  threshold := none
  proposal _ := none
  proposalIdCounter := 0
  proposalTimelock _ := none
  roleGrantProposal _ := none
  upgradeProposal _ := none
  upgradeProposalIdCounter := 0
  privilegeProposal _ := none
  installedWasmHash _ := false
  adminProposalGuard := false
  wasm := none

/-- The all-zero ed25519 account, for which no signature exists. -/
def zeroAddress : Address := ⟨0⟩

abbrev AdminCall := Call Store AdminError

open Call

def requireNonZeroAddress (a : Address) : AdminCall Unit :=
  failIf (a = zeroAddress) .invalidAddress

def roleBit : Role → BitVec 32
  | .admin => 1#32
  | .minter => 2#32
  | .superAdmin => 4#32
  | .pauser => 8#32

def allRoles : List Role := [.admin, .minter, .superAdmin, .pauser]

/-- The stored mask, or the one rebuilt from legacy per-role entries. -/
def loadRoleMask (s : Store) (a : Address) : BitVec 32 :=
  match s.roleMask a with
  | some mask => mask
  | none => allRoles.foldl (fun mask r => if s.role r a then mask ||| roleBit r else mask) 0#32

/-- Writing a mask drops every legacy entry of the address; an empty mask is removed. -/
def persistRoleMask (a : Address) (mask : BitVec 32) (s : Store) : Store :=
  { s with
    roleMask := Function.update s.roleMask a (if mask = 0#32 then none else some mask)
    role := fun r x => if x = a then false else s.role r x }

def hasRole (s : Store) (r : Role) (a : Address) : Bool :=
  if a = zeroAddress then false
  else
    let mask := loadRoleMask s a
    if r ≠ .admin ∧ mask &&& roleBit .admin ≠ 0#32 then true
    else mask &&& roleBit r ≠ 0#32

def getRolesBitmask (s : Store) (a : Address) : BitVec 32 :=
  if a = zeroAddress then 0#32
  else
    let roleMask := loadRoleMask s a
    if roleMask &&& roleBit .admin ≠ 0#32 then
      roleBit .admin ||| roleBit .minter ||| roleBit .superAdmin ||| roleBit .pauser
    else
      let mask := if roleMask &&& roleBit .minter ≠ 0#32 then roleBit .minter else 0#32
      let mask := if roleMask &&& roleBit .superAdmin ≠ 0#32 then mask ||| roleBit .superAdmin
        else mask
      if roleMask &&& roleBit .pauser ≠ 0#32 then mask ||| roleBit .pauser else mask

def isAdminOrPauser (s : Store) (a : Address) : Bool :=
  let mask := loadRoleMask s a
  mask &&& roleBit .admin ≠ 0#32 ∨ mask &&& roleBit .pauser ≠ 0#32

def hasAdmin (s : Store) : Bool := s.admin.isSome

def getAdmin : AdminCall Address := do
  let admin ← gets (·.admin)
  expect admin (.panic "contract not initialized: admin not set")

def requireRole (r : Role) (a : Address) : AdminCall Unit := do
  let held ← gets (hasRole · r a)
  failIf (held = false) .roleNotHeld
  requireAuth a

def requireRoleGuard (r : Role) (a : Address) : AdminCall Unit := do
  let held ← gets (hasRole · r a)
  failIf (held = false) .unauthorizedRole
  requireAuth a

def requireAdmin (a : Address) : AdminCall Unit := requireRoleGuard .admin a

def requireMinter (a : Address) : AdminCall Unit := requireRoleGuard .minter a

def requireSuperAdmin (a : Address) : AdminCall Unit := requireRoleGuard .superAdmin a

def requirePauser (a : Address) : AdminCall Unit := requireRoleGuard .pauser a

/-- The unauthorized grant behind `grant_role`, `set_admin` and role proposals. -/
def grantRole' (r : Role) (a : Address) : AdminCall Unit := do
  requireNonZeroAddress a
  let mask ← gets (loadRoleMask · a)
  failIf (mask &&& roleBit r ≠ 0#32) .roleAlreadyGranted
  modify (persistRoleMask a (mask ||| roleBit r))

def grantRole (caller : Address) (r : Role) (a : Address) : AdminCall Unit := do
  requireSuperAdmin caller
  requireNonZeroAddress a
  grantRole' r a

/-- Unlike the grant itself this sees the roles an admin holds implicitly. -/
def validateRoleNotGranted (r : Role) (a : Address) : AdminCall Unit := do
  requireNonZeroAddress a
  let currentMask ← gets (getRolesBitmask · a)
  failIf (currentMask &&& roleBit r ≠ 0#32) .roleAlreadyGranted

def grantRoleChecked (caller : Address) (r : Role) (a : Address) : AdminCall Unit := do
  validateRoleNotGranted r a
  grantRole caller r a

def clearRoleBit (a : Address) (r : Role) (s : Store) : Store :=
  let mask := loadRoleMask s a
  if mask &&& roleBit r ≠ 0#32 then persistRoleMask a (mask &&& ~~~roleBit r) s else s

def setAdmin (a : Address) : AdminCall Unit := do
  requireNonZeroAddress a
  modify fun s => match s.admin with
    | some old => clearRoleBit old .admin s
    | none => s
  modify fun s => { s with admin := some a }
  grantRole' .admin a

def initStorage (a : Address) : AdminCall Unit := do
  let self ← Call.self
  requireAuth self
  let admin ← gets (·.admin)
  failIf (admin.isSome = true) .alreadyInitialized
  requireNonZeroAddress a
  modify fun s => persistRoleMask a (roleBit .admin) { s with admin := some a }

/-- Without a configured pool the contract admin is its only member. -/
def getAdminPool (s : Store) : List Address :=
  match s.adminPool with
  | some pool => pool
  | none =>
    match s.admin with
    | some admin => [admin]
    | none => []

def revokeRole' (r : Role) (a : Address) : AdminCall Unit := do
  requireNonZeroAddress a
  let mask ← gets (loadRoleMask · a)
  failIf (mask &&& roleBit r = 0#32) .roleNotHeld
  modify (persistRoleMask a (mask &&& ~~~roleBit r))
  let _ ← getAdmin
  pure ()

def isLastSuperAdmin (a : Address) : AdminCall Bool := do
  let held ← gets (hasRole · .superAdmin a)
  if held = false then pure false
  else
    let admin ← getAdmin
    if admin ≠ a then pure false
    else
      gets fun s => !(getAdminPool s).any fun m =>
        m ≠ a ∧ loadRoleMask s m &&& (roleBit .admin ||| roleBit .superAdmin) ≠ 0#32

def revokeRole (caller : Address) (r : Role) (a : Address) : AdminCall Unit := do
  requireSuperAdmin caller
  requireNonZeroAddress a
  if r = .superAdmin then
    let last ← isLastSuperAdmin a
    failIf (last = true) .lastSuperAdmin
    revokeRole' r a
  else revokeRole' r a

/-- Another holder of `SuperAdmin` must remain: the configured admin, or a pool member whose
stored mask carries the bit. -/
def requireOtherSuperAdmin (caller : Address) : AdminCall Unit := do
  let admin ← getAdmin
  let pool ← gets getAdminPool
  let other : Bool ← gets fun s => admin ≠ caller ∨ pool.any fun m =>
    m ≠ caller ∧ loadRoleMask s m &&& roleBit .superAdmin ≠ 0#32
  failIf (other = false) .lastSuperAdmin

def renounceRole (caller : Address) (r : Role) : AdminCall Unit := do
  requireAuth caller
  let held ← gets (hasRole · r caller)
  failIf (held = false) .roleNotHeldForRenounce
  if r = .superAdmin then requireOtherSuperAdmin caller else pure ()
  let mask ← gets (loadRoleMask · caller)
  failIf (mask &&& roleBit r = 0#32) .roleNotHeldForRenounce
  revokeRole' r caller

section Guards

variable {env : Env} {s s' : Store} {α : Type} {a : α} {u : Unit} {r : Role} {c : Address}

@[simp] theorem runs_getAdmin : Runs getAdmin env s c s' ↔ s.admin = some c ∧ s' = s := by
  simp [getAdmin]

@[simp] theorem runs_getAdmin_bind {k : Address → AdminCall α} :
    Runs (getAdmin >>= k) env s a s' ↔ ∃ c, s.admin = some c ∧ Runs (k c) env s a s' := by
  simp [getAdmin]

@[simp] theorem runs_requireNonZeroAddress_bind {k : Unit → AdminCall α} :
    Runs (requireNonZeroAddress c >>= k) env s a s' ↔ c ≠ zeroAddress ∧ Runs (k ()) env s a s' := by
  simp [requireNonZeroAddress]

@[simp] theorem runs_requireRoleGuard :
    Runs (requireRoleGuard r c) env s u s' ↔
      hasRole s r c = true ∧ env.Authorized c ∧ s' = s := by
  simp [requireRoleGuard]

@[simp] theorem runs_requireRoleGuard_bind {k : Unit → AdminCall α} :
    Runs (requireRoleGuard r c >>= k) env s a s' ↔
      hasRole s r c = true ∧ env.Authorized c ∧ Runs (k ()) env s a s' := by
  simp [requireRoleGuard]

@[simp] theorem runs_requireRole : Runs (requireRole r c) env s u s' ↔
    hasRole s r c = true ∧ env.Authorized c ∧ s' = s := by
  simp [requireRole]

end Guards

end BcForge.Admin
