import BcForge.Admin.Rbac
import BcForge.Soroban.Run

/-! Multi-sig proposals: the legacy flow, the upgrade-proposal flow and privileged actions. -/
namespace BcForge.Admin

open Soroban Call

def timelockDelaySecs : ℕ := 24 * 60 * 60

def proposalExpiryLedgers : ℕ := 600

def privilegeActionDelaySecs : ℕ := 24 * 60 * 60

def proposalGuard : Lens Store Bool where
  get s := s.adminProposalGuard
  set b s := { s with adminProposalGuard := b }

/-- Proposal entry points share one reentrancy flag. -/
def withProposalGuard {α : Type} (body : AdminCall α) : AdminCall α :=
  guarded proposalGuard "Reentrancy detected: admin proposal flow is active" body

def getThreshold (s : Store) : ℕ := s.threshold.getD 1

def setAdminPool (pool : List Address) (threshold : ℕ) : AdminCall Unit := do
  let admin ← getAdmin
  requireAuth admin
  failIf (threshold = 0 ∨ threshold > pool.length) .invalidThreshold
  failIf (zeroAddress ∈ pool) .invalidAddress
  modify fun s => { s with adminPool := some pool, threshold := some threshold }

def isProposalReady (id : ℕ) : AdminCall Bool := do
  let proposal ← gets (·.proposal id)
  let proposal ← okOr proposal .proposalNotFound
  gets fun s => getThreshold s ≤ proposal.approvals.length

def writeProposal (id : ℕ) (p : Proposal) (s : Store) : Store :=
  { s with proposal := Function.update s.proposal id (some p) }

def writeTimelock (id unlock : ℕ) (s : Store) : Store :=
  { s with proposalTimelock := Function.update s.proposalTimelock id (some unlock) }

/-- The unlock time is snapshotted once, by the vote that first meets the threshold. -/
def startTimelockIfQuorate (id : ℕ) : AdminCall Unit := do
  let started ← gets (·.proposalTimelock id)
  if started.isSome then pure ()
  else
    let ready ← isProposalReady id
    if ready = false then pure ()
    else
      let ledger ← Call.ledger
      modify (writeTimelock id (saturatingU64 (ledger.timestamp + timelockDelaySecs)))

def createProposal (creator : Address) (description : String) : AdminCall ℕ :=
  withProposalGuard do
    requireAuth creator
    let pool ← gets getAdminPool
    failIf (creator ∉ pool) .unauthorizedRole
    let id ← gets (·.proposalIdCounter)
    let nextId ← u64 (id + 1)
    modify fun s => { s with proposalIdCounter := nextId }
    let ledger ← Call.ledger
    modify (writeProposal id
      { creator := creator
        description := description
        approvals := [creator]
        executed := false
        expiryLedger := some (saturatingU32 (ledger.sequence + proposalExpiryLedgers))
        cancelled := false })
    startTimelockIfQuorate id
    pure id

def createRoleProposal (creator : Address) (role : Role) (target : Address)
    (description : String) : AdminCall ℕ := do
  requireNonZeroAddress target
  failIf (role = .admin) .invalidRole
  let held ← gets (hasRole · role target)
  failIf (held = true) .roleAlreadyGranted
  let id ← createProposal creator description
  modify fun s => { s with
    roleGrantProposal := Function.update s.roleGrantProposal id (some ⟨role, target⟩) }
  pure id

def approveProposal (admin : Address) (id : ℕ) : AdminCall Unit :=
  withProposalGuard do
    requireAuth admin
    let pool ← gets getAdminPool
    failIf (admin ∉ pool) .unauthorizedRole
    let proposal ← gets (·.proposal id)
    let proposal ← okOr proposal .proposalNotFound
    failIf (proposal.executed = true) .proposalAlreadyExecuted
    failIf (proposal.cancelled = true) .proposalCancelled
    failIf (admin ∈ proposal.approvals) .proposalAlreadyApproved
    modify (writeProposal id { proposal with approvals := proposal.approvals ++ [admin] })
    startTimelockIfQuorate id

/-- The expiry ledger itself is still inside the window. -/
def proposalExpired (ledger : Ledger) (p : Proposal) : Bool :=
  match p.expiryLedger with
  | some expiry => expiry < ledger.sequence
  | none => false

def markExecuted (id : ℕ) : AdminCall Unit :=
  withProposalGuard do
    let admin ← getAdmin
    requireAuth admin
    let action ← gets (·.roleGrantProposal id)
    failIf (action.isSome = true) .roleProposalRequiresExecution
    let proposal ← gets (·.proposal id)
    let proposal ← okOr proposal .proposalNotFound
    failIf (proposal.executed = true) .proposalAlreadyExecuted
    failIf (proposal.cancelled = true) .proposalCancelled
    let ledger ← Call.ledger
    failIf (proposalExpired ledger proposal = true) .proposalExpired
    let ready ← isProposalReady id
    failIf (ready = false) .thresholdNotMet
    modify (writeProposal id { proposal with executed := true })

def executeRoleProposal (executor : Address) (id : ℕ) : AdminCall Unit :=
  withProposalGuard do
    requireAuth executor
    let pool ← gets getAdminPool
    failIf (executor ∉ pool) .unauthorizedRole
    requireSuperAdmin executor
    let proposal ← gets (·.proposal id)
    let proposal ← okOr proposal .proposalNotFound
    failIf (proposal.executed = true) .proposalAlreadyExecuted
    failIf (proposal.cancelled = true) .proposalCancelled
    let ledger ← Call.ledger
    failIf (proposalExpired ledger proposal = true) .proposalExpired
    let ready ← isProposalReady id
    failIf (ready = false) .thresholdNotMet
    let action ← gets (·.roleGrantProposal id)
    let action ← okOr action .roleProposalNotFound
    grantRole' action.role action.target
    modify (writeProposal id { proposal with executed := true })

def cancelLegacyProposal (caller : Address) (id : ℕ) : AdminCall Unit :=
  withProposalGuard do
    requireAuth caller
    let proposal ← gets (·.proposal id)
    let proposal ← okOr proposal .proposalNotFound
    failIf (caller ≠ proposal.creator) .unauthorized
    failIf (proposal.executed = true) .proposalAlreadyExecuted
    let ledger ← Call.ledger
    failIf (proposal.cancelled = true ∨ proposalExpired ledger proposal = true)
      .proposalNotCancellable
    modify fun s => { s with
      roleGrantProposal := Function.update s.roleGrantProposal id none }
    modify (writeProposal id { proposal with cancelled := true })

def requireTimelockExpired (id : ℕ) : AdminCall Unit := do
  let unlock ← gets (·.proposalTimelock id)
  let unlock ← okOr unlock .quorumNotMet
  let ledger ← Call.ledger
  failIf (ledger.timestamp < unlock) .timelockActive

def updateCurrentContractWasm (hash : BytesN32) : AdminCall Unit := do
  requireUploaded hash
  modify fun s => { s with wasm := some hash }

def executeUpgradeInner (executor : Address) (id : ℕ) (hash : BytesN32) : AdminCall Unit := do
  requireAuth executor
  let pool ← gets getAdminPool
  failIf (executor ∉ pool) .unauthorizedRole
  let proposal ← gets (·.proposal id)
  let proposal ← okOr proposal .proposalNotFound
  failIf (proposal.executed = true) .proposalAlreadyExecuted
  failIf (proposal.cancelled = true) .proposalCancelled
  let ledger ← Call.ledger
  failIf (proposalExpired ledger proposal = true) .proposalExpired
  let ready ← isProposalReady id
  failIf (ready = false) .quorumNotMet
  requireTimelockExpired id
  modify (writeProposal id { proposal with executed := true })
  updateCurrentContractWasm hash

def executeUpgrade (executor : Address) (id : ℕ) (hash : BytesN32) : AdminCall Unit :=
  withProposalGuard (executeUpgradeInner executor id hash)

def executeUpgradeAll (executor : Address) : List (ℕ × BytesN32) → AdminCall Unit
  | [] => pure ()
  | (id, hash) :: rest => do
    executeUpgradeInner executor id hash
    executeUpgradeAll executor rest

def executeUpgradeBatch (executor : Address) (ids : List ℕ) (hashes : List BytesN32) :
    AdminCall Unit :=
  withProposalGuard do
    failIf (ids.length ≠ hashes.length) .batchLengthMismatch
    executeUpgradeAll executor (ids.zip hashes)

/-- Unanimity replaces the timelock. The cancelled and expired states are not consulted. -/
def emergencyExecuteUpgrade (executor : Address) (id : ℕ) (hash : BytesN32) : AdminCall Unit :=
  withProposalGuard do
    requireAuth executor
    let pool ← gets getAdminPool
    failIf (executor ∉ pool) .unauthorizedRole
    let proposal ← gets (·.proposal id)
    let proposal ← okOr proposal .proposalNotFound
    failIf (proposal.executed = true) .proposalAlreadyExecuted
    failIf (proposal.approvals.length ≠ pool.length) .quorumNotMet
    modify (writeProposal id { proposal with executed := true })
    updateCurrentContractWasm hash

def tally (p : UpgradeProposal) : ℕ := (p.votes.map (·.2)).sum

def writeUpgradeProposal (id : ℕ) (p : UpgradeProposal) (s : Store) : Store :=
  { s with upgradeProposal := Function.update s.upgradeProposal id (some p) }

def approveUpgrade (voter : Address) (id : ℕ) : AdminCall Unit :=
  withProposalGuard do
    requireAuth voter
    let pool ← gets getAdminPool
    failIf (voter ∉ pool) .unauthorizedRole
    let proposal ← gets (·.upgradeProposal id)
    let proposal ← okOr proposal .upgradeProposalNotFound
    let ledger ← Call.ledger
    failIf (proposal.status ≠ .pending ∨ proposal.expiresAt ≤ ledger.timestamp)
      .proposalNotPending
    failIf (voter ∈ proposal.votes.map (·.1)) .duplicateVote
    let proposal := { proposal with votes := proposal.votes ++ [(voter, 1)] }
    let proposal :=
      if proposal.quorum ≤ tally proposal then { proposal with status := .approved } else proposal
    modify (writeUpgradeProposal id proposal)

def cancelProposal (caller : Address) (id : ℕ) : AdminCall Unit :=
  withProposalGuard do
    requireAuth caller
    let proposal ← gets (·.upgradeProposal id)
    let proposal ← okOr proposal .proposalNotFound
    failIf (caller ≠ proposal.proposer) .notProposer
    failIf (proposal.status = .executed) .proposalAlreadyExecuted
    failIf (proposal.status = .cancelled ∨ proposal.status = .expired) .proposalNotCancellable
    modify (writeUpgradeProposal id { proposal with status := .cancelled })

def registerWasmHash (admin : Address) (hash : BytesN32) : AdminCall Unit := do
  requireAdmin admin
  modify fun s => { s with installedWasmHash := Function.update s.installedWasmHash hash true }

def requireValidWasmHash (hash : BytesN32) : AdminCall Unit := do
  let installed ← gets (·.installedWasmHash hash)
  failIf (installed = false) .invalidWasmHash

def submitUpgradeProposal (submitter : Address) (hash : BytesN32) : AdminCall ℕ :=
  withProposalGuard do
    requireAuth submitter
    let pool ← gets getAdminPool
    failIf (submitter ∉ pool) .unauthorizedRole
    failIf (hash = 0) .invalidWasmHash
    requireValidWasmHash hash
    let id ← gets (·.upgradeProposalIdCounter)
    let nextId ← u64 (id + 1)
    modify fun s => { s with upgradeProposalIdCounter := nextId }
    let quorum ← gets getThreshold
    let self ← Call.self
    let ledger ← Call.ledger
    modify (writeUpgradeProposal id
      { proposer := submitter
        targets := [self]
        votes := [(submitter, 1)]
        quorum := quorum
        status := if quorum ≤ 1 then .approved else .pending
        expiresAt := saturatingU64 (ledger.timestamp + timelockDelaySecs)
        timelockExpiresAt := none })
    pure id

def writePrivilegeProposal (p : PrivilegeProposal) (s : Store) : Store :=
  { s with privilegeProposal := Function.update s.privilegeProposal p.action (some p) }

def proposePrivilegeAction (submitter : Address) (action : PrivilegeAction) : AdminCall ℕ := do
  requireAdmin submitter
  let existing ← gets (·.privilegeProposal action)
  failIf (existing.any (fun p => !p.executed && !p.cancelled) = true) .privilegeProposalNotFound
  let ledger ← Call.ledger
  let executableAt ← u64 (ledger.timestamp + privilegeActionDelaySecs)
  modify (writePrivilegeProposal ⟨submitter, action, executableAt, false, false⟩)
  pure executableAt

def cancelPrivilegeAction (caller : Address) (action : PrivilegeAction) : AdminCall Unit := do
  requireAdmin caller
  let proposal ← gets (·.privilegeProposal action)
  let proposal ← okOr proposal .privilegeProposalNotFound
  failIf (proposal.executed = true ∨ proposal.cancelled = true) .privilegeProposalNotFound
  modify (writePrivilegeProposal { proposal with cancelled := true })

def consumePrivilegeProposal (action : PrivilegeAction) : AdminCall Unit := do
  let proposal ← gets (·.privilegeProposal action)
  let proposal ← okOr proposal .privilegeProposalNotFound
  failIf (proposal.executed = true ∨ proposal.cancelled = true) .privilegeProposalNotFound
  let ledger ← Call.ledger
  failIf (ledger.timestamp < proposal.executableAt) .privilegeTimelockActive
  modify (writePrivilegeProposal { proposal with executed := true })

/-- The entry points a contract exposes over the library. -/
inductive Op where
  | setAdmin (a : Address)
  | grantRole (caller : Address) (r : Role) (a : Address)
  | revokeRole (caller : Address) (r : Role) (a : Address)
  | renounceRole (caller : Address) (r : Role)
  | setAdminPool (pool : List Address) (threshold : ℕ)
  | createProposal (creator : Address) (description : String)
  | createRoleProposal (creator : Address) (r : Role) (target : Address) (description : String)
  | approveProposal (admin : Address) (id : ℕ)
  | markExecuted (id : ℕ)
  | executeRoleProposal (executor : Address) (id : ℕ)
  | cancelLegacyProposal (caller : Address) (id : ℕ)
  | executeUpgrade (executor : Address) (id : ℕ) (hash : BytesN32)
  | executeUpgradeBatch (executor : Address) (ids : List ℕ) (hashes : List BytesN32)
  | emergencyExecuteUpgrade (executor : Address) (id : ℕ) (hash : BytesN32)
  | submitUpgradeProposal (submitter : Address) (hash : BytesN32)
  | approveUpgrade (voter : Address) (id : ℕ)
  | cancelProposal (caller : Address) (id : ℕ)
  | registerWasmHash (admin : Address) (hash : BytesN32)
  | proposePrivilegeAction (submitter : Address) (action : PrivilegeAction)
  | cancelPrivilegeAction (caller : Address) (action : PrivilegeAction)
  | consumePrivilegeProposal (action : PrivilegeAction)

def exec : Op → AdminCall Unit
  | .setAdmin a => Admin.setAdmin a
  | .grantRole caller r a => Admin.grantRole caller r a
  | .revokeRole caller r a => Admin.revokeRole caller r a
  | .renounceRole caller r => Admin.renounceRole caller r
  | .setAdminPool pool threshold => Admin.setAdminPool pool threshold
  | .createProposal creator description => do
    let _ ← Admin.createProposal creator description
    pure ()
  | .createRoleProposal creator r target description => do
    let _ ← Admin.createRoleProposal creator r target description
    pure ()
  | .approveProposal admin id => Admin.approveProposal admin id
  | .markExecuted id => Admin.markExecuted id
  | .executeRoleProposal executor id => Admin.executeRoleProposal executor id
  | .cancelLegacyProposal caller id => Admin.cancelLegacyProposal caller id
  | .executeUpgrade executor id hash => Admin.executeUpgrade executor id hash
  | .executeUpgradeBatch executor ids hashes => Admin.executeUpgradeBatch executor ids hashes
  | .emergencyExecuteUpgrade executor id hash => Admin.emergencyExecuteUpgrade executor id hash
  | .submitUpgradeProposal submitter hash => do
    let _ ← Admin.submitUpgradeProposal submitter hash
    pure ()
  | .approveUpgrade voter id => Admin.approveUpgrade voter id
  | .cancelProposal caller id => Admin.cancelProposal caller id
  | .registerWasmHash admin hash => Admin.registerWasmHash admin hash
  | .proposePrivilegeAction submitter action => do
    let _ ← Admin.proposePrivilegeAction submitter action
    pure ()
  | .cancelPrivilegeAction caller action => Admin.cancelPrivilegeAction caller action
  | .consumePrivilegeProposal action => Admin.consumePrivilegeProposal action

end BcForge.Admin
