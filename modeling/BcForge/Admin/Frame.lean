import BcForge.Admin.Flow
import BcForge.Soroban.Frame

/-! Which parts of its storage each function of the library writes. -/
namespace BcForge.Admin

open Soroban Call

inductive Part where
  | admin
  | roles
  | pool
  | flow
  | upgrades
  | privilege
  | installed
  | guard
  | wasm
deriving DecidableEq

namespace Part

def Value : Part → Type
  | admin => Option Address
  | roles => (Role → Address → Bool) × (Address → Option (BitVec 32))
  | pool => Option (List Address) × Option ℕ
  | flow => Flow
  | upgrades => (ℕ → Option UpgradeProposal) × ℕ
  | privilege => PrivilegeAction → Option PrivilegeProposal
  | installed => BytesN32 → Bool
  | guard => Bool
  | wasm => Option BytesN32

def get : (p : Part) → Store → p.Value
  | admin, s => s.admin
  | roles, s => (s.role, s.roleMask)
  | pool, s => (s.adminPool, s.threshold)
  | flow, s => s.flow
  | upgrades, s => (s.upgradeProposal, s.upgradeProposalIdCounter)
  | privilege, s => s.privilegeProposal
  | installed, s => s.installedWasmHash
  | guard, s => s.adminProposalGuard
  | wasm, s => s.wasm

def set : (p : Part) → p.Value → Store → Store
  | admin, a, s => { s with admin := a }
  | roles, r, s => { s with role := r.1, roleMask := r.2 }
  | pool, m, s => { s with adminPool := m.1, threshold := m.2 }
  | flow, f, s => { s with
      proposal := f.proposal
      proposalIdCounter := f.nextId
      proposalTimelock := f.timelock
      roleGrantProposal := f.grant }
  | upgrades, f, s => { s with upgradeProposal := f.1, upgradeProposalIdCounter := f.2 }
  | privilege, f, s => { s with privilegeProposal := f }
  | installed, f, s => { s with installedWasmHash := f }
  | guard, b, s => { s with adminProposalGuard := b }
  | wasm, h, s => { s with wasm := h }

theorem get_set_of_ne {p q : Part} (v : p.Value) (s : Store) (h : q ≠ p) :
    q.get (p.set v s) = q.get s := by
  cases p <;> cases q <;> first | rfl | exact absurd rfl h

end Part

def parts : Parts Store Part := ⟨Part.Value, Part.get, Part.set, Part.get_set_of_ne⟩

variable {α : Type} {ws : List Part} {x c : Address} {r : Role} {id : ℕ} {hash : BytesN32}

theorem writes_withProposalGuard {body : AdminCall α} (hg : .guard ∉ ws)
    (h : Writes parts ws body) : Writes parts ws (withProposalGuard body) := by
  refine writes_guarded .guard ?_ ?_ hg h
  · intro b s q hq
    exact Part.get_set_of_ne (p := .guard) b s hq
  · intro s t hfree _
    exact hfree.symm

theorem writes_getAdmin : Writes parts ws getAdmin :=
  respects_of_unchanged fun _ _ _ _ h => (runs_getAdmin.mp h).2

theorem writes_requireRoleGuard (r : Role) (x : Address) :
    Writes parts ws (requireRoleGuard r x) :=
  respects_of_unchanged fun _ _ _ _ h => (runs_requireRoleGuard.mp h).2.2

theorem writes_requireUploaded : Writes parts ws (requireUploaded hash : AdminCall Unit) :=
  respects_of_unchanged fun _ _ _ _ h => (runs_requireUploaded.mp h).2

theorem writes_isProposalReady : Writes parts ws (isProposalReady id) :=
  (respects_gets _).bind fun _ => (respects_okOr _ _).bind fun _ => respects_gets _

/-! Roles. -/

theorem writes_persistRoleMask {mask : BitVec 32} (h : .roles ∈ ws) :
    Writes parts ws (modify (persistRoleMask c mask) : AdminCall Unit) :=
  writes_modify .roles h fun _ => rfl

theorem sameBut_clearRoleBit {s : Store} (h : .roles ∈ ws) :
    SameBut parts ws s (clearRoleBit c r s) := by
  unfold clearRoleBit
  dsimp only
  split
  · exact sameBut_of_eq .roles h rfl
  · exact refl_of (SameBut parts ws) s

theorem writes_grantRole' (h : .roles ∈ ws) : Writes parts ws (grantRole' r c) :=
  (respects_failIf _ _).bind fun _ => (respects_gets _).bind fun _ =>
    (respects_failIf _ _).bind fun _ => writes_persistRoleMask h

theorem writes_grantRole : Writes parts [.roles] (grantRole x r c) :=
  (writes_requireRoleGuard _ _).bind fun _ => (respects_failIf _ _).bind fun _ =>
    writes_grantRole' (by decide)

theorem writes_setAdmin : Writes parts [.admin, .roles] (setAdmin c) := by
  refine (respects_failIf _ _).bind fun _ => (respects_modify fun s => ?_).bind fun _ =>
    (writes_modify .admin (by decide) fun _ => rfl).bind fun _ => writes_grantRole' (by decide)
  split
  · exact sameBut_clearRoleBit (by decide)
  · exact refl_of (SameBut parts _) s

theorem writes_revokeRole' : Writes parts [.roles] (revokeRole' r c) :=
  (respects_failIf _ _).bind fun _ => (respects_gets _).bind fun _ =>
    (respects_failIf _ _).bind fun _ => (writes_persistRoleMask (by decide)).bind fun _ =>
      writes_getAdmin.bind fun _ => respects_pure _

theorem writes_isLastSuperAdmin : Writes parts ws (isLastSuperAdmin c) := by
  refine (respects_gets _).bind fun held => ?_
  split
  · exact respects_pure _
  · refine writes_getAdmin.bind fun admin => ?_
    split
    · exact respects_pure _
    · exact respects_gets _

theorem writes_revokeRole : Writes parts [.roles] (revokeRole x r c) := by
  refine (writes_requireRoleGuard _ _).bind fun _ => (respects_failIf _ _).bind fun _ => ?_
  split
  · exact writes_isLastSuperAdmin.bind fun _ => (respects_failIf _ _).bind fun _ =>
      writes_revokeRole'
  · exact writes_revokeRole'

theorem writes_requireOtherSuperAdmin : Writes parts ws (requireOtherSuperAdmin x) :=
  writes_getAdmin.bind fun _ => (respects_gets _).bind fun _ => (respects_gets _).bind fun _ =>
    respects_failIf _ _

theorem writes_renounceRole : Writes parts [.roles] (renounceRole x r) := by
  have hrest : Writes parts [.roles] (do
      let mask ← gets (loadRoleMask · x)
      failIf (mask &&& roleBit r = 0#32) AdminError.roleNotHeldForRenounce
      revokeRole' r x) :=
    (respects_gets _).bind fun _ => (respects_failIf _ _).bind fun _ => writes_revokeRole'
  refine (respects_requireAuth _).bind fun _ => (respects_gets _).bind fun _ =>
    (respects_failIf _ _).bind fun _ => ?_
  dsimp only
  split
  · exact writes_requireOtherSuperAdmin.bind fun _ => hrest
  · exact hrest

/-! Legacy proposals. -/

theorem writes_writeProposal {p : Proposal} (h : .flow ∈ ws) :
    Writes parts ws (modify (writeProposal id p) : AdminCall Unit) :=
  writes_modify .flow h fun _ => rfl

theorem writes_startTimelockIfQuorate (h : .flow ∈ ws) :
    Writes parts ws (startTimelockIfQuorate id) := by
  refine (respects_gets _).bind fun started => ?_
  split
  · exact respects_pure _
  · refine writes_isProposalReady.bind fun ready => ?_
    split
    · exact respects_pure _
    · exact respects_ledger.bind fun _ => writes_modify .flow h fun _ => rfl

theorem writes_createProposal (creator : Address) (description : String) :
    Writes parts [.flow] (createProposal creator description) := by
  refine writes_withProposalGuard (by decide) ?_
  exact (respects_requireAuth _).bind fun _ => (respects_gets _).bind fun _ =>
    (respects_failIf _ _).bind fun _ => (respects_gets _).bind fun _ =>
    (respects_u64 _).bind fun _ => (writes_modify .flow (by decide) fun _ => rfl).bind fun _ =>
    respects_ledger.bind fun _ => (writes_writeProposal (by decide)).bind fun _ =>
    (writes_startTimelockIfQuorate (by decide)).bind fun _ => respects_pure _

theorem writes_createRoleProposal (creator : Address) (r : Role) (target : Address)
    (description : String) :
    Writes parts [.flow] (createRoleProposal creator r target description) :=
  (respects_failIf _ _).bind fun _ => (respects_failIf _ _).bind fun _ =>
    (respects_gets _).bind fun _ => (respects_failIf _ _).bind fun _ =>
    (writes_createProposal _ _).bind fun _ =>
    (writes_modify .flow (by decide) fun _ => rfl).bind fun _ => respects_pure _

theorem writes_approveProposal : Writes parts [.flow] (approveProposal x id) := by
  refine writes_withProposalGuard (by decide) ?_
  exact (respects_requireAuth _).bind fun _ => (respects_gets _).bind fun _ =>
    (respects_failIf _ _).bind fun _ => (respects_gets _).bind fun _ =>
    (respects_okOr _ _).bind fun _ => (respects_failIf _ _).bind fun _ =>
    (respects_failIf _ _).bind fun _ => (respects_failIf _ _).bind fun _ =>
    (writes_writeProposal (by decide)).bind fun _ => writes_startTimelockIfQuorate (by decide)

theorem writes_markExecuted : Writes parts [.flow] (markExecuted id) := by
  refine writes_withProposalGuard (by decide) ?_
  exact writes_getAdmin.bind fun _ => (respects_requireAuth _).bind fun _ =>
    (respects_gets _).bind fun _ => (respects_failIf _ _).bind fun _ =>
    (respects_gets _).bind fun _ => (respects_okOr _ _).bind fun _ =>
    (respects_failIf _ _).bind fun _ => (respects_failIf _ _).bind fun _ =>
    respects_ledger.bind fun _ => (respects_failIf _ _).bind fun _ =>
    writes_isProposalReady.bind fun _ => (respects_failIf _ _).bind fun _ =>
    writes_writeProposal (by decide)

theorem writes_executeRoleProposal :
    Writes parts [.flow, .roles] (executeRoleProposal x id) := by
  refine writes_withProposalGuard (by decide) ?_
  exact (respects_requireAuth _).bind fun _ => (respects_gets _).bind fun _ =>
    (respects_failIf _ _).bind fun _ => (writes_requireRoleGuard _ _).bind fun _ =>
    (respects_gets _).bind fun _ => (respects_okOr _ _).bind fun _ =>
    (respects_failIf _ _).bind fun _ => (respects_failIf _ _).bind fun _ =>
    respects_ledger.bind fun _ => (respects_failIf _ _).bind fun _ =>
    writes_isProposalReady.bind fun _ => (respects_failIf _ _).bind fun _ =>
    (respects_gets _).bind fun _ => (respects_okOr _ _).bind fun _ =>
    (writes_grantRole' (by decide)).bind fun _ => writes_writeProposal (by decide)

theorem writes_cancelLegacyProposal : Writes parts [.flow] (cancelLegacyProposal x id) := by
  refine writes_withProposalGuard (by decide) ?_
  exact (respects_requireAuth _).bind fun _ => (respects_gets _).bind fun _ =>
    (respects_okOr _ _).bind fun _ => (respects_failIf _ _).bind fun _ =>
    (respects_failIf _ _).bind fun _ => respects_ledger.bind fun _ =>
    (respects_failIf _ _).bind fun _ =>
    (writes_modify .flow (by decide) fun _ => rfl).bind fun _ => writes_writeProposal (by decide)

theorem writes_updateCurrentContractWasm (h : .wasm ∈ ws) :
    Writes parts ws (updateCurrentContractWasm hash) :=
  writes_requireUploaded.bind fun _ => writes_modify .wasm h fun _ => rfl

theorem writes_executeUpgradeInner :
    Writes parts [.flow, .wasm] (executeUpgradeInner x id hash) :=
  (respects_requireAuth _).bind fun _ => (respects_gets _).bind fun _ =>
    (respects_failIf _ _).bind fun _ => (respects_gets _).bind fun _ =>
    (respects_okOr _ _).bind fun _ => (respects_failIf _ _).bind fun _ =>
    (respects_failIf _ _).bind fun _ => respects_ledger.bind fun _ =>
    (respects_failIf _ _).bind fun _ => writes_isProposalReady.bind fun _ =>
    (respects_failIf _ _).bind fun _ =>
    ((respects_gets _).bind fun _ => (respects_okOr _ _).bind fun _ =>
      respects_ledger.bind fun _ => respects_failIf _ _).bind fun _ =>
    (writes_writeProposal (by decide)).bind fun _ => writes_updateCurrentContractWasm (by decide)

theorem writes_executeUpgrade : Writes parts [.flow, .wasm] (executeUpgrade x id hash) :=
  writes_withProposalGuard (by decide) writes_executeUpgradeInner

theorem writes_executeUpgradeAll (items : List (ℕ × BytesN32)) :
    Writes parts [.flow, .wasm] (executeUpgradeAll x items) := by
  induction items with
  | nil => exact respects_pure _
  | cons item rest ih =>
    exact writes_executeUpgradeInner.bind fun _ => ih

theorem writes_executeUpgradeBatch (ids : List ℕ) (hashes : List BytesN32) :
    Writes parts [.flow, .wasm] (executeUpgradeBatch x ids hashes) :=
  writes_withProposalGuard (by decide) <| (respects_failIf _ _).bind fun _ =>
    writes_executeUpgradeAll _

theorem writes_emergencyExecuteUpgrade :
    Writes parts [.flow, .wasm] (emergencyExecuteUpgrade x id hash) := by
  refine writes_withProposalGuard (by decide) ?_
  exact (respects_requireAuth _).bind fun _ => (respects_gets _).bind fun _ =>
    (respects_failIf _ _).bind fun _ => (respects_gets _).bind fun _ =>
    (respects_okOr _ _).bind fun _ => (respects_failIf _ _).bind fun _ =>
    (respects_failIf _ _).bind fun _ => (writes_writeProposal (by decide)).bind fun _ =>
    writes_updateCurrentContractWasm (by decide)

/-! Upgrade proposals and privileged actions. -/

theorem writes_writeUpgradeProposal {p : UpgradeProposal} :
    Writes parts [.upgrades] (modify (writeUpgradeProposal id p) : AdminCall Unit) :=
  writes_modify .upgrades (by decide) fun _ => rfl

theorem writes_submitUpgradeProposal :
    Writes parts [.upgrades] (submitUpgradeProposal x hash) := by
  refine writes_withProposalGuard (by decide) ?_
  exact (respects_requireAuth _).bind fun _ => (respects_gets _).bind fun _ =>
    (respects_failIf _ _).bind fun _ => (respects_failIf _ _).bind fun _ =>
    ((respects_gets _).bind fun _ => respects_failIf _ _).bind fun _ =>
    (respects_gets _).bind fun _ => (respects_u64 _).bind fun _ =>
    (writes_modify .upgrades (by decide) fun _ => rfl).bind fun _ =>
    (respects_gets _).bind fun _ => respects_self.bind fun _ => respects_ledger.bind fun _ =>
    writes_writeUpgradeProposal.bind fun _ => respects_pure _

theorem writes_approveUpgrade : Writes parts [.upgrades] (approveUpgrade x id) := by
  refine writes_withProposalGuard (by decide) ?_
  exact (respects_requireAuth _).bind fun _ => (respects_gets _).bind fun _ =>
    (respects_failIf _ _).bind fun _ => (respects_gets _).bind fun _ =>
    (respects_okOr _ _).bind fun _ => respects_ledger.bind fun _ =>
    (respects_failIf _ _).bind fun _ => (respects_failIf _ _).bind fun _ =>
    writes_writeUpgradeProposal

theorem writes_cancelProposal : Writes parts [.upgrades] (cancelProposal x id) := by
  refine writes_withProposalGuard (by decide) ?_
  exact (respects_requireAuth _).bind fun _ => (respects_gets _).bind fun _ =>
    (respects_okOr _ _).bind fun _ => (respects_failIf _ _).bind fun _ =>
    (respects_failIf _ _).bind fun _ => (respects_failIf _ _).bind fun _ =>
    writes_writeUpgradeProposal

theorem writes_setAdminPool (pool : List Address) (n : ℕ) :
    Writes parts [.pool] (setAdminPool pool n) :=
  writes_getAdmin.bind fun _ => (respects_requireAuth _).bind fun _ =>
    (respects_failIf _ _).bind fun _ => (respects_failIf _ _).bind fun _ =>
    writes_modify .pool (by decide) fun _ => rfl

theorem writes_registerWasmHash : Writes parts [.installed] (registerWasmHash x hash) :=
  (writes_requireRoleGuard _ _).bind fun _ => writes_modify .installed (by decide) fun _ => rfl

theorem writes_writePrivilegeProposal {p : PrivilegeProposal} :
    Writes parts [.privilege] (modify (writePrivilegeProposal p) : AdminCall Unit) :=
  writes_modify .privilege (by decide) fun _ => rfl

theorem writes_proposePrivilegeAction (action : PrivilegeAction) :
    Writes parts [.privilege] (proposePrivilegeAction x action) :=
  (writes_requireRoleGuard _ _).bind fun _ => (respects_gets _).bind fun _ =>
    (respects_failIf _ _).bind fun _ => respects_ledger.bind fun _ =>
    (respects_u64 _).bind fun _ => writes_writePrivilegeProposal.bind fun _ =>
    respects_pure _

theorem writes_cancelPrivilegeAction (action : PrivilegeAction) :
    Writes parts [.privilege] (cancelPrivilegeAction x action) :=
  (writes_requireRoleGuard _ _).bind fun _ => (respects_gets _).bind fun _ =>
    (respects_okOr _ _).bind fun _ => (respects_failIf _ _).bind fun _ =>
    writes_writePrivilegeProposal

theorem writes_consumePrivilegeProposal (action : PrivilegeAction) :
    Writes parts [.privilege] (consumePrivilegeProposal action) :=
  (respects_gets _).bind fun _ => (respects_okOr _ _).bind fun _ =>
    (respects_failIf _ _).bind fun _ => respects_ledger.bind fun _ =>
    (respects_failIf _ _).bind fun _ => writes_writePrivilegeProposal

/-- The parts an entry point may write. -/
def Op.writes : Op → List Part
  | .setAdmin _ => [.admin, .roles]
  | .grantRole _ _ _ | .revokeRole _ _ _ | .renounceRole _ _ => [.roles]
  | .setAdminPool _ _ => [.pool]
  | .createProposal _ _ | .createRoleProposal _ _ _ _ | .approveProposal _ _ | .markExecuted _
  | .cancelLegacyProposal _ _ => [.flow]
  | .executeRoleProposal _ _ => [.flow, .roles]
  | .executeUpgrade _ _ _ | .executeUpgradeBatch _ _ _ | .emergencyExecuteUpgrade _ _ _ =>
    [.flow, .wasm]
  | .submitUpgradeProposal _ _ | .approveUpgrade _ _ | .cancelProposal _ _ => [.upgrades]
  | .registerWasmHash _ _ => [.installed]
  | .proposePrivilegeAction _ _ | .cancelPrivilegeAction _ _ | .consumePrivilegeProposal _ =>
    [.privilege]

theorem exec_writes (op : Op) : Writes parts op.writes (exec op) := by
  cases op with
  | setAdmin a => exact writes_setAdmin
  | grantRole caller r a => exact writes_grantRole
  | revokeRole caller r a => exact writes_revokeRole
  | renounceRole caller r => exact writes_renounceRole
  | setAdminPool pool n => exact writes_setAdminPool pool n
  | createProposal creator description =>
    exact (writes_createProposal creator description).bind fun _ => respects_pure _
  | createRoleProposal creator r target description =>
    exact (writes_createRoleProposal creator r target description).bind fun _ => respects_pure _
  | approveProposal admin id => exact writes_approveProposal
  | markExecuted id => exact writes_markExecuted
  | executeRoleProposal executor id => exact writes_executeRoleProposal
  | cancelLegacyProposal caller id => exact writes_cancelLegacyProposal
  | executeUpgrade executor id hash => exact writes_executeUpgrade
  | executeUpgradeBatch executor ids hashes => exact writes_executeUpgradeBatch ids hashes
  | emergencyExecuteUpgrade executor id hash => exact writes_emergencyExecuteUpgrade
  | submitUpgradeProposal submitter hash =>
    exact writes_submitUpgradeProposal.bind fun _ => respects_pure _
  | approveUpgrade voter id => exact writes_approveUpgrade
  | cancelProposal caller id => exact writes_cancelProposal
  | registerWasmHash admin hash => exact writes_registerWasmHash
  | proposePrivilegeAction submitter action =>
    exact (writes_proposePrivilegeAction action).bind fun _ => respects_pure _
  | cancelPrivilegeAction caller action =>
    exact writes_cancelPrivilegeAction action
  | consumePrivilegeProposal action =>
    exact writes_consumePrivilegeProposal action

end BcForge.Admin
