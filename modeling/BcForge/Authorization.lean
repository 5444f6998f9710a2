import BcForge.Soroban.Requests
import BcForge.Admin.Multisig
import BcForge.Wrapper.Contract

/-! How often a call asks for the authorization of one address. -/
namespace BcForge

open Soroban Call

namespace Admin

variable {env : Env} {s : Store} {executor : Address}

@[simp] theorem asks_getAdmin_bind {α : Type} {P : List Address → Prop} {k : Address → AdminCall α} :
    Asks (getAdmin >>= k) env s P ↔ ∀ c, s.admin = some c → Asks (k c) env s P := by
  simp [getAdmin]

theorem asks_executeUpgradeInner (id : ℕ) (hash : BytesN32) :
    Asks (executeUpgradeInner executor id hash) env s (· = [executor]) := by
  simp [executeUpgradeInner, isProposalReady, requireTimelockExpired, updateCurrentContractWasm]

/-- A batch asks for its executor once for every upgrade. -/
theorem asks_executeUpgradeAll (items : List (ℕ × BytesN32)) :
    Asks (executeUpgradeAll executor items) env s (· = List.replicate items.length executor) := by
  induction items generalizing s with
  | nil => simp [executeUpgradeAll]
  | cons item items ih =>
    refine (asks_executeUpgradeInner item.1 item.2).bind fun _ s' => ?_
    refine ih.mono fun asked hasked => ?_
    rw [hasked]
    rfl

/-- One role guard is all that granting and revoking ask for. -/
theorem asks_grantRole (caller : Address) (r : Role) (a : Address) :
    Asks (grantRole caller r a) env s (· = [caller]) := by
  simp [grantRole, requireSuperAdmin, requireRoleGuard, requireNonZeroAddress, grantRole']

theorem asks_grantRoleChecked (caller : Address) (r : Role) (a : Address) :
    Asks (grantRoleChecked caller r a) env s (· = [caller]) := by
  simp [grantRoleChecked, validateRoleNotGranted, requireNonZeroAddress, asks_grantRole]

theorem asks_revokeRole (caller : Address) (r : Role) (a : Address) :
    Asks (revokeRole caller r a) env s (· = [caller]) := by
  simp [revokeRole, requireSuperAdmin, requireRoleGuard, requireNonZeroAddress, isLastSuperAdmin,
    revokeRole']

theorem asks_renounceRole (caller : Address) (r : Role) :
    Asks (renounceRole caller r) env s (· = [caller]) := by
  simp [renounceRole, requireOtherSuperAdmin, requireNonZeroAddress, revokeRole']

/-- The guard of the super admin repeats the request that opens the call. -/
theorem asks_executeRoleProposal (id : ℕ) :
    Asks (executeRoleProposal executor id) env s (· = [executor, executor]) := by
  simp [executeRoleProposal, withProposalGuard, requireSuperAdmin, requireRoleGuard,
    isProposalReady, grantRole', requireNonZeroAddress]

theorem asks_executeUpgradeBatch (ids : List ℕ) (hashes : List BytesN32) :
    Asks (executeUpgradeBatch executor ids hashes) env s
      (· = List.replicate ids.length executor) := by
  simp only [executeUpgradeBatch, withProposalGuard, asks_guarded, asks_failIf_bind, ne_eq,
    not_not]
  intro _ hlength
  refine (asks_executeUpgradeAll _).mono fun asked hasked => ?_
  rw [hasked, List.length_zip, hlength, min_self]

theorem asks_createProposal (creator : Address) (description : String) :
    Asks (createProposal creator description) env s (· = [creator]) := by
  simp [createProposal, withProposalGuard, startTimelockIfQuorate, isProposalReady]

theorem asks_createRoleProposal (creator : Address) (r : Role) (target : Address)
    (description : String) :
    Asks (createRoleProposal creator r target description) env s (· = [creator]) := by
  simp only [createRoleProposal, requireNonZeroAddress, asks_failIf_bind, asks_gets_bind]
  intro _ _ _
  refine (asks_createProposal creator description).bind fun _ _ => ?_
  simp

theorem asks_submitUpgradeProposal (submitter : Address) (hash : BytesN32) :
    Asks (submitUpgradeProposal submitter hash) env s (· = [submitter]) := by
  simp [submitUpgradeProposal, withProposalGuard, requireValidWasmHash]

/-- The operations that ask for their caller once. -/
def Op.AsksOnce : Op → Prop
  | .executeRoleProposal _ _ => False
  | .executeUpgradeBatch _ ids _ => ids.length ≤ 1
  | _ => True

theorem exec_asks (op : Op) : Asks (exec op) env s fun asked => asked.Nodup ↔ op.AsksOnce := by
  cases op with
  | executeRoleProposal executor id =>
    refine (asks_executeRoleProposal id).mono ?_
    rintro asked rfl
    simp [Op.AsksOnce]
  | executeUpgradeBatch executor ids hashes =>
    refine (asks_executeUpgradeBatch ids hashes).mono ?_
    rintro asked rfl
    exact List.nodup_replicate
  | setAdmin a =>
    simp [exec, Op.AsksOnce, setAdmin, requireNonZeroAddress, grantRole']
  | grantRole caller r a =>
    refine (asks_grantRole caller r a).mono ?_
    rintro asked rfl
    simp [Op.AsksOnce]
  | revokeRole caller r a =>
    refine (asks_revokeRole caller r a).mono ?_
    rintro asked rfl
    simp [Op.AsksOnce]
  | renounceRole caller r =>
    refine (asks_renounceRole caller r).mono ?_
    rintro asked rfl
    simp [Op.AsksOnce]
  | setAdminPool pool threshold => simp [exec, Op.AsksOnce, setAdminPool]
  | createProposal creator description =>
    refine (asks_createProposal creator description).bind fun _ _ => ?_
    simp [Op.AsksOnce]
  | createRoleProposal creator r target description =>
    refine (asks_createRoleProposal creator r target description).bind fun _ _ => ?_
    simp [Op.AsksOnce]
  | approveProposal admin id =>
    simp [exec, Op.AsksOnce, approveProposal, withProposalGuard, startTimelockIfQuorate,
      isProposalReady]
  | markExecuted id => simp [exec, Op.AsksOnce, markExecuted, withProposalGuard, isProposalReady]
  | cancelLegacyProposal caller id =>
    simp [exec, Op.AsksOnce, cancelLegacyProposal, withProposalGuard]
  | executeUpgrade executor id hash =>
    simp [exec, Op.AsksOnce, executeUpgrade, withProposalGuard, executeUpgradeInner,
      isProposalReady, requireTimelockExpired, updateCurrentContractWasm]
  | emergencyExecuteUpgrade executor id hash =>
    simp [exec, Op.AsksOnce, emergencyExecuteUpgrade, withProposalGuard, updateCurrentContractWasm]
  | submitUpgradeProposal submitter hash =>
    refine (asks_submitUpgradeProposal submitter hash).bind fun _ _ => ?_
    simp [Op.AsksOnce]
  | approveUpgrade voter id => simp [exec, Op.AsksOnce, approveUpgrade, withProposalGuard]
  | cancelProposal caller id => simp [exec, Op.AsksOnce, cancelProposal, withProposalGuard]
  | registerWasmHash admin hash =>
    simp [exec, Op.AsksOnce, registerWasmHash, requireAdmin, requireRoleGuard]
  | proposePrivilegeAction submitter action =>
    simp [exec, Op.AsksOnce, proposePrivilegeAction, requireAdmin, requireRoleGuard]
  | cancelPrivilegeAction caller action =>
    simp [exec, Op.AsksOnce, cancelPrivilegeAction, requireAdmin, requireRoleGuard]
  | consumePrivilegeProposal action =>
    simp [exec, Op.AsksOnce, consumePrivilegeProposal]

end Admin

namespace Wrapper

variable {env : Env} {s : Store}

/-- Claiming through `withdraw` asks for the caller in both of them. -/
theorem asks_withdraw_zero (caller : Address) :
    Asks (withdraw caller 0) env s (· = [caller, caller]) := by
  simp [withdraw, claimWithdrawal, ensureInitialized, ensureNotPaused, acquireLock, releaseLock,
    readUnderlying, TokenClient.transfer]

theorem asks_withdraw {shares : ℤ} (h : shares ≠ 0) (caller : Address) :
    Asks (withdraw caller shares) env s (· = [caller]) := by
  simp [withdraw, h, withdrawShares, ensureInitialized, ensureNotPaused, requireUnlocked,
    acquireLock, releaseLock, readUnderlying, TokenClient.transfer, TokenClient.balance,
    checkAndUpdateEmergencyCap, burnShares]

def Op.AsksOnce : Op → Prop
  | .withdraw _ shares => shares ≠ 0
  | _ => True

/-- Setting the administrator up asks for nobody but the contract itself. -/
theorem asks_initializeVault (admin token : Address) (decimal : ℕ) :
    Asks (initializeVault admin token decimal) env s (· = [env.self]) := by
  have hadmin : ∀ s : Store, Asks (Wrapper.admin (Admin.setAdmin admin)) env s (· = []) := by
    intro s
    simp [Wrapper.admin, Admin.setAdmin, Admin.requireNonZeroAddress, Admin.grantRole']
  simp only [initializeVault, asks_self_bind, asks_requireAuth_bind, asks_gets_bind,
    asks_failIf_bind]
  intro _ _
  refine (hadmin s).bind fun _ _ => ?_
  simp

/-- A guard of the access control in front of a call asks for its caller. -/
theorem asks_guard_bind {α : Type} {caller : Address} {guard : Admin.AdminCall Unit}
    {k : Unit → WrapperCall α} {P : List Address → Prop}
    (hguard : Asks guard env s.access (· = [caller]))
    (hk : ∀ s, Asks (k ()) env s fun asked => P (caller :: asked)) :
    Asks (within accessLens WrapperError.access guard >>= k) env s P := by
  have hwithin : Asks (within accessLens WrapperError.access guard) env s (· = [caller]) :=
    asks_within.mpr hguard
  exact hwithin.bind fun _ s' => hk s'

theorem asks_requireAdmin {a : Admin.Store} (caller : Address) :
    Asks (Admin.requireAdmin caller) env a (· = [caller]) := by
  simp [Admin.requireAdmin, Admin.requireRoleGuard]

theorem asks_pause (caller : Address) :
    Asks (Lifecycle.pause accessLens pausedLens WrapperError.access caller) env s
      (· = [caller]) := by
  have hguard : Asks (Admin.requireRole .pauser caller) env s.access (· = [caller]) := by
    simp [Admin.requireRole]
  refine asks_guard_bind hguard fun _ => ?_
  simp

theorem asks_unpause (caller : Address) :
    Asks (Lifecycle.unpause accessLens pausedLens WrapperError.access caller) env s
      (· = [caller]) := by
  have hguard : Asks (Admin.requirePauser caller) env s.access (· = [caller]) := by
    simp [Admin.requirePauser, Admin.requireRoleGuard]
  refine asks_guard_bind hguard fun _ => ?_
  simp

theorem exec_asks (op : Op) : Asks (exec op) env s fun asked => asked.Nodup ↔ op.AsksOnce := by
  cases op with
  | withdraw caller shares =>
    by_cases h : shares = 0
    · subst h
      refine (asks_withdraw_zero caller).bind fun _ _ => ?_
      simp [Op.AsksOnce]
    · refine (asks_withdraw h caller).bind fun _ _ => ?_
      simp [Op.AsksOnce, h]
  | wrap caller amount =>
    simp [exec, Op.AsksOnce, wrap, ensureInitialized, ensureNotPaused, acquireLock, releaseLock,
      readUnderlying, TokenClient.transferFrom, TokenClient.decimals, mintShares]
  | deposit caller assets =>
    simp [exec, Op.AsksOnce, deposit, ensureInitialized, ensureNotPaused, acquireLock, releaseLock,
      readUnderlying, TokenClient.transferFrom, TokenClient.balance, mintShares]
  | unwrap caller wrappedAmount =>
    simp [exec, Op.AsksOnce, unwrap, ensureInitialized, ensureNotPaused, requireUnlocked,
      acquireLock, releaseLock, readUnderlying, TokenClient.decimals, TokenClient.transfer,
      burnShares]
  | claimWithdrawal caller =>
    simp [exec, Op.AsksOnce, claimWithdrawal, ensureInitialized, ensureNotPaused, acquireLock,
      releaseLock, readUnderlying, TokenClient.transfer]
  | distributeRewards caller amount =>
    simp [exec, Op.AsksOnce, distributeRewards, ensureInitialized, ensureNotPaused, acquireLock,
      releaseLock, readUnderlying, TokenClient.transferFrom]
  | rescueTokens caller token recipient amount =>
    simp only [exec, rescueTokens, ensureInitialized, asks_bind_assoc, asks_gets_bind,
      asks_failIf_bind]
    intro _
    refine asks_guard_bind (asks_requireAdmin caller) fun _ => ?_
    simp [Op.AsksOnce, readUnderlying, TokenClient.balance, TokenClient.transfer]
  | pause =>
    simp only [exec, pause, readAdmin, asks_bind_assoc, asks_gets_bind, asks_okOr_bind,
      asks_failIf_bind]
    intro admin _ _
    refine (asks_pause admin).mono ?_
    rintro asked rfl
    simp [Op.AsksOnce]
  | unpause =>
    simp only [exec, unpause, readAdmin, asks_bind_assoc, asks_gets_bind, asks_okOr_bind,
      asks_failIf_bind]
    intro admin _ _
    refine (asks_unpause admin).mono ?_
    rintro asked rfl
    simp [Op.AsksOnce]
  | pauseAs caller =>
    simp only [exec, pauseAs, ensureInitialized, asks_bind_assoc, asks_gets_bind, asks_failIf_bind]
    intro _ _
    refine (asks_pause caller).mono ?_
    rintro asked rfl
    simp [Op.AsksOnce]
  | unpauseAs caller =>
    simp only [exec, unpauseAs, ensureInitialized, asks_bind_assoc, asks_gets_bind,
      asks_failIf_bind]
    intro _ _
    refine (asks_unpause caller).mono ?_
    rintro asked rfl
    simp [Op.AsksOnce]
  | setCooldownConfig caller config =>
    simp only [exec, setCooldownConfig, ensureInitialized, asks_bind_assoc, asks_gets_bind,
      asks_failIf_bind]
    intro _
    refine asks_guard_bind (asks_requireAdmin caller) fun _ => ?_
    simp [Op.AsksOnce]
  | setUnlockTime caller user unlock =>
    simp only [exec, setUnlockTime, ensureInitialized, asks_bind_assoc, asks_gets_bind,
      asks_failIf_bind]
    intro _
    refine asks_guard_bind (asks_requireAdmin caller) fun _ => ?_
    simp [Op.AsksOnce]
  | clearUnlockTime caller user =>
    simp only [exec, clearUnlockTime, ensureInitialized, asks_bind_assoc, asks_gets_bind,
      asks_failIf_bind]
    intro _
    refine asks_guard_bind (asks_requireAdmin caller) fun _ => ?_
    simp [Op.AsksOnce]
  | setVaultState caller state =>
    simp only [exec, setVaultState, ensureInitialized, asks_bind_assoc, asks_gets_bind,
      asks_failIf_bind]
    intro _
    refine asks_guard_bind (asks_requireAdmin caller) fun _ => ?_
    simp [Op.AsksOnce]
  | approve owner spender amount expiry => simp [exec, Op.AsksOnce, approve, ensureInitialized]
  | transfer src dst amount =>
    simp [exec, Op.AsksOnce, transfer, ensureInitialized, ensureNotPaused, moveBalance]
  | transferFrom spender src dst amount =>
    simp [exec, Op.AsksOnce, transferFrom, ensureInitialized, ensureNotPaused, moveBalance,
      spendAllowance]
  | burn owner amount =>
    simp [exec, Op.AsksOnce, burn, ensureInitialized, ensureNotPaused, burnShares]
  | burnFrom spender owner amount =>
    simp [exec, Op.AsksOnce, burnFrom, ensureInitialized, ensureNotPaused, spendAllowance,
      burnShares]
  | underlyingMint dst amount => simp [exec, Op.AsksOnce]
  | underlyingTransfer src dst amount => simp [exec, Op.AsksOnce, TokenClient.transfer]
  | underlyingApprove owner spender amount => simp [exec, Op.AsksOnce]

end Wrapper

/-- An operation of the access-control library or of the wrapper that gets through asks for each
address once, except for the three that repeat their own request. -/
theorem authorization_requested_once_iff (env : Env) :
    (∀ op s d, Admin.exec op env s = .ok d → (d.requested.Nodup ↔ op.AsksOnce)) ∧
      (∀ caller r a s d, Admin.grantRoleChecked caller r a env s = .ok d →
        d.requested.Nodup) ∧
      (∀ op s d, Wrapper.exec op env s = .ok d → (d.requested.Nodup ↔ op.AsksOnce)) ∧
      ∀ admin token decimal s d, Wrapper.initializeVault admin token decimal env s = .ok d →
        d.requested.Nodup := by
  refine ⟨fun op s d => Admin.exec_asks op d, ?_, fun op s d => Wrapper.exec_asks op d, ?_⟩
  · intro caller r a s d h
    rw [Admin.asks_grantRoleChecked caller r a d h]
    exact List.nodup_singleton caller
  · intro admin token decimal s d h
    rw [Wrapper.asks_initializeVault admin token decimal d h]
    exact List.nodup_singleton env.self

/-- A store administered by account 1, with a proposal of its own to make account 2 a minter. -/
def proposedGrant : Admin.Store :=
  { Admin.persistRoleMask ⟨1⟩ (Admin.roleBit .admin) { Admin.Store.empty with admin := some ⟨1⟩ }
    with
    proposal := Function.update (fun _ => none) 0 (some ⟨⟨1⟩, "", [⟨1⟩], false, none, false⟩)
    roleGrantProposal := Function.update (fun _ => none) 0 (some ⟨.minter, ⟨2⟩⟩) }

def signedByOne : Env := ⟨.ofNat 100 1700000000, ⟨100⟩, [⟨1⟩], false, []⟩

theorem grantRole_requested_once : ∃ d, Admin.exec (.grantRole ⟨1⟩ .pauser ⟨2⟩) signedByOne
    proposedGrant = .ok d ∧ d.requested.Nodup := by
  have hrequested : ((Admin.exec (.grantRole ⟨1⟩ .pauser ⟨2⟩) signedByOne
      proposedGrant).toOption.map Done.requested).isSome = true := by decide +kernel
  cases h : Admin.exec (.grantRole ⟨1⟩ .pauser ⟨2⟩) signedByOne proposedGrant with
  | error e => simp [h, Except.toOption] at hrequested
  | ok d => exact ⟨d, rfl, ((authorization_requested_once_iff _).1 _ _ d h).mpr trivial⟩

/-- Executing a role proposal asks for its executor twice. -/
theorem executeRoleProposal_requested_twice :
    ¬ ∀ op env s d, Admin.exec op env s = .ok d → d.requested.Nodup := by
  intro hall
  have hrequested : ((Admin.exec (.executeRoleProposal ⟨1⟩ 0) signedByOne
      proposedGrant).toOption.map Done.requested) = some [⟨1⟩, ⟨1⟩] := by decide +kernel
  cases h : Admin.exec (.executeRoleProposal ⟨1⟩ 0) signedByOne proposedGrant with
  | error e => simp [h, Except.toOption] at hrequested
  | ok d =>
    have hnodup := hall _ _ _ d h
    simp only [h, Except.toOption, Option.map_some, Option.some.injEq] at hrequested
    rw [hrequested] at hnodup
    exact absurd hnodup (by decide)

end BcForge
