import BcForge.Admin.Frame
import BcForge.Token.Contract

/-! Which parts of its storage each entry point of the token writes. -/
namespace BcForge.BcForgeToken

open Soroban Call Admin

/-- What the token stores beside its books: fees, treasury and metadata. -/
structure Settings where
  feeConfig : Option FeeConfig
  treasury : Option Address
  feeExemption : Address → Option ℕ
  decimals : Option ℕ
  name : Option String
  symbol : Option String

inductive Part where
  | access (q : Admin.Part)
  | paused
  | rateLimit
  | guard
  | balance
  | supply
  | maxSupply
  | allowance
  | lockup
  | nonce
  | settings
  | foreign
deriving DecidableEq

namespace Part

def Value : Part → Type
  | access q => q.Value
  | paused => Bool
  | rateLimit => RateLimit.Store
  | guard => Guard → Bool
  | balance => Address → ℤ
  | supply => ℤ
  | maxSupply => ℤ
  | allowance => (Address → Address → Option AllowanceEntry) × (Address → Address → Option ℕ)
  | lockup => Address → Option LockupState
  | nonce => Address → ℕ
  | settings => Settings
  | foreign => Address → Token

def get : (p : Part) → Store → p.Value
  | access q, s => q.get s.access
  | paused, s => s.paused
  | rateLimit, s => s.rateLimit
  | guard, s => s.guard
  | balance, s => s.balance
  | supply, s => s.supply
  | maxSupply, s => s.maxSupply
  | allowance, s => (s.allowance, s.allowanceExp)
  | lockup, s => s.lockup
  | nonce, s => s.nonce
  | settings, s => ⟨s.feeConfig, s.treasury, s.feeExemption, s.decimals, s.name, s.symbol⟩
  | foreign, s => s.foreign

def set : (p : Part) → p.Value → Store → Store
  | access q, v, s => { s with access := q.set v s.access }
  | paused, b, s => { s with paused := b }
  | rateLimit, r, s => { s with rateLimit := r }
  | guard, f, s => { s with guard := f }
  | balance, f, s => { s with balance := f }
  | supply, x, s => { s with supply := x }
  | maxSupply, x, s => { s with maxSupply := x }
  | allowance, f, s => { s with allowance := f.1, allowanceExp := f.2 }
  | lockup, f, s => { s with lockup := f }
  | nonce, f, s => { s with nonce := f }
  | settings, v, s => { s with
      feeConfig := v.feeConfig
      treasury := v.treasury
      feeExemption := v.feeExemption
      decimals := v.decimals
      name := v.name
      symbol := v.symbol }
  | foreign, f, s => { s with foreign := f }

theorem get_set_of_ne {p q : Part} (v : p.Value) (s : Store) (h : q ≠ p) :
    q.get (p.set v s) = q.get s := by
  cases p with
  | access p' =>
    cases q with
    | access q' => exact Admin.Part.get_set_of_ne v s.access fun he => h (congrArg access he)
    | _ => rfl
  | _ => cases q <;> first | rfl | exact absurd rfl h

end Part

def parts : Parts Store Part := ⟨Part.Value, Part.get, Part.set, Part.get_set_of_ne⟩

variable {α : Type} {ws : List Part} {src dst u : Address} {x : ℤ}

theorem writes_ensureInitialized : Writes parts ws ensureInitialized :=
  (respects_gets _).bind fun _ => respects_failIf _ _

theorem writes_ensureNotPaused : Writes parts ws ensureNotPaused :=
  (respects_gets _).bind fun _ => respects_failIf _ _

/-- Administration writes its own part of the store, part by part. -/
theorem writes_access {v : List Admin.Part} {wrap : AdminError → TokenError} {y : AdminCall α}
    (hsub : ∀ q ∈ v, .access q ∈ ws) (h : Writes Admin.parts v y) :
    Writes parts ws (within accessLens wrap y) := by
  intro env s a s' hr p hp
  obtain ⟨t, hy, rfl⟩ := runs_within.mp hr
  cases p with
  | access q => exact h env s.access a t hy q fun hq => hp (hsub q hq)
  | _ => rfl

theorem writes_requireRole (r : Role) (c : Address) {wrap : AdminError → TokenError} :
    Writes parts ws (within accessLens wrap (requireRoleGuard r c)) :=
  writes_access (v := []) nofun (writes_requireRoleGuard r c)

theorem writes_adminAddress : Writes parts ws (admin getAdmin) :=
  writes_access (v := []) nofun writes_getAdmin

/-- The opening of every call that takes a role. -/
theorem writes_managed {r : Role} {c : Address} {wrap : AdminError → TokenError}
    {rest : Unit → TokenCall α} (h : Writes parts ws (rest ())) :
    Writes parts ws
      (ensureInitialized >>= fun _ => within accessLens wrap (requireRoleGuard r c) >>= rest) :=
  writes_ensureInitialized.bind fun _ => (writes_requireRole _ _).bind fun _ => h

theorem writes_discard {y : TokenCall α} (h : Writes parts ws y) : Writes parts ws (discard y) :=
  h.bind fun _ => respects_pure _

theorem writes_governed {v : List Admin.Part} {y : AdminCall α}
    (hsub : ∀ q ∈ v, .access q ∈ ws) (h : Writes Admin.parts v y) :
    Writes parts ws (governed y) :=
  ((respects_gets _).bind fun _ => respects_trapIf _ _).bind fun _ => writes_access hsub h

theorem writes_within_rateLimit {wrap : TokenError → TokenError}
    {y : Call RateLimit.Store TokenError α} (h : .rateLimit ∈ ws) :
    Writes parts ws (within rateLimitLens wrap y) :=
  respects_within fun _ _ => sameBut_of_eq .rateLimit h rfl

theorem writes_checkRateLimit (h : .rateLimit ∈ ws) (operation : String) (a : Address) :
    Writes parts ws (checkRateLimit operation a) :=
  (writes_within_rateLimit h).bind fun _ => respects_failIf _ _

/-- A finished call has released the flag it took. -/
theorem writes_reentrancyGuard {g : Guard} {y : TokenCall α} (hg : .guard ∉ ws)
    (h : Writes parts ws y) : Writes parts ws (reentrancyGuard g y) := by
  refine writes_guarded .guard ?_ ?_ hg h
  · intro b s q hq
    exact Part.get_set_of_ne (p := .guard) _ s hq
  · intro s t hfree ht
    have hheld : t.guard = Function.update s.guard g true := ht
    have hnow : s.guard g = false := hfree
    change Function.update t.guard g false = s.guard
    rw [hheld, Function.update_idem, ← hnow, Function.update_eq_self]

theorem writes_writeBalance (h : .balance ∈ ws) :
    Writes parts ws (modify (writeBalance u x) : TokenCall Unit) :=
  writes_modify .balance h fun _ => rfl

theorem writes_writeSupply (h : .supply ∈ ws) :
    Writes parts ws (modify (writeSupply x) : TokenCall Unit) :=
  writes_modify .supply h fun _ => rfl

theorem writes_persistAllowanceData {d : AllowanceData} (h : .allowance ∈ ws) :
    Writes parts ws (modify (persistAllowanceData src u d) : TokenCall Unit) :=
  writes_modify .allowance h fun _ => rfl

theorem writes_readAllowanceData (h : .allowance ∈ ws) :
    Writes parts ws (readAllowanceData src u) := by
  refine (respects_gets _).bind fun value => (respects_gets _).bind fun exp => ?_
  split
  · exact (writes_modify .allowance h fun _ => rfl).bind fun _ => respects_pure _
  · exact (writes_persistAllowanceData h).bind fun _ => respects_pure _
  · split
    · exact (writes_persistAllowanceData h).bind fun _ => respects_pure _
    · exact respects_pure _

theorem writes_allowanceAmount (h : .allowance ∈ ws) : Writes parts ws (allowanceAmount src u) :=
  (writes_readAllowanceData h).bind fun _ => respects_ledger.bind fun _ => respects_pure _

theorem writes_moveBalance (h : .balance ∈ ws) : Writes parts ws (moveBalance src dst x) := by
  refine (respects_gets _).bind fun _ => (respects_gets _).bind fun _ =>
    (respects_failIf _ _).bind fun _ => ?_
  split
  · exact respects_pure _
  · exact (respects_gets _).bind fun _ => (respects_i128 _).bind fun _ =>
      (writes_writeBalance h).bind fun _ => (respects_i128 _).bind fun _ => writes_writeBalance h

theorem writes_internalMint (h : .balance ∈ ws) (hs : .supply ∈ ws) :
    Writes parts ws (internalMint dst x) :=
  (respects_failIf _ _).bind fun _ => (respects_gets _).bind fun _ =>
    (respects_gets _).bind fun _ => (respects_i128 _).bind fun _ =>
    (respects_failIf _ _).bind fun _ => (respects_gets _).bind fun _ =>
    (respects_i128 _).bind fun _ => (writes_writeBalance h).bind fun _ => writes_writeSupply hs

theorem writes_writeLockup {lock : Option LockupState} :
    Writes parts [.lockup] (modify (writeLockup u lock) : TokenCall Unit) :=
  writes_modify .lockup (by decide) fun _ => rfl

theorem writes_lockTokens (caller : Address) (unlock : ℕ) :
    Writes parts [.lockup] (lockTokens caller u x unlock) :=
  writes_managed <| (respects_failIf _ _).bind fun _ => (respects_gets _).bind fun _ =>
    (respects_gets _).bind fun _ => (respects_okOr _ _).bind fun _ =>
    (respects_failIf _ _).bind fun _ => (respects_okOr _ _).bind fun _ => writes_writeLockup

theorem writes_withdrawLocked : Writes parts [.lockup] (withdrawLocked u) :=
  writes_ensureInitialized.bind fun _ => (respects_requireAuth _).bind fun _ =>
    (respects_gets _).bind fun _ => (respects_okOr _ _).bind fun _ =>
    respects_ledger.bind fun _ => (respects_failIf _ _).bind fun _ => writes_writeLockup

theorem writes_initializeToken (decimal : ℕ) (name symbol : String) :
    Writes parts [.access .admin, .access .roles, .settings, .supply, .maxSupply]
      (initializeToken u decimal name symbol) := by
  refine respects_self.bind fun _ => (respects_requireAuth _).bind fun _ =>
    (respects_gets _).bind fun _ => (respects_failIf _ _).bind fun _ =>
    (writes_access (by decide) writes_setAdmin).bind fun _ => respects_modify fun s p hp => ?_
  cases p <;> first | rfl | exact absurd (by decide) hp

theorem writes_mint (minter : Address) :
    Writes parts [.rateLimit, .balance, .supply] (mint minter dst x) :=
  (respects_failIf _ _).bind fun _ => writes_reentrancyGuard (by decide) <|
    writes_ensureInitialized.bind fun _ => writes_ensureNotPaused.bind fun _ =>
    (writes_requireRole _ _).bind fun _ => (writes_checkRateLimit (by decide) _ _).bind fun _ =>
    writes_internalMint (by decide) (by decide)

theorem writes_mintAll (minter : Address) (recipients : List Recipient) :
    Writes parts [.rateLimit, .balance, .supply] (mintAll minter recipients) := by
  induction recipients with
  | nil => exact respects_pure _
  | cons r rest ih =>
    exact (writes_checkRateLimit (by decide) _ _).bind fun _ =>
      (writes_internalMint (by decide) (by decide)).bind fun _ => ih

theorem writes_batchMint (minter : Address) (recipients : List Recipient) :
    Writes parts [.rateLimit, .balance, .supply] (batchMint minter recipients) :=
  writes_reentrancyGuard (by decide) <| writes_ensureInitialized.bind fun _ =>
    writes_ensureNotPaused.bind fun _ => (respects_failIf _ _).bind fun _ =>
    (writes_requireRole _ _).bind fun _ => writes_mintAll minter recipients

theorem writes_batchTotal (recipients : List (Address × ℤ)) (total : ℤ) :
    Writes parts ws (batchTotal recipients total) := by
  induction recipients generalizing total with
  | nil => exact respects_pure _
  | cons r rest ih =>
    exact (respects_failIf _ _).bind fun _ => (respects_okOr _ _).bind fun _ => ih _

theorem writes_transferAll (recipients : List (Address × ℤ)) :
    Writes parts [.rateLimit, .balance] (transferAll src recipients) := by
  induction recipients with
  | nil => exact respects_pure _
  | cons r rest ih =>
    exact (writes_checkRateLimit (by decide) _ _).bind fun _ =>
      (writes_moveBalance (by decide)).bind fun _ => ih

theorem writes_batchTransfer (recipients : List (Address × ℤ)) :
    Writes parts [.rateLimit, .balance] (batchTransfer src recipients) :=
  writes_reentrancyGuard (by decide) <| writes_ensureInitialized.bind fun _ =>
    writes_ensureNotPaused.bind fun _ => (respects_requireAuth _).bind fun _ =>
    (writes_batchTotal _ _).bind fun _ => (respects_gets _).bind fun _ =>
    (respects_failIf _ _).bind fun _ => writes_transferAll recipients

theorem writes_executeOperation (h : .rateLimit ∈ ws) (hb : .balance ∈ ws) (ha : .allowance ∈ ws)
    (op : BatchOp) : Writes parts ws (executeOperation src op) := by
  cases op with
  | approve spender amount expiration =>
    exact (respects_failIf _ _).bind fun _ => writes_persistAllowanceData ha
  | transfer dst amount =>
    exact (respects_failIf _ _).bind fun _ => (writes_checkRateLimit h _ _).bind fun _ =>
      writes_moveBalance hb

theorem writes_executeAll (h : .rateLimit ∈ ws) (hb : .balance ∈ ws) (ha : .allowance ∈ ws)
    (operations : List BatchOp) : Writes parts ws (executeAll src operations) := by
  induction operations with
  | nil => exact respects_pure _
  | cons op rest ih => exact (writes_executeOperation h hb ha op).bind fun _ => ih

theorem writes_executeFromContract (operations : List BatchOp) (nonce maxLedger : ℕ) :
    Writes parts [.nonce, .rateLimit, .balance, .allowance]
      (executeFromContract src operations nonce maxLedger) :=
  writes_reentrancyGuard (by decide) <| writes_ensureInitialized.bind fun _ =>
    writes_ensureNotPaused.bind fun _ => (respects_failIf _ _).bind fun _ =>
    (respects_failIf _ _).bind fun _ => respects_ledger.bind fun _ =>
    (respects_failIf _ _).bind fun _ => (respects_requireAuth _).bind fun _ =>
    (respects_gets _).bind fun _ => (respects_failIf _ _).bind fun _ =>
    (respects_u64 _).bind fun _ => (writes_modify .nonce (by decide) fun _ => rfl).bind fun _ =>
    writes_executeAll (by decide) (by decide) (by decide) operations

theorem writes_transfer : Writes parts [.rateLimit, .balance] (transfer src dst x) :=
  writes_reentrancyGuard (by decide) <| writes_ensureInitialized.bind fun _ =>
    writes_ensureNotPaused.bind fun _ => (respects_requireAuth _).bind fun _ =>
    (respects_failIf _ _).bind fun _ => (writes_checkRateLimit (by decide) _ _).bind fun _ =>
    writes_moveBalance (by decide)

theorem writes_transferFrom (spender : Address) :
    Writes parts [.rateLimit, .allowance, .balance] (transferFrom spender src dst x) :=
  writes_ensureInitialized.bind fun _ => writes_ensureNotPaused.bind fun _ =>
    (respects_requireAuth _).bind fun _ => (respects_failIf _ _).bind fun _ =>
    (writes_checkRateLimit (by decide) _ _).bind fun _ =>
    (writes_allowanceAmount (by decide)).bind fun _ => (respects_failIf _ _).bind fun _ =>
    (writes_readAllowanceData (by decide)).bind fun _ =>
    (writes_moveBalance (by decide)).bind fun _ => (respects_i128 _).bind fun _ =>
    writes_persistAllowanceData (by decide)

theorem writes_burn : Writes parts [.rateLimit, .balance, .supply] (burn src x) :=
  writes_ensureInitialized.bind fun _ => writes_ensureNotPaused.bind fun _ =>
    (respects_requireAuth _).bind fun _ => (respects_failIf _ _).bind fun _ =>
    (writes_checkRateLimit (by decide) _ _).bind fun _ => (respects_gets _).bind fun _ =>
    (respects_gets _).bind fun _ => (respects_failIf _ _).bind fun _ =>
    (respects_i128 _).bind fun _ => (respects_gets _).bind fun _ =>
    (respects_i128 _).bind fun _ => (writes_writeBalance (by decide)).bind fun _ =>
    writes_writeSupply (by decide)

theorem writes_burnFrom (spender : Address) :
    Writes parts [.rateLimit, .allowance, .balance, .supply] (burnFrom spender src x) :=
  writes_ensureInitialized.bind fun _ => writes_ensureNotPaused.bind fun _ =>
    (respects_requireAuth _).bind fun _ => (respects_failIf _ _).bind fun _ =>
    (writes_checkRateLimit (by decide) _ _).bind fun _ =>
    (writes_allowanceAmount (by decide)).bind fun _ => (respects_failIf _ _).bind fun _ =>
    (writes_readAllowanceData (by decide)).bind fun _ => (respects_gets _).bind fun _ =>
    (respects_gets _).bind fun _ => (respects_failIf _ _).bind fun _ =>
    (respects_i128 _).bind fun _ => (respects_gets _).bind fun _ =>
    (respects_i128 _).bind fun _ => (respects_i128 _).bind fun _ =>
    (writes_persistAllowanceData (by decide)).bind fun _ =>
    (writes_writeBalance (by decide)).bind fun _ => writes_writeSupply (by decide)

theorem writes_rescueTokens (caller token recipient : Address) :
    Writes parts [.foreign] (rescueTokens caller token recipient x) := by
  refine writes_managed <| respects_self.bind fun _ => (respects_failIf _ _).bind fun _ =>
    (respects_failIf _ _).bind fun _ => (respects_gets _).bind fun _ =>
    (respects_failIf _ _).bind fun _ => ?_
  intro env s a s' h
  obtain ⟨t, -, rfl⟩ := TokenClient.runs_commit.mp h
  exact sameBut_of_eq .foreign (by decide) rfl

theorem writes_lifecyclePause (caller : Address) :
    Writes parts [.paused] (Lifecycle.pause accessLens pausedLens TokenError.access caller) := by
  intro env s a s' h
  obtain ⟨-, -, -, rfl⟩ := Lifecycle.runs_pause.mp h
  exact sameBut_of_eq .paused (by decide) rfl

theorem writes_lifecycleUnpause (caller : Address) :
    Writes parts [.paused] (Lifecycle.unpause accessLens pausedLens TokenError.access caller) := by
  intro env s a s' h
  obtain ⟨-, -, -, rfl⟩ := Lifecycle.runs_unpause.mp h
  exact sameBut_of_eq .paused (by decide) rfl

/-- The parts an entry point may write. -/
def Op.writes : Op → List Part
  | .lockTokens _ _ _ _ | .withdrawLocked _ => [.lockup]
  | .initializeToken _ _ _ _ => [.access .admin, .access .roles, .settings, .supply, .maxSupply]
  | .mint _ _ _ | .batchMint _ _ | .burn _ _ => [.rateLimit, .balance, .supply]
  | .batchTransfer _ _ | .transfer _ _ _ => [.rateLimit, .balance]
  | .setMaxSupply _ _ => [.maxSupply]
  | .transferOwnership _ => [.access .admin, .access .roles, .access .privilege]
  | .proposePrivilegeAction _ _ | .cancelPrivilegeAction _ _ => [.access .privilege]
  | .rescueTokens _ _ _ _ => [.foreign]
  | .pause _ | .unpause _ | .pauseAs _ | .unpauseAs _ => [.paused]
  | .upgrade _ _ => [.access .wasm]
  | .setFeeConfig _ _ => [.access .privilege, .settings]
  | .setTreasury _ _ | .setFeeExemption _ _ _ | .removeFeeExemption _ _ | .updateName _
  | .updateSymbol _ | .setMetadata _ _ _ _ | .updateMetadata _ _ _ => [.settings]
  | .createProposal _ _ | .createRoleProposal _ _ _ _ | .approveProposal _ _ => [.access .flow]
  | .grantRole _ _ _ | .revokeRole _ _ _ => [.access .roles]
  | .executeRoleProposal _ _ => [.access .flow, .access .roles]
  | .setAdminPool _ _ => [.access .pool]
  | .executeUpgrade _ _ _ => [.access .flow, .access .wasm]
  | .executeFromContract _ _ _ _ => [.nonce, .rateLimit, .balance, .allowance]
  | .allowance _ _ | .approve _ _ _ _ => [.allowance]
  | .transferFrom _ _ _ _ => [.rateLimit, .allowance, .balance]
  | .burnFrom _ _ _ => [.rateLimit, .allowance, .balance, .supply]
  | .setGlobalRateLimit _ _ _ _ | .setAddressRateLimit _ _ _ _ _ => [.rateLimit]

theorem exec_writes (op : Op) : Writes parts op.writes (exec op) := by
  cases op with
  | lockTokens caller user amount unlock => exact writes_lockTokens caller unlock
  | withdrawLocked user => exact writes_withdrawLocked
  | initializeToken a d n m => exact writes_initializeToken d n m
  | mint minter dst amount => exact writes_mint minter
  | batchMint minter recipients => exact writes_batchMint minter recipients
  | batchTransfer src recipients => exact writes_batchTransfer recipients
  | setMaxSupply caller maxSupply =>
    exact writes_ensureInitialized.bind fun _ => (respects_failIf _ _).bind fun _ =>
      (writes_requireRole _ _).bind fun _ =>
      writes_modify .maxSupply (by simp [Op.writes]) fun _ => rfl
  | transferOwnership newAdmin =>
    exact writes_ensureInitialized.bind fun _ => writes_adminAddress.bind fun _ =>
      (writes_requireRole _ _).bind fun _ =>
      (writes_access (by simp [Op.writes]) (writes_consumePrivilegeProposal _)).bind fun _ =>
      writes_access (by simp [Op.writes]) writes_setAdmin
  | proposePrivilegeAction submitter action =>
    exact writes_discard (writes_ensureInitialized.bind fun _ =>
      writes_access (by simp [Op.writes]) (writes_proposePrivilegeAction action))
  | cancelPrivilegeAction caller action =>
    exact writes_ensureInitialized.bind fun _ =>
      writes_access (by simp [Op.writes]) (writes_cancelPrivilegeAction action)
  | rescueTokens caller token recipient amount => exact writes_rescueTokens _ _ _
  | pause caller =>
    exact writes_ensureInitialized.bind fun _ => (respects_gets _).bind fun _ =>
      (respects_failIf _ _).bind fun _ => (respects_requireAuth _).bind fun _ =>
      (respects_gets _).bind fun _ => (respects_failIf _ _).bind fun _ =>
      writes_modify .paused (by simp [Op.writes]) fun _ => rfl
  | unpause caller =>
    exact writes_ensureInitialized.bind fun _ => (respects_gets _).bind fun _ =>
      (respects_failIf _ _).bind fun _ => (respects_requireAuth _).bind fun _ =>
      (respects_gets _).bind fun _ => (respects_failIf _ _).bind fun _ =>
      writes_modify .paused (by simp [Op.writes]) fun _ => rfl
  | upgrade upgrader hash =>
    exact writes_managed
      (writes_access (v := [.wasm]) (by simp [Op.writes])
        (writes_updateCurrentContractWasm (by decide)))
  | pauseAs caller =>
    exact writes_ensureInitialized.bind fun _ => (respects_gets _).bind fun _ =>
      (respects_failIf _ _).bind fun _ => writes_lifecyclePause caller
  | unpauseAs caller =>
    exact writes_ensureInitialized.bind fun _ => (respects_gets _).bind fun _ =>
      (respects_failIf _ _).bind fun _ => writes_lifecycleUnpause caller
  | setFeeConfig caller config =>
    exact writes_managed <| (respects_failIf _ _).bind fun _ =>
      (writes_access (by simp [Op.writes]) (writes_consumePrivilegeProposal _)).bind fun _ =>
      writes_modify .settings (by simp [Op.writes]) fun _ => rfl
  | setTreasury caller treasury =>
    exact writes_managed (writes_modify .settings (by simp [Op.writes]) fun _ => rfl)
  | setFeeExemption caller a exemptionType =>
    exact writes_managed (writes_modify .settings (by simp [Op.writes]) fun _ => rfl)
  | removeFeeExemption caller a =>
    exact writes_managed (writes_modify .settings (by simp [Op.writes]) fun _ => rfl)
  | createProposal creator description =>
    exact writes_discard (writes_governed (by simp [Op.writes]) (writes_createProposal _ _))
  | grantRole caller r a => exact writes_governed (by simp [Op.writes]) writes_grantRole
  | revokeRole caller r a => exact writes_governed (by simp [Op.writes]) writes_revokeRole
  | createRoleProposal creator r target description =>
    exact writes_discard (writes_governed (by simp [Op.writes]) (writes_createRoleProposal _ _ _ _))
  | approveProposal admin id => exact writes_governed (by simp [Op.writes]) writes_approveProposal
  | executeRoleProposal executor id =>
    exact writes_governed (by simp [Op.writes]) writes_executeRoleProposal
  | setAdminPool pool threshold =>
    exact writes_governed (by simp [Op.writes]) (writes_setAdminPool pool threshold)
  | executeUpgrade executor id hash =>
    exact writes_governed (by simp [Op.writes]) writes_executeUpgrade
  | executeFromContract src operations nonce maxLedger =>
    exact writes_executeFromContract operations nonce maxLedger
  | allowance owner spender =>
    exact writes_discard (writes_ensureInitialized.bind fun _ =>
      writes_allowanceAmount (by simp [Op.writes]))
  | approve owner spender amount exp =>
    exact writes_reentrancyGuard (by simp [Op.writes]) <| writes_ensureInitialized.bind fun _ =>
      (respects_requireAuth _).bind fun _ => (respects_failIf _ _).bind fun _ =>
      writes_persistAllowanceData (by simp [Op.writes])
  | transfer src dst amount => exact writes_transfer
  | transferFrom spender src dst amount => exact writes_transferFrom spender
  | burn src amount => exact writes_burn
  | burnFrom spender src amount => exact writes_burnFrom spender
  | updateName newName =>
    exact writes_ensureInitialized.bind fun _ => writes_adminAddress.bind fun _ =>
      (writes_requireRole _ _).bind fun _ =>
      writes_modify .settings (by simp [Op.writes]) fun _ => rfl
  | updateSymbol newSymbol =>
    exact writes_ensureInitialized.bind fun _ => writes_adminAddress.bind fun _ =>
      (writes_requireRole _ _).bind fun _ =>
      writes_modify .settings (by simp [Op.writes]) fun _ => rfl
  | setMetadata caller name symbol decimals =>
    exact writes_managed <| (respects_gets _).bind fun _ => (respects_failIf _ _).bind fun _ =>
      writes_modify .settings (by simp [Op.writes]) fun _ => rfl
  | updateMetadata caller name symbol =>
    exact writes_managed (writes_modify .settings (by simp [Op.writes]) fun _ => rfl)
  | setGlobalRateLimit caller operation limit windowSeconds =>
    exact (writes_requireRole _ _).bind fun _ => writes_within_rateLimit (by simp [Op.writes])
  | setAddressRateLimit caller a operation limit windowSeconds =>
    exact (writes_requireRole _ _).bind fun _ => writes_within_rateLimit (by simp [Op.writes])

end BcForge.BcForgeToken
