import BcForge.Admin.Outsiders
import BcForge.RateLimit.Bound
import BcForge.Token.Books

/-! Accounts without a part in the administration gain none, whatever they call together. -/
namespace BcForge.BcForgeToken

open Soroban Call Admin

variable {env : Env} {s s' : Store} {α : Type} {v : α} {u : Unit} {c : Address} {r : Role}
  {op : Op}

/-- What the administration decides: who belongs to it and what it has resolved, the cap, the
pause, the settings and metadata, what the contract itself owns, and the configured limits. -/
structure SameAdministration (s s' : Store) : Prop where
  access : s'.access = s.access
  paused : s'.paused = s.paused
  maxSupply : s'.maxSupply = s.maxSupply
  settings : Part.settings.get s' = Part.settings.get s
  foreign : s'.foreign = s.foreign
  globalLimit : s'.rateLimit.globalRateLimit = s.rateLimit.globalRateLimit
  addressLimit : s'.rateLimit.addressRateLimit = s.rateLimit.addressRateLimit

theorem SameAdministration.refl (s : Store) : SameAdministration s s :=
  ⟨rfl, rfl, rfl, rfl, rfl, rfl, rfl⟩

theorem SameAdministration.trans {s₁ : Store} (h : SameAdministration s s₁)
    (h' : SameAdministration s₁ s') : SameAdministration s s' :=
  ⟨h'.access.trans h.access, h'.paused.trans h.paused, h'.maxSupply.trans h.maxSupply,
    h'.settings.trans h.settings, h'.foreign.trans h.foreign,
    h'.globalLimit.trans h.globalLimit, h'.addressLimit.trans h.addressLimit⟩

/-- The entry points that are not for everybody. -/
def Op.isPrivileged : Op → Bool
  | .withdrawLocked _ => false
  | .batchTransfer _ _ => false
  | .executeFromContract _ _ _ _ => false
  | .allowance _ _ => false
  | .approve _ _ _ _ => false
  | .transfer _ _ _ => false
  | .transferFrom _ _ _ _ => false
  | .burn _ _ => false
  | .burnFrom _ _ _ => false
  | .initializeToken _ _ _ _ => false
  | _ => true

theorem insider_of_opening {k : Unit → TokenCall α}
    (h : Runs (ensureInitialized >>= fun _ => admin (requireRoleGuard r c) >>= k) env s v s') :
    InsiderSigned env s.access := by
  simp only [admin, runs_ensureInitialized_bind, runs_requireRole_bind] at h
  exact insider_of_role h.2.2.1 h.2.1

/-- Calls that look their administrator up ask that one for its role and signature. -/
theorem insider_of_stored {k : Unit → TokenCall α}
    (h : Runs (ensureInitialized >>= fun _ => admin getAdmin >>= fun c =>
      admin (requireAdmin c) >>= k) env s v s') : InsiderSigned env s.access := by
  simp only [admin, requireAdmin, runs_ensureInitialized_bind, runs_access_bind, runs_getAdmin,
    runs_requireRoleGuard] at h
  obtain ⟨-, c, _, ⟨-, rfl⟩, _, _, ⟨hrole, hc, -⟩, -⟩ := h
  exact insider_of_role hc hrole

theorem insider_of_access {wrap : AdminError → TokenError} {y : AdminCall α}
    (h : Runs (within accessLens wrap y) env s v s')
    (hy : ∀ t, Runs y env s.access v t → InsiderSigned env s.access) :
    InsiderSigned env s.access := by
  obtain ⟨t, ht, -⟩ := runs_within.mp h
  exact hy t ht

theorem insider_of_governed {y : AdminCall α} (h : Runs (governed y) env s v s')
    (hy : ∀ t, Runs y env s.access v t → InsiderSigned env s.access) :
    InsiderSigned env s.access := by
  simp only [governed, expectInitialized, runs_bind_assoc, runs_gets_bind,
    runs_trapIf_bind] at h
  exact insider_of_access h.2 hy

theorem insider_of_toggle {k : Unit → TokenCall α}
    (h : Runs (ensureInitialized >>= fun _ => gets (fun s => isAdminOrPauser s.access c) >>=
      fun allowed => failIf (allowed = false) TokenError.contractPaused >>= fun _ =>
        requireAuth c >>= k) env s v s') : InsiderSigned env s.access := by
  simp only [runs_ensureInitialized_bind, runs_gets_bind, runs_failIf_bind,
    runs_requireAuth_bind] at h
  obtain ⟨-, hallowed, hc, -⟩ := h
  refine ⟨c, hc, fun hout => hallowed hout.isAdminOrPauser⟩

/-- No privileged entry point goes through unless somebody of the administration has signed. -/
theorem insider_signed (hop : op.isPrivileged = true) (h : Runs (exec op) env s u s') :
    InsiderSigned env s.access := by
  cases op with
  | lockTokens caller user amount unlock => exact insider_of_opening h
  | mint minter dst amount =>
    obtain ⟨⟨hrole, hc⟩, -⟩ := leaves_mint h
    exact insider_of_role hc hrole
  | batchMint minter recipients =>
    obtain ⟨-, t, hbody, -⟩ := runs_reentrancyGuard.mp h
    simp only [admin, runs_ensureInitialized_bind, runs_ensureNotPaused_bind, runs_failIf_bind,
      runs_requireRole_bind] at hbody
    obtain ⟨-, -, -, hrole, hc, -⟩ := hbody
    exact insider_of_role (s := s.access) hc hrole
  | setMaxSupply caller maxSupply =>
    simp only [exec, setMaxSupply, admin, requireMinter, runs_ensureInitialized_bind,
      runs_failIf_bind, runs_requireRole_bind] at h
    obtain ⟨-, -, hrole, hc, -⟩ := h
    exact insider_of_role hc hrole
  | transferOwnership newAdmin => exact insider_of_stored h
  | proposePrivilegeAction submitter action =>
    obtain ⟨n, h⟩ := runs_discarded.mp h
    exact insider_of_access (runs_ensureInitialized_bind.mp h).2 fun _ ht => insider_of_guard ht
  | cancelPrivilegeAction caller action =>
    exact insider_of_access (runs_ensureInitialized_bind.mp h).2 fun _ ht => insider_of_guard ht
  | rescueTokens caller token recipient amount => exact insider_of_opening h
  | pause caller => exact insider_of_toggle h
  | unpause caller => exact insider_of_toggle h
  | upgrade upgrader hash => exact insider_of_opening h
  | pauseAs caller =>
    simp only [exec, pauseAs, runs_ensureInitialized_bind, runs_gets_bind, runs_failIf_bind,
      Lifecycle.runs_pause] at h
    obtain ⟨-, -, hrole, hc, -⟩ := h
    exact insider_of_role hc hrole
  | unpauseAs caller =>
    simp only [exec, unpauseAs, runs_ensureInitialized_bind, runs_gets_bind, runs_failIf_bind,
      Lifecycle.runs_unpause] at h
    obtain ⟨-, -, hrole, hc, -⟩ := h
    exact insider_of_role hc hrole
  | setFeeConfig caller config => exact insider_of_opening h
  | setTreasury caller treasury => exact insider_of_opening h
  | setFeeExemption caller a exemptionType => exact insider_of_opening h
  | removeFeeExemption caller a => exact insider_of_opening h
  | createProposal creator description =>
    obtain ⟨n, h⟩ := runs_discarded.mp h
    exact insider_of_governed h fun _ ht => insider_createProposal ht
  | grantRole caller r a => exact insider_of_governed h fun _ ht => insider_of_guard ht
  | revokeRole caller r a => exact insider_of_governed h fun _ ht => insider_of_guard ht
  | createRoleProposal creator r target description =>
    obtain ⟨n, h⟩ := runs_discarded.mp h
    exact insider_of_governed h fun _ ht => insider_createRoleProposal ht
  | approveProposal admin id => exact insider_of_governed h fun _ ht => insider_approveProposal ht
  | executeRoleProposal executor id =>
    exact insider_of_governed h fun _ ht => insider_executeRoleProposal ht
  | setAdminPool pool threshold => exact insider_of_governed h fun _ ht => insider_setAdminPool ht
  | executeUpgrade executor id hash =>
    exact insider_of_governed h fun _ ht => insider_executeUpgrade ht
  | updateName newName => exact insider_of_stored h
  | updateSymbol newSymbol => exact insider_of_stored h
  | setMetadata caller name symbol decimals => exact insider_of_opening h
  | updateMetadata caller name symbol => exact insider_of_opening h
  | setGlobalRateLimit caller operation limit windowSeconds =>
    simp only [exec, setGlobalRateLimit, admin, runs_requireRole_bind] at h
    exact insider_of_role h.2.1 h.1
  | setAddressRateLimit caller a operation limit windowSeconds =>
    simp only [exec, setAddressRateLimit, admin, runs_requireRole_bind] at h
    exact insider_of_role h.2.1 h.1
  | _ => cases hop

/-! What is open to everybody leaves the administration alone. -/

theorem access_of_parts {t t' : Admin.Store} (h : ∀ q : Admin.Part, q.get t' = q.get t) :
    t' = t := by
  obtain ⟨hrole, hmask⟩ := Prod.mk.inj (h .roles)
  obtain ⟨hpool, hthreshold⟩ := Prod.mk.inj (h .pool)
  obtain ⟨hproposal, hnext, htimelock, hgrant⟩ := Admin.Flow.mk.inj (h .flow)
  obtain ⟨hupgrade, hcounter⟩ := Prod.mk.inj (h .upgrades)
  have hadmin : t'.admin = t.admin := h .admin
  have hprivilege : t'.privilegeProposal = t.privilegeProposal := h .privilege
  have hinstalled : t'.installedWasmHash = t.installedWasmHash := h .installed
  have hguard : t'.adminProposalGuard = t.adminProposalGuard := h .guard
  have hwasm : t'.wasm = t.wasm := h .wasm
  cases t
  cases t'
  simp_all

/-- The configured limits; what was counted against them is everybody's doing. -/
def SameLimits (s s' : Store) : Prop :=
  s'.rateLimit.globalRateLimit = s.rateLimit.globalRateLimit ∧
    s'.rateLimit.addressRateLimit = s.rateLimit.addressRateLimit

instance : IsPreorder Store SameLimits where
  refl _ := ⟨rfl, rfl⟩
  trans _ _ _ h h' := ⟨h'.1.trans h.1, h'.2.trans h.2⟩

theorem limits_of_onlyCounts {k : RateLimit.Key} {t t' : RateLimit.Store}
    (h : RateLimit.OnlyCounts k t t') : t'.globalRateLimit = t.globalRateLimit ∧
      t'.addressRateLimit = t.addressRateLimit := by
  rcases h with rfl | ⟨x, rfl⟩
  · exact ⟨rfl, rfl⟩
  · cases k <;> exact ⟨rfl, rfl⟩

theorem limits_checkRateLimit (operation : String) (a : Address) :
    Respects SameLimits (checkRateLimit operation a) := by
  refine Respects.bind ?_ fun _ => respects_failIf _ _
  intro env s allowed s' h
  obtain ⟨t, ht, rfl⟩ := runs_within.mp h
  obtain ⟨first, t₁, hglobal, hrest⟩ := RateLimit.internalCheckRateLimit_cases ht
  have hfirst := limits_of_onlyCounts
    (RateLimit.runs_checkLimit_onlyCounts (k := .global operation) hglobal)
  rcases hrest with ⟨rfl, -⟩ | ⟨-, a', -, haddress⟩
  · exact hfirst
  · have hsecond := limits_of_onlyCounts
      (RateLimit.runs_checkLimit_onlyCounts (k := .perAddress a' operation) haddress)
    exact ⟨hsecond.1.trans hfirst.1, hsecond.2.trans hfirst.2⟩

theorem limits_of_writes {ws : List Part} {y : TokenCall α} (h : Writes parts ws y)
    (hws : .rateLimit ∉ ws) : Respects SameLimits y := by
  intro env s a s' hr
  have hsame : s'.rateLimit = s.rateLimit := h env s a s' hr .rateLimit hws
  rw [SameLimits, hsame]
  exact ⟨rfl, rfl⟩

theorem limits_of_reads {y : TokenCall α} (h : Writes parts [] y) : Respects SameLimits y :=
  limits_of_writes h (by decide)

theorem limits_moveBalance (src dst : Address) (x : ℤ) :
    Respects SameLimits (moveBalance src dst x) := by
  have hwrites : Writes parts [.balance] (moveBalance src dst x) := writes_moveBalance (by decide)
  exact limits_of_writes hwrites (by decide)

theorem limits_guarded {g : Guard} {y : TokenCall α} (h : Respects SameLimits y) :
    Respects SameLimits (reentrancyGuard g y) :=
  respects_guarded (fun _ _ => ⟨rfl, rfl⟩) h

theorem limits_opening {y : TokenCall α} (h : Respects SameLimits y) (c : Address) :
    Respects SameLimits (ensureInitialized >>= fun _ => ensureNotPaused >>= fun _ =>
      requireAuth c >>= fun _ => y) :=
  (limits_of_reads writes_ensureInitialized).bind fun _ =>
    (limits_of_reads writes_ensureNotPaused).bind fun _ =>
      (respects_requireAuth c).bind fun _ => h

theorem limits_transferAll (src : Address) (recipients : List (Address × ℤ)) :
    Respects SameLimits (transferAll src recipients) := by
  induction recipients with
  | nil => exact respects_pure _
  | cons r rest ih =>
    exact (limits_checkRateLimit _ _).bind fun _ =>
      (limits_moveBalance _ _ _).bind fun _ => ih

theorem limits_executeOperation (src : Address) (op : BatchOp) :
    Respects SameLimits (executeOperation src op) := by
  cases op with
  | approve spender amount exp =>
    exact (respects_failIf _ _).bind fun _ => respects_modify fun _ => ⟨rfl, rfl⟩
  | transfer dst amount =>
    exact (respects_failIf _ _).bind fun _ => (limits_checkRateLimit _ _).bind fun _ =>
      limits_moveBalance _ _ _

theorem limits_executeAll (src : Address) (operations : List BatchOp) :
    Respects SameLimits (executeAll src operations) := by
  induction operations with
  | nil => exact respects_pure _
  | cons op rest ih => exact (limits_executeOperation src op).bind fun _ => ih

/-- What follows the check of the rate limit counts against nothing any more. -/
theorem limits_counted {operation : String} {y : TokenCall α} {x : ℤ}
    (hy : Writes parts [.allowance, .balance, .supply] y) :
    Respects SameLimits (failIf (x ≤ 0) TokenError.invalidAmount >>= fun _ =>
      checkRateLimit operation c >>= fun _ => y) :=
  (respects_failIf _ _).bind fun _ => (limits_checkRateLimit _ _).bind fun _ =>
    limits_of_writes hy (by decide)

theorem limits_transferFrom (spender src dst : Address) (x : ℤ) :
    Respects SameLimits (transferFrom spender src dst x) :=
  limits_opening (limits_counted <| (writes_allowanceAmount (by decide)).bind fun _ =>
    (respects_failIf _ _).bind fun _ => (writes_readAllowanceData (by decide)).bind fun _ =>
    (writes_moveBalance (by decide)).bind fun _ => (respects_i128 _).bind fun _ =>
    writes_persistAllowanceData (by decide)) spender

theorem limits_burn (src : Address) (x : ℤ) : Respects SameLimits (burn src x) :=
  limits_opening (limits_counted <| (respects_gets _).bind fun _ => (respects_gets _).bind fun _ =>
    (respects_failIf _ _).bind fun _ => (respects_i128 _).bind fun _ =>
    (respects_gets _).bind fun _ => (respects_i128 _).bind fun _ =>
    (writes_writeBalance (by decide)).bind fun _ => writes_writeSupply (by decide)) src

theorem limits_burnFrom (spender src : Address) (x : ℤ) :
    Respects SameLimits (burnFrom spender src x) :=
  limits_opening (limits_counted <| (writes_allowanceAmount (by decide)).bind fun _ =>
    (respects_failIf _ _).bind fun _ => (writes_readAllowanceData (by decide)).bind fun _ =>
    (respects_gets _).bind fun _ => (respects_gets _).bind fun _ =>
    (respects_failIf _ _).bind fun _ => (respects_i128 _).bind fun _ =>
    (respects_gets _).bind fun _ => (respects_i128 _).bind fun _ => (respects_i128 _).bind fun _ =>
    (writes_persistAllowanceData (by decide)).bind fun _ =>
    (writes_writeBalance (by decide)).bind fun _ => writes_writeSupply (by decide)) spender

/-- What is open to everybody changes no limit. -/
theorem limits_open (hop : op.isPrivileged = false) : Respects SameLimits (exec op) := by
  by_cases hrate : .rateLimit ∉ op.writes
  · exact limits_of_writes (exec_writes op) hrate
  · cases op with
    | batchTransfer src recipients =>
      refine limits_guarded (limits_opening ?_ src)
      refine Respects.bind ?_ fun total => ?_
      · exact limits_of_reads (writes_batchTotal recipients 0)
      · exact (respects_gets _).bind fun _ => (respects_failIf _ _).bind fun _ =>
          limits_transferAll src recipients
    | executeFromContract src operations nonce maxLedger =>
      intro env s a s' h
      obtain ⟨-, t, hall, rfl⟩ := runs_executeFromContract h
      have hsame := limits_executeAll src operations env (begun src s) () t hall
      exact hsame
    | transfer src dst amount =>
      exact limits_guarded (limits_opening
        (limits_counted (writes_moveBalance (by decide))) src)
    | transferFrom spender src dst amount => exact limits_transferFrom spender src dst amount
    | burn src amount => exact limits_burn src amount
    | burnFrom spender src amount => exact limits_burnFrom spender src amount
    | mint minter dst amount => cases hop
    | batchMint minter recipients => cases hop
    | setGlobalRateLimit caller operation limit windowSeconds => cases hop
    | setAddressRateLimit caller a operation limit windowSeconds => cases hop
    | _ => exact absurd (by simp [Op.writes]) hrate

/-- The parts of the store that an open entry point may write. -/
theorem open_writes (hop : op.isPrivileged = false)
    (hinit : ∀ a d n m, op ≠ .initializeToken a d n m) :
    (∀ q, .access q ∉ op.writes) ∧ .paused ∉ op.writes ∧ .maxSupply ∉ op.writes ∧
      .settings ∉ op.writes ∧ .foreign ∉ op.writes := by
  cases op with
  | initializeToken a d n m => exact absurd rfl (hinit a d n m)
  | withdrawLocked user => simp [Op.writes]
  | batchTransfer src recipients => simp [Op.writes]
  | executeFromContract src operations nonce maxLedger => simp [Op.writes]
  | allowance owner spender => simp [Op.writes]
  | approve owner spender amount exp => simp [Op.writes]
  | transfer src dst amount => simp [Op.writes]
  | transferFrom spender src dst amount => simp [Op.writes]
  | burn src amount => simp [Op.writes]
  | burnFrom spender src amount => simp [Op.writes]
  | _ => cases hop

theorem administration_open (hop : op.isPrivileged = false)
    (hinit : ∀ a d n m, op ≠ .initializeToken a d n m) (h : Runs (exec op) env s u s') :
    SameAdministration s s' := by
  obtain ⟨haccess, hpaused, hcap, hsettings, hforeign⟩ := open_writes hop hinit
  have hwrites := exec_writes op env s u s' h
  obtain ⟨hglobal, haddress⟩ := limits_open hop env s u s' h
  exact ⟨access_of_parts fun q => hwrites (.access q) (haccess q), hwrites .paused hpaused,
    hwrites .maxSupply hcap, hwrites .settings hsettings, hwrites .foreign hforeign, hglobal,
    haddress⟩

/-- Nothing that is open to everybody issues tokens. -/
theorem supply_open (hop : op.isPrivileged = false)
    (hinit : ∀ a d n m, op ≠ .initializeToken a d n m) (h : Runs (exec op) env s u s') :
    s'.supply ≤ s.supply := by
  have hkeep : .supply ∉ op.writes → s'.supply ≤ s.supply := by
    intro hsupply
    have hsame : s'.supply = s.supply := exec_writes op env s u s' h .supply hsupply
    exact hsame.le
  cases op with
  | burn src amount =>
    obtain ⟨-, hx, -, hl⟩ := leaves_burn h
    rw [hl.supply]
    omega
  | burnFrom spender src amount =>
    obtain ⟨-, ⟨hx, -⟩, -, hl⟩ := leaves_burnFrom h
    rw [hl.supply]
    omega
  | initializeToken a d n m => exact absurd rfl (hinit a d n m)
  | withdrawLocked user => exact hkeep (by simp [Op.writes])
  | batchTransfer src recipients => exact hkeep (by simp [Op.writes])
  | executeFromContract src operations nonce maxLedger => exact hkeep (by simp [Op.writes])
  | allowance owner spender => exact hkeep (by simp [Op.writes])
  | approve owner spender amount exp => exact hkeep (by simp [Op.writes])
  | transfer src dst amount => exact hkeep (by simp [Op.writes])
  | transferFrom spender src dst amount => exact hkeep (by simp [Op.writes])
  | _ => cases hop

/-- Only the holder itself takes a lock away. -/
theorem lockup_open {a : Address} (hop : op.isPrivileged = false)
    (ha : ¬ env.Authorized a) (h : Runs (exec op) env s u s') : s'.lockup a = s.lockup a := by
  by_cases hlock : .lockup ∈ op.writes
  · cases op with
    | withdrawLocked user =>
      obtain ⟨-, huser, lock, -, -, rfl⟩ := runs_withdrawLocked.mp h
      have hne : a ≠ user := fun he => ha (he ▸ huser)
      exact Function.update_of_ne hne _ _
    | lockTokens caller user amount unlock => cases hop
    | _ => simp [Op.writes] at hlock
  · have hsame : s'.lockup = s.lockup := exec_writes op env s u s' h .lockup hlock
    rw [hsame]

variable {w : World Store} {l : Label Op} {ls : List (Label Op)}

/-- What a coalition without a part in the administration leaves of it: all of it, no new tokens,
and every lock on an account outside the coalition. -/
structure Untouched (s s' : Store) (members : Address → Prop) : Prop where
  administration : SameAdministration s s'
  supply : s'.supply ≤ s.supply
  lockup : ∀ a, ¬ members a → s'.lockup a = s.lockup a

theorem untouched_next {members : Address → Prop} (hl : ∀ a, l.SignedBy a → members a)
    (hout : ∀ a, members a → Outsider w.store.access a) :
    Untouched w.store (w.next exec l).store members := by
  have hsame : ∀ s', s' = w.store → Untouched w.store s' members := by
    rintro s' rfl
    exact ⟨SameAdministration.refl _, le_rfl, fun _ _ => rfl⟩
  cases l with
  | close l => exact hsame _ (World.next_close_store exec w l)
  | call signers uploaded op =>
    rcases World.call_cases exec w signers uploaded op with hr | ⟨-, hs⟩
    · have hmember : ∀ a, (w.env signers uploaded).Authorized a → members a := by
        intro a ha
        rw [World.env_authorized] at ha
        exact hl a ha.2
      have hinit : ∀ a d n m, op ≠ .initializeToken a d n m := by
        rintro a d n m rfl
        exact not_runs_initializeToken hr
      have hop : op.isPrivileged = false := by
        rw [← Bool.not_eq_true]
        intro hop
        obtain ⟨a, ha, hinsider⟩ := insider_signed hop hr
        exact hinsider (hout a (hmember a ha))
      exact ⟨administration_open hop hinit hr, supply_open hop hinit hr,
        fun a hn => lockup_open hop (fun ha => hn (hmember a ha)) hr⟩
    · exact hsame _ (congrArg World.store hs)

/-- From any state on, accounts none of which has a role, a seat in the pool or the stored
administrator's place cannot together, whatever calls they sign and in whatever order, gain any of
them, nor change the cap, the pause, the settings, the code, a proposal or a limit, take what the
contract owns, issue a token, or lock or unlock what somebody else holds. -/
theorem outsiders_gain_nothing (w : World Store) (ls : List (Label Op)) (members : Address → Prop)
    (hls : ∀ l ∈ ls, ∀ a, l.SignedBy a → members a)
    (hout : ∀ a, members a → Outsider w.store.access a) :
    Untouched w.store (w.run exec ls).store members := by
  induction ls generalizing w with
  | nil => exact ⟨SameAdministration.refl _, le_rfl, fun _ _ => rfl⟩
  | cons l ls ih =>
    have hfirst := untouched_next (hls l List.mem_cons_self) hout
    have hstill : ∀ a, members a → Outsider (w.next exec l).store.access a := by
      intro a ha
      rw [hfirst.administration.access]
      exact hout a ha
    have hrest := ih (w.next exec l) (fun l' hl' => hls l' (List.mem_cons_of_mem _ hl')) hstill
    exact ⟨hfirst.administration.trans hrest.administration, hrest.supply.trans hfirst.supply,
      fun a ha => (hrest.lockup a ha).trans (hfirst.lockup a ha)⟩

/-- Accounts 3 and 4, of which one holds tokens, try what they can. -/
def mutiny : List (Label Op) :=
  [.call [⟨3⟩] [] (.mint ⟨3⟩ ⟨4⟩ 1000),
   .call [⟨3⟩, ⟨4⟩] [] (.grantRole ⟨3⟩ .admin ⟨4⟩),
   .call [⟨4⟩] [] (.setAdminPool [⟨4⟩] 1),
   .call [⟨3⟩] [7] (.upgrade ⟨3⟩ 7),
   .call [⟨3⟩] [] (.transfer ⟨3⟩ ⟨4⟩ 100),
   .call [⟨4⟩] [] (.burn ⟨4⟩ 40),
   .call [⟨4⟩] [] (.pause ⟨4⟩)]

theorem mutiny_gains_nothing :
    ((genesis.run exec busyRun).run exec mutiny).store.access =
        (genesis.run exec busyRun).store.access ∧
      ((genesis.run exec busyRun).run exec mutiny).store.supply ≤ 600 ∧
      ((genesis.run exec busyRun).run exec mutiny).store.lockup ⟨2⟩ =
        (genesis.run exec busyRun).store.lockup ⟨2⟩ := by
  have hls : ∀ l ∈ mutiny, ∀ a, l.SignedBy a → a ∈ [(⟨3⟩ : Address), ⟨4⟩] := by
    simp [mutiny, Label.SignedBy]
  have hout : ∀ a, a ∈ [(⟨3⟩ : Address), ⟨4⟩] →
      Outsider (genesis.run exec busyRun).store.access a := by
    decide +kernel
  have huntouched := outsiders_gain_nothing (genesis.run exec busyRun) mutiny
    (fun a => a ∈ [(⟨3⟩ : Address), ⟨4⟩]) hls hout
  have hsupply : (genesis.run exec busyRun).store.supply = 600 := by decide +kernel
  refine ⟨huntouched.administration.access, hsupply ▸ huntouched.supply,
    huntouched.lockup ⟨2⟩ (by decide)⟩

end BcForge.BcForgeToken
