import BcForge.Soroban.Respects
import BcForge.Soroban.Run
import BcForge.Admin.Roster
import BcForge.Token.Spec
import BcForge.Token.Ledger

/-! Every entry point of the token keeps the books, whatever it is called with. -/
namespace BcForge.BcForgeToken

open Soroban Call Admin

def Store.ledger (s : Store) : Ledger := ⟨s.balance, s.supply, getLockedAmount s⟩

/-- The store changed by entries in the books, and otherwise outside of them. -/
def Entries (s s' : Store) : Prop := Ledger.Steps s.ledger s'.ledger

instance : IsPreorder Store Entries where
  refl _ := Relation.ReflTransGen.refl
  trans _ _ _ := Relation.ReflTransGen.trans

variable {env : Env} {s s' : Store} {α : Type} {src dst u : Address} {x : ℤ}

theorem entries_of_eq (h : s'.ledger = s.ledger) : Entries s s' := by
  unfold Entries
  rw [h]
  exact Relation.ReflTransGen.refl

theorem entries_of_step (h : Ledger.Step s.ledger s'.ledger) : Entries s s' :=
  Relation.ReflTransGen.single h

/-- A spendable amount is free of locks: the default of an overflowing difference spends nothing. -/
theorem free_of_spendable (hx : 0 < x) (h : x ≤ getSpendableBalance s u) :
    x ≤ s.ledger.free u := by
  unfold getSpendableBalance at h
  cases hd : I128.checkedSub (s.balance u) (getLockedAmount s u) with
  | none =>
    rw [hd, Option.getD_none] at h
    omega
  | some d =>
    rw [hd, Option.getD_some] at h
    simp only [I128.checkedSub, I128.checked_eq_some] at hd
    exact h.trans_eq hd.2

/-- What the locks and the books are made of, and the administration. -/
def Store.core (s : Store) : (Address → ℤ) × ℤ × (Address → Option LockupState) × Admin.Store :=
  (s.balance, s.supply, s.lockup, s.access)

/-- The store changed by entries in the books that leave every lock alone, and the token stays
initialized. -/
structure Keeps (s s' : Store) : Prop where
  entries : Entries s s'
  lockup : s'.lockup = s.lockup
  stays : Stays s.access s'.access

instance : IsPreorder Store Keeps where
  refl s := ⟨refl_of Entries s, rfl, refl_of Stays s.access⟩
  trans _ _ _ h h' := ⟨trans_of Entries h.entries h'.entries, h'.lockup.trans h.lockup,
    trans_of Stays h.stays h'.stays⟩

theorem keeps_of_core (h : s'.core = s.core) : Keeps s s' := by
  simp only [Store.core, Prod.mk.injEq] at h
  obtain ⟨hb, hs, hl, ha⟩ := h
  refine ⟨entries_of_eq ?_, hl, ?_⟩
  · have hlocked : getLockedAmount s' = getLockedAmount s := by
      funext u
      rw [getLockedAmount, getLockedAmount, hl]
    rw [Store.ledger, Store.ledger, hb, hs, hlocked]
  · rw [ha]
    exact refl_of Stays s.access

theorem keeps_of_step (h : Ledger.Step s.ledger s'.ledger) (hl : s'.lockup = s.lockup)
    (ha : s'.access = s.access) : Keeps s s' := by
  refine ⟨entries_of_step h, hl, ?_⟩
  rw [ha]
  exact refl_of Stays s.access

/-- Writing anything outside the books. -/
theorem respects_aside {f : Store → Store} (h : ∀ s, (f s).core = s.core) :
    Respects Keeps (modify f : TokenCall Unit) :=
  respects_modify fun s => keeps_of_core (h s)

theorem respects_ensureInitialized : Respects Keeps ensureInitialized :=
  (respects_gets _).bind fun _ => respects_failIf _ _

theorem respects_ensureNotPaused : Respects Keeps ensureNotPaused :=
  (respects_gets _).bind fun _ => respects_failIf _ _

/-- Administration never touches the books. -/
theorem respects_access {wrap : AdminError → TokenError} {y : AdminCall α}
    (h : Respects Stays y) : Respects Keeps (within accessLens wrap y) := by
  intro env s a s' hr
  obtain ⟨access, hy, rfl⟩ := runs_within.mp hr
  exact ⟨entries_of_eq rfl, rfl, h env s.access a access hy⟩

theorem respects_requireRole (r : Role) (c : Address) {wrap : AdminError → TokenError} :
    Respects Keeps (within accessLens wrap (requireRoleGuard r c)) :=
  respects_access (stays_of_sameRoster (respects_requireRoleGuard r))

/-- The opening of every call that takes a role. -/
theorem respects_managed {r : Role} {c : Address} {wrap : AdminError → TokenError}
    {rest : Unit → TokenCall α} (h : Respects Keeps (rest ())) :
    Respects Keeps
      (ensureInitialized >>= fun _ => within accessLens wrap (requireRoleGuard r c) >>= rest) :=
  respects_ensureInitialized.bind fun _ => (respects_requireRole _ _).bind fun _ => h

theorem respects_checkRateLimit (operation : String) (a : Address) :
    Respects Keeps (checkRateLimit operation a) :=
  (respects_within fun _ _ => keeps_of_core rfl).bind fun _ => respects_failIf _ _

theorem respects_reentrancyGuard {g : Guard} {y : TokenCall α} (h : Respects Keeps y) :
    Respects Keeps (reentrancyGuard g y) :=
  respects_guarded (fun _ _ => keeps_of_core rfl) h

theorem respects_readAllowanceData (owner spender : Address) :
    Respects Keeps (readAllowanceData owner spender) := by
  refine (respects_gets _).bind fun value => (respects_gets _).bind fun exp => ?_
  split
  · exact (respects_aside fun _ => by rfl).bind fun _ => respects_pure _
  · exact (respects_aside fun _ => by rfl).bind fun _ => respects_pure _
  · split
    · exact (respects_aside fun _ => by rfl).bind fun _ => respects_pure _
    · exact respects_pure _

theorem respects_allowanceAmount (owner spender : Address) :
    Respects Keeps (allowanceAmount owner spender) :=
  (respects_readAllowanceData owner spender).bind fun _ => respects_ledger.bind fun _ =>
    respects_pure _

theorem respects_writeAllowance (owner spender : Address) (x : ℤ) (exp : ℕ) :
    Respects Keeps (writeAllowance owner spender x exp) :=
  respects_aside fun _ => by rfl

theorem respects_moveBalance (hx : 0 < x) : Respects Keeps (moveBalance src dst x) := by
  intro env s a s' h
  simp only [moveBalance, writeBalance, runs_gets_bind, runs_failIf_bind, runs_ite, runs_pure,
    runs_i128_bind, runs_modify_bind, runs_modify, not_lt] at h
  obtain ⟨hf, ⟨-, -, rfl⟩ | ⟨hne, -, -, rfl⟩⟩ := h
  · exact keeps_of_core rfl
  · exact keeps_of_step (Ledger.Step.move (b := s.ledger) src dst x hne hx
      (free_of_spendable hx hf)) rfl rfl

theorem respects_internalMint : Respects Keeps (internalMint dst x) := by
  intro env s a s' h
  simp only [internalMint, writeBalance, writeSupply, runs_gets_bind, runs_failIf_bind,
    runs_i128_bind, runs_modify_bind, runs_modify, not_lt, not_le] at h
  obtain ⟨hx, hs, -, -, rfl⟩ := h
  exact keeps_of_step (Ledger.Step.mint (b := s.ledger) dst x hx hs.2) rfl rfl

theorem ledger_writeLockup (u : Address) (v : Option LockupState) (s : Store) :
    (writeLockup u v s).ledger =
      { s.ledger with locked := Function.update s.ledger.locked u (v.elim 0 (·.amount)) } := by
  have h : getLockedAmount (writeLockup u v s) =
      Function.update (getLockedAmount s) u (v.elim 0 (·.amount)) := by
    funext a
    by_cases ha : a = u
    · subst ha
      simp [getLockedAmount, writeLockup]
    · simp [getLockedAmount, writeLockup, Function.update_of_ne ha]
  simp only [Store.ledger, h]
  rfl

theorem runs_lockTokens {caller user : Address} {unlock : ℕ} {a : Unit}
    (h : Runs (lockTokens caller user x unlock) env s a s') :
    0 < x ∧ x ≤ s.ledger.free user ∧ s' = writeLockup user (some ⟨getLockedAmount s user + x,
      (s.lockup user).elim unlock fun l => max l.unlockTimestamp unlock⟩) s := by
  simp only [lockTokens, admin, requireAdmin, runs_ensureInitialized_bind, runs_requireRole_bind,
    I128.checkedSub, I128.checkedAdd, runs_gets_bind, runs_okOr_bind, runs_failIf_bind,
    runs_modify, I128.checked_eq_some, not_lt, not_le] at h
  obtain ⟨-, -, -, hx, _, ⟨-, rfl⟩, hf, _, ⟨-, rfl⟩, rfl⟩ := h
  exact ⟨hx, hf, rfl⟩

/-- The holder withdraws a lock exactly when its time has come. -/
theorem runs_withdrawLocked {user : Address} {a : Unit} :
    Runs (withdrawLocked user) env s a s' ↔ hasAdmin s.access = true ∧ env.Authorized user ∧
      ∃ lock, s.lockup user = some lock ∧ lock.unlockTimestamp ≤ env.ledger.timestamp ∧
        s' = writeLockup user none s := by
  simp [withdrawLocked, ensureInitialized]

theorem respects_lockTokens (caller user : Address) (unlock : ℕ) :
    Respects Entries (lockTokens caller user x unlock) := by
  intro env s a s' h
  obtain ⟨hx, hf, rfl⟩ := runs_lockTokens h
  refine entries_of_step ?_
  rw [ledger_writeLockup]
  exact Ledger.Step.lock (b := s.ledger) user x hx hf

theorem respects_withdrawLocked (user : Address) : Respects Entries (withdrawLocked user) := by
  intro env s a s' h
  obtain ⟨-, -, lock, -, -, rfl⟩ := runs_withdrawLocked.mp h
  refine entries_of_step ?_
  rw [ledger_writeLockup]
  exact Ledger.Step.unlock (b := s.ledger) user

/-! Minting. -/

theorem respects_mint (minter : Address) : Respects Keeps (mint minter dst x) :=
  (respects_failIf _ _).bind fun _ => respects_reentrancyGuard <|
    respects_ensureInitialized.bind fun _ => respects_ensureNotPaused.bind fun _ =>
      (respects_requireRole _ _).bind fun _ => (respects_checkRateLimit _ _).bind fun _ =>
        respects_internalMint

theorem respects_mintAll (minter : Address) (recipients : List Recipient) :
    Respects Keeps (mintAll minter recipients) := by
  induction recipients with
  | nil => exact respects_pure _
  | cons r rest ih =>
    exact (respects_checkRateLimit _ _).bind fun _ => respects_internalMint.bind fun _ => ih

theorem respects_batchMint (minter : Address) (recipients : List Recipient) :
    Respects Keeps (batchMint minter recipients) :=
  respects_reentrancyGuard <| respects_ensureInitialized.bind fun _ =>
    respects_ensureNotPaused.bind fun _ => (respects_failIf _ _).bind fun _ =>
      (respects_requireRole _ _).bind fun _ => respects_mintAll minter recipients

/-! Transfers. A batch moves amounts its total has found positive. -/

theorem batchTotal_pos {recipients : List (Address × ℤ)} {total y : ℤ}
    (h : Runs (batchTotal recipients total) env s y s') :
    s' = s ∧ ∀ r ∈ recipients, 0 < r.2 := by
  induction recipients generalizing total with
  | nil =>
    rw [batchTotal, runs_pure] at h
    exact ⟨h.2, by simp⟩
  | cons r rest ih =>
    simp only [batchTotal, runs_failIf_bind, runs_okOr_bind, not_le] at h
    obtain ⟨hr, total', -, h⟩ := h
    obtain ⟨hs, hrest⟩ := ih h
    exact ⟨hs, List.forall_mem_cons.mpr ⟨hr, hrest⟩⟩

theorem respects_transferAll {recipients : List (Address × ℤ)} (h : ∀ r ∈ recipients, 0 < r.2) :
    Respects Keeps (transferAll src recipients) := by
  induction recipients with
  | nil => exact respects_pure _
  | cons r rest ih =>
    have hr := h r (by simp)
    exact (respects_checkRateLimit _ _).bind fun _ => (respects_moveBalance hr).bind fun _ =>
      ih fun r' hr' => h r' (by simp [hr'])

theorem respects_batchTransfer (recipients : List (Address × ℤ)) :
    Respects Keeps (batchTransfer src recipients) := by
  refine respects_reentrancyGuard <| respects_ensureInitialized.bind fun _ =>
    respects_ensureNotPaused.bind fun _ => (respects_requireAuth _).bind fun _ => ?_
  intro env s a s' h
  obtain ⟨total, s₁, htotal, hmoves⟩ := runs_bind.mp h
  obtain ⟨rfl, hpos⟩ := batchTotal_pos htotal
  have hrest : Respects Keeps (do
      let spendable ← gets (getSpendableBalance · src)
      failIf (spendable < total) TokenError.insufficientBalance
      transferAll src recipients) :=
    (respects_gets _).bind fun _ => (respects_failIf _ _).bind fun _ => respects_transferAll hpos
  exact hrest _ _ _ _ hmoves

theorem respects_executeOperation (op : BatchOp) : Respects Keeps (executeOperation src op) := by
  cases op with
  | approve spender amount expiration =>
    exact (respects_failIf _ _).bind fun _ => respects_writeAllowance _ _ _ _
  | transfer dst amount =>
    refine respects_failIf_bind fun hx => ?_
    rw [not_le] at hx
    exact (respects_checkRateLimit _ _).bind fun _ => respects_moveBalance hx

theorem respects_executeAll (operations : List BatchOp) :
    Respects Keeps (executeAll src operations) := by
  induction operations with
  | nil => exact respects_pure _
  | cons op rest ih => exact (respects_executeOperation op).bind fun _ => ih

theorem respects_executeFromContract (operations : List BatchOp) (nonce maxLedger : ℕ) :
    Respects Keeps (executeFromContract src operations nonce maxLedger) :=
  respects_reentrancyGuard <| respects_ensureInitialized.bind fun _ =>
    respects_ensureNotPaused.bind fun _ => (respects_failIf _ _).bind fun _ =>
    (respects_failIf _ _).bind fun _ => respects_ledger.bind fun _ =>
    (respects_failIf _ _).bind fun _ => (respects_requireAuth _).bind fun _ =>
    (respects_gets _).bind fun _ => (respects_failIf _ _).bind fun _ =>
    (respects_u64 _).bind fun _ => (respects_aside fun _ => by rfl).bind fun _ =>
    respects_executeAll operations

theorem respects_transfer : Respects Keeps (transfer src dst x) := by
  refine respects_reentrancyGuard <| respects_ensureInitialized.bind fun _ =>
    respects_ensureNotPaused.bind fun _ => (respects_requireAuth _).bind fun _ =>
    respects_failIf_bind fun hx => ?_
  rw [not_le] at hx
  exact (respects_checkRateLimit _ _).bind fun _ => respects_moveBalance hx

theorem respects_transferFrom (spender : Address) :
    Respects Keeps (transferFrom spender src dst x) := by
  refine respects_ensureInitialized.bind fun _ => respects_ensureNotPaused.bind fun _ =>
    (respects_requireAuth _).bind fun _ => respects_failIf_bind fun hx => ?_
  rw [not_le] at hx
  exact (respects_checkRateLimit _ _).bind fun _ => (respects_allowanceAmount _ _).bind fun _ =>
    (respects_failIf _ _).bind fun _ => (respects_readAllowanceData _ _).bind fun _ =>
    (respects_moveBalance hx).bind fun _ => (respects_i128 _).bind fun _ =>
    respects_writeAllowance _ _ _ _

/-! Burning. -/

theorem respects_burn : Respects Keeps (burn src x) := by
  refine respects_ensureInitialized.bind fun _ => respects_ensureNotPaused.bind fun _ =>
    (respects_requireAuth _).bind fun _ => respects_failIf_bind fun hx =>
    (respects_checkRateLimit _ _).bind fun _ => ?_
  rw [not_le] at hx
  intro env s a s' h
  simp only [writeBalance, writeSupply, runs_gets_bind, runs_failIf_bind, runs_i128_bind,
    runs_modify_bind, runs_modify, not_lt] at h
  obtain ⟨hf, -, -, rfl⟩ := h
  exact keeps_of_step (Ledger.Step.burn (b := s.ledger) src x hx (free_of_spendable hx hf)) rfl
    rfl

theorem respects_burnFrom (spender : Address) : Respects Keeps (burnFrom spender src x) := by
  refine respects_ensureInitialized.bind fun _ => respects_ensureNotPaused.bind fun _ =>
    (respects_requireAuth _).bind fun _ => respects_failIf_bind fun hx =>
    (respects_checkRateLimit _ _).bind fun _ => (respects_allowanceAmount _ _).bind fun _ =>
    (respects_failIf _ _).bind fun _ => (respects_readAllowanceData _ _).bind fun d => ?_
  rw [not_le] at hx
  intro env s a s' h
  simp only [writeBalance, writeSupply, writeAllowance, runs_gets_bind, runs_failIf_bind,
    runs_i128_bind, runs_modify_bind, runs_modify, not_lt] at h
  obtain ⟨hf, -, -, -, rfl⟩ := h
  exact keeps_of_step (Ledger.Step.burn (b := s.ledger) src x hx (free_of_spendable hx hf)) rfl
    rfl

theorem respects_discard {y : TokenCall α} (h : Respects Keeps y) :
    Respects Keeps (discard y) :=
  h.bind fun _ => respects_pure _

theorem respects_governed {y : AdminCall α} (h : Respects Stays y) : Respects Keeps (governed y) :=
  ((respects_gets _).bind fun _ => respects_trapIf _ _).bind fun _ => respects_access h

theorem respects_rescueTokens (caller token recipient : Address) :
    Respects Keeps (rescueTokens caller token recipient x) := by
  refine respects_managed <| respects_self.bind fun _ => (respects_failIf _ _).bind fun _ =>
    (respects_failIf _ _).bind fun _ => (respects_gets _).bind fun _ =>
    (respects_failIf _ _).bind fun _ => ?_
  intro env s a s' h
  obtain ⟨t, -, rfl⟩ := TokenClient.runs_commit.mp h
  exact keeps_of_core rfl

theorem respects_lifecyclePause (caller : Address) :
    Respects Keeps (Lifecycle.pause accessLens pausedLens TokenError.access caller) := by
  intro env s a s' h
  rw [(Lifecycle.runs_pause.mp h).2.2.2]
  exact keeps_of_core rfl

theorem respects_lifecycleUnpause (caller : Address) :
    Respects Keeps (Lifecycle.unpause accessLens pausedLens TokenError.access caller) := by
  intro env s a s' h
  rw [(Lifecycle.runs_unpause.mp h).2.2.2]
  exact keeps_of_core rfl

/-- The calls that set, extend or remove a lock, and the constructor. -/
def Op.locks : Op → Bool
  | .lockTokens _ _ _ _ => true
  | .withdrawLocked _ => true
  | .initializeToken _ _ _ _ => true
  | _ => false

/-- Every other entry point is a sequence of entries in the books that leaves the locks alone. -/
theorem exec_keeps (op : Op) (hop : op.locks = false) : Respects Keeps (exec op) := by
  cases op with
  | lockTokens caller user amount unlock => cases hop
  | withdrawLocked user => cases hop
  | initializeToken a d n m => cases hop
  | mint minter dst amount => exact respects_mint minter
  | batchMint minter recipients => exact respects_batchMint minter recipients
  | batchTransfer src recipients => exact respects_batchTransfer recipients
  | setMaxSupply caller maxSupply =>
    exact respects_ensureInitialized.bind fun _ => (respects_failIf _ _).bind fun _ =>
      (respects_requireRole _ _).bind fun _ => respects_aside fun _ => by rfl
  | transferOwnership newAdmin =>
    exact respects_ensureInitialized.bind fun _ =>
      (respects_access (stays_of_sameRoster respects_getAdmin)).bind fun _ =>
      (respects_requireRole _ _).bind fun _ =>
      (respects_access (stays_of_sameRoster (respects_consumePrivilegeProposal _))).bind fun _ =>
      respects_access stays_setAdmin
  | proposePrivilegeAction submitter action =>
    exact respects_discard (respects_ensureInitialized.bind fun _ =>
      respects_access (stays_of_sameRoster (respects_proposePrivilegeAction action)))
  | cancelPrivilegeAction caller action =>
    exact respects_ensureInitialized.bind fun _ =>
      respects_access (stays_of_sameRoster (respects_cancelPrivilegeAction action))
  | rescueTokens caller token recipient amount => exact respects_rescueTokens _ _ _
  | pause caller =>
    exact respects_ensureInitialized.bind fun _ => (respects_gets _).bind fun _ =>
      (respects_failIf _ _).bind fun _ => (respects_requireAuth _).bind fun _ =>
      (respects_gets _).bind fun _ => (respects_failIf _ _).bind fun _ =>
      respects_aside fun _ => by rfl
  | unpause caller =>
    exact respects_ensureInitialized.bind fun _ => (respects_gets _).bind fun _ =>
      (respects_failIf _ _).bind fun _ => (respects_requireAuth _).bind fun _ =>
      (respects_gets _).bind fun _ => (respects_failIf _ _).bind fun _ =>
      respects_aside fun _ => by rfl
  | upgrade upgrader hash =>
    exact respects_managed
      (respects_access (stays_of_sameRoster respects_updateCurrentContractWasm))
  | pauseAs caller =>
    exact respects_ensureInitialized.bind fun _ => (respects_gets _).bind fun _ =>
      (respects_failIf _ _).bind fun _ => respects_lifecyclePause caller
  | unpauseAs caller =>
    exact respects_ensureInitialized.bind fun _ => (respects_gets _).bind fun _ =>
      (respects_failIf _ _).bind fun _ => respects_lifecycleUnpause caller
  | setFeeConfig caller config =>
    exact respects_managed <| (respects_failIf _ _).bind fun _ =>
      (respects_access (stays_of_sameRoster (respects_consumePrivilegeProposal _))).bind fun _ =>
      respects_aside fun _ => by rfl
  | setTreasury caller treasury =>
    exact respects_managed (respects_aside fun _ => by rfl)
  | setFeeExemption caller a exemptionType =>
    exact respects_managed (respects_aside fun _ => by rfl)
  | removeFeeExemption caller a =>
    exact respects_managed (respects_aside fun _ => by rfl)
  | createProposal creator description =>
    exact respects_discard (respects_governed (stays_of_sameRoster (respects_createProposal _ _)))
  | grantRole caller r a => exact respects_governed (stays_grantRole caller r)
  | revokeRole caller r a => exact respects_governed (stays_revokeRole caller r)
  | createRoleProposal creator r target description =>
    exact respects_discard
      (respects_governed (stays_of_sameRoster (respects_createRoleProposal _ _ _ _)))
  | approveProposal admin id =>
    exact respects_governed (stays_of_sameRoster respects_approveProposal)
  | executeRoleProposal executor id => exact respects_governed stays_executeRoleProposal
  | setAdminPool pool threshold =>
    exact respects_governed (stays_of_sameRoster (respects_setAdminPool pool threshold))
  | executeUpgrade executor id hash => exact respects_governed stays_executeUpgrade
  | executeFromContract src operations nonce maxLedger =>
    exact respects_executeFromContract operations nonce maxLedger
  | allowance owner spender =>
    exact respects_discard (respects_ensureInitialized.bind fun _ => respects_allowanceAmount _ _)
  | approve owner spender amount exp =>
    exact respects_reentrancyGuard <| respects_ensureInitialized.bind fun _ =>
      (respects_requireAuth _).bind fun _ => (respects_failIf _ _).bind fun _ =>
      respects_writeAllowance _ _ _ _
  | transfer src dst amount => exact respects_transfer
  | transferFrom spender src dst amount => exact respects_transferFrom spender
  | burn src amount => exact respects_burn
  | burnFrom spender src amount => exact respects_burnFrom spender
  | updateName newName =>
    exact respects_ensureInitialized.bind fun _ =>
      (respects_access (stays_of_sameRoster respects_getAdmin)).bind fun _ =>
      (respects_requireRole _ _).bind fun _ => respects_aside fun _ => by rfl
  | updateSymbol newSymbol =>
    exact respects_ensureInitialized.bind fun _ =>
      (respects_access (stays_of_sameRoster respects_getAdmin)).bind fun _ =>
      (respects_requireRole _ _).bind fun _ => respects_aside fun _ => by rfl
  | setMetadata caller name symbol decimals =>
    exact respects_managed <| (respects_gets _).bind fun _ => (respects_failIf _ _).bind fun _ =>
      respects_aside fun _ => by rfl
  | updateMetadata caller name symbol =>
    exact respects_managed (respects_aside fun _ => by rfl)
  | setGlobalRateLimit caller operation limit windowSeconds =>
    exact (respects_requireRole _ _).bind fun _ => respects_within fun _ _ => keeps_of_core rfl
  | setAddressRateLimit caller a operation limit windowSeconds =>
    exact (respects_requireRole _ _).bind fun _ => respects_within fun _ _ => keeps_of_core rfl

/-- After initialization, every entry point is a sequence of entries in the books. -/
theorem exec_entries (op : Op) (hop : ∀ a d n m, op ≠ .initializeToken a d n m) :
    Respects Entries (exec op) := by
  by_cases hl : op.locks = false
  · intro env s a s' h
    exact (exec_keeps op hl env s a s' h).entries
  · cases op with
    | lockTokens caller user amount unlock => exact respects_lockTokens caller user unlock
    | withdrawLocked user => exact respects_withdrawLocked user
    | initializeToken a d n m => exact absurd rfl (hop a d n m)
    | _ => exact absurd rfl hl

/-- A token just initialized. -/
def Deployed (w : World Store) : Prop :=
  ∃ env adminAddress decimal name symbol foreign, env.self = w.self ∧
    Runs (initializeToken adminAddress decimal name symbol) env (Store.empty foreign) () w.store

variable {w : World Store} {l : Label Op} {ls : List (Label Op)}

/-- What the constructor leaves behind: an administrator, the metadata, and empty books. -/
theorem deployed_store (h : Deployed w) : ∃ env adminAddress access decimal name symbol foreign,
    Runs (setAdmin adminAddress) env Admin.Store.empty () access ∧
      w.store = { Store.empty foreign with
        access := access, decimals := some decimal, name := some name, symbol := some symbol } := by
  obtain ⟨env, adminAddress, decimal, name, symbol, foreign, -, h⟩ := h
  simp only [initializeToken, runs_self_bind, runs_requireAuth_bind, runs_gets_bind,
    runs_failIf_bind] at h
  obtain ⟨-, -, h⟩ := h
  obtain ⟨_, s, hadmin, h⟩ := runs_bind.mp h
  obtain ⟨access, hset, rfl⟩ := runs_within.mp hadmin
  exact ⟨env, adminAddress, access, decimal, name, symbol, foreign, hset, runs_modify.mp h⟩

theorem sound_deployed (h : Deployed w) : w.store.ledger.Sound := by
  obtain ⟨_, _, access, decimal, name, symbol, foreign, -, hs⟩ := deployed_store h
  rw [hs]
  have hmax : (0 : ℤ) ≤ I128.MAX := by decide
  exact ⟨hasTotal_zero, fun _ => le_rfl, fun _ => le_rfl, hmax⟩

/-- No call after deployment can initialize: the contract does not sign for itself. -/
theorem not_runs_initializeToken {signers : List Address} {uploaded : List BytesN32}
    {a : Address} {d : ℕ} {n m : String} {s : Store} :
    ¬ Runs (initializeToken a d n m) (w.env signers uploaded) w.store () s := by
  intro h
  simp only [initializeToken, runs_self_bind, runs_requireAuth_bind, World.env_authorized] at h
  exact h.1.1 rfl

theorem sound_next (h : w.store.ledger.Sound) : (w.next exec l).store.ledger.Sound := by
  refine World.next_store (P := fun s : Store => s.ledger.Sound) h ?_
  intro signers uploaded op s' hr
  have hop : ∀ a d n m, op ≠ .initializeToken a d n m := by
    rintro a d n m rfl
    exact not_runs_initializeToken hr
  exact Ledger.sound_steps h (exec_entries op hop _ _ _ _ hr)

/-- The stored balances add up to the stored supply, and every lock is within its balance. -/
def Conserved (s : Store) : Prop :=
  HasTotal s.balance s.supply ∧
    ∀ u, 0 ≤ getLockedAmount s u ∧ getLockedAmount s u ≤ s.balance u

/-- The plain additions and subtractions of `moveBalance`, `burn` and `burnFrom`, behind their
checks, fit in an `i128`. -/
def InBounds (s : Store) : Prop :=
  ∀ src dst x, 0 < x → x ≤ getSpendableBalance s src →
    I128.InRange (s.balance src - x) ∧ I128.InRange (s.supply - x) ∧
      (src ≠ dst → I128.InRange (s.balance dst + x))

theorem inBounds_of_sound (h : s.ledger.Sound) : InBounds s := by
  intro src dst x hx hf
  exact h.inRange hx (free_of_spendable hx hf)

/-- In every state of every run the books balance, and neither there nor between the operations
of one batch can the unchecked arithmetic overflow. -/
theorem books_conserved (h : Deployed w) :
    w.EveryState exec (fun w => Conserved w.store ∧ ∀ env src operations s',
      Runs (executeAll src operations) env w.store () s' → InBounds s') ls := by
  have hsound : w.EveryState exec (fun w => w.store.ledger.Sound) ls :=
    World.everyState_of_invariant (sound_deployed h) fun _ _ => sound_next
  refine World.everyState_mono ?_ hsound
  intro w hs
  refine ⟨⟨hs.total, fun u => ⟨hs.locked_nonneg u, hs.locked_le u⟩⟩, ?_⟩
  intro env src operations s' hr
  have hkeeps := respects_executeAll operations _ _ _ _ hr
  exact inBounds_of_sound (Ledger.sound_steps hs hkeeps.entries)

/-- A token at address 200 with account 1 as its administrator. -/
def genesis : World Store where
  ledger := .ofNat 100 1700000000
  self := ⟨200⟩
  store := invoke (initializeToken ⟨1⟩ 7 "bc-forge" "SFG")
    ⟨.ofNat 100 1700000000, ⟨200⟩, [], true, []⟩
    (Store.empty fun _ => Token.empty 7)

theorem genesis_deployed : Deployed genesis := by
  refine ⟨⟨.ofNat 100 1700000000, ⟨200⟩, [], true, []⟩, ⟨1⟩, 7, "bc-forge",
    "SFG", fun _ => Token.empty 7, rfl, ?_⟩
  exact runs_invoke (by decide)

/-- Minting, a lock, a batch that pays one account twice and the sender itself, and a burn. -/
def busyRun : List (Label Op) :=
  [.call [⟨1⟩] [] (.batchMint ⟨1⟩ [⟨⟨2⟩, 600⟩, ⟨⟨2⟩, 400⟩]),
   .call [⟨1⟩] [] (.lockTokens ⟨1⟩ ⟨2⟩ 300 1700000001),
   .call [⟨2⟩] [] (.batchTransfer ⟨2⟩ [(⟨3⟩, 100), (⟨2⟩, 50), (⟨3⟩, 200)]),
   .call [⟨2⟩] [] (.burn ⟨2⟩ 400)]

theorem books_conserved_busyRun : Conserved (genesis.run exec busyRun).store ∧
    (genesis.run exec busyRun).store.balance ⟨2⟩ = 300 ∧
    (genesis.run exec busyRun).store.supply = 600 :=
  ⟨(books_conserved genesis_deployed).run.1, by decide +kernel, by decide +kernel⟩

end BcForge.BcForgeToken
