import BcForge.Admin.Spec
import BcForge.Wrapper.Book

/-! What each entry point of the vault does to its store, and that every one of them is an entry
in the books. -/
namespace BcForge.Wrapper

open Soroban Call Admin

variable {env : Env} {s s' : Store} {α : Type} {a : α} {u : Unit} {c x : Address} {n m : ℤ}

section Guards

variable {k : Unit → WrapperCall α}

@[simp] theorem runs_ensureInitialized_bind : Runs (ensureInitialized >>= k) env s a s' ↔
    hasAdmin s.access = true ∧ Runs (k ()) env s a s' := by
  simp [ensureInitialized]

@[simp] theorem runs_ensureNotPaused_bind : Runs (ensureNotPaused >>= k) env s a s' ↔
    s.paused = false ∧ Runs (k ()) env s a s' := by
  simp [ensureNotPaused]

@[simp] theorem runs_requireUnlocked_bind : Runs (requireUnlocked c >>= k) env s a s' ↔
    (∀ t, s.unlockTime c = some t → t ≤ env.ledger.timestamp) ∧ Runs (k ()) env s a s' := by
  cases h : s.unlockTime c <;> simp [requireUnlocked, h]

@[simp] theorem runs_acquireLock_bind : Runs (acquireLock >>= k) env s a s' ↔
    s.lock = false ∧ Runs (k ()) env { s with lock := true } a s' := by
  simp [acquireLock]

@[simp] theorem runs_readUnderlying_bind {k : Address → WrapperCall α} :
    Runs (readUnderlying >>= k) env s a s' ↔
      ∃ t, s.underlyingToken = some t ∧ Runs (k t) env s a s' := by
  simp [readUnderlying]

@[simp] theorem runs_readAdmin_bind {k : Address → WrapperCall α} :
    Runs (readAdmin >>= k) env s a s' ↔ ∃ t, s.access.admin = some t ∧ Runs (k t) env s a s' := by
  simp [readAdmin]

@[simp] theorem runs_requireAdmin_bind : Runs (admin (requireAdmin c) >>= k) env s a s' ↔
    hasRole s.access .admin c = true ∧ env.Authorized c ∧ Runs (k ()) env s a s' := by
  simp [runs_bind, admin, requireAdmin, accessLens, and_assoc, Unique.exists_iff]

end Guards

/-- `n` new shares for `c`. -/
def credit (c : Address) (n : ℤ) (s : Store) : Store :=
  { s with balance := Function.update s.balance c (s.balance c + n), supply := s.supply + n }

/-- `n` shares of `c` less. -/
def debit (c : Address) (n : ℤ) (s : Store) : Store :=
  { s with balance := Function.update s.balance c (s.balance c - n), supply := s.supply - n }

@[simp] theorem runs_mintShares_bind {k : Unit → WrapperCall α} :
    Runs (mintShares c n >>= k) env s a s' ↔ I128.InRange (s.balance c + n) ∧
      I128.InRange (s.supply + n) ∧ Runs (k ()) env (credit c n s) a s' := by
  simp [mintShares, writeBalance, writeSupply, credit]

@[simp] theorem runs_burnShares_bind {k : Unit → WrapperCall α} :
    Runs (burnShares c n >>= k) env s a s' ↔ I128.InRange (s.balance c - n) ∧
      I128.InRange (s.supply - n) ∧ Runs (k ()) env (debit c n s) a s' := by
  simp [burnShares, writeBalance, writeSupply, debit]

@[simp] theorem runs_burnShares : Runs (burnShares c n) env s u s' ↔
    I128.InRange (s.balance c - n) ∧ I128.InRange (s.supply - n) ∧ s' = debit c n s := by
  simp [burnShares, writeBalance, writeSupply, debit]

/-- The underlying token as a call leaves it, with the lock released again. -/
def settle (t : Token) (s : Store) : Store := { s with lock := false, underlying := t }

theorem runs_wrap (h : Runs (wrap c n) env s u s') :
    s.lock = false ∧ env.Authorized c ∧ s.paused = false ∧ 0 < n ∧ ∃ t m,
      s.underlying.transferFrom env.self c env.self n = some t ∧
      calcSharesForAssets s t.decimals n = some m ∧ 0 < m ∧ I128.InRange (s.supply + m) ∧
      s' = settle t (credit c m s) := by
  simp only [wrap, TokenClient.transferFrom, TokenClient.decimals, releaseLock,
    runs_ensureInitialized_bind, runs_ensureNotPaused_bind, runs_requireAuth_bind,
    runs_failIf_bind, runs_acquireLock_bind, runs_readUnderlying_bind, runs_self_bind,
    TokenClient.runs_commit_bind, runs_gets_bind, runs_okOr_bind, runs_mintShares_bind,
    runs_modify, not_le] at h
  obtain ⟨-, hp, ha, hn, hl, _, -, t, ht, m, hm, hpos, -, hr, rfl⟩ := h
  exact ⟨hl, ha, hp, hn, t, m, ht, hm, hpos, hr, rfl⟩

theorem runs_deposit (h : Runs (deposit c n) env s m s') :
    s.lock = false ∧ env.Authorized c ∧ s.paused = false ∧ 0 < n ∧ ∃ t,
      s.underlying.transferFrom env.self c env.self n = some t ∧
      convertToShares n s.supply (t.balance env.self - n) = some m ∧ 0 < m ∧
      I128.InRange (s.supply + m) ∧ s' = settle t (credit c m s) := by
  simp only [deposit, TokenClient.transferFrom, TokenClient.balance, releaseLock,
    I128.checkedSub, runs_ensureInitialized_bind, runs_ensureNotPaused_bind, runs_requireAuth_bind,
    runs_failIf_bind, runs_acquireLock_bind, runs_readUnderlying_bind, runs_self_bind,
    TokenClient.runs_commit_bind, runs_gets_bind, runs_okOr_bind, runs_mintShares_bind,
    runs_modify_bind, runs_pure, I128.checked_eq_some, not_le] at h
  obtain ⟨-, hp, ha, hn, hl, _, -, t, ht, _, ⟨-, rfl⟩, -, m, hm, hpos, -, hr, rfl, rfl⟩ := h
  exact ⟨hl, ha, hp, hn, t, ht, hm, hpos, hr, rfl⟩

theorem runs_unwrap (h : Runs (unwrap c n) env s u s') :
    s.lock = false ∧ env.Authorized c ∧ s.paused = false ∧
      (∀ t, s.unlockTime c = some t → t ≤ env.ledger.timestamp) ∧ 0 < n ∧ n ≤ s.balance c ∧ ∃ x t,
      calcAssetsForShares s s.underlying.decimals n = some x ∧ 0 < x ∧
      s.underlying.transfer env.self c x = some t ∧ s' = settle t (debit c n s) := by
  simp only [unwrap, TokenClient.transfer, TokenClient.decimals, releaseLock,
    runs_ensureInitialized_bind, runs_ensureNotPaused_bind, runs_requireAuth_bind,
    runs_failIf_bind, runs_requireUnlocked_bind, runs_acquireLock_bind, runs_readUnderlying_bind,
    runs_self_bind, TokenClient.runs_commit_bind, runs_gets_bind, runs_okOr_bind,
    runs_burnShares_bind, runs_modify, not_le, not_lt] at h
  obtain ⟨-, hp, ha, hn, hfree, hb, hl, _, -, x, hx, hpos, -, -, t, ht, rfl⟩ := h
  exact ⟨hl, ha, hp, hfree, hn, hb, x, t, hx, hpos, ht, rfl⟩

theorem runs_distributeRewards (h : Runs (distributeRewards c n) env s u s') :
    s.lock = false ∧ env.Authorized c ∧ 0 < n ∧ ∃ t,
      s.underlying.transferFrom env.self c env.self n = some t ∧
      s' = settle t { s with pendingRewards := s.pendingRewards + n } := by
  simp only [distributeRewards, TokenClient.transferFrom, releaseLock, I128.checkedAdd,
    runs_ensureInitialized_bind, runs_ensureNotPaused_bind, runs_requireAuth_bind,
    runs_failIf_bind, runs_acquireLock_bind, runs_readUnderlying_bind, runs_self_bind,
    TokenClient.runs_commit_bind, runs_gets_bind, runs_okOr_bind, runs_modify_bind, runs_modify,
    I128.checked_eq_some, not_le] at h
  obtain ⟨-, -, ha, hn, hl, _, -, t, ht, _, ⟨-, rfl⟩, rfl⟩ := h
  exact ⟨hl, ha, hn, t, ht, rfl⟩

/-- A matured claim goes through exactly when the vault holds the queued amount. -/
theorem runs_claimWithdrawal : Runs (claimWithdrawal c) env s n s' ↔
    hasAdmin s.access = true ∧ s.paused = false ∧ env.Authorized c ∧
      ∃ q, s.queuedWithdrawal c = some q ∧ q.releaseLedger ≤ env.ledger.sequence ∧
        s.lock = false ∧ s.underlyingToken.isSome = true ∧ ∃ t,
          s.underlying.transfer env.self c q.amount = some t ∧ n = q.amount ∧
          s' = settle t (removeQueuedWithdrawal c s) := by
  simp only [claimWithdrawal, TokenClient.transfer, releaseLock, removeQueuedWithdrawal,
    runs_ensureInitialized_bind, runs_ensureNotPaused_bind, runs_requireAuth_bind,
    runs_failIf_bind, runs_acquireLock_bind, runs_readUnderlying_bind, runs_self_bind,
    runs_ledger_bind, TokenClient.runs_commit_bind, runs_gets_bind, runs_okOr_bind,
    runs_modify_bind, runs_pure, not_lt]
  constructor
  · rintro ⟨hi, hp, ha, q, hq, hr, hl, token, hu, t, ht, rfl, rfl⟩
    exact ⟨hi, hp, ha, q, hq, hr, hl, by simp [hu], t, ht, rfl, rfl⟩
  · rintro ⟨hi, hp, ha, q, hq, hr, hl, hu, t, ht, rfl, rfl⟩
    obtain ⟨token, hu⟩ := Option.isSome_iff_exists.mp hu
    exact ⟨hi, hp, ha, q, hq, hr, hl, token, hu, t, ht, rfl, rfl⟩

/-- What the cap check lets through, and the window it leaves for the caller. -/
def CapSpent (l : Ledger) (config : CooldownConfig) (c : Address) (x : ℤ)
    (old new : Address → Option UserEmergencyState) : Prop :=
  if 0 < config.emergencyCap then
    let window := currentWindow l config (old c)
    let withdrawn := window.amountWithdrawn + x
    withdrawn ≤ config.emergencyCap ∧
      new = Function.update old c (some { window with amountWithdrawn := withdrawn })
  else new = old

theorem runs_checkAndUpdateEmergencyCap_bind {config : CooldownConfig}
    {k : Unit → WrapperCall α}
    (h : Runs (checkAndUpdateEmergencyCap c n config >>= k) env s a s') :
    ∃ windows, CapSpent env.ledger config c n s.userEmergencyState windows ∧
      Runs (k ()) env { s with userEmergencyState := windows } a s' := by
  simp only [checkAndUpdateEmergencyCap, I128.checkedAdd, runs_ite_bind, runs_bind_assoc,
    runs_ledger_bind, runs_gets_bind, runs_okOr_bind, runs_failIf_bind, runs_modify_bind,
    runs_pure_bind, writeUserEmergencyState, I128.checked_eq_some, not_lt] at h
  unfold CapSpent
  rcases h with ⟨hcap, _, ⟨-, rfl⟩, hle, h⟩ | ⟨hcap, h⟩
  · exact ⟨_, by rw [if_pos hcap]; exact ⟨hle, rfl⟩, h⟩
  · exact ⟨s.userEmergencyState, by rw [if_neg (not_lt.mpr hcap)], h⟩

/-- The payout of an exit of `n` shares: at once, or into the queue. -/
theorem runs_withdrawShares (h : Runs (withdrawShares c n) env s m s') :
    s.lock = false ∧ (∀ t, s.unlockTime c = some t → t ≤ env.ledger.timestamp) ∧
      n ≤ s.balance c ∧ ∃ x windows,
      convertToAssets n s.supply (s.underlying.balance env.self) = some x ∧ 0 < x ∧
      CapSpent env.ledger (readCooldownConfig s) c x s.userEmergencyState windows ∧
      (((readCooldownConfig s).enabled = true ∧ m = 0 ∧
          s' = { writeQueuedWithdrawal c ⟨n, x, saturatingU32
              (env.ledger.sequence + (readCooldownConfig s).cooldownLedgers)⟩ (debit c n s) with
            lock := false, userEmergencyState := windows }) ∨
        ((readCooldownConfig s).enabled = false ∧ m = x ∧ ∃ t,
          s.underlying.transfer env.self c x = some t ∧
          s' = { settle t (debit c n s) with userEmergencyState := windows })) := by
  simp only [withdrawShares, TokenClient.transfer, TokenClient.balance, releaseLock,
    runs_failIf_bind, runs_requireUnlocked_bind, runs_acquireLock_bind, runs_readUnderlying_bind,
    runs_self_bind, runs_gets_bind, runs_okOr_bind, not_le, not_lt] at h
  obtain ⟨hfree, hb, hl, _, -, x, hx, hpos, h⟩ := h
  obtain ⟨windows, hcap, h⟩ := runs_checkAndUpdateEmergencyCap_bind h
  simp only [runs_burnShares_bind, runs_ite, runs_ledger_bind, runs_modify_bind, runs_pure,
    TokenClient.runs_commit_bind] at h
  refine ⟨hl, hfree, hb, x, windows, hx, hpos, hcap, ?_⟩
  obtain ⟨-, -, ⟨he, hm, rfl⟩ | ⟨he, t, ht, hm, rfl⟩⟩ := h
  · exact Or.inl ⟨he, hm, rfl⟩
  · exact Or.inr ⟨Bool.eq_false_of_not_eq_true he, hm, t, ht, rfl⟩

theorem runs_withdraw (h : Runs (withdraw c n) env s m s') :
    s.paused = false ∧ env.Authorized c ∧
      ((n = 0 ∧ Runs (claimWithdrawal c) env s m s') ∨
        (0 < n ∧ s.queuedWithdrawal c = none ∧ Runs (withdrawShares c n) env s m s')) := by
  simp only [withdraw, runs_ensureInitialized_bind, runs_ensureNotPaused_bind,
    runs_requireAuth_bind, runs_gets_bind, runs_ite, runs_failIf_bind, runs_fail, and_false,
    or_false, not_lt, Option.not_isSome_iff_eq_none] at h
  obtain ⟨-, hp, ha, ⟨hn, -, h⟩ | ⟨hn, hpos, hq, h⟩⟩ := h
  · exact ⟨hp, ha, Or.inl ⟨hn, h⟩⟩
  · exact ⟨hp, ha, Or.inr ⟨by omega, hq, h⟩⟩

section Prices

variable {d : ℕ}

/-- Underlying per share at the flat rate, times `SCALING_FACTOR`. -/
def flatRate (s : Store) : ℤ :=
  match s.vaultState with
  | some state => if 0 < state.exchangeRate then state.exchangeRate else SCALING_FACTOR
  | none => SCALING_FACTOR

theorem flatRate_pos (s : Store) : 0 < flatRate s := by
  unfold flatRate
  split
  · split
    · assumption
    · decide
  · decide

theorem flatRate_some {state : VaultState} (hv : s.vaultState = some state)
    (hr : 0 < state.exchangeRate) : flatRate s = state.exchangeRate := by
  simp only [flatRate, hv, if_pos hr]

theorem flatRate_none
    (h : ∀ state, s.vaultState = some state → ¬ 0 < state.exchangeRate) :
    flatRate s = SCALING_FACTOR := by
  cases hv : s.vaultState with
  | none => simp only [flatRate, hv]
  | some state => simp only [flatRate, hv, if_neg (h state hv)]

/-- At the rate of one unit a share nothing is lost. -/
theorem mul_scale_ediv (x : ℤ) : x * SCALING_FACTOR / SCALING_FACTOR = x :=
  Int.mul_ediv_cancel x (by decide)

theorem calcSharesForAssets_spec (h : calcSharesForAssets s d n = some m) :
    0 < n ∧ m = n * 10 ^ (wrapperDecimals s - d) / 10 ^ (d - wrapperDecimals s) *
      SCALING_FACTOR / flatRate s := by
  unfold calcSharesForAssets at h
  split at h
  · cases h
  · rename_i hn
    rw [not_le] at hn
    simp only [Option.bind_eq_bind, Option.bind_eq_some_iff] at h
    obtain ⟨scaled, hs, h⟩ := h
    obtain ⟨-, rfl⟩ := scaleDecimalsDown_spec hs
    refine ⟨hn, ?_⟩
    split at h
    · split at h
      · rename_i state hv hr
        rw [flatRate_some hv hr]
        exact (mulDivDown_spec h).2.2.2
      · rename_i state hv hr
        obtain rfl := Option.some.inj h
        rw [flatRate_none (by simpa [hv] using hr), mul_scale_ediv]
    · rename_i hv
      obtain rfl := Option.some.inj h
      rw [flatRate_none (by simp [hv]), mul_scale_ediv]

theorem calcAssetsForShares_spec (h : calcAssetsForShares s d n = some m) :
    0 < n ∧ m = n * flatRate s / SCALING_FACTOR * 10 ^ (d - wrapperDecimals s) /
      10 ^ (wrapperDecimals s - d) := by
  unfold calcAssetsForShares at h
  split at h
  · cases h
  · rename_i hn
    rw [not_le] at hn
    refine ⟨hn, ?_⟩
    split at h
    · split at h
      · rename_i state hv hr
        simp only [Option.bind_eq_bind, Option.bind_eq_some_iff] at h
        obtain ⟨scaled, hs, h⟩ := h
        rw [flatRate_some hv hr, (scaleDecimalsDown_spec h).2, (mulDivDown_spec hs).2.2.2]
      · rename_i state hv hr
        rw [flatRate_none (by simpa [hv] using hr), mul_scale_ediv]
        exact (scaleDecimalsDown_spec h).2
    · rename_i hv
      rw [flatRate_none (by simp [hv]), mul_scale_ediv]
      exact (scaleDecimalsDown_spec h).2

end Prices

theorem runs_moveBalance {src dst : Address} : Runs (moveBalance src dst n) env s u s' →
    n ≤ s.balance src ∧ ((src = dst ∧ s' = s) ∨
      (src ≠ dst ∧ s' = { s with balance := Book.pay src dst n s.balance })) := by
  intro h
  simp only [moveBalance, writeBalance, runs_gets_bind, runs_failIf_bind, runs_ite, runs_pure,
    runs_i128_bind, runs_modify_bind, runs_modify, not_lt] at h
  obtain ⟨hb, ⟨he, -, rfl⟩ | ⟨hne, -, -, rfl⟩⟩ := h
  · exact ⟨hb, Or.inl ⟨he, rfl⟩⟩
  · refine ⟨hb, Or.inr ⟨hne, ?_⟩⟩
    rw [Function.update_of_ne (Ne.symm hne)]
    rfl

/-- What no call after initialization changes. -/
structure Same (s s' : Store) : Prop where
  access : s'.access = s.access
  token : s'.underlyingToken = s.underlyingToken
  decimals : s'.decimals = s.decimals
  scale : s'.underlying.decimals = s.underlying.decimals
  lock : s'.lock = s.lock

theorem Same.refl (s : Store) : Same s s := ⟨rfl, rfl, rfl, rfl, rfl⟩

/-- The operation a lockup is changed by, and to what. -/
def Op.relocks : Op → Option (Address × Option ℕ)
  | .setUnlockTime _ user unlock => some (user, some unlock)
  | .clearUnlockTime _ user => some (user, none)
  | _ => none

/-- The operation moves no shares and touches no queue or window. -/
def Op.isAside : Op → Bool
  | .distributeRewards _ _ => true
  | .rescueTokens _ _ _ _ => true
  | .pause => true
  | .unpause => true
  | .pauseAs _ => true
  | .unpauseAs _ => true
  | .setCooldownConfig _ _ => true
  | .setUnlockTime _ _ _ => true
  | .clearUnlockTime _ _ => true
  | .setVaultState _ _ => true
  | .approve _ _ _ _ => true
  | .underlyingMint _ _ => true
  | .underlyingTransfer _ _ _ => true
  | .underlyingApprove _ _ _ => true
  | _ => false

/-- What is left alone by the calls that concern neither shares nor exits. -/
structure AsideOf (op : Op) (s s' : Store) : Prop where
  balance : s'.balance = s.balance
  supply : s'.supply = s.supply
  queue : s'.queuedWithdrawal = s.queuedWithdrawal
  windows : s'.userEmergencyState = s.userEmergencyState
  unlockTime : s'.unlockTime = match op.relocks with
    | some (user, unlock) => Function.update s.unlockTime user unlock
    | none => s.unlockTime

/-- What a successful call did to the store, and the checks it passed on the way. -/
inductive Effect (env : Env) (s : Store) (op : Op) : Store → Prop
  | enter (c : Address) (n m : ℤ) (t : Token) (hop : op = .wrap c n ∨ op = .deposit c n)
      (hl : s.lock = false) (ha : env.Authorized c) (hn : 0 < n) (hm : 0 < m)
      (ht : s.underlying.transferFrom env.self c env.self n = some t)
      (hr : I128.InRange (s.supply + m)) : Effect env s op (settle t (credit c m s))
  | unwrap (c : Address) (n x : ℤ) (t : Token) (hop : op = .unwrap c n) (hl : s.lock = false)
      (ha : env.Authorized c) (hfree : ∀ t, s.unlockTime c = some t → t ≤ env.ledger.timestamp)
      (hn : 0 < n) (hb : n ≤ s.balance c)
      (hx : calcAssetsForShares s s.underlying.decimals n = some x) (hpos : 0 < x)
      (ht : s.underlying.transfer env.self c x = some t) :
      Effect env s op (settle t (debit c n s))
  | enqueue (c : Address) (n x : ℤ) (windows : Address → Option UserEmergencyState)
      (hop : op = .withdraw c n) (hl : s.lock = false) (ha : env.Authorized c)
      (hfree : ∀ t, s.unlockTime c = some t → t ≤ env.ledger.timestamp) (hn : 0 < n)
      (hb : n ≤ s.balance c) (hq : s.queuedWithdrawal c = none)
      (hx : convertToAssets n s.supply (s.underlying.balance env.self) = some x) (hpos : 0 < x)
      (hcap : CapSpent env.ledger (readCooldownConfig s) c x s.userEmergencyState windows)
      (he : (readCooldownConfig s).enabled = true) :
      Effect env s op { writeQueuedWithdrawal c ⟨n, x, saturatingU32
          (env.ledger.sequence + (readCooldownConfig s).cooldownLedgers)⟩ (debit c n s) with
        lock := false, userEmergencyState := windows }
  | pay (c : Address) (n x : ℤ) (windows : Address → Option UserEmergencyState) (t : Token)
      (hop : op = .withdraw c n) (hl : s.lock = false) (ha : env.Authorized c)
      (hfree : ∀ t, s.unlockTime c = some t → t ≤ env.ledger.timestamp) (hn : 0 < n)
      (hb : n ≤ s.balance c) (hq : s.queuedWithdrawal c = none)
      (hx : convertToAssets n s.supply (s.underlying.balance env.self) = some x) (hpos : 0 < x)
      (hcap : CapSpent env.ledger (readCooldownConfig s) c x s.userEmergencyState windows)
      (he : (readCooldownConfig s).enabled = false)
      (ht : s.underlying.transfer env.self c x = some t) :
      Effect env s op { settle t (debit c n s) with userEmergencyState := windows }
  | claim (c : Address) (q : QueuedWithdrawal) (t : Token)
      (hop : op = .claimWithdrawal c ∨ op = .withdraw c 0) (hl : s.lock = false)
      (ha : env.Authorized c) (hq : s.queuedWithdrawal c = some q)
      (hr : q.releaseLedger ≤ env.ledger.sequence)
      (ht : s.underlying.transfer env.self c q.amount = some t) :
      Effect env s op (settle t (removeQueuedWithdrawal c s))
  | move (src dst : Address) (n : ℤ) (allowance : Address → Address → ℤ)
      (expiry : Address → Address → Option ℕ)
      (hop : op = .transfer src dst n ∨ ∃ spender, op = .transferFrom spender src dst n)
      (hn : 0 < n) (hb : n ≤ s.balance src) :
      Effect env s op { s with
        balance := if src = dst then s.balance else Book.pay src dst n s.balance
        allowance := allowance
        allowanceExp := expiry }
  | destroy (c : Address) (n : ℤ) (allowance : Address → Address → ℤ)
      (expiry : Address → Address → Option ℕ)
      (hop : op = .burn c n ∨ ∃ spender, op = .burnFrom spender c n) (hn : 0 < n)
      (hb : n ≤ s.balance c) :
      Effect env s op { debit c n s with allowance := allowance, allowanceExp := expiry }
  | aside (s' : Store) (hop : op.isAside = true) (hsame : Same s s') (h : AsideOf op s s')
      (hfund : s.underlying.balance env.self ≤ s'.underlying.balance env.self) :
      Effect env s op s'

/-- What the operation takes out of the vault's free assets: the price of an exit, at the share
price for `withdraw` and at the flat rate for `unwrap`. -/
def Op.payout (vault : Address) (s : Store) : Op → Option ℤ
  | .withdraw _ n =>
    if n = 0 then some 0 else convertToAssets n s.supply (s.underlying.balance vault)
  | .unwrap _ n => calcAssetsForShares s s.underlying.decimals n
  | _ => some 0

section Entries

variable {t : Token} {windows : Address → Option UserEmergencyState} {x : ℤ}

theorem step_enter (ht : s.underlying.transferFrom env.self c env.self n = some t)
    (hl : s.lock = false) (hc : c ≠ env.self) (hn : 0 < n) (hm : 0 < m) :
    Same s (settle t (credit c m s)) ∧
      Book.Step env.self s.book 0 (settle t (credit c m s)).book := by
  obtain ⟨-, hd, hb⟩ := Token.transferFrom_spec ht hc
  refine ⟨⟨rfl, rfl, rfl, hd, hl.symm⟩, ?_⟩
  have hs := Book.Step.enter (b := s.book) c n m hc hn hm
  unfold Book.pay at hs
  rwa [show s.book.assets = s.underlying.balance from rfl, ← hb] at hs

theorem step_leave (ht : s.underlying.transfer env.self c x = some t) (hl : s.lock = false)
    (hc : c ≠ env.self) (hn : 0 < n) (hs : n ≤ s.balance c) (hx : 0 < x) :
    Same s (settle t (debit c n s)) ∧
      Book.Step env.self s.book x (settle t (debit c n s)).book := by
  obtain ⟨⟨-, hv⟩, hd, hb⟩ := Token.transfer_spec ht hc.symm
  refine ⟨⟨rfl, rfl, rfl, hd, hl.symm⟩, ?_⟩
  have hs := Book.Step.leave (b := s.book) c n x hc hn hs hx hv
  unfold Book.pay at hs
  rwa [show s.book.assets = s.underlying.balance from rfl, ← hb] at hs

theorem step_claim {q : QueuedWithdrawal} (ht : s.underlying.transfer env.self c q.amount = some t)
    (hl : s.lock = false) (hc : c ≠ env.self) (hq : s.queuedWithdrawal c = some q) :
    Same s (settle t (removeQueuedWithdrawal c s)) ∧
      Book.Step env.self s.book 0 (settle t (removeQueuedWithdrawal c s)).book := by
  obtain ⟨⟨-, hv⟩, hd, hb⟩ := Token.transfer_spec ht hc.symm
  refine ⟨⟨rfl, rfl, rfl, hd, hl.symm⟩, ?_⟩
  have hs := Book.Step.claim (b := s.book) c q hc hq hv
  unfold Book.pay at hs
  rwa [show s.book.assets = s.underlying.balance from rfl, ← hb] at hs

end Entries

/-- A finished call keeps the configuration and is an entry in the books that takes out what the
operation is worth. -/
def Booked (env : Env) (op : Op) (s s' : Store) : Prop :=
  Same s s' ∧ ∃ x, op.payout env.self s = some x ∧ Book.Step env.self s.book x s'.book

section Effects

variable {op : Op}

theorem runs_spendAllowance_bind {k : Unit → WrapperCall α}
    (h : Runs (spendAllowance c x n >>= k) env s a s') :
    ∃ allowance expiry, Runs (k ()) env
      { s with allowance := allowance, allowanceExp := expiry } a s' := by
  simp only [spendAllowance, runs_bind_assoc, runs_gets_bind, runs_modify_bind,
    writeAllowance] at h
  exact ⟨_, _, h⟩

theorem effect_claim (hop : op = .claimWithdrawal c ∨ op = .withdraw c 0)
    (h : Runs (claimWithdrawal c) env s n s') : Effect env s op s' := by
  obtain ⟨-, -, ha, q, hq, hr, hl, -, t, ht, -, rfl⟩ := runs_claimWithdrawal.mp h
  exact .claim c q t hop hl ha hq hr ht

theorem effect_withdraw (h : Runs (withdraw c n) env s m s') :
    Effect env s (.withdraw c n) s' := by
  obtain ⟨-, ha, ⟨rfl, hclaim⟩ | ⟨hn, hq, hexit⟩⟩ := runs_withdraw h
  · exact effect_claim (Or.inr rfl) hclaim
  · obtain ⟨hl, hfree, hb, x, windows, hx, hpos, hcap, ⟨he, -, rfl⟩ | ⟨he, -, t, ht, rfl⟩⟩ :=
      runs_withdrawShares hexit
    · exact .enqueue c n x windows rfl hl ha hfree hn hb hq hx hpos hcap he
    · exact .pay c n x windows t rfl hl ha hfree hn hb hq hx hpos hcap he ht

theorem effect_distributeRewards (hv : ∀ c, env.Authorized c → c ≠ env.self)
    (h : Runs (distributeRewards c n) env s () s') :
    Effect env s (.distributeRewards c n) s' := by
  obtain ⟨hl, ha, hn, t, ht, rfl⟩ := runs_distributeRewards h
  obtain ⟨-, hd, hb⟩ := Token.transferFrom_spec ht (hv c ha)
  refine .aside _ rfl ⟨rfl, rfl, rfl, hd, hl.symm⟩ ⟨rfl, rfl, rfl, rfl, rfl⟩ ?_
  have he : Book.pay c env.self n s.underlying.balance env.self =
      s.underlying.balance env.self + n := Book.pay_dst
  unfold Book.pay at he
  rw [← hb] at he
  change s.underlying.balance env.self ≤ t.balance env.self
  omega

theorem effect_move {src dst : Address} (hn : 0 < n)
    (hop : op = .transfer src dst n ∨ ∃ spender, op = .transferFrom spender src dst n)
    (h : Runs (moveBalance src dst n) env s u s')
    (allowance : Address → Address → ℤ) (expiry : Address → Address → Option ℕ) :
    Effect env s op { s' with allowance := allowance, allowanceExp := expiry } := by
  obtain ⟨hb, hs⟩ := runs_moveBalance h
  have hmove : Effect env s op _ := .move src dst n allowance expiry hop hn hb
  obtain ⟨he, rfl⟩ | ⟨hne, rfl⟩ := hs
  · rwa [if_pos he] at hmove
  · rwa [if_neg hne] at hmove

/-- Everything in the store but the settings and the unlock times. -/
def Store.vault (s : Store) :=
  (s.access, s.underlyingToken, s.decimals, s.underlying, s.lock, s.balance, s.supply,
    s.queuedWithdrawal, s.userEmergencyState)

/-- The operation writes a setting, an unlock time or a foreign token. -/
def Op.isSetting : Op → Bool
  | .rescueTokens _ _ _ _ => true
  | .pause => true
  | .unpause => true
  | .pauseAs _ => true
  | .unpauseAs _ => true
  | .setCooldownConfig _ _ => true
  | .setUnlockTime _ _ _ => true
  | .clearUnlockTime _ _ => true
  | .setVaultState _ _ => true
  | .approve _ _ _ _ => true
  | _ => false

/-- What the operation sets the pause flag to. -/
def Op.pauses : Op → Option Bool
  | .pause => some true
  | .unpause => some false
  | .pauseAs _ => some true
  | .unpauseAs _ => some false
  | _ => none

theorem exec_setting (hop : op.isSetting = true) (h : Runs (exec op) env s () s') :
    s'.vault = s.vault ∧ s'.paused = op.pauses.getD s.paused ∧
      s'.unlockTime = match op.relocks with
        | some (user, unlock) => Function.update s.unlockTime user unlock
        | none => s.unlockTime := by
  cases op with
  | rescueTokens caller token recipient amount =>
    simp only [exec, rescueTokens, TokenClient.transfer, TokenClient.balance,
      runs_ensureInitialized_bind, runs_requireAdmin_bind, runs_readUnderlying_bind,
      runs_failIf_bind, runs_self_bind, runs_gets_bind, TokenClient.runs_commit] at h
    obtain ⟨-, -, -, _, -, -, -, -, -, t, -, rfl⟩ := h
    exact ⟨rfl, rfl, rfl⟩
  | pause =>
    simp only [exec, pause, runs_readAdmin_bind, runs_gets_bind, runs_failIf_bind,
      Lifecycle.runs_pause] at h
    obtain ⟨_, -, -, -, -, -, rfl⟩ := h
    exact ⟨rfl, rfl, rfl⟩
  | unpause =>
    simp only [exec, unpause, runs_readAdmin_bind, runs_gets_bind, runs_failIf_bind,
      Lifecycle.runs_unpause] at h
    obtain ⟨_, -, -, -, -, -, rfl⟩ := h
    exact ⟨rfl, rfl, rfl⟩
  | pauseAs caller =>
    simp only [exec, pauseAs, runs_ensureInitialized_bind, runs_gets_bind, runs_failIf_bind,
      Lifecycle.runs_pause] at h
    obtain ⟨-, -, -, -, -, rfl⟩ := h
    exact ⟨rfl, rfl, rfl⟩
  | unpauseAs caller =>
    simp only [exec, unpauseAs, runs_ensureInitialized_bind, runs_gets_bind, runs_failIf_bind,
      Lifecycle.runs_unpause] at h
    obtain ⟨-, -, -, -, -, rfl⟩ := h
    exact ⟨rfl, rfl, rfl⟩
  | setCooldownConfig caller config =>
    simp only [exec, setCooldownConfig, runs_ensureInitialized_bind, runs_requireAdmin_bind,
      runs_failIf_bind, runs_modify] at h
    obtain ⟨-, -, -, -, rfl⟩ := h
    exact ⟨rfl, rfl, rfl⟩
  | setUnlockTime caller user unlock =>
    simp only [exec, setUnlockTime, runs_ensureInitialized_bind, runs_requireAdmin_bind,
      runs_modify] at h
    obtain ⟨-, -, -, rfl⟩ := h
    exact ⟨rfl, rfl, rfl⟩
  | clearUnlockTime caller user =>
    simp only [exec, clearUnlockTime, runs_ensureInitialized_bind, runs_requireAdmin_bind,
      runs_modify] at h
    obtain ⟨-, -, -, rfl⟩ := h
    exact ⟨rfl, rfl, rfl⟩
  | setVaultState caller state =>
    simp only [exec, setVaultState, runs_ensureInitialized_bind, runs_requireAdmin_bind,
      runs_failIf_bind, runs_modify] at h
    obtain ⟨-, -, -, -, rfl⟩ := h
    exact ⟨rfl, rfl, rfl⟩
  | approve owner spender amount expiry =>
    simp only [exec, approve, runs_ensureInitialized_bind, runs_requireAuth_bind,
      runs_failIf_bind, runs_modify] at h
    obtain ⟨-, -, -, rfl⟩ := h
    exact ⟨rfl, rfl, rfl⟩
  | _ => cases hop

theorem effect_setting (hop : op.isSetting = true) (h : Runs (exec op) env s () s') :
    Effect env s op s' := by
  obtain ⟨hvault, -, hunlock⟩ := exec_setting hop h
  simp only [Store.vault, Prod.mk.injEq] at hvault
  obtain ⟨haccess, htoken, hdecimals, hunderlying, hlock, hbalance, hsupply, hqueue, hwindows⟩ :=
    hvault
  have hscale : s'.underlying.decimals = s.underlying.decimals := by rw [hunderlying]
  have haside : op.isAside = true := by
    cases op <;> first | rfl | cases hop
  exact .aside _ haside ⟨haccess, htoken, hdecimals, hscale, hlock⟩
    ⟨hbalance, hsupply, hqueue, hwindows, hunlock⟩ (by rw [hunderlying])

/-- Every success is one of the effects. -/
theorem exec_effect (hv : ∀ c, env.Authorized c → c ≠ env.self)
    (h : Runs (exec op) env s () s') : Effect env s op s' := by
  cases op with
  | wrap caller amount =>
    obtain ⟨hl, ha, -, hn, t, m, ht, -, hm, hr, rfl⟩ := runs_wrap h
    exact .enter caller amount m t (Or.inl rfl) hl ha hn hm ht hr
  | deposit caller assets =>
    simp only [exec, runs_bind, runs_pure] at h
    obtain ⟨m, t, h, -, rfl⟩ := h
    obtain ⟨hl, ha, -, hn, t, ht, -, hm, hr, rfl⟩ := runs_deposit h
    exact .enter caller assets m t (Or.inr rfl) hl ha hn hm ht hr
  | unwrap caller wrappedAmount =>
    obtain ⟨hl, ha, -, hfree, hn, hb, x, t, hx, hpos, ht, rfl⟩ := runs_unwrap h
    exact .unwrap caller wrappedAmount x t rfl hl ha hfree hn hb hx hpos ht
  | withdraw caller shares =>
    simp only [exec, runs_bind, runs_pure] at h
    obtain ⟨m, t, h, -, rfl⟩ := h
    exact effect_withdraw h
  | claimWithdrawal caller =>
    simp only [exec, runs_bind, runs_pure] at h
    obtain ⟨m, t, h, -, rfl⟩ := h
    exact effect_claim (Or.inl rfl) h
  | distributeRewards caller amount => exact effect_distributeRewards hv h
  | rescueTokens caller token recipient amount => exact effect_setting rfl h
  | pause => exact effect_setting rfl h
  | unpause => exact effect_setting rfl h
  | pauseAs caller => exact effect_setting rfl h
  | unpauseAs caller => exact effect_setting rfl h
  | setCooldownConfig caller config => exact effect_setting rfl h
  | setUnlockTime caller user unlock => exact effect_setting rfl h
  | clearUnlockTime caller user => exact effect_setting rfl h
  | setVaultState caller state => exact effect_setting rfl h
  | approve owner spender amount expiry => exact effect_setting rfl h
  | transfer src dst amount =>
    simp only [exec, transfer, runs_ensureInitialized_bind, runs_ensureNotPaused_bind,
      runs_requireAuth_bind, runs_failIf_bind, not_le] at h
    obtain ⟨-, -, -, hn, hmove⟩ := h
    exact effect_move hn (Or.inl rfl) hmove s'.allowance s'.allowanceExp
  | transferFrom spender src dst amount =>
    simp only [exec, transferFrom, runs_ensureInitialized_bind, runs_ensureNotPaused_bind,
      runs_requireAuth_bind, runs_failIf_bind, runs_ledger_bind, runs_gets_bind, not_le,
      not_lt] at h
    obtain ⟨-, -, -, hn, -, h⟩ := h
    rw [runs_bind] at h
    obtain ⟨_, s₁, hmove, h⟩ := h
    simp only [spendAllowance, writeAllowance, runs_i128_bind, runs_gets_bind, runs_modify] at h
    obtain ⟨-, rfl⟩ := h
    exact effect_move hn (Or.inr ⟨spender, rfl⟩) hmove _ _
  | burn owner amount =>
    simp only [exec, burn, runs_ensureInitialized_bind, runs_ensureNotPaused_bind,
      runs_requireAuth_bind, runs_failIf_bind, runs_gets_bind, runs_burnShares, not_le, not_lt] at h
    obtain ⟨-, -, -, hn, hb, -, -, rfl⟩ := h
    exact .destroy owner amount s.allowance s.allowanceExp (Or.inl rfl) hn hb
  | burnFrom spender owner amount =>
    simp only [exec, burnFrom, runs_ensureInitialized_bind, runs_ensureNotPaused_bind,
      runs_requireAuth_bind, runs_failIf_bind, runs_ledger_bind, runs_gets_bind, runs_i128_bind,
      not_le, not_lt] at h
    obtain ⟨-, -, -, hn, -, hb, -, h⟩ := h
    obtain ⟨allowance, expiry, h⟩ := runs_spendAllowance_bind h
    simp only [runs_burnShares] at h
    obtain ⟨-, -, rfl⟩ := h
    exact .destroy owner amount allowance expiry (Or.inr ⟨spender, rfl⟩) hn hb
  | underlyingMint dst amount =>
    simp only [exec, TokenClient.runs_commit] at h
    obtain ⟨t, ht, rfl⟩ := h
    obtain ⟨-, hd, -⟩ := Token.mint_spec ht
    exact .aside _ rfl ⟨rfl, rfl, rfl, hd, rfl⟩ ⟨rfl, rfl, rfl, rfl, rfl⟩
      (Token.mint_le ht env.self)
  | underlyingTransfer src dst amount =>
    simp only [exec, TokenClient.transfer, runs_requireAuth_bind, TokenClient.runs_commit] at h
    obtain ⟨ha, t, ht, rfl⟩ := h
    obtain ⟨hle, hd⟩ := Token.transfer_le ht (hv src ha).symm
    exact .aside _ rfl ⟨rfl, rfl, rfl, hd, rfl⟩ ⟨rfl, rfl, rfl, rfl, rfl⟩ hle
  | underlyingApprove owner spender amount =>
    simp only [exec, runs_requireAuth_bind, TokenClient.runs_commit, Option.some.injEq] at h
    obtain ⟨-, t, rfl, rfl⟩ := h
    exact .aside _ rfl ⟨rfl, rfl, rfl, rfl, rfl⟩ ⟨rfl, rfl, rfl, rfl, rfl⟩ le_rfl

theorem payout_aside (h : op.isAside = true) : op.payout x s = some 0 := by
  cases op <;> first | rfl | cases h

theorem exec_booked (hv : ∀ c, env.Authorized c → c ≠ env.self)
    (h : Runs (exec op) env s () s') : Booked env op s s' := by
  cases exec_effect hv h with
  | enter c n m t hop hl ha hn hm ht hr =>
    obtain ⟨hsame, hstep⟩ := step_enter ht hl (hv c ha) hn hm
    refine ⟨hsame, 0, ?_, hstep⟩
    obtain rfl | rfl := hop <;> rfl
  | unwrap c n x t hop hl ha hfree hn hb hx hpos ht =>
    obtain ⟨hsame, hstep⟩ := step_leave ht hl (hv c ha) hn hb hpos
    exact ⟨hsame, x, hop ▸ hx, hstep⟩
  | enqueue c n x windows hop hl ha hfree hn hb hq hx hpos hcap he =>
    have hp : op.payout env.self s = some x := by
      simpa [hop, Op.payout, hn.ne'] using hx
    exact ⟨⟨rfl, rfl, rfl, rfl, hl.symm⟩, x, hp,
      Book.Step.enqueue (b := s.book) c n x _ (hv c ha) hq hn hb hpos⟩
  | pay c n x windows t hop hl ha hfree hn hb hq hx hpos hcap he ht =>
    have hp : op.payout env.self s = some x := by
      simpa [hop, Op.payout, hn.ne'] using hx
    obtain ⟨hsame, hstep⟩ := step_leave ht hl (hv c ha) hn hb hpos
    exact ⟨⟨rfl, rfl, rfl, hsame.scale, hsame.lock⟩, x, hp, hstep⟩
  | claim c q t hop hl ha hq hr ht =>
    obtain ⟨hsame, hstep⟩ := step_claim ht hl (hv c ha) hq
    refine ⟨hsame, 0, ?_, hstep⟩
    obtain rfl | rfl := hop
    · rfl
    · simp [Op.payout]
  | move src dst n allowance expiry hop hn hb =>
    refine ⟨⟨rfl, rfl, rfl, rfl, rfl⟩, 0, ?_, ?_⟩
    · obtain rfl | ⟨_, rfl⟩ := hop <;> rfl
    · by_cases hd : src = dst
      · simp only [if_pos hd]
        exact Book.Step.keep
      · simp only [if_neg hd]
        exact Book.Step.move (b := s.book) src dst n hn hb hd
  | destroy c n allowance expiry hop hn hb =>
    refine ⟨⟨rfl, rfl, rfl, rfl, rfl⟩, 0, ?_, Book.Step.destroy (b := s.book) c n hn hb⟩
    obtain rfl | ⟨_, rfl⟩ := hop <;> rfl
  | aside _ hop hsame haside hfund =>
    have hbook : s'.book = { s.book with assets := s'.underlying.balance } := by
      simp only [Store.book, haside.balance, haside.supply, haside.queue]
    refine ⟨hsame, 0, payout_aside hop, ?_⟩
    rw [hbook]
    exact Book.Step.fund s'.underlying.balance hfund

end Effects

end BcForge.Wrapper
