import BcForge.Admin.Spec
import BcForge.YieldVault.Contract

/-! What each entry point of the yield vault does to its store, and which entry in the books that
is. -/
namespace BcForge.YieldVault

open Soroban Call Admin Wrapper

variable {env : Env} {s s' : Store} {α : Type} {a : α} {u : Unit} {c : Address} {n m x : ℤ}

section Guards

variable {k : Unit → VaultCall α}

@[simp] theorem runs_ensureInitialized_bind : Runs (ensureInitialized >>= k) env s a s' ↔
    hasAdmin s.access = true ∧ Runs (k ()) env s a s' := by
  simp [ensureInitialized]

@[simp] theorem runs_ensureNotPaused_bind : Runs (ensureNotPaused >>= k) env s a s' ↔
    s.paused = false ∧ Runs (k ()) env s a s' := by
  simp [ensureNotPaused]

@[simp] theorem runs_readUnderlying_bind {k : Address → VaultCall α} :
    Runs (readUnderlying >>= k) env s a s' ↔
      ∃ t, s.underlyingToken = some t ∧ Runs (k t) env s a s' := by
  simp [readUnderlying]

@[simp] theorem runs_requireAdmin_bind : Runs (admin (requireAdmin c) >>= k) env s a s' ↔
    hasRole s.access .admin c = true ∧ env.Authorized c ∧ Runs (k ()) env s a s' := by
  simp [runs_bind, admin, requireAdmin, accessLens, and_assoc, Unique.exists_iff]

/-- The rate limiter keeps its own counters and nothing else. -/
theorem runs_rateLimitDeposits_bind (h : Runs (rateLimitDeposits c >>= k) env s a s') :
    ∃ r, Runs (k ()) env { s with rateLimit := r } a s' := by
  simp only [rateLimitDeposits, runs_bind_assoc] at h
  obtain ⟨_, _, hcheck, hallowed⟩ := runs_bind.mp h
  obtain ⟨r, -, rfl⟩ := runs_within.mp hcheck
  exact ⟨r, (runs_failIf_bind.mp hallowed).2⟩

theorem runs_checkAndUpdateEmergencyCap_bind {config : CooldownConfig}
    (h : Runs (checkAndUpdateEmergencyCap c n config >>= k) env s a s') :
    ∃ windows, Runs (k ()) env { s with userEmergencyState := windows } a s' := by
  simp only [checkAndUpdateEmergencyCap, I128.checkedAdd, runs_ite_bind, runs_bind_assoc,
    runs_ledger_bind, runs_gets_bind, runs_okOr_bind, runs_failIf_bind, runs_modify_bind,
    runs_pure_bind, writeUserEmergencyState, I128.checked_eq_some, not_lt] at h
  rcases h with ⟨-, _, -, -, h⟩ | ⟨-, h⟩
  · exact ⟨_, h⟩
  · exact ⟨s.userEmergencyState, h⟩

end Guards

/-- The books of the vault. -/
def Store.book (s : Store) : Book :=
  ⟨s.balance, s.supply, s.queuedWithdrawal, s.underlying.balance⟩

/-- What an exit of `shares` is worth: a share of everything the vault holds. -/
theorem mulDiv_spec {b d : ℤ} (h : mulDiv n b d = some x) (hn : 0 ≤ n) (hb : 0 ≤ b) (hd : 0 ≤ d) :
    0 < d ∧ x = n * b / d := by
  unfold mulDiv at h
  obtain ⟨product, hproduct, h⟩ := Option.bind_eq_some_iff.mp h
  obtain ⟨-, rfl⟩ := I128.checked_eq_some.mp hproduct
  split at h
  · cases h
  · obtain ⟨-, rfl⟩ := I128.checked_eq_some.mp h
    exact ⟨by omega, Int.tdiv_eq_ediv_of_nonneg (mul_nonneg hn hb)⟩

/-- What no call after initialization changes. -/
structure Same (s s' : Store) : Prop where
  access : s'.access = s.access
  token : s'.underlyingToken = s.underlyingToken

/-- A finished deposit pulled the assets in and minted what they are worth after that. -/
theorem deposit_cases (h : Runs (deposit c n m) env s x s') : env.Authorized c ∧ 0 < n ∧
    ∃ r t, s.underlying.transferFrom env.self c env.self n = some t ∧
      sharesFor n s.supply (t.balance env.self) = some x ∧ 0 < x ∧ m ≤ x ∧
      s' = writeSupply (s.supply + x) (writeBalance c (s.balance c + x)
        { s with rateLimit := r, underlying := t }) := by
  simp only [deposit, runs_ensureInitialized_bind, runs_ensureNotPaused_bind,
    runs_requireAuth_bind, runs_failIf_bind, not_le] at h
  obtain ⟨-, -, ha, hn, h⟩ := h
  obtain ⟨r, h⟩ := runs_rateLimitDeposits_bind h
  simp only [TokenClient.transferFrom, TokenClient.balance, runs_readUnderlying_bind,
    runs_self_bind, TokenClient.runs_commit_bind, runs_gets_bind, runs_okOr_bind, runs_failIf_bind,
    runs_i128_bind, runs_modify_bind, runs_pure, not_le, not_lt] at h
  obtain ⟨_, -, t, ht, shares, hshares, hpos, hmin, -, -, rfl, rfl⟩ := h
  exact ⟨ha, hn, r, t, ht, hshares, hpos, hmin, rfl⟩

theorem booked_deposit (hv : ∀ c, env.Authorized c → c ≠ env.self)
    (h : Runs (deposit c n m) env s x s') :
    Same s s' ∧ Book.Step env.self s.book 0 s'.book := by
  obtain ⟨ha, hn, r, t, ht, -, hpos, -, rfl⟩ := deposit_cases h
  refine ⟨⟨rfl, rfl⟩, ?_⟩
  have hassets : t.balance = Book.pay c env.self n s.book.assets :=
    (Token.transferFrom_spec ht (hv c ha)).2.2
  change Book.Step env.self s.book 0 { s.book.mint c x with assets := t.balance }
  rw [hassets]
  exact .enter c n x (hv c ha) hn hpos

/-- A matured claim goes through exactly when the vault holds the queued amount. -/
theorem runs_claimWithdrawal : Runs (claimWithdrawal c) env s n s' ↔
    hasAdmin s.access = true ∧ env.Authorized c ∧
      ∃ q, s.queuedWithdrawal c = some q ∧ q.releaseLedger ≤ env.ledger.sequence ∧
        s.underlyingToken.isSome = true ∧ ∃ t,
          s.underlying.transfer env.self c q.amount = some t ∧ n = q.amount ∧
          s' = { removeQueuedWithdrawal c s with underlying := t } := by
  simp only [claimWithdrawal, TokenClient.transfer, removeQueuedWithdrawal,
    runs_ensureInitialized_bind, runs_requireAuth_bind, runs_failIf_bind, runs_readUnderlying_bind,
    runs_self_bind, runs_ledger_bind, TokenClient.runs_commit_bind, runs_gets_bind, runs_okOr_bind,
    runs_modify_bind, runs_pure, not_lt]
  constructor
  · rintro ⟨hi, ha, q, hq, hr, token, hu, t, ht, rfl, rfl⟩
    exact ⟨hi, ha, q, hq, hr, by simp [hu], t, ht, rfl, rfl⟩
  · rintro ⟨hi, ha, q, hq, hr, hu, t, ht, rfl, rfl⟩
    obtain ⟨token, hu⟩ := Option.isSome_iff_exists.mp hu
    exact ⟨hi, ha, q, hq, hr, token, hu, t, ht, rfl, rfl⟩

theorem claimed_book {vault : Address} {q : QueuedWithdrawal} {t : Token} (hc : c ≠ vault)
    (ht : s.underlying.transfer vault c q.amount = some t) :
    Store.book { removeQueuedWithdrawal c s with underlying := t } =
      { s.book with
        queue := Function.update s.book.queue c none
        assets := Book.pay vault c q.amount s.book.assets } := by
  have hassets : t.balance = Book.pay vault c q.amount s.book.assets :=
    (Token.transfer_spec ht hc.symm).2.2
  change { s.book with queue := Function.update s.book.queue c none, assets := t.balance } = _
  rw [hassets]

theorem booked_claimWithdrawal (hv : ∀ c, env.Authorized c → c ≠ env.self)
    (h : Runs (claimWithdrawal c) env s x s') :
    Same s s' ∧ Book.Step env.self s.book 0 s'.book := by
  obtain ⟨-, ha, q, hq, -, -, t, ht, -, rfl⟩ := runs_claimWithdrawal.mp h
  refine ⟨⟨rfl, rfl⟩, ?_⟩
  rw [claimed_book (hv c ha) ht]
  exact .claim c q (hv c ha) hq (Token.transfer_spec ht (hv c ha).symm).1.2

/-- The store behind an exit, before its payout. -/
def exited (c : Address) (n : ℤ) (windows : Address → Option UserEmergencyState) (s : Store) :
    Store :=
  writeSupply (s.supply - n) (writeBalance c (s.balance c - n)
    { s with userEmergencyState := windows })

/-- An exit burns the shares and either pays what they are worth or puts it into the queue. -/
theorem withdrawShares_cases (h : Runs (withdrawShares c n m) env s x s') :
    n ≤ s.balance c ∧ ∃ y windows, mulDiv n (s.underlying.balance env.self) s.supply = some y ∧
      0 < y ∧ m ≤ y ∧
      (((readCooldownConfig s).enabled = true ∧ ∃ release,
          s' = writeQueuedWithdrawal c ⟨n, y, release⟩ (exited c n windows s)) ∨
        ((readCooldownConfig s).enabled = false ∧ x = y ∧ ∃ t,
          s.underlying.transfer env.self c y = some t ∧
            s' = { exited c n windows s with underlying := t })) := by
  simp only [withdrawShares, TokenClient.transfer, TokenClient.balance, runs_failIf_bind,
    runs_readUnderlying_bind, runs_self_bind, runs_gets_bind, runs_okOr_bind, not_le, not_lt,
    not_or] at h
  obtain ⟨hb, _, -, y, hy, ⟨hpos, hmin⟩, h⟩ := h
  obtain ⟨windows, h⟩ := runs_checkAndUpdateEmergencyCap_bind h
  simp only [runs_i128_bind, runs_modify_bind, runs_ite, runs_ledger_bind, runs_pure,
    TokenClient.runs_commit_bind, Bool.not_eq_true] at h
  obtain ⟨-, -, h⟩ := h
  refine ⟨hb, y, windows, hy, hpos, hmin, ?_⟩
  rcases h with ⟨hon, -, rfl⟩ | ⟨hoff, t, ht, rfl, rfl⟩
  · exact .inl ⟨hon, _, rfl⟩
  · exact .inr ⟨hoff, rfl, t, ht, rfl⟩

/-- The payout of an exit of `n` shares: at once, or into the queue. -/
theorem booked_withdrawShares (hc : c ≠ env.self) (hn : 0 < n) (hq : s.queuedWithdrawal c = none)
    (h : Runs (withdrawShares c n m) env s x s') :
    Same s s' ∧ ∃ y, mulDiv n (s.underlying.balance env.self) s.supply = some y ∧
      Book.Step env.self s.book y s'.book := by
  obtain ⟨hb, y, windows, hy, hpos, -, ⟨-, release, rfl⟩ | ⟨-, -, t, ht, rfl⟩⟩ :=
    withdrawShares_cases h
  · exact ⟨⟨rfl, rfl⟩, y, hy, .enqueue (b := s.book) c n y _ hc hq hn hb hpos⟩
  · refine ⟨⟨rfl, rfl⟩, y, hy, ?_⟩
    obtain ⟨⟨-, hheld⟩, -, hassets⟩ := Token.transfer_spec ht hc.symm
    change Book.Step env.self s.book y { s.book.burn c n with assets := t.balance }
    rw [show t.balance = Book.pay env.self c y s.book.assets from hassets]
    exact .leave c n y hc hn hb hpos hheld

/-- What the operation takes out of the vault's free assets. -/
def Op.payout (vault : Address) (s : Store) : Op → Option ℤ
  | .withdraw _ n _ =>
    if n = 0 then some 0
    else if n < 0 then none
    else mulDiv n (s.underlying.balance vault) s.supply
  | _ => some 0

/-- A finished call keeps the configuration and is an entry in the books that takes out what the
operation is worth. -/
def Booked (env : Env) (op : Op) (s s' : Store) : Prop :=
  Same s s' ∧ ∃ x, op.payout env.self s = some x ∧ Book.Step env.self s.book x s'.book

theorem withdraw_cases (h : Runs (withdraw c n m) env s x s') : env.Authorized c ∧
    (n = 0 ∧ Runs (claimWithdrawal c) env s x s' ∨
      0 < n ∧ s.queuedWithdrawal c = none ∧ Runs (withdrawShares c n m) env s x s') := by
  simp only [withdraw, runs_ensureInitialized_bind, runs_requireAuth_bind, runs_gets_bind, runs_ite,
    runs_failIf_bind, runs_fail, and_false, or_false, not_lt, Option.not_isSome_iff_eq_none] at h
  obtain ⟨-, ha, ⟨hn, -, h⟩ | ⟨hn, hpos, hq, h⟩⟩ := h
  · exact ⟨ha, .inl ⟨hn, h⟩⟩
  · exact ⟨ha, .inr ⟨by omega, hq, h⟩⟩

theorem booked_withdraw (hv : ∀ c, env.Authorized c → c ≠ env.self)
    (h : Runs (withdraw c n m) env s x s') : Booked env (.withdraw c n m) s s' := by
  obtain ⟨ha, ⟨hn, h⟩ | ⟨hn, hq, h⟩⟩ := withdraw_cases h
  · obtain ⟨hsame, hstep⟩ := booked_claimWithdrawal hv h
    exact ⟨hsame, 0, by rw [Op.payout, if_pos hn], hstep⟩
  · obtain ⟨hsame, y, hy, hstep⟩ := booked_withdrawShares (hv c ha) hn hq h
    exact ⟨hsame, y, by rw [Op.payout, if_neg hn.ne', if_neg hn.not_gt, hy], hstep⟩

/-- Others can only add to what the vault holds. -/
theorem booked_fund {op : Op} {t : Token} (hop : op.payout env.self s = some 0)
    (hle : s.underlying.balance env.self ≤ t.balance env.self) :
    Booked env op s { s with underlying := t } :=
  ⟨⟨rfl, rfl⟩, 0, hop, .fund (b := s.book) t.balance hle⟩

theorem exec_booked {op : Op} (hv : ∀ c, env.Authorized c → c ≠ env.self)
    (h : Runs (exec op) env s () s') : Booked env op s s' := by
  cases op with
  | deposit caller assets minSharesOut =>
    simp only [exec, runs_bind, runs_pure] at h
    obtain ⟨m, t, h, -, rfl⟩ := h
    obtain ⟨hsame, hstep⟩ := booked_deposit hv h
    exact ⟨hsame, 0, rfl, hstep⟩
  | withdraw caller shares minTokensOut =>
    simp only [exec, runs_bind, runs_pure] at h
    obtain ⟨m, t, h, -, rfl⟩ := h
    exact booked_withdraw hv h
  | claimWithdrawal caller =>
    simp only [exec, runs_bind, runs_pure] at h
    obtain ⟨m, t, h, -, rfl⟩ := h
    obtain ⟨hsame, hstep⟩ := booked_claimWithdrawal hv h
    exact ⟨hsame, 0, rfl, hstep⟩
  | setCooldownConfig caller config =>
    simp only [exec, setCooldownConfig, runs_ensureInitialized_bind, runs_requireAdmin_bind,
      runs_failIf_bind, runs_modify] at h
    obtain ⟨-, -, -, -, rfl⟩ := h
    exact ⟨⟨rfl, rfl⟩, 0, rfl, .keep⟩
  | rescueTokens caller token recipient amount =>
    simp only [exec, rescueTokens, TokenClient.transfer, runs_ensureInitialized_bind,
      runs_requireAdmin_bind, runs_readUnderlying_bind, runs_failIf_bind, runs_self_bind,
      runs_trapIf_bind, TokenClient.runs_commit] at h
    obtain ⟨-, -, -, _, -, -, -, -, t, -, rfl⟩ := h
    exact ⟨⟨rfl, rfl⟩, 0, rfl, .keep⟩
  | underlyingMint dst amount =>
    simp only [exec, TokenClient.runs_commit] at h
    obtain ⟨t, ht, rfl⟩ := h
    exact booked_fund rfl (Token.mint_le ht env.self)
  | underlyingTransfer src dst amount =>
    simp only [exec, TokenClient.transfer, runs_requireAuth_bind, TokenClient.runs_commit] at h
    obtain ⟨ha, t, ht, rfl⟩ := h
    exact booked_fund rfl (Token.transfer_le ht (hv src ha).symm).1
  | underlyingApprove owner spender amount =>
    simp only [exec, runs_requireAuth_bind, TokenClient.runs_commit, Option.some.injEq] at h
    obtain ⟨-, t, rfl, rfl⟩ := h
    exact booked_fund rfl le_rfl

end BcForge.YieldVault
