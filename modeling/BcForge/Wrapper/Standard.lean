import BcForge.Soroban.Custody
import BcForge.Wrapper.Shares

/-! The vault's shares are a standard SEP-41 token, and stay with their holder. -/
namespace BcForge.Wrapper

open Soroban Call Admin

/-- The ledger of the shares at a ledger of the chain: an allowance that has run out is none. -/
def Seen (l : Ledger) (s : Store) (t : Token) : Prop :=
  t.Shows s.balance s.supply (fun o sp => readAllowance l o sp s) (wrapperDecimals s)

/-- What is left of an allowance of that much once its expiry is over. -/
def lasting (l : Ledger) (x : ℤ) (expiry : ℕ) : ℤ :=
  if 0 < expiry ∧ expiry < l.sequence then 0 else x

/-- The standard operations of a successful call that issued so many shares. -/
def Op.standard (l : Ledger) (issued : ℤ) : Op → List Token.Op
  | .wrap caller _ => [.mint caller issued]
  | .deposit caller _ => [.mint caller issued]
  | .unwrap caller wrappedAmount => [.burn caller wrappedAmount]
  | .withdraw caller shares => if shares = 0 then [] else [.burn caller shares]
  | .approve owner spender amount expiry => [.approve owner spender (lasting l amount expiry)]
  | .transfer src dst amount => [.transfer src dst amount]
  | .transferFrom spender src dst amount => [.transferFrom spender src dst amount]
  | .burn owner amount => [.burn owner amount]
  | .burnFrom spender owner amount => [.burnFrom spender owner amount]
  | _ => []

/-- A new ledger ends the allowances it is too late for. -/
def standardSteps (w : World Store) : Label Op → List Token.Op
  | .call signers uploaded op =>
    if (exec op (w.env signers uploaded) w.store).isOk = true then
      op.standard w.ledger
        ((w.next exec (.call signers uploaded op)).store.supply - w.store.supply)
    else []
  | .close l =>
    [.lapse fun o sp => (w.store.allowanceExp o sp).any
      fun e => decide (0 < e ∧ e < (w.next exec (.close l)).ledger.sequence)]

variable {env : Env} {s s' : Store} {op : Op} {c src dst spender owner : Address} {n : ℤ}
  {expiry : ℕ} {u : Unit} {t : Token}

/-! Allowances. -/

theorem readAllowance_write (l : Ledger) (owner spender : Address) (x : ℤ) (expiry : ℕ)
    (s : Store) :
    (fun o sp => readAllowance l o sp (writeAllowance owner spender x expiry s)) =
      granted (fun o sp => readAllowance l o sp s) owner spender (lasting l x expiry) := by
  funext o sp
  by_cases ho : o = owner
  · subst ho
    by_cases hs : sp = spender
    · subst hs
      simp [readAllowance, writeAllowance, granted, lasting]
    · simp [readAllowance, writeAllowance, granted, hs]
  · simp [readAllowance, writeAllowance, granted, ho]

/-- An allowance that covers a positive amount has not run out, and what is left of it will run out
when it would have. -/
theorem lasting_rest {l : Ledger} (hn : 0 < n) (hle : n ≤ readAllowance l owner spender s) :
    lasting l (readAllowance l owner spender s - n)
        ((s.allowanceExp owner spender).getD 0) =
      readAllowance l owner spender s - n := by
  unfold readAllowance at hle
  split at hle
  · omega
  · rename_i hlive
    refine if_neg ?_
    cases he : s.allowanceExp owner spender with
    | none => simp
    | some e => simpa [he] using hlive

/-- Neither of the two maps that allowances are kept in has changed. -/
structure AllowancesKept (s s' : Store) : Prop where
  amount : s'.allowance = s.allowance
  expiry : s'.allowanceExp = s.allowanceExp

theorem AllowancesKept.read (h : AllowancesKept s s') (l : Ledger) :
    (fun o sp => readAllowance l o sp s') = fun o sp => readAllowance l o sp s := by
  funext o sp
  rw [readAllowance, readAllowance, h.amount, h.expiry]

theorem allowances_aside (hop : op.isAside = true) (hne : ∀ o sp n e, op ≠ .approve o sp n e)
    (h : Runs (exec op) env s u s') : AllowancesKept s s' := by
  cases op with
  | approve owner spender amount expiry => exact absurd rfl (hne owner spender amount expiry)
  | distributeRewards caller amount =>
    obtain ⟨-, -, -, t, -, rfl⟩ := runs_distributeRewards h
    exact ⟨rfl, rfl⟩
  | rescueTokens caller token recipient amount =>
    simp only [exec, rescueTokens, TokenClient.transfer, TokenClient.balance,
      runs_ensureInitialized_bind, runs_requireAdmin_bind, runs_readUnderlying_bind,
      runs_failIf_bind, runs_self_bind, runs_gets_bind, TokenClient.runs_commit] at h
    obtain ⟨-, -, -, _, -, -, -, -, -, t, -, rfl⟩ := h
    exact ⟨rfl, rfl⟩
  | pause =>
    simp only [exec, pause, runs_readAdmin_bind, runs_gets_bind, runs_failIf_bind,
      Lifecycle.runs_pause] at h
    obtain ⟨_, -, -, -, -, -, rfl⟩ := h
    exact ⟨rfl, rfl⟩
  | unpause =>
    simp only [exec, unpause, runs_readAdmin_bind, runs_gets_bind, runs_failIf_bind,
      Lifecycle.runs_unpause] at h
    obtain ⟨_, -, -, -, -, -, rfl⟩ := h
    exact ⟨rfl, rfl⟩
  | pauseAs caller =>
    simp only [exec, pauseAs, runs_ensureInitialized_bind, runs_gets_bind, runs_failIf_bind,
      Lifecycle.runs_pause] at h
    obtain ⟨-, -, -, -, -, rfl⟩ := h
    exact ⟨rfl, rfl⟩
  | unpauseAs caller =>
    simp only [exec, unpauseAs, runs_ensureInitialized_bind, runs_gets_bind, runs_failIf_bind,
      Lifecycle.runs_unpause] at h
    obtain ⟨-, -, -, -, -, rfl⟩ := h
    exact ⟨rfl, rfl⟩
  | setCooldownConfig caller config =>
    simp only [exec, setCooldownConfig, runs_ensureInitialized_bind, runs_requireAdmin_bind,
      runs_failIf_bind, runs_modify] at h
    obtain ⟨-, -, -, -, rfl⟩ := h
    exact ⟨rfl, rfl⟩
  | setUnlockTime caller user unlock =>
    simp only [exec, setUnlockTime, runs_ensureInitialized_bind, runs_requireAdmin_bind,
      runs_modify] at h
    obtain ⟨-, -, -, rfl⟩ := h
    exact ⟨rfl, rfl⟩
  | clearUnlockTime caller user =>
    simp only [exec, clearUnlockTime, runs_ensureInitialized_bind, runs_requireAdmin_bind,
      runs_modify] at h
    obtain ⟨-, -, -, rfl⟩ := h
    exact ⟨rfl, rfl⟩
  | setVaultState caller state =>
    simp only [exec, setVaultState, runs_ensureInitialized_bind, runs_requireAdmin_bind,
      runs_failIf_bind, runs_modify] at h
    obtain ⟨-, -, -, -, rfl⟩ := h
    exact ⟨rfl, rfl⟩
  | underlyingMint dst amount =>
    simp only [exec, TokenClient.runs_commit] at h
    obtain ⟨t, -, rfl⟩ := h
    exact ⟨rfl, rfl⟩
  | underlyingTransfer src dst amount =>
    simp only [exec, TokenClient.transfer, runs_requireAuth_bind, TokenClient.runs_commit] at h
    obtain ⟨-, t, -, rfl⟩ := h
    exact ⟨rfl, rfl⟩
  | underlyingApprove owner spender amount =>
    simp only [exec, runs_requireAuth_bind, TokenClient.runs_commit, Option.some.injEq] at h
    obtain ⟨-, t, -, rfl⟩ := h
    exact ⟨rfl, rfl⟩
  | _ => cases hop

/-! What the share token's own operations leave behind. -/

theorem runs_moved (h : Runs (moveBalance src dst n) env s u s') :
    n ≤ s.balance src ∧ s' = { s with balance := moved s.balance src dst n } := by
  obtain ⟨hb, ⟨he, rfl⟩ | ⟨hne, rfl⟩⟩ := runs_moveBalance h
  · refine ⟨hb, ?_⟩
    rw [moved, if_pos he]
  · refine ⟨hb, ?_⟩
    rw [moved, if_neg hne]
    rfl

theorem leaves_transfer (h : Runs (transfer src dst n) env s u s') :
    env.Authorized src ∧ 0 < n ∧ n ≤ s.balance src ∧
      s' = { s with balance := moved s.balance src dst n } := by
  simp only [transfer, runs_ensureInitialized_bind, runs_ensureNotPaused_bind,
    runs_requireAuth_bind, runs_failIf_bind, not_le] at h
  obtain ⟨-, -, ha, hn, hmove⟩ := h
  obtain ⟨hb, hs'⟩ := runs_moved hmove
  exact ⟨ha, hn, hb, hs'⟩

theorem leaves_approve (h : Runs (approve owner spender n expiry) env s u s') :
    env.Authorized owner ∧ s' = writeAllowance owner spender n expiry s := by
  simp only [approve, runs_ensureInitialized_bind, runs_requireAuth_bind, runs_failIf_bind,
    runs_modify] at h
  exact ⟨h.2.1, h.2.2.2⟩

/-- The allowance as a draw of `n` leaves it. -/
def drawn (l : Ledger) (owner spender : Address) (n : ℤ) (s : Store) : Store :=
  writeAllowance owner spender (readAllowance l owner spender s - n)
    ((s.allowanceExp owner spender).getD 0) s

theorem readAllowance_drawn {l : Ledger} (hn : 0 < n)
    (hle : n ≤ readAllowance l owner spender s) :
    (fun o sp => readAllowance l o sp (drawn l owner spender n s)) =
      granted (fun o sp => readAllowance l o sp s) owner spender
        (readAllowance l owner spender s - n) := by
  rw [drawn, readAllowance_write, lasting_rest hn hle]

theorem leaves_transferFrom (h : Runs (transferFrom spender src dst n) env s u s') :
    0 < n ∧ n ≤ readAllowance env.ledger src spender s ∧ n ≤ s.balance src ∧
      s' = { drawn env.ledger src spender n s with balance := moved s.balance src dst n } := by
  simp only [transferFrom, runs_ensureInitialized_bind, runs_ensureNotPaused_bind,
    runs_requireAuth_bind, runs_failIf_bind, runs_ledger_bind, runs_gets_bind, not_le,
    not_lt] at h
  obtain ⟨-, -, -, hn, hle, h⟩ := h
  obtain ⟨_, s₁, hmove, h⟩ := runs_bind.mp h
  obtain ⟨hb, rfl⟩ := runs_moved hmove
  simp only [spendAllowance, runs_i128_bind, runs_gets_bind, runs_modify] at h
  exact ⟨hn, hle, hb, h.2⟩

theorem leaves_burn (h : Runs (burn owner n) env s u s') :
    env.Authorized owner ∧ 0 < n ∧ n ≤ s.balance owner ∧ s' = debit owner n s := by
  simp only [burn, runs_ensureInitialized_bind, runs_ensureNotPaused_bind, runs_requireAuth_bind,
    runs_failIf_bind, runs_gets_bind, runs_burnShares, not_le, not_lt] at h
  obtain ⟨-, -, ha, hn, hb, -, -, hs'⟩ := h
  exact ⟨ha, hn, hb, hs'⟩

theorem leaves_burnFrom (h : Runs (burnFrom spender owner n) env s u s') :
    0 < n ∧ n ≤ readAllowance env.ledger owner spender s ∧ n ≤ s.balance owner ∧
      s' = debit owner n (drawn env.ledger owner spender n s) := by
  simp only [burnFrom, spendAllowance, runs_ensureInitialized_bind, runs_ensureNotPaused_bind,
    runs_requireAuth_bind, runs_failIf_bind, runs_ledger_bind, runs_gets_bind, runs_i128_bind,
    runs_bind_assoc, runs_modify_bind, runs_burnShares, not_le, not_lt] at h
  obtain ⟨-, -, -, hn, hle, hb, -, -, -, hs'⟩ := h
  exact ⟨hn, hle, hb, hs'⟩

/-! Every step is explained. -/

/-- The operations lead from the ledger the one store shows to the ledger the other one shows. -/
def Explained (l : Ledger) (ops : List Token.Op) (s s' : Store) : Prop :=
  ∀ t, Seen l s t → ∃ t', t.replay ops = some t' ∧ Seen l s' t'

variable {l : Ledger} {o : Token.Op}

theorem explained_one (h : ∀ t, Seen l s t → ∃ t', t.apply o = some t' ∧ Seen l s' t') :
    Explained l [o] s s' := by
  intro t ht
  rw [Token.replay_singleton]
  exact h t ht

theorem explained_nil (hb : s'.balance = s.balance) (hs : s'.supply = s.supply)
    (ha : AllowancesKept s s') (hd : s'.decimals = s.decimals) : Explained l [] s s' := by
  intro t ht
  refine ⟨t, rfl, ?_⟩
  rw [Seen, hb, hs, ha.read l, wrapperDecimals, hd]
  exact ht

/-- New shares, whatever the price was. -/
theorem explained_issue (hn : 0 < n) (hmax : s.supply + n ≤ I128.MAX)
    (hb : s'.balance = Function.update s.balance c (s.balance c + n))
    (hs : s'.supply = s.supply + n) (ha : AllowancesKept s s') (hd : s'.decimals = s.decimals) :
    Explained l [.mint c (s'.supply - s.supply)] s s' := by
  refine explained_one fun t ht => ?_
  obtain ⟨t', hr, hshows⟩ := Token.shows_mint c ht hn.le hmax
  have hissued : s'.supply - s.supply = n := by omega
  refine ⟨t', ?_, ?_⟩
  · rw [hissued]
    exact hr
  · rw [Seen, hb, hs, ha.read l, wrapperDecimals, hd]
    exact hshows

theorem explained_destroy (hn : 0 < n) (hle : n ≤ s.balance c)
    (hb : s'.balance = Function.update s.balance c (s.balance c - n))
    (hs : s'.supply = s.supply - n) (ha : AllowancesKept s s') (hd : s'.decimals = s.decimals) :
    Explained l [.burn c n] s s' := by
  refine explained_one fun t ht => ?_
  obtain ⟨t', hr, hshows⟩ := Token.shows_burn ht hn.le hle
  refine ⟨t', hr, ?_⟩
  rw [Seen, hb, hs, ha.read l, wrapperDecimals, hd]
  exact hshows

theorem explained_claim (h : Runs (claimWithdrawal c) env s n s') : Explained l [] s s' := by
  obtain ⟨-, -, -, q, -, -, -, -, t, -, -, rfl⟩ := runs_claimWithdrawal.mp h
  exact explained_nil rfl rfl ⟨rfl, rfl⟩ rfl

theorem explained_withdraw {m : ℤ} (h : Runs (withdraw c n) env s m s') :
    Explained l (if n = 0 then [] else [.burn c n]) s s' := by
  obtain ⟨-, -, ⟨rfl, hclaim⟩ | ⟨hn, -, hexit⟩⟩ := runs_withdraw h
  · rw [if_pos rfl]
    exact explained_claim hclaim
  · rw [if_neg hn.ne']
    obtain ⟨-, -, hb, x, windows, -, -, -, ⟨-, -, rfl⟩ | ⟨-, -, t, -, rfl⟩⟩ :=
      runs_withdrawShares hexit
    · exact explained_destroy hn hb rfl rfl ⟨rfl, rfl⟩ rfl
    · exact explained_destroy hn hb rfl rfl ⟨rfl, rfl⟩ rfl

/-- What the calls that concern neither shares nor exits leave alone. -/
theorem effect_aside (hop : op.isAside = true) (h : Effect env s op s') :
    Same s s' ∧ AsideOf op s s' := by
  cases h with
  | aside _ _ hsame haside _ => exact ⟨hsame, haside⟩
  | enter c n m t hop' => obtain rfl | rfl := hop' <;> cases hop
  | unwrap c n x t hop' => subst hop'; cases hop
  | enqueue c n x windows hop' => subst hop'; cases hop
  | pay c n x windows t hop' => subst hop'; cases hop
  | claim c q t hop' => obtain rfl | rfl := hop' <;> cases hop
  | move src dst n allowance expiry hop' => obtain rfl | ⟨_, rfl⟩ := hop' <;> cases hop
  | destroy c n allowance expiry hop' => obtain rfl | ⟨_, rfl⟩ := hop' <;> cases hop

theorem explained_aside (hv : ∀ c, env.Authorized c → c ≠ env.self) (hop : op.isAside = true)
    (hne : ∀ o sp n e, op ≠ .approve o sp n e) (h : Runs (exec op) env s u s') :
    Explained l [] s s' := by
  obtain ⟨hsame, haside⟩ := effect_aside hop (exec_effect hv h)
  exact explained_nil haside.balance haside.supply (allowances_aside hop hne h) hsame.decimals

theorem explained_exec (hv : ∀ c, env.Authorized c → c ≠ env.self)
    (h : Runs (exec op) env s u s') :
    Explained env.ledger (op.standard env.ledger (s'.supply - s.supply)) s s' := by
  cases op with
  | wrap caller amount =>
    obtain ⟨-, -, -, -, t, m, -, -, hm, hr, rfl⟩ := runs_wrap h
    exact explained_issue hm hr.2 rfl rfl ⟨rfl, rfl⟩ rfl
  | deposit caller assets =>
    obtain ⟨m, hr⟩ := runs_discarded.mp h
    obtain ⟨-, -, -, -, t, -, -, hm, hrange, rfl⟩ := runs_deposit hr
    exact explained_issue hm hrange.2 rfl rfl ⟨rfl, rfl⟩ rfl
  | unwrap caller wrappedAmount =>
    obtain ⟨-, -, -, -, hn, hb, x, t, -, -, -, rfl⟩ := runs_unwrap h
    exact explained_destroy hn hb rfl rfl ⟨rfl, rfl⟩ rfl
  | withdraw caller shares =>
    obtain ⟨m, hr⟩ := runs_discarded.mp h
    exact explained_withdraw hr
  | claimWithdrawal caller =>
    obtain ⟨m, hr⟩ := runs_discarded.mp h
    exact explained_claim hr
  | approve owner spender amount expiry =>
    obtain ⟨-, rfl⟩ := leaves_approve h
    refine explained_one fun t ht => ⟨_, rfl, ?_⟩
    rw [Seen, readAllowance_write]
    exact Token.shows_approve ht _ _ _
  | transfer src dst amount =>
    obtain ⟨-, hn, hb, rfl⟩ := leaves_transfer h
    exact explained_one fun t ht => Token.shows_transfer dst ht hn.le hb
  | transferFrom spender src dst amount =>
    obtain ⟨hn, hle, hb, rfl⟩ := leaves_transferFrom h
    refine explained_one fun t ht => ?_
    have hshows := Token.shows_transferFrom dst ht hn.le hb hle
    rw [← readAllowance_drawn hn hle] at hshows
    exact hshows
  | burn owner amount =>
    obtain ⟨-, hn, hb, rfl⟩ := leaves_burn h
    exact explained_destroy hn hb rfl rfl ⟨rfl, rfl⟩ rfl
  | burnFrom spender owner amount =>
    obtain ⟨hn, hle, hb, rfl⟩ := leaves_burnFrom h
    refine explained_one fun t ht => ?_
    have hshows := Token.shows_burnFrom ht hn.le hb hle
    rw [← readAllowance_drawn hn hle] at hshows
    exact hshows
  | _ => exact explained_aside hv rfl (by rintro _ _ _ _ ⟨⟩) h

variable {w : World Store}

/-- An allowance that has run out stays out. -/
theorem seen_lapse {later : Ledger} (hle : l.sequence ≤ later.sequence) (h : Seen l s t) :
    Seen later s (t.lapse fun o sp => (s.allowanceExp o sp).any
      fun e => decide (0 < e ∧ e < later.sequence)) := by
  have hlapsed := Token.shows_lapse h fun o sp => (s.allowanceExp o sp).any
    fun e => decide (0 < e ∧ e < later.sequence)
  refine ⟨hlapsed.balance, hlapsed.supply, ?_, hlapsed.decimals⟩
  rw [hlapsed.allowance]
  funext o sp
  unfold readAllowance
  cases he : s.allowanceExp o sp with
  | none => simp
  | some e =>
    by_cases hlater : 0 < e ∧ e < later.sequence
    · simp [hlater]
    · have hnow : ¬ (0 < e ∧ e < l.sequence) := by omega
      simp [hlater, hnow]

theorem explains_wrapper : Token.Explains exec (fun _ : World Store => True)
    (fun w => Seen w.ledger w.store) standardSteps where
  keep _ _ _ := trivial
  step w l t _ ht := by
    cases l with
    | close l =>
      refine ⟨_, rfl, ?_⟩
      rw [World.next_close_store]
      exact seen_lapse (World.next_ledger_mono exec w (.close l)).1 ht
    | call signers uploaded op =>
      rcases World.call_cases exec w signers uploaded op with hr | ⟨hfail, hsame⟩
      · rw [standardSteps, if_pos (isOk_of_runs hr)]
        exact explained_exec World.authorized_ne_self hr t ht
      · rw [standardSteps, if_neg hfail, hsame]
        exact ⟨t, rfl, ht⟩

theorem seen_deployed (h : Deployed w) :
    Seen w.ledger w.store (Token.empty (wrapperDecimals w.store)) := by
  obtain ⟨access, token, decimal, underlying, foreign, -, hs⟩ := h.store_eq
  rw [hs]
  exact ⟨rfl, rfl, rfl, rfl⟩

/-- The shares of a vault are a standard token as well: replayed on the empty ledger, issuing what
was issued at either entry price and destroying what left by either exit, the operations of a run
all go through and end with the balances, the supply and the allowances that the vault shows. -/
theorem shares_are_standard (h : Deployed w) (ls : List (Label Op)) :
    ∃ t, (Token.empty (wrapperDecimals w.store)).replay (w.collectSteps exec standardSteps ls) =
      some t ∧ Seen (w.run exec ls).ledger (w.run exec ls).store t :=
  explains_wrapper.run trivial (seen_deployed h) ls

theorem shares_are_standard_mixedRun :
    ∃ t, (Token.empty 7).replay (genesis.collectSteps exec standardSteps mixedRun) = some t ∧
      t.balance ⟨2⟩ = 500000000 ∧ t.supply = 700000000 := by
  obtain ⟨t, hr, ht⟩ := shares_are_standard genesis_deployed mixedRun
  refine ⟨t, hr, ?_, ?_⟩
  · rw [ht.balance]
    decide
  · rw [ht.supply]
    decide

end BcForge.Wrapper
