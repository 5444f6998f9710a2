import BcForge.Sdk.MockVault
import BcForge.Soroban.Standard
import BcForge.YieldVault.Dilution

/-! The vault beside its stand-in, while exits are paid at once. -/
namespace BcForge.YieldVault

open Soroban Call Js Sdk Wrapper

/-- The call on the stand-in for an entry point; what others give to the vault is a reward. -/
def Op.mocked (vault : Address) : Op → Option (Method MockVaultClient TransactionResult)
  | .deposit caller assets minSharesOut =>
    some (MockVaultClient.deposit caller assets minSharesOut)
  | .withdraw caller shares minTokensOut =>
    some (MockVaultClient.withdraw caller shares minTokensOut)
  | .underlyingMint dst amount =>
    if dst = vault ∧ 0 < amount then some (MockVaultClient.distributeRewards dst amount) else none
  | .underlyingTransfer src dst amount =>
    if dst = vault ∧ 0 < amount then some (MockVaultClient.distributeRewards src amount) else none
  | _ => none

/-- Exits stay immediate. -/
def Op.immediate : Op → Bool
  | .setCooldownConfig _ config => !config.enabled
  | _ => true

/-- The number an entry point returns, if it returns one. -/
def Op.returned (env : Env) (s : Store) : Op → Option ℤ
  | .deposit caller assets minSharesOut =>
    (YieldVault.deposit caller assets minSharesOut env s).toOption.map Done.value
  | .withdraw caller shares minTokensOut =>
    (YieldVault.withdraw caller shares minTokensOut env s).toOption.map Done.value
  | _ => none

/-- What the vault answers to the calls that the stand-in gets too. -/
def answers (w : World Store) : Label Op → List (Except String TransactionResult)
  | .call signers uploaded op =>
    if (exec op (w.env signers uploaded) w.store).isOk = true ∧
        (op.mocked w.self).isSome = true then
      [.ok (mockReply true ((op.returned (w.env signers uploaded) w.store).map .bigint))]
    else []
  | .close _ => []

abbrev Rehearsal := Method.Transcript MockVaultClient TransactionResult

/-- Each call that succeeded on the vault is made on the stand-in. -/
def rehearse (w : World Store) (r : Rehearsal) : Label Op → Rehearsal
  | .call signers uploaded op =>
    if (exec op (w.env signers uploaded) w.store).isOk = true then
      ((op.mocked w.self).map r.call).getD r
    else r
  | .close _ => r

/-- The stand-in shows the vault, nothing waits, and shares are backed by something. -/
structure Rehearsed (vault : Address) (s : Store) (c : MockVaultClient) : Prop where
  shows : c.Shows s.balance s.supply (s.underlying.balance vault)
  priced : 0 < s.supply → 0 < s.underlying.balance vault
  idle : (readCooldownConfig s).enabled = false
  unqueued : ∀ u, s.queuedWithdrawal u = none

variable {env : Env} {s s' : Store} {c : MockVaultClient} {caller u : Address} {n m x a : ℤ}
  {op : Op} {w : World Store} {l : Label Op} {ls : List (Label Op)} {r : Rehearsal}
  {vault : Address}

/-- A call after which the vault's books are as they were. -/
theorem Rehearsed.still (h : Rehearsed vault s c) (hb : s'.balance = s.balance)
    (hs : s'.supply = s.supply)
    (ha : s'.underlying.balance vault = s.underlying.balance vault)
    (hi : (readCooldownConfig s').enabled = false)
    (hq : s'.queuedWithdrawal = s.queuedWithdrawal) : Rehearsed vault s' c := by
  refine ⟨?_, ?_, hi, fun u => hq ▸ h.unqueued u⟩
  · rw [hb, hs, ha]
    exact h.shows
  · rw [hs, ha]
    exact h.priced

theorem value_of_runs {σ ε α : Type} {y : Call σ ε α} {t t' : σ} {v : α}
    (h : Runs y env t v t') : (y env t).toOption.map Done.value = some v := by
  obtain ⟨log, h⟩ := h
  rw [h]
  rfl

/-- Both sides take a deposit for the same number of shares. -/
theorem sharesOut_of_sharesFor (hs : 0 ≤ s.supply) (hpriced : 0 < s.supply → 0 < a)
    (ha : 0 ≤ a) (hmax : a ≤ I128.MAX) (hn : 0 < n)
    (h : sharesFor n s.supply (a + n) = some x) : MockVaultClient.SharesOut s.supply a n x := by
  have hrange : I128.InRange a := I128.inRange_of_le ha hmax ⟨by decide, le_rfl⟩
  have hbefore : (I128.checkedSub (a + n) n).getD 0 = a := by
    simp [I128.checkedSub, I128.checked, hrange]
  refine ⟨fun hzero => ?_, fun hne => ?_⟩
  · rw [sharesFor, if_pos hzero] at h
    exact (Option.some.inj h).symm
  · have hpos : 0 < a := hpriced (by omega)
    rw [sharesFor, if_neg hne] at h
    simp only [hbefore, if_neg (not_le.mpr hpos)] at h
    obtain ⟨-, hx⟩ := mulDiv_spec h hn.le hs ha
    have hworth : 0 ≤ n * s.supply := mul_nonneg hn.le hs
    exact ⟨hpos.ne', hx.trans (Int.tdiv_eq_ediv_of_nonneg hworth).symm⟩

/-- A deposit on the vault is one on the stand-in, for the same shares. -/
theorem rehearsed_deposit (hv : ∀ c, env.Authorized c → c ≠ env.self) (hs : 0 ≤ s.supply)
    (h : Rehearsed env.self s c) (hr : Runs (deposit caller n m) env s x s') :
    ∃ c', (MockVaultClient.deposit caller n m).Returns c (mockReply true (some (.bigint x))) c' ∧
      Rehearsed env.self s' c' := by
  obtain ⟨hauth, hn, limits, t, ht, hshares, hpos, hmin, rfl⟩ := deposit_cases hr
  have hassets : t.balance env.self = s.underlying.balance env.self + n := by
    rw [(Token.transferFrom_spec ht (hv caller hauth)).2.2, Function.update_self]
  rw [hassets] at hshares
  have hnonneg : 0 ≤ s.underlying.balance env.self := s.underlying.balance_nonneg _
  have hout := sharesOut_of_sharesFor hs h.priced hnonneg (s.underlying.balance_le _) hn hshares
  obtain ⟨c', hrun, hshows⟩ := MockVaultClient.returns_deposit h.shows caller hn hout hpos hmin
  rw [← hassets] at hshows
  refine ⟨c', hrun, hshows, fun _ => ?_, h.idle, h.unqueued⟩
  change 0 < t.balance env.self
  omega

/-- What is left of the assets after a part of the shares went out is more than nothing. -/
theorem rest_pos {y S : ℤ} (hS : n < S) (hpos : 0 < S) (ha : 0 < a) (hy : y = n * a / S) :
    0 < a - y := by
  have hle : y * S ≤ n * a := by
    rw [hy]
    exact Int.ediv_mul_le _ hpos.ne'
  have hlt : y * S < a * S := by
    calc y * S ≤ n * a := hle
      _ < S * a := by gcongr
      _ = a * S := mul_comm _ _
  have hless : y < a := lt_of_mul_lt_mul_right hlt hpos.le
  omega

theorem rehearsed_withdraw (hv : ∀ c, env.Authorized c → c ≠ env.self) (hbooks : s.book.Balanced)
    (h : Rehearsed env.self s c) (hr : Runs (withdraw caller n m) env s x s') :
    ∃ c', (MockVaultClient.withdraw caller n m).Returns c (mockReply true (some (.bigint x))) c' ∧
      Rehearsed env.self s' c' := by
  obtain ⟨hauth, ⟨-, hclaim⟩ | ⟨hn, -, hr⟩⟩ := withdraw_cases hr
  · obtain ⟨-, -, q, hq, -⟩ := runs_claimWithdrawal.mp hclaim
    rw [h.unqueued] at hq
    cases hq
  obtain ⟨hle, y, windows, hy, hpos, hmin, ⟨hon, -⟩ | ⟨-, rfl, t, ht, rfl⟩⟩ :=
    withdrawShares_cases hr
  · rw [h.idle] at hon
    cases hon
  have hheld : s.balance caller ≤ s.supply := hbooks.shares_total.le hbooks.shares_nonneg caller
  have hsupply : 0 < s.supply := by omega
  have hnonneg : 0 ≤ s.underlying.balance env.self := s.underlying.balance_nonneg _
  obtain ⟨-, hworth⟩ := mulDiv_spec hy hn.le hnonneg hsupply.le
  have hexact : x = (n * s.underlying.balance env.self).tdiv s.supply :=
    hworth.trans (Int.tdiv_eq_ediv_of_nonneg (mul_nonneg hn.le hnonneg)).symm
  have hassets : t.balance env.self = s.underlying.balance env.self - x := by
    have hne : env.self ≠ caller := (hv caller hauth).symm
    rw [(Token.transfer_spec ht hne).2.2, Function.update_of_ne hne, Function.update_self]
  obtain ⟨c', hrun, hshows⟩ :=
    MockVaultClient.returns_withdraw h.shows hn hle hsupply.ne' hexact hpos hmin
  rw [← hassets] at hshows
  refine ⟨c', hrun, hshows, fun hrest => ?_, h.idle, h.unqueued⟩
  change 0 < t.balance env.self
  change 0 < s.supply - n at hrest
  rw [hassets]
  exact rest_pos (by omega) hsupply (h.priced hsupply) hworth

/-- What reaches the vault without a deposit is a reward. -/
theorem rehearsed_reward (h : Rehearsed vault s c) {t : Token} (caller : Address) (hn : 0 < n)
    (ht : t.balance vault = s.underlying.balance vault + n) :
    ∃ c', (MockVaultClient.distributeRewards caller n).Returns c (mockReply true none) c' ∧
      Rehearsed vault { s with underlying := t } c' := by
  obtain ⟨c', hrun, hshows⟩ := MockVaultClient.returns_distributeRewards h.shows caller hn
  rw [← ht] at hshows
  refine ⟨c', hrun, hshows, fun hs => ?_, h.idle, h.unqueued⟩
  have hassets := h.priced hs
  change 0 < t.balance vault
  omega

/-- The call is made on the stand-in, which answers as the vault, or neither has it. -/
def Repeated (env : Env) (s s' : Store) (op : Op) (c : MockVaultClient) : Prop :=
  (op.mocked env.self = none ∧ Rehearsed env.self s' c) ∨
    ∃ m c', op.mocked env.self = some m ∧
      m.Returns c (mockReply true ((op.returned env s).map .bigint)) c' ∧ Rehearsed env.self s' c'

/-- A call on the underlying token adds a reward, or nothing at all. -/
theorem repeated_fund {t : Token} (h : Rehearsed env.self s c)
    (hop : op.mocked env.self =
      if u = env.self ∧ 0 < n then some (MockVaultClient.distributeRewards caller n) else none)
    (hret : op.returned env s = none) (hn : 0 ≤ n)
    (ht : t.balance env.self =
      if u = env.self then s.underlying.balance env.self + n
      else s.underlying.balance env.self) :
    Repeated env s { s with underlying := t } op c := by
  by_cases hreward : u = env.self ∧ 0 < n
  · rw [if_pos hreward] at hop
    rw [if_pos hreward.1] at ht
    obtain ⟨c', hrun, hc'⟩ := rehearsed_reward h caller hreward.2 ht
    refine Or.inr ⟨_, c', hop, ?_, hc'⟩
    rw [hret]
    exact hrun
  · rw [if_neg hreward] at hop
    refine Or.inl ⟨hop, h.still rfl rfl ?_ h.idle rfl⟩
    change t.balance env.self = s.underlying.balance env.self
    rw [ht]
    split
    case isTrue hu =>
      have hzero : ¬ 0 < n := fun hpos => hreward ⟨hu, hpos⟩
      omega
    case isFalse => rfl

theorem repeated_exec (hv : ∀ c, env.Authorized c → c ≠ env.self) (hbooks : s.book.Balanced)
    (h : Rehearsed env.self s c) (hop : op.immediate = true) (hr : Runs (exec op) env s () s') :
    Repeated env s s' op c := by
  cases op with
  | deposit caller assets minSharesOut =>
    simp only [exec, runs_bind, runs_pure] at hr
    obtain ⟨x, t, hr, -, rfl⟩ := hr
    obtain ⟨c', hrun, hc'⟩ := rehearsed_deposit hv hbooks.supply_nonneg h hr
    refine Or.inr ⟨_, c', rfl, ?_, hc'⟩
    rw [Op.returned, value_of_runs hr]
    exact hrun
  | withdraw caller shares minTokensOut =>
    simp only [exec, runs_bind, runs_pure] at hr
    obtain ⟨x, t, hr, -, rfl⟩ := hr
    obtain ⟨c', hrun, hc'⟩ := rehearsed_withdraw hv hbooks h hr
    refine Or.inr ⟨_, c', rfl, ?_, hc'⟩
    rw [Op.returned, value_of_runs hr]
    exact hrun
  | claimWithdrawal caller =>
    simp only [exec, runs_bind, runs_pure] at hr
    obtain ⟨x, t, hr, -, rfl⟩ := hr
    obtain ⟨-, -, q, hq, -⟩ := runs_claimWithdrawal.mp hr
    rw [h.unqueued] at hq
    cases hq
  | setCooldownConfig caller config =>
    simp only [exec, setCooldownConfig, runs_ensureInitialized_bind, runs_requireAdmin_bind,
      runs_failIf_bind, runs_modify] at hr
    obtain ⟨-, -, -, -, rfl⟩ := hr
    refine Or.inl ⟨rfl, h.still rfl rfl rfl ?_ rfl⟩
    simpa [Op.immediate, readCooldownConfig] using hop
  | rescueTokens caller token recipient amount =>
    simp only [exec, rescueTokens, TokenClient.transfer, runs_ensureInitialized_bind,
      runs_requireAdmin_bind, runs_readUnderlying_bind, runs_failIf_bind, runs_self_bind,
      runs_trapIf_bind, TokenClient.runs_commit] at hr
    obtain ⟨-, -, -, _, -, -, -, -, t, -, rfl⟩ := hr
    exact Or.inl ⟨rfl, h.still rfl rfl rfl h.idle rfl⟩
  | underlyingMint dst amount =>
    simp only [exec, TokenClient.runs_commit] at hr
    obtain ⟨t, ht, rfl⟩ := hr
    obtain ⟨⟨hn, -⟩, hshows⟩ := Token.mint_shows ht
    refine repeated_fund h rfl rfl hn ?_
    rw [hshows.balance]
    by_cases hself : dst = env.self
    · rw [if_pos hself, hself, Function.update_self]
      rfl
    · rw [if_neg hself, Function.update_of_ne (Ne.symm hself)]
      rfl
  | underlyingTransfer src dst amount =>
    simp only [exec, TokenClient.transfer, runs_requireAuth_bind, TokenClient.runs_commit] at hr
    obtain ⟨ha, t, ht, rfl⟩ := hr
    obtain ⟨⟨hn, -⟩, hshows⟩ := Token.transfer_shows ht
    refine repeated_fund h rfl rfl hn ?_
    rw [hshows.balance]
    exact moved_other _ (hv src ha).symm dst amount
  | underlyingApprove owner spender amount =>
    simp only [exec, runs_requireAuth_bind, TokenClient.runs_commit, Option.some.injEq] at hr
    obtain ⟨-, t, rfl, rfl⟩ := hr
    exact Or.inl ⟨rfl, h.still rfl rfl rfl h.idle rfl⟩

theorem rehearsed_next (hw : Ready w) (h : Rehearsed w.self w.store r.object)
    (hl : World.OnSuccess exec (fun _ op => op.immediate = true) w l) :
    Rehearsed w.self (w.next exec l).store (rehearse w r l).object ∧
      (rehearse w r l).results = r.results ++ answers w l := by
  cases l with
  | close l =>
    rw [World.next_close_store]
    exact ⟨h, (List.append_nil _).symm⟩
  | call signers uploaded op =>
    rcases World.call_cases exec w signers uploaded op with hrun | ⟨hfail, hsame⟩
    · have hok := isOk_of_runs hrun
      rw [rehearse, if_pos hok]
      rcases repeated_exec World.authorized_ne_self hw.balanced h (hl _ hrun) hrun with
        ⟨hnone, hc⟩ | ⟨m, c', hsome, hreturns, hc'⟩
      · have hnone : op.mocked w.self = none := hnone
        rw [answers, hnone, if_neg (by simp)]
        exact ⟨hc, (List.append_nil _).symm⟩
      · have hsome : op.mocked w.self = some m := hsome
        rw [answers, hsome, if_pos ⟨hok, rfl⟩]
        change Rehearsed w.self _ (r.call m).object ∧ (r.call m).results = _
        rw [hreturns.transcript]
        exact ⟨hc', rfl⟩
    · rw [rehearse, if_neg hfail, answers, if_neg (fun hok => hfail hok.1), hsame]
      exact ⟨h, (List.append_nil _).symm⟩

theorem rehearsed_run (hw : Ready w) (h : Rehearsed w.self w.store r.object)
    (hls : w.EveryStep exec (World.OnSuccess exec fun _ op => op.immediate = true) ls) :
    Rehearsed w.self (w.run exec ls).store (w.foldSteps exec rehearse r ls).object ∧
      (w.foldSteps exec rehearse r ls).results = r.results ++ w.collectSteps exec answers ls := by
  induction ls generalizing w r with
  | nil => exact ⟨h, (List.append_nil _).symm⟩
  | cons l ls ih =>
    obtain ⟨hnext, hresults⟩ := rehearsed_next hw h hls.1
    have hself : (w.next exec l).self = w.self := World.next_self
    rw [← hself] at hnext
    obtain ⟨hrun, htail⟩ := ih (ready_next hw) hnext hls.2
    rw [hself] at hrun
    refine ⟨hrun, ?_⟩
    rw [World.foldSteps, htail, hresults, List.append_assoc]
    rfl

/-- A new stand-in that is told what the vault held before anybody had shares of it. -/
def stocked (w : World Store) : MockVaultClient :=
  (MockVaultClient.distributeRewards w.self (w.store.underlying.balance w.self) .new).2

theorem rehearsed_deployed (h : Deployed w) : Rehearsed w.self w.store (stocked w) := by
  obtain ⟨access, token, underlying, foreign, -, hs⟩ := h.store_eq
  have hshows : (stocked w).Shows (fun _ => 0) 0 (w.store.underlying.balance w.self) := by
    have hnew : MockVaultClient.new.Shows (fun _ => 0) 0 0 := ⟨rfl, rfl, rfl⟩
    rcases (w.store.underlying.balance_nonneg w.self).lt_or_eq with hpos | hzero
    · obtain ⟨c', hrun, hc'⟩ := MockVaultClient.returns_distributeRewards hnew w.self hpos
      rw [zero_add] at hc'
      rw [stocked, hrun]
      exact hc'
    · rw [stocked, ← hzero]
      exact hnew
  refine ⟨?_, ?_, ?_, ?_⟩
  · rw [hs] at hshows ⊢
    exact hshows
  · rw [hs]
    exact fun hpos => absurd hpos (lt_irrefl 0)
  · rw [hs]
    rfl
  · rw [hs]
    exact fun _ => rfl

/-- As long as nobody switches the cooldown on, a stand-in that is given the deposits, the exits and
the gifts the vault accepted answers each with the number the vault returned, and shows the shares,
their supply and the assets of the vault. -/
theorem mock_follows_vault (h : Deployed w)
    (hls : w.EveryStep exec (World.OnSuccess exec fun _ op => op.immediate = true) ls) :
    let r := w.foldSteps exec rehearse ⟨stocked w, []⟩ ls
    r.results = w.collectSteps exec answers ls ∧
      r.object.getShareBalance = (w.run exec ls).store.balance ∧
      r.object.getTotalSupply = (w.run exec ls).store.supply ∧
      r.object.getTotalAssets = (w.run exec ls).store.underlying.balance w.self := by
  obtain ⟨⟨hshows, -, -, -⟩, hresults⟩ :=
    rehearsed_run (r := ⟨stocked w, []⟩) (ready_deployed h) (rehearsed_deployed h) hls
  exact ⟨hresults, hshows.shares, hshows.supply, hshows.assets⟩

/-- A deposit, a gift to the vault, an exit that wants too much, and one that does not. -/
def rehearsed : List (Label Op) :=
  fundedDeposit ⟨2⟩ 30 ++
    [.call [] [] (.underlyingMint ⟨100⟩ 5),
     .call [⟨2⟩] [] (.withdraw ⟨2⟩ 10 12),
     .call [⟨2⟩] [] (.withdraw ⟨2⟩ 10 11)]

theorem mock_follows_vault_rehearsed :
    (genesis.foldSteps exec rehearse ⟨stocked genesis, []⟩ rehearsed).results =
        [.ok (mockReply true (some (.bigint 30))), .ok (mockReply true none),
          .ok (mockReply true (some (.bigint 11)))] ∧
      (genesis.foldSteps exec rehearse ⟨stocked genesis, []⟩ rehearsed).object.getTotalAssets =
        24 := by
  have hls : genesis.EveryStep exec (World.OnSuccess exec fun _ op => op.immediate = true)
      rehearsed :=
    ⟨fun _ _ => rfl, fun _ _ => rfl, fun _ _ => rfl, fun _ _ => rfl, fun _ _ => rfl,
      fun _ _ => rfl, trivial⟩
  obtain ⟨hresults, -, -, hassets⟩ := mock_follows_vault genesis_deployed hls
  refine ⟨?_, ?_⟩
  · rw [hresults]
    rfl
  · rw [hassets]
    decide +kernel

end BcForge.YieldVault
