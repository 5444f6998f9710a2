import BcForge.Wrapper.ProRata

/-! The price of a share, virtual offset included, and the calls that never lower it. -/
namespace BcForge.Wrapper

open Soroban Call Admin

variable {env : Env} {s s' : Store} {w : World Store} {ls : List (Label Op)} {op : Op}
  {vault c : Address} {a o S n x : ℤ}

/-- The assets per share after a call are at least those before it, cross-multiplied. -/
def SharePriceKept (vault : Address) (s s' : Store) : Prop :=
  (s.underlying.balance vault + VIRTUAL_OFFSET) * (s'.supply + VIRTUAL_OFFSET) ≤
    (s'.underlying.balance vault + VIRTUAL_OFFSET) * (s.supply + VIRTUAL_OFFSET)

/-- Shares minted at the price before, rounded down, leave it at least where it was. -/
theorem price_enter (ha : 0 < a + o) :
    (a + o) * (S + x * (S + o) / (a + o) + o) ≤ (a + x + o) * (S + o) := by
  have hfloor := Int.ediv_mul_le (x * (S + o)) ha.ne'
  linarith

/-- So does a payout at the price before, rounded down. -/
theorem price_leave (hS : 0 < S + o) :
    (a + o) * (S - n + o) ≤ (a - n * (a + o) / (S + o) + o) * (S + o) := by
  have hfloor := Int.ediv_mul_le (n * (a + o)) hS.ne'
  linarith

theorem sharePriceKept_deposit (hc : c ≠ env.self) {m : ℤ} (h : Runs (deposit c n) env s m s') :
    SharePriceKept env.self s s' := by
  obtain ⟨-, -, -, -, t, ht, hm, -, -, rfl⟩ := runs_deposit h
  obtain ⟨-, -, hb⟩ := Token.transferFrom_spec ht hc
  have hassets : t.balance env.self = s.underlying.balance env.self + n := by simp [hb]
  rw [hassets, add_sub_cancel_right] at hm
  obtain ⟨-, -, hnonneg, rfl⟩ := convertToShares_spec hm
  have hpos : 0 < s.underlying.balance env.self + VIRTUAL_OFFSET := by
    have := offset_pos
    omega
  change _ ≤ (t.balance env.self + VIRTUAL_OFFSET) * _
  rw [hassets]
  exact price_enter hpos

theorem sharePriceKept_pay {t : Token} {windows : Address → Option UserEmergencyState}
    (hc : c ≠ env.self) (hx : convertToAssets n s.supply (s.underlying.balance env.self) = some x)
    (ht : s.underlying.transfer env.self c x = some t) :
    SharePriceKept env.self s { settle t (debit c n s) with userEmergencyState := windows } := by
  obtain ⟨-, -, hb⟩ := Token.transfer_spec ht hc.symm
  have hassets : t.balance env.self = s.underlying.balance env.self - x := by
    rw [hb, Function.update_of_ne hc.symm, Function.update_self]
  obtain ⟨-, hnonneg, -, rfl⟩ := convertToAssets_spec hx
  have hpos : 0 < s.supply + VIRTUAL_OFFSET := by
    have := offset_pos
    omega
  change _ ≤ (t.balance env.self + VIRTUAL_OFFSET) * _
  rw [hassets]
  exact price_leave hpos

/-- Fewer shares over the same assets, or more assets behind the same shares. -/
theorem sharePriceKept_of_le (hassets : s.underlying.balance vault ≤ s'.underlying.balance vault)
    (hsupply : s'.supply ≤ s.supply) (hS : 0 ≤ s.supply) : SharePriceKept vault s s' := by
  have hoffset := offset_pos
  have hnonneg := s.underlying.balance_nonneg vault
  calc (s.underlying.balance vault + VIRTUAL_OFFSET) * (s'.supply + VIRTUAL_OFFSET)
      ≤ (s.underlying.balance vault + VIRTUAL_OFFSET) * (s.supply + VIRTUAL_OFFSET) :=
        mul_le_mul_of_nonneg_left (by omega) (by omega)
    _ ≤ (s'.underlying.balance vault + VIRTUAL_OFFSET) * (s.supply + VIRTUAL_OFFSET) :=
        mul_le_mul_of_nonneg_right (by omega) (by omega)

/-- The exchanges between shares and assets at the share price, and what only adds to the price:
with the cooldown off, and a withdrawal one that takes shares. -/
def Op.Trades (s : Store) : Op → Prop
  | .deposit _ _ | .burn _ _ | .burnFrom _ _ _ | .distributeRewards _ _ => True
  | .withdraw _ n => n ≠ 0 ∧ (readCooldownConfig s).enabled = false
  | _ => False

/-- Of the exchanges, a deposit is the one whose price its effect does not tell. -/
theorem effect_price (hv : ∀ c, env.Authorized c → c ≠ env.self) (hS : 0 ≤ s.supply)
    (hop : op.Trades s) (hne : ∀ c n, op ≠ .deposit c n) (h : Effect env s op s') :
    SharePriceKept env.self s s' := by
  cases h with
  | enter c n m t hop' hl ha hn hm ht hr =>
    obtain rfl | rfl := hop'
    · exact hop.elim
    · exact absurd rfl (hne c n)
  | unwrap c n x t hop' hl ha hfree hn hb hx hpos ht =>
    subst hop'
    exact hop.elim
  | enqueue c n x windows hop' hl ha hfree hn hb hq hx hpos hcap he =>
    subst hop'
    exact absurd (hop.2.symm.trans he) (by decide)
  | pay c n x windows t hop' hl ha hfree hn hb hq hx hpos hcap he ht =>
    exact sharePriceKept_pay (hv c ha) hx ht
  | claim c q t hop' hl ha hq hr ht =>
    obtain rfl | rfl := hop'
    · exact hop.elim
    · exact absurd rfl hop.1
  | move src dst n allowance expiry hop' hn hb =>
    obtain rfl | ⟨spender, rfl⟩ := hop'
    · exact hop.elim
    · exact hop.elim
  | destroy c n allowance expiry hop' hn hb =>
    refine sharePriceKept_of_le le_rfl ?_ hS
    change s.supply - n ≤ s.supply
    omega
  | aside _ hop' hsame haside hfund => exact sharePriceKept_of_le hfund haside.supply.le hS

theorem trades_price (hv : ∀ c, env.Authorized c → c ≠ env.self) (hS : 0 ≤ s.supply)
    (hop : op.Trades s) (h : Runs (exec op) env s () s') : SharePriceKept env.self s s' := by
  by_cases hd : ∃ c n, op = .deposit c n
  · obtain ⟨c, n, rfl⟩ := hd
    simp only [exec, runs_bind, runs_pure] at h
    obtain ⟨m, t, h, -, rfl⟩ := h
    obtain ⟨-, ha, -⟩ := runs_deposit h
    exact sharePriceKept_deposit (hv c ha) h
  · exact effect_price hv hS hop (fun c n he => hd ⟨c, n, he⟩) (exec_effect hv h)

/-- In every reachable state, whoever trades at the share price leaves it at least where it was. -/
theorem share_price_never_falls {signers : List Address} {uploaded : List BytesN32}
    (h : Deployed w) (ls : List (Label Op)) (hop : op.Trades (w.run exec ls).store)
    (hr : Runs (exec op) ((w.run exec ls).env signers uploaded) (w.run exec ls).store () s') :
    SharePriceKept w.self (w.run exec ls).store s' := by
  have hready := ready_run h ls
  have hkept := trades_price World.authorized_ne_self hready.balanced.supply_nonneg hop hr
  rwa [World.env_self, World.run_self] at hkept

/-- One of two holders leaves after a reward, the cooldown off. -/
def rewardedVault : List (Label Op) :=
  fundedDeposit ⟨2⟩ 1000000000 ++ fundedDeposit ⟨3⟩ 1000000000 ++
    [.call [] [] (.underlyingMint ⟨4⟩ 500000000),
     .call [⟨4⟩] [] (.underlyingApprove ⟨4⟩ ⟨100⟩ 500000000),
     .call [⟨4⟩] [] (.distributeRewards ⟨4⟩ 500000000)]

theorem rewardedVault_price :
    SharePriceKept ⟨100⟩ (genesis.run exec rewardedVault).store
      (genesis.run exec (rewardedVault ++ [.call [⟨2⟩] [] (.withdraw ⟨2⟩ 1000000000)])).store ∧
    (genesis.run exec (rewardedVault ++
      [.call [⟨2⟩] [] (.withdraw ⟨2⟩ 1000000000)])).store.supply = 1000000000 := by
  refine ⟨?_, by decide +kernel⟩
  simp only [World.run_append, World.run_cons, World.run_nil, World.next]
  have hruns : Runs (exec (.withdraw ⟨2⟩ 1000000000))
      ((genesis.run exec rewardedVault).env [⟨2⟩] []) (genesis.run exec rewardedVault).store ()
      (invoke (exec (.withdraw ⟨2⟩ 1000000000)) ((genesis.run exec rewardedVault).env [⟨2⟩] [])
        (genesis.run exec rewardedVault).store) := runs_invoke (by decide +kernel)
  have htrades : Op.Trades (genesis.run exec rewardedVault).store (.withdraw ⟨2⟩ 1000000000) :=
    ⟨by decide, by decide +kernel⟩
  have hkept := share_price_never_falls genesis_deployed rewardedVault htrades hruns
  have hself : genesis.self = ⟨100⟩ := rfl
  rwa [hself] at hkept

/-- A withdrawal is queued while the cooldown is on, and the cooldown switched off again. -/
def queuedThenOff : List (Label Op) :=
  cooldownOn ++ [.call [⟨2⟩] [] (.withdraw ⟨2⟩ 500000000),
    .call [⟨1⟩] [] (.setCooldownConfig ⟨1⟩ ⟨false, 0, 0, 0⟩)]

/-- A withdrawal of zero shares collects it then: assets leave, and no share is burned for them. -/
theorem zeroWithdraw_lowers_price :
    (readCooldownConfig (genesis.run exec queuedThenOff).store).enabled = false ∧
    (exec (.withdraw ⟨2⟩ 0) ((genesis.run exec queuedThenOff).env [⟨2⟩] [])
      (genesis.run exec queuedThenOff).store).isOk = true ∧
    ¬ SharePriceKept ⟨100⟩ (genesis.run exec queuedThenOff).store
      (genesis.run exec (queuedThenOff ++ [.call [⟨2⟩] [] (.withdraw ⟨2⟩ 0)])).store := by
  refine ⟨by decide +kernel, by decide +kernel, ?_⟩
  unfold SharePriceKept
  decide +kernel

end BcForge.Wrapper
