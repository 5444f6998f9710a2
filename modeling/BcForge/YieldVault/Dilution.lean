import BcForge.YieldVault.Solvency

/-! What backs a share, across deposits and exits that are paid at once. -/
namespace BcForge.YieldVault

open Soroban Call Wrapper

variable {env : Env} {s s' : Store} {w : World Store} {c : Address} {n m x a t : ℤ}

/-- No share is backed by less than before: assets over supply, multiplied out. -/
def Undiluted (vault : Address) (s s' : Store) : Prop :=
  s.underlying.balance vault * s'.supply ≤ s'.underlying.balance vault * s.supply

instance (vault : Address) (s s' : Store) : Decidable (Undiluted vault s s') :=
  inferInstanceAs (Decidable (_ ≤ _))

/-- What the assets were before is read off what they are afterwards; without any, and with shares
outstanding, the deposit is taken one to one. -/
theorem sharesFor_le (hs : 0 < s.supply) (ha : 0 ≤ a) (hmax : a ≤ I128.MAX) (hn : 0 < n)
    (h : sharesFor n s.supply (a + n) = some x) : a * x ≤ n * s.supply := by
  have hrange : I128.InRange a := I128.inRange_of_le ha hmax ⟨by decide, le_rfl⟩
  have hbefore : (I128.checkedSub (a + n) n).getD 0 = a := by
    simp [I128.checkedSub, I128.checked, hrange]
  rw [sharesFor, if_neg hs.ne'] at h
  simp only [hbefore] at h
  split at h
  · rename_i hempty
    obtain rfl : a = 0 := le_antisymm hempty ha
    rw [zero_mul]
    exact (mul_pos hn hs).le
  · obtain ⟨hpos, rfl⟩ := mulDiv_spec h hn.le hs.le ha
    calc a * (n * s.supply / a) = n * s.supply / a * a := mul_comm _ _
      _ ≤ n * s.supply := Int.ediv_mul_le _ hpos.ne'

theorem deposit_undiluted (hv : ∀ c, env.Authorized c → c ≠ env.self) (hs : 0 < s.supply)
    (h : Runs (deposit c n m) env s x s') : Undiluted env.self s s' ∧ m ≤ x := by
  obtain ⟨hc, hn, r, t, ht, hshares, -, hmin, rfl⟩ := deposit_cases h
  have hassets : t.balance env.self = s.underlying.balance env.self + n := by
    rw [(Token.transferFrom_spec ht (hv c hc)).2.2, Function.update_self]
  rw [hassets] at hshares
  have hle := sharesFor_le hs (s.underlying.balance_nonneg _) (s.underlying.balance_le _) hn hshares
  refine ⟨?_, hmin⟩
  calc s.underlying.balance env.self * (s.supply + x)
      = s.underlying.balance env.self * s.supply + s.underlying.balance env.self * x := mul_add ..
    _ ≤ s.underlying.balance env.self * s.supply + n * s.supply := by gcongr
    _ = t.balance env.self * s.supply := by rw [hassets, add_mul]

/-- An exit paid at once takes the floor of what its shares are worth. -/
theorem withdraw_undiluted (hv : ∀ c, env.Authorized c → c ≠ env.self) (hs : 0 < s.supply)
    (hn : n ≠ 0) (hoff : (readCooldownConfig s).enabled = false)
    (h : Runs (withdraw c n m) env s x s') :
    Undiluted env.self s s' ∧ x * s.supply ≤ n * s.underlying.balance env.self ∧
      n * s.underlying.balance env.self < (x + 1) * s.supply ∧ m ≤ x ∧
      s'.underlying.balance = Book.pay env.self c x s.underlying.balance := by
  obtain ⟨hc, ⟨hzero, -⟩ | ⟨hpos, -, h⟩⟩ := withdraw_cases h
  · exact absurd hzero hn
  obtain ⟨-, y, windows, hy, -, hmin, ⟨hon, -⟩ | ⟨-, rfl, t, ht, rfl⟩⟩ := withdrawShares_cases h
  · rw [hoff] at hon
    cases hon
  have hne : env.self ≠ c := (hv c hc).symm
  have hpaid : t.balance = Book.pay env.self c x s.underlying.balance :=
    (Token.transfer_spec ht hne).2.2
  have hassets : t.balance env.self = s.underlying.balance env.self - x := by
    rw [hpaid, Book.pay, Function.update_of_ne hne, Function.update_self]
  have hworth := (mulDiv_spec hy hpos.le (s.underlying.balance_nonneg _) hs.le).2
  have hlow : x * s.supply ≤ n * s.underlying.balance env.self := by
    rw [hworth]
    exact Int.ediv_mul_le _ hs.ne'
  have hhigh : n * s.underlying.balance env.self < (x + 1) * s.supply := by
    rw [hworth]
    exact Int.lt_ediv_add_one_mul_self _ hs
  refine ⟨?_, hlow, hhigh, hmin, hpaid⟩
  calc s.underlying.balance env.self * (s.supply - n)
      = s.underlying.balance env.self * s.supply - n * s.underlying.balance env.self := by ring
    _ ≤ s.underlying.balance env.self * s.supply - x * s.supply := by gcongr
    _ = t.balance env.self * s.supply := by rw [hassets, sub_mul]

/-- In whatever state there are shares: a deposit, or an exit of some shares with the cooldown off,
leaves the others with no less, and the caller gets at least what was asked for. -/
theorem never_dilutes {signers : List Address} {uploaded : List BytesN32}
    (hs : 0 < w.store.supply) :
    (∀ c n m x s', Runs (deposit c n m) (w.env signers uploaded) w.store x s' →
      Undiluted w.self w.store s' ∧ m ≤ x) ∧
    ∀ c n m t s', n ≠ 0 → (readCooldownConfig w.store).enabled = false →
      Runs (withdraw c n m) (w.env signers uploaded) w.store t s' →
      Undiluted w.self w.store s' ∧
        t * w.store.supply ≤ n * w.store.underlying.balance w.self ∧
        n * w.store.underlying.balance w.self < (t + 1) * w.store.supply ∧ m ≤ t ∧
        s'.underlying.balance = Book.pay w.self c t w.store.underlying.balance := by
  constructor
  · intro c n m x s' h
    exact deposit_undiluted World.authorized_ne_self hs h
  · intro c n m t s' hn hoff h
    exact withdraw_undiluted World.authorized_ne_self hs hn hoff h

/-- A vault of 30 shares that was given 5 more since. -/
def donated : World Store :=
  genesis.run exec (fundedDeposit ⟨2⟩ 30 ++ [.call [] [] (.underlyingMint ⟨100⟩ 5)])

theorem donated_undiluted : ∃ s',
    Runs (withdraw ⟨2⟩ 10 11) (donated.env [⟨2⟩] []) donated.store 11 s' ∧
      Undiluted donated.self donated.store s' := by
  obtain ⟨s', h⟩ : ∃ s', Runs (withdraw ⟨2⟩ 10 11) (donated.env [⟨2⟩] []) donated.store 11 s' :=
    runs_of_value (by decide +kernel)
  have hs : 0 < donated.store.supply := by decide +kernel
  have hoff : (readCooldownConfig donated.store).enabled = false := by decide +kernel
  exact ⟨s', h, ((never_dilutes hs).2 _ _ _ _ _ (by decide) hoff h).1⟩

/-- Half of the shares are queued for their exit, and then the cooldown is switched off. -/
def cooldownOff : World Store :=
  genesis.run exec (cooldownOn ++ [.call [⟨2⟩] [] (.withdraw ⟨2⟩ 100 0),
    .call [⟨1⟩] [] (.setCooldownConfig ⟨1⟩ ⟨false, 0, 0, 0⟩)])

/-- A withdrawal of zero shares is the claim of a queued one: it pays for shares burnt before. -/
theorem withdraw_zero_pays : (readCooldownConfig cooldownOff.store).enabled = false ∧
    0 < cooldownOff.store.supply ∧
    ∃ s', Runs (withdraw ⟨2⟩ 0 0) (cooldownOff.env [⟨2⟩] []) cooldownOff.store 100 s' ∧
      ¬ Undiluted cooldownOff.self cooldownOff.store s' ∧
      ¬ 100 * cooldownOff.store.supply ≤
        0 * cooldownOff.store.underlying.balance cooldownOff.self := by
  refine ⟨by decide +kernel, by decide +kernel, ?_⟩
  obtain ⟨s', h⟩ : ∃ s',
      Runs (withdraw ⟨2⟩ 0 0) (cooldownOff.env [⟨2⟩] []) cooldownOff.store 100 s' :=
    runs_of_value (by decide +kernel)
  obtain rfl := invoke_of_runs h
  exact ⟨_, h, by decide +kernel, by decide +kernel⟩

end BcForge.YieldVault
