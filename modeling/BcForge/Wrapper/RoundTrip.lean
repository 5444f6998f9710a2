import BcForge.Wrapper.Solvency

/-! A user's own way into the vault and out again: two entry prices, two exit prices. -/
namespace BcForge.Wrapper

open Soroban Call Admin

/-- The flat rate is `flatOut` units of the underlying token for `flatIn` shares. -/
def flatIn (s : Store) : ℤ :=
  10 ^ (wrapperDecimals s - s.underlying.decimals) * SCALING_FACTOR

def flatOut (s : Store) : ℤ :=
  flatRate s * 10 ^ (s.underlying.decimals - wrapperDecimals s)

/-- Assets and shares with the virtual offset: the two sides of the share price. -/
def pricedAssets (w : World Store) : ℤ := w.store.underlying.balance w.self + VIRTUAL_OFFSET

def pricedShares (w : World Store) : ℤ := w.store.supply + VIRTUAL_OFFSET

/-- A wrap, deposit, unwrap or withdraw by `u`. -/
def Own (u : Address) : Label Op → Prop
  | .call _ _ (.wrap c _) => c = u
  | .call _ _ (.deposit c _) => c = u
  | .call _ _ (.unwrap c _) => c = u
  | .call _ _ (.withdraw c _) => c = u
  | .call _ _ _ => False
  | .close _ => True

/-- Both ways at the flat rate. -/
def Flat : Label Op → Prop
  | .call _ _ (.deposit _ _) => False
  | .call _ _ (.withdraw _ _) => False
  | _ => True

/-- A flat-rate call is made on terms no better than the share price: shares are not sold below
it and not bought back above it. -/
def Fair (w : World Store) : Label Op → Prop
  | .call _ _ (.wrap _ _) => flatIn w.store * pricedAssets w ≤ flatOut w.store * pricedShares w
  | .call _ _ (.unwrap _ _) => flatOut w.store * pricedShares w ≤ flatIn w.store * pricedAssets w
  | _ => True

/-- Between two moments at which `u` holds no shares, the calls are all at the flat rate or all
fair. -/
inductive OnePrice (u : Address) : World Store → List (Label Op) → Prop
  | last {w : World Store} {ls : List (Label Op)}
      (h : w.EveryStep exec (fun _ => Flat) ls ∨ w.EveryStep exec Fair ls) : OnePrice u w ls
  | back {w : World Store} {ls ls' : List (Label Op)}
      (h : w.EveryStep exec (fun _ => Flat) ls ∨ w.EveryStep exec Fair ls)
      (hz : (w.run exec ls).store.balance u = 0) (hr : OnePrice u (w.run exec ls) ls') :
      OnePrice u w (ls ++ ls')

/-- `u` pays `x` into the vault for `n` shares; both are negative on the way out. -/
structure Trade (vault u : Address) (x n : ℤ) (s s' : Store) : Prop where
  shares : s'.balance u = s.balance u + n
  supply : s'.supply = s.supply + n
  paid : s'.underlying.balance u = s.underlying.balance u - x
  held : s'.underlying.balance vault = s.underlying.balance vault + x
  queue : s'.queuedWithdrawal = s.queuedWithdrawal
  cooldown : s'.cooldownConfig = s.cooldownConfig
  state : s'.vaultState = s.vaultState
  decimals : s'.decimals = s.decimals
  scale : s'.underlying.decimals = s.underlying.decimals

variable {env : Env} {s s' : Store} {t : Token} {w w₀ : World Store} {l : Label Op}
  {ls : List (Label Op)} {u : Address} {x n : ℤ}

theorem flatIn_pos (s : Store) : 0 < flatIn s :=
  mul_pos (by positivity) (by decide)

/-- Neither flat-rate conversion rounds in the user's favour. -/
theorem calcSharesForAssets_le (h : calcSharesForAssets s s.underlying.decimals x = some n) :
    n * flatOut s ≤ x * flatIn s := by
  obtain ⟨-, rfl⟩ := calcSharesForAssets_spec h
  have hs := Int.ediv_mul_le (x * 10 ^ (wrapperDecimals s - s.underlying.decimals))
    (show (10 : ℤ) ^ (s.underlying.decimals - wrapperDecimals s) ≠ 0 by positivity)
  generalize x * 10 ^ (wrapperDecimals s - s.underlying.decimals) /
    10 ^ (s.underlying.decimals - wrapperDecimals s) = scaled at hs ⊢
  have hr := Int.ediv_mul_le (scaled * SCALING_FACTOR) (flatRate_pos s).ne'
  have hk : (0 : ℤ) ≤ 10 ^ (s.underlying.decimals - wrapperDecimals s) := by positivity
  have hf : (0 : ℤ) ≤ SCALING_FACTOR := by decide
  calc scaled * SCALING_FACTOR / flatRate s * flatOut s
      = scaled * SCALING_FACTOR / flatRate s * flatRate s *
          10 ^ (s.underlying.decimals - wrapperDecimals s) := by rw [flatOut, mul_assoc]
    _ ≤ scaled * SCALING_FACTOR * 10 ^ (s.underlying.decimals - wrapperDecimals s) :=
        mul_le_mul_of_nonneg_right hr hk
    _ = scaled * 10 ^ (s.underlying.decimals - wrapperDecimals s) * SCALING_FACTOR := by ring
    _ ≤ x * 10 ^ (wrapperDecimals s - s.underlying.decimals) * SCALING_FACTOR :=
        mul_le_mul_of_nonneg_right hs hf
    _ = x * flatIn s := by rw [flatIn, mul_assoc]

theorem calcAssetsForShares_le (h : calcAssetsForShares s s.underlying.decimals n = some x) :
    x * flatIn s ≤ n * flatOut s := by
  obtain ⟨-, rfl⟩ := calcAssetsForShares_spec h
  have hs := Int.ediv_mul_le (n * flatRate s) (show SCALING_FACTOR ≠ 0 by decide)
  generalize n * flatRate s / SCALING_FACTOR = scaled at hs ⊢
  have hr := Int.ediv_mul_le (scaled * 10 ^ (s.underlying.decimals - wrapperDecimals s))
    (show (10 : ℤ) ^ (wrapperDecimals s - s.underlying.decimals) ≠ 0 by positivity)
  have hk : (0 : ℤ) ≤ 10 ^ (s.underlying.decimals - wrapperDecimals s) := by positivity
  have hf : (0 : ℤ) ≤ SCALING_FACTOR := by decide
  calc scaled * 10 ^ (s.underlying.decimals - wrapperDecimals s) /
          10 ^ (wrapperDecimals s - s.underlying.decimals) * flatIn s
      = scaled * 10 ^ (s.underlying.decimals - wrapperDecimals s) /
          10 ^ (wrapperDecimals s - s.underlying.decimals) *
          10 ^ (wrapperDecimals s - s.underlying.decimals) * SCALING_FACTOR := by
        rw [flatIn, mul_assoc]
    _ ≤ scaled * 10 ^ (s.underlying.decimals - wrapperDecimals s) * SCALING_FACTOR :=
        mul_le_mul_of_nonneg_right hr hf
    _ = scaled * SCALING_FACTOR * 10 ^ (s.underlying.decimals - wrapperDecimals s) := by ring
    _ ≤ n * flatRate s * 10 ^ (s.underlying.decimals - wrapperDecimals s) :=
        mul_le_mul_of_nonneg_right hs hk
    _ = n * flatOut s := by rw [flatOut, mul_assoc]

section WrapUnwrap

variable {d : ℕ} {y : ℤ}

/-- The same vault over a token of `d` decimals, which is all the conversions read of the token. -/
def rescaled (d : ℕ) (s : Store) : Store :=
  { s with underlying := { s.underlying with decimals := d } }

theorem unwrapped_le (hn : calcSharesForAssets s d x = some n)
    (hy : calcAssetsForShares s d n = some y) : y ≤ x := by
  have hin : n * flatOut (rescaled d s) ≤ x * flatIn (rescaled d s) := calcSharesForAssets_le hn
  have hout : y * flatIn (rescaled d s) ≤ n * flatOut (rescaled d s) := calcAssetsForShares_le hy
  exact le_of_mul_le_mul_right (hout.trans hin) (flatIn_pos _)

/-- At one to one, decimals the wrapper adds on the way in are all taken off on the way out. -/
theorem unwrapped_eq (hv : s.vaultState = none) (hd : d ≤ wrapperDecimals s)
    (hn : calcSharesForAssets s d x = some n) (hy : calcAssetsForShares s d n = some y) :
    y = x := by
  have hrate : flatRate s = SCALING_FACTOR := by rw [flatRate, hv]
  have hscale : SCALING_FACTOR ≠ 0 := by decide
  have hpow : (10 : ℤ) ^ (wrapperDecimals s - d) ≠ 0 := by positivity
  obtain ⟨-, rfl⟩ := calcSharesForAssets_spec hn
  obtain ⟨-, rfl⟩ := calcAssetsForShares_spec hy
  rw [hrate, Nat.sub_eq_zero_of_le hd, pow_zero, Int.ediv_one, mul_one,
    Int.mul_ediv_cancel _ hscale, Int.mul_ediv_cancel _ hscale, Int.mul_ediv_cancel _ hpow]

/-- Shares bought at the flat rate and sold back at it return no more than was paid, whatever the
decimals and the rate; without a rate, and with no decimals lost, exactly what was paid. -/
theorem wrap_unwrap_no_gain (hn : calcSharesForAssets s d x = some n)
    (hy : calcAssetsForShares s d n = some y) :
    y ≤ x ∧ (s.vaultState = none → d ≤ wrapperDecimals s → y = x) :=
  ⟨unwrapped_le hn hy, fun hv hd => unwrapped_eq hv hd hn hy⟩

/-- One decimal fewer than the underlying token, and one and a half units for a share. -/
def atSixDecimals : Store :=
  { genesis.store with decimals := some 6, vaultState := some ⟨0, ⟨1⟩, 0, 0, 15000000, 0, 0⟩ }

theorem atSixDecimals_no_gain :
    ∃ n y, calcSharesForAssets atSixDecimals 7 1999 = some n ∧
      calcAssetsForShares atSixDecimals 7 n = some y ∧ y ≤ 1999 := by
  have hn : calcSharesForAssets atSixDecimals 7 1999 = some 132 := by decide +kernel
  have hy : calcAssetsForShares atSixDecimals 7 132 = some 1980 := by decide +kernel
  exact ⟨132, 1980, hn, hy, (wrap_unwrap_no_gain hn hy).1⟩

end WrapUnwrap

theorem trade_enter (hne : u ≠ env.self)
    (ht : s.underlying.transferFrom env.self u env.self x = some t) :
    Trade env.self u x n s (settle t (credit u n s)) := by
  obtain ⟨-, hd, hb⟩ := Token.transferFrom_spec ht hne
  refine ⟨Function.update_self .., rfl, ?_, ?_, rfl, rfl, rfl, rfl, hd⟩
  · simp [settle, hb, Function.update_of_ne hne]
  · simp [settle, hb]

theorem trade_leave (hne : u ≠ env.self) (ht : s.underlying.transfer env.self u x = some t) :
    Trade env.self u (-x) (-n) s (settle t (debit u n s)) := by
  obtain ⟨-, hd, hb⟩ := Token.transfer_spec ht hne.symm
  refine ⟨?_, rfl, ?_, ?_, rfl, rfl, rfl, rfl, hd⟩
  · exact Function.update_self ..
  · simp [settle, hb]
  · simp [settle, hb, Function.update_of_ne hne.symm, sub_eq_add_neg]

theorem pricedShares_pos (hw : Ready w) : 0 < pricedShares w := by
  have h := hw.balanced.supply_nonneg
  have ho := offset_pos
  change 0 < w.store.book.supply + VIRTUAL_OFFSET
  omega

/-- A flat-rate trade on the right side of the share price is also within the share price. -/
theorem share_priced_of_flat {fi fo a b : ℤ} (hfi : 0 < fi) (hb : 0 ≤ b) (hflat : n * fo ≤ x * fi)
    (hside : (0 ≤ n ∧ fi * a ≤ fo * b) ∨ (n ≤ 0 ∧ fo * b ≤ fi * a)) : n * a ≤ x * b := by
  have hn : n * (fi * a) ≤ n * (fo * b) := by
    rcases hside with ⟨hn, h⟩ | ⟨hn, h⟩
    · exact mul_le_mul_of_nonneg_left h hn
    · exact mul_le_mul_of_nonpos_left h hn
  refine le_of_mul_le_mul_left ?_ hfi
  calc fi * (n * a) = n * (fi * a) := by ring
    _ ≤ n * (fo * b) := hn
    _ = n * fo * b := by ring
    _ ≤ x * fi * b := mul_le_mul_of_nonneg_right hflat hb
    _ = fi * (x * b) := by ring

/-- A successful call of `u` trades at its own price. -/
def Trades (w : World Store) (u : Address) (l : Label Op) (s' : Store) : Prop :=
  ∃ x n, Trade w.self u x n w.store s' ∧
    (Flat l → n * flatOut w.store ≤ x * flatIn w.store) ∧
    (Fair w l → n * pricedAssets w ≤ x * pricedShares w)

section Calls

variable {signers : List Address} {uploaded : List BytesN32}

theorem wrap_trades (hw : Ready w) (h : Runs (wrap u x) (w.env signers uploaded) w.store () s') :
    Trades w u (.call signers uploaded (.wrap u x)) s' := by
  obtain ⟨-, ha, -, -, t, n, ht, hn, hpos, -, rfl⟩ := runs_wrap h
  have hne := World.authorized_ne_self u ha
  obtain ⟨-, hd, -⟩ := Token.transferFrom_spec ht hne
  rw [hd] at hn
  have hflat := calcSharesForAssets_le hn
  refine ⟨x, n, trade_enter hne ht, fun _ => hflat, ?_⟩
  intro hfair
  exact share_priced_of_flat (flatIn_pos _) (pricedShares_pos hw).le hflat
    (Or.inl ⟨hpos.le, hfair⟩)

theorem unwrap_trades (hw : Ready w)
    (h : Runs (unwrap u n) (w.env signers uploaded) w.store () s') :
    Trades w u (.call signers uploaded (.unwrap u n)) s' := by
  obtain ⟨-, ha, -, -, hn, -, x, t, hx, -, ht, rfl⟩ := runs_unwrap h
  have hle := calcAssetsForShares_le hx
  have hflat : -n * flatOut w.store ≤ -x * flatIn w.store := by
    rw [neg_mul, neg_mul]
    exact neg_le_neg hle
  refine ⟨-x, -n, trade_leave (World.authorized_ne_self u ha) ht, fun _ => hflat, ?_⟩
  intro hfair
  exact share_priced_of_flat (flatIn_pos _) (pricedShares_pos hw).le hflat
    (Or.inr ⟨by omega, hfair⟩)

theorem deposit_trades (h : Runs (deposit u x) (w.env signers uploaded) w.store n s') :
    Trades w u (.call signers uploaded (.deposit u x)) s' := by
  obtain ⟨-, ha, -, -, t, ht, hn, -, -, rfl⟩ := runs_deposit h
  have hne := World.authorized_ne_self u ha
  have htrade : Trade w.self u x n w.store _ := trade_enter hne ht
  have hheld : t.balance w.self - x = w.store.underlying.balance w.self := by
    have := htrade.held
    change t.balance w.self = _ at this
    omega
  rw [World.env_self, hheld] at hn
  obtain ⟨-, -, hbal, rfl⟩ := convertToShares_spec hn
  refine ⟨x, _, htrade, False.elim, fun _ => ?_⟩
  have ho := offset_pos
  exact Int.ediv_mul_le _ (show w.store.underlying.balance w.self + VIRTUAL_OFFSET ≠ 0 by omega)

theorem withdraw_trades (hq : w.store.queuedWithdrawal u = none)
    (hc : (readCooldownConfig w.store).enabled = false) {m : ℤ}
    (h : Runs (withdraw u n) (w.env signers uploaded) w.store m s') :
    Trades w u (.call signers uploaded (.withdraw u n)) s' := by
  obtain ⟨-, ha, ⟨-, hclaim⟩ | ⟨hn, -, hexit⟩⟩ := runs_withdraw h
  · obtain ⟨-, -, -, q, hq', -⟩ := runs_claimWithdrawal.mp hclaim
    rw [hq] at hq'
    cases hq'
  · obtain ⟨-, -, -, x, windows, hx, -, -, ⟨he, -⟩ | ⟨-, -, t, ht, rfl⟩⟩ :=
      runs_withdrawShares hexit
    · rw [hc] at he
      cases he
    · have htrade := trade_leave (n := n) (World.authorized_ne_self u ha) ht
      obtain ⟨-, hs, -, rfl⟩ := convertToAssets_spec hx
      refine ⟨_, -n, ⟨htrade.shares, htrade.supply, htrade.paid, htrade.held, htrade.queue,
        htrade.cooldown, htrade.state, htrade.decimals, htrade.scale⟩, False.elim, fun _ => ?_⟩
      have ho := offset_pos
      have hle := Int.ediv_mul_le (n * (w.store.underlying.balance w.self + VIRTUAL_OFFSET))
        (show w.store.supply + VIRTUAL_OFFSET ≠ 0 by omega)
      rw [neg_mul, neg_mul]
      exact neg_le_neg hle

end Calls

/-- What the calls of `u` alone keep: the prices' parameters, the assets of `u` and the vault
together, and the shares of everyone else. -/
structure Since (u : Address) (w₀ w : World Store) : Prop where
  ready : Ready w
  queue : w.store.queuedWithdrawal u = none
  cooldown : (readCooldownConfig w.store).enabled = false
  rate_in : flatIn w.store = flatIn w₀.store
  rate_out : flatOut w.store = flatOut w₀.store
  assets : w.store.underlying.balance u + pricedAssets w =
    w₀.store.underlying.balance u + pricedAssets w₀
  shares : pricedShares w - w.store.balance u = pricedShares w₀ - w₀.store.balance u

/-- A step that leaves the store alone is a trade of nothing for nothing. -/
theorem trades_nothing (hs : s' = w.store) : Trades w u l s' := by
  subst hs
  exact ⟨0, 0, ⟨by simp, by simp, by simp, by simp, rfl, rfl, rfl, rfl, rfl⟩, fun _ => by simp,
    fun _ => by simp⟩

theorem own_next (hs : Since u w₀ w) (hown : Own u l) : Trades w u l (w.next exec l).store := by
  cases l with
  | close next =>
    apply trades_nothing
    rw [World.next_close_store]
  | call signers uploaded op =>
    rcases World.call_cases exec w signers uploaded op with hr | ⟨-, hs⟩
    · generalize (w.next exec (.call signers uploaded op)).store = s' at hr ⊢
      cases op with
      | wrap c x =>
        obtain rfl : c = u := hown
        exact wrap_trades hs.ready hr
      | deposit c x =>
        obtain rfl : c = u := hown
        simp only [exec, runs_bind, runs_pure] at hr
        obtain ⟨n, s₁, hr, -, rfl⟩ := hr
        exact deposit_trades hr
      | unwrap c n =>
        obtain rfl : c = u := hown
        exact unwrap_trades hs.ready hr
      | withdraw c n =>
        obtain rfl : c = u := hown
        simp only [exec, runs_bind, runs_pure] at hr
        obtain ⟨m, s₁, hr, -, rfl⟩ := hr
        exact withdraw_trades hs.queue hs.cooldown hr
      | _ => exact hown.elim
    · exact trades_nothing (congrArg World.store hs)

theorem trade_since (hs : Since u w₀ w) (ht : Trade w.self u x n w.store (w.next exec l).store) :
    Since u w₀ (w.next exec l) := by
  have hself : (w.next exec l).self = w.self := World.next_self
  refine ⟨ready_next hs.ready, ?_, ?_, ?_, ?_, ?_, ?_⟩
  · rw [ht.queue, hs.queue]
  · have := hs.cooldown
    rwa [readCooldownConfig, ht.cooldown]
  · rw [flatIn, wrapperDecimals, ht.decimals, ht.scale]
    exact hs.rate_in
  · rw [flatOut, flatRate, wrapperDecimals, ht.decimals, ht.scale, ht.state]
    exact hs.rate_out
  · rw [pricedAssets, hself, ht.paid, ht.held, ← hs.assets, pricedAssets]
    ring
  · rw [pricedShares, ht.supply, ht.shares, ← hs.shares, pricedShares]
    ring

/-- The share price is at least the one at the start. -/
def PriceKept (w₀ w : World Store) : Prop :=
  pricedAssets w₀ * pricedShares w ≤ pricedAssets w * pricedShares w₀

/-- At the flat rate, `u` is worth at most what it was at the start. -/
def WorthKept (u : Address) (w₀ w : World Store) : Prop :=
  w.store.underlying.balance u * flatIn w.store + w.store.balance u * flatOut w.store ≤
    w₀.store.underlying.balance u * flatIn w₀.store + w₀.store.balance u * flatOut w₀.store

theorem fair_next (h₀ : Ready w₀) (h : Since u w₀ w ∧ PriceKept w₀ w) (hown : Own u l)
    (hfair : Fair w l) : Since u w₀ (w.next exec l) ∧ PriceKept w₀ (w.next exec l) := by
  obtain ⟨hs, hp⟩ := h
  obtain ⟨x, n, ht, -, hshare⟩ := own_next hs hown
  refine ⟨trade_since hs ht, ?_⟩
  have ha : pricedAssets (w.next exec l) = pricedAssets w + x := by
    rw [pricedAssets, World.next_self, ht.held, pricedAssets]
    ring
  have hb : pricedShares (w.next exec l) = pricedShares w + n := by
    rw [pricedShares, ht.supply, pricedShares]
    ring
  have hstep : pricedAssets w * pricedShares (w.next exec l) ≤
      pricedAssets (w.next exec l) * pricedShares w := by
    have := hshare hfair
    rw [ha, hb]
    linarith
  have hpos' := pricedShares_pos (ready_next hs.ready (l := l))
  -- prices are fractions: chain the two bounds over the price in between
  refine le_of_mul_le_mul_left ?_ (pricedShares_pos hs.ready)
  calc pricedShares w * (pricedAssets w₀ * pricedShares (w.next exec l))
      = pricedAssets w₀ * pricedShares w * pricedShares (w.next exec l) := by ring
    _ ≤ pricedAssets w * pricedShares w₀ * pricedShares (w.next exec l) :=
        mul_le_mul_of_nonneg_right hp hpos'.le
    _ = pricedAssets w * pricedShares (w.next exec l) * pricedShares w₀ := by ring
    _ ≤ pricedAssets (w.next exec l) * pricedShares w * pricedShares w₀ :=
        mul_le_mul_of_nonneg_right hstep (pricedShares_pos h₀).le
    _ = pricedShares w * (pricedAssets (w.next exec l) * pricedShares w₀) := by ring

theorem flat_next (h : Since u w₀ w ∧ WorthKept u w₀ w) (hown : Own u l) (hflat : Flat l) :
    Since u w₀ (w.next exec l) ∧ WorthKept u w₀ (w.next exec l) := by
  obtain ⟨hs, hp⟩ := h
  obtain ⟨x, n, ht, hrate, -⟩ := own_next hs hown
  have hs' := trade_since hs ht
  refine ⟨hs', ?_⟩
  unfold WorthKept at hp ⊢
  rw [hs'.rate_in, hs'.rate_out, ht.paid, ht.shares, ← hs.rate_in, ← hs.rate_out]
  rw [← hs.rate_in, ← hs.rate_out] at hp
  have hstep := hrate hflat
  linarith

/-- Where `u` starts: in a state of some run, with the cooldown off and nothing queued. -/
structure Start (u : Address) (w : World Store) : Prop where
  ready : Ready w
  queue : w.store.queuedWithdrawal u = none
  cooldown : (readCooldownConfig w.store).enabled = false

theorem Start.since (h : Start u w) : Since u w w :=
  ⟨h.ready, h.queue, h.cooldown, rfl, rfl, rfl, rfl⟩

theorem Since.start (h : Since u w₀ w) : Start u w := ⟨h.ready, h.queue, h.cooldown⟩

/-- One segment from no shares to no shares. -/
theorem segment_no_gain (hw : Start u w) (hz : w.store.balance u = 0)
    (hown : ∀ l ∈ ls, Own u l)
    (hprice : w.EveryStep exec (fun _ => Flat) ls ∨ w.EveryStep exec Fair ls) :
    Start u (w.run exec ls) ∧ ((w.run exec ls).store.balance u = 0 →
      (w.run exec ls).store.underlying.balance u ≤ w.store.underlying.balance u) := by
  rcases hprice with hflat | hfair
  · obtain ⟨hs, hworth⟩ := (World.everyState_of_everyStep (P := fun v => Since u w v ∧ WorthKept u w v)
      ⟨hw.since, le_rfl⟩ (fun v l h hc => flat_next h hc.2 hc.1)
      (World.everyStep_and_forall hflat hown)).run
    refine ⟨hs.start, fun hend => ?_⟩
    unfold WorthKept at hworth
    rw [hs.rate_in, hend, hz, zero_mul, zero_mul, add_zero, add_zero] at hworth
    exact le_of_mul_le_mul_right hworth (flatIn_pos _)
  · obtain ⟨hs, hkept⟩ := (World.everyState_of_everyStep (P := fun v => Since u w v ∧ PriceKept w v)
      ⟨hw.since, le_rfl⟩ (fun v l h hc => fair_next hw.ready h hc.2 hc.1)
      (World.everyStep_and_forall hfair hown)).run
    refine ⟨hs.start, fun hend => ?_⟩
    have hshares := hs.shares
    rw [hend, hz, sub_zero, sub_zero] at hshares
    unfold PriceKept at hkept
    rw [hshares] at hkept
    have hassets := le_of_mul_le_mul_right hkept (pricedShares_pos hw.ready)
    have hsum := hs.assets
    omega

theorem Ready.reachable (h : Deployed w₀) : Ready (w₀.run exec ls) :=
  World.run_induction (ready_deployed h) fun _ _ => ready_next

/-- A round trip at one price returns no more than it took in. -/
theorem round_trip_no_gain {history : List (Label Op)} (h : Deployed w₀)
    (hw : w = w₀.run exec history)
    (hc : (readCooldownConfig w.store).enabled = false) (hz : w.store.balance u = 0)
    (hown : ∀ l ∈ ls, Own u l) (hend : (w.run exec ls).store.balance u = 0)
    (hq : w.store.queuedWithdrawal u = none) (hprice : OnePrice u w ls) :
    (w.run exec ls).store.underlying.balance u ≤ w.store.underlying.balance u := by
  have hstart : Start u w := ⟨hw ▸ Ready.reachable h, hq, hc⟩
  clear hw hq hc
  induction hprice with
  | last hseg => exact (segment_no_gain hstart hz hown hseg).2 hend
  | @back w ls ls' hseg hmid _ ih =>
    obtain ⟨hnext, hgain⟩ := segment_no_gain hstart hz (fun l hl => hown l (by simp [hl])) hseg
    rw [World.run_append] at hend ⊢
    exact (ih hmid (fun l hl => hown l (by simp [hl])) hend hnext).trans (hgain hmid)

/-- Account 2 has deposited, a donation has doubled the share price, and account 3 comes with
assets of its own. -/
def donated : World Store := genesis.run exec (fundedDeposit ⟨2⟩ 1000000000 ++
  [.call [] [] (.underlyingMint ⟨100⟩ 1000000000),
   .call [] [] (.underlyingMint ⟨3⟩ 1000000000),
   .call [⟨3⟩] [] (.underlyingApprove ⟨3⟩ ⟨100⟩ 2000000000)])

/-- Once at the flat rate, then once at the share price. -/
def twoTrips : List (Label Op) :=
  [.call [⟨3⟩] [] (.wrap ⟨3⟩ 1000000000), .call [⟨3⟩] [] (.unwrap ⟨3⟩ 1000000000)] ++
  [.call [⟨3⟩] [] (.deposit ⟨3⟩ 1000000000), .call [⟨3⟩] [] (.withdraw ⟨3⟩ 502487562)]

theorem twoTrips_no_gain :
    (donated.run exec twoTrips).store.underlying.balance ⟨3⟩ ≤
      donated.store.underlying.balance ⟨3⟩ ∧
    (donated.run exec twoTrips).store.underlying.balance ⟨3⟩ = 999999999 := by
  refine ⟨round_trip_no_gain genesis_deployed rfl (by decide +kernel) (by decide +kernel) ?_ (by decide +kernel) (by decide +kernel)
    ?_, by decide +kernel⟩
  · simp [twoTrips, Own]
  · exact .back (Or.inl ⟨trivial, trivial, trivial⟩) (by decide +kernel)
      (.last (Or.inr ⟨trivial, trivial, trivial⟩))

/-- In at the flat rate, out at the share price. -/
def wrapThenWithdraw : List (Label Op) :=
  [.call [⟨3⟩] [] (.wrap ⟨3⟩ 1000000000), .call [⟨3⟩] [] (.withdraw ⟨3⟩ 1000000000)]

theorem wrapThenWithdraw_gains :
    Deployed genesis ∧ (readCooldownConfig donated.store).enabled = false ∧
    donated.store.paused = false ∧ donated.store.balance ⟨3⟩ = 0 ∧
    (∀ l ∈ wrapThenWithdraw, Own ⟨3⟩ l) ∧
    (donated.run exec wrapThenWithdraw).store.balance ⟨3⟩ = 0 ∧
    ¬ (donated.run exec wrapThenWithdraw).store.underlying.balance ⟨3⟩ ≤
      donated.store.underlying.balance ⟨3⟩ :=
  ⟨genesis_deployed, by decide +kernel, by decide +kernel, by decide +kernel, by simp [wrapThenWithdraw, Own], by decide +kernel,
    by decide +kernel⟩

end BcForge.Wrapper
