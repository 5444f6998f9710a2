import BcForge.Wrapper.RoundTrip
import BcForge.Wrapper.ProRata
import BcForge.Wrapper.Shares

/-! What the previews promise, at the flat rate, against what a deposit mints and a withdrawal
pays, at the share price. -/
namespace BcForge.Wrapper

open Soroban Call Admin I128

variable {env e : Env} {s s' : Store} {w : World Store} {l : Label Op} {ls : List (Label Op)}
  {c : Address} {a b d n m x y : ℤ} {scale : ℕ}
  {op : Op}

/-- `p / b` lies in the whole-number step in which `q / d` lies: it is above `q / d` by less than
what that lacks to the next whole number, and below it by no more than its fraction. -/
def WithinRounding (p b q d : ℤ) : Prop :=
  -(q % d * b) ≤ p * d - q * b ∧ p * d - q * b < (d - q % d) * b

theorem ediv_eq_ediv_iff {p q : ℤ} (hb : 0 < b) (hd : 0 < d) :
    p / b = q / d ↔ WithinRounding p b q d := by
  have hq : q * b = q / d * b * d + q % d * b := by
    conv_lhs => rw [← Int.mul_ediv_add_emod q d]
    ring
  have hlow : q / d * b ≤ p ↔ -(q % d * b) ≤ p * d - q * b := by
    rw [← mul_le_mul_iff_of_pos_right hd]
    constructor <;> intro h <;> omega
  have hnext : (q / d * b + b) * d = q / d * b * d + d * b := by ring
  have hhigh : p < q / d * b + b ↔ p * d - q * b < (d - q % d) * b := by
    rw [← mul_lt_mul_iff_of_pos_right hd, hnext, sub_mul]
    constructor <;> intro h <;> omega
  rw [Int.ediv_eq_iff_of_pos hb, hlow, hhigh, WithinRounding]

/-- Two fractions in one step differ by less than one. -/
theorem WithinRounding.gap_lt {p q : ℤ} (hb : 0 < b) (hd : 0 < d) (h : WithinRounding p b q d) :
    |p * d - q * b| < d * b := by
  obtain ⟨hlow, hhigh⟩ := h
  have hrem := mul_lt_mul_of_pos_right (Int.emod_lt_of_pos q hd) hb
  have hnonneg := mul_nonneg (Int.emod_nonneg q hd.ne') hb.le
  rw [sub_mul] at hhigh
  rw [abs_lt]
  omega

section Quotes

/-- `x` units of the underlying token in the wrapper's decimals. -/
def scaledIn (s : Store) (x : ℤ) : ℤ :=
  x * 10 ^ (wrapperDecimals s - s.underlying.decimals) /
    10 ^ (s.underlying.decimals - wrapperDecimals s)

/-- `n` shares at the exchange rate, still in the wrapper's decimals. -/
def ratedOut (s : Store) (n : ℤ) : ℤ := n * flatRate s / SCALING_FACTOR

theorem runs_previewDeposit : Runs (previewDeposit x) e s n s' ↔
    hasAdmin s.access = true ∧ s.underlyingToken.isSome = true ∧
      calcSharesForAssets s s.underlying.decimals x = some n ∧ s' = s := by
  simp only [previewDeposit, WrapperContract.convertToShares, TokenClient.decimals,
    runs_ensureInitialized_bind, runs_failIf_bind, runs_readUnderlying_bind, runs_gets_bind,
    runs_okOr, not_le, Option.isSome_iff_exists]
  constructor
  · rintro ⟨hi, -, token, ht, hn, rfl⟩
    exact ⟨hi, ⟨token, ht⟩, hn, rfl⟩
  · rintro ⟨hi, ⟨token, ht⟩, hn, rfl⟩
    exact ⟨hi, (calcSharesForAssets_spec hn).1, token, ht, hn, rfl⟩

theorem runs_previewWithdraw : Runs (previewWithdraw n) e s x s' ↔
    hasAdmin s.access = true ∧ s.underlyingToken.isSome = true ∧
      calcAssetsForShares s s.underlying.decimals n = some x ∧ s' = s := by
  simp only [previewWithdraw, WrapperContract.convertToAssets, TokenClient.decimals,
    runs_ensureInitialized_bind, runs_failIf_bind, runs_readUnderlying_bind, runs_gets_bind,
    runs_okOr, not_le, Option.isSome_iff_exists]
  constructor
  · rintro ⟨hi, -, token, ht, hx, rfl⟩
    exact ⟨hi, ⟨token, ht⟩, hx, rfl⟩
  · rintro ⟨hi, ⟨token, ht⟩, hx, rfl⟩
    exact ⟨hi, (calcAssetsForShares_spec hx).1, token, ht, hx, rfl⟩

/-- Without a rate nothing is multiplied, which comes to the same. -/
theorem mulDivDown_scale (hx : 0 ≤ x) (hr : InRange x) :
    mulDivDown x SCALING_FACTOR SCALING_FACTOR = some x := by
  have hscale : (0 : ℤ) < SCALING_FACTOR := by decide
  have hrem : x % SCALING_FACTOR * SCALING_FACTOR ≤ SCALING_FACTOR * SCALING_FACTOR :=
    mul_le_mul_of_nonneg_right (Int.emod_lt_of_pos x hscale).le hscale.le
  have hnonneg : 0 ≤ x % SCALING_FACTOR * SCALING_FACTOR :=
    mul_nonneg (Int.emod_nonneg x hscale.ne') hscale.le
  exact mulDivDown_eq_some.mpr ⟨hscale, hx, hscale.le, inRange_of_le hnonneg hrem (by decide), hr,
    (Int.mul_ediv_cancel x hscale.ne').symm⟩

theorem scaleDecimalsDown_inRange {i j : ℕ} (hx : InRange x)
    (h : scaleDecimalsDown x i j = some y) : 0 ≤ y ∧ InRange y := by
  obtain ⟨hnonneg, -, -, hr, rfl⟩ := (scaleDecimalsDown_eq_some hx).mp h
  have hprod : 0 ≤ x * 10 ^ (j - i) := mul_nonneg hnonneg (by positivity)
  have hquot := Int.ediv_nonneg hprod (show (0 : ℤ) ≤ 10 ^ (i - j) by positivity)
  exact ⟨hquot, inRange_of_le hquot (Int.ediv_le_self _ hprod) hr⟩

theorem calcSharesForAssets_rated (hx : InRange x) : calcSharesForAssets s scale x =
    if x ≤ 0 then none
    else (scaleDecimalsDown x scale (wrapperDecimals s)).bind
      (mulDivDown · SCALING_FACTOR (flatRate s)) := by
  unfold calcSharesForAssets flatRate
  split
  · rfl
  · cases hs : scaleDecimalsDown x scale (wrapperDecimals s) with
    | none => rfl
    | some y =>
      obtain ⟨hnonneg, hr⟩ := scaleDecimalsDown_inRange hx hs
      have hone := mulDivDown_scale hnonneg hr
      cases hv : s.vaultState with
      | none => simp [hone]
      | some state => by_cases hpos : 0 < state.exchangeRate <;> simp [hpos, hone]

theorem calcAssetsForShares_rated (hn : InRange n) : calcAssetsForShares s scale n =
    if n ≤ 0 then none
    else (mulDivDown n (flatRate s) SCALING_FACTOR).bind
      (scaleDecimalsDown · (wrapperDecimals s) scale) := by
  unfold calcAssetsForShares flatRate
  split
  · rfl
  · rename_i hpos
    have hone := mulDivDown_scale (by omega) hn
    cases hv : s.vaultState with
    | none => simp [hone]
    | some state => by_cases hrate : 0 < state.exchangeRate <;> simp [hrate, hone]

theorem calcSharesForAssets_eq_some (hx : InRange x) (hn : InRange n) :
    calcSharesForAssets s s.underlying.decimals x = some n ↔ 0 < x ∧
      InRange (10 ^ (wrapperDecimals s - s.underlying.decimals)) ∧
      InRange (10 ^ (s.underlying.decimals - wrapperDecimals s)) ∧
      InRange (x * 10 ^ (wrapperDecimals s - s.underlying.decimals)) ∧
      InRange (scaledIn s x % flatRate s * SCALING_FACTOR) ∧
      n = scaledIn s x * SCALING_FACTOR / flatRate s := by
  have hscale : (0 : ℤ) ≤ SCALING_FACTOR := by decide
  rw [calcSharesForAssets_rated hx]
  simp only [Option.ite_none_left_eq_some, not_le, Option.bind_eq_some_iff, mulDivDown_eq_some,
    scaleDecimalsDown_eq_some hx]
  refine and_congr_right fun hpos => ?_
  constructor
  · rintro ⟨_, ⟨-, hup, hdown, hprod, rfl⟩, -, -, -, hrem, -, hval⟩
    exact ⟨hup, hdown, hprod, hrem, hval⟩
  · rintro ⟨hup, hdown, hprod, hrem, hval⟩
    have hnonneg : 0 ≤ scaledIn s x :=
      Int.ediv_nonneg (mul_nonneg hpos.le (by positivity)) (by positivity)
    exact ⟨scaledIn s x, ⟨hpos.le, hup, hdown, hprod, rfl⟩, flatRate_pos s, hnonneg, hscale, hrem,
      hn, hval⟩

theorem calcAssetsForShares_eq_some (hn : InRange n) :
    calcAssetsForShares s s.underlying.decimals n = some x ↔ 0 < n ∧
      InRange (n % SCALING_FACTOR * flatRate s) ∧ InRange (ratedOut s n) ∧
      InRange (10 ^ (wrapperDecimals s - s.underlying.decimals)) ∧
      InRange (10 ^ (s.underlying.decimals - wrapperDecimals s)) ∧
      InRange (ratedOut s n * 10 ^ (s.underlying.decimals - wrapperDecimals s)) ∧
      x = ratedOut s n * 10 ^ (s.underlying.decimals - wrapperDecimals s) /
        10 ^ (wrapperDecimals s - s.underlying.decimals) := by
  have hscale : (0 : ℤ) < SCALING_FACTOR := by decide
  rw [calcAssetsForShares_rated hn]
  simp only [Option.ite_none_left_eq_some, not_le, Option.bind_eq_some_iff, mulDivDown_eq_some]
  refine and_congr_right fun hpos => ?_
  constructor
  · rintro ⟨rated, ⟨-, -, -, hrem, hr, rfl⟩, hout⟩
    obtain ⟨-, hup, hdown, hprod, hval⟩ := (scaleDecimalsDown_eq_some hr).mp hout
    exact ⟨hrem, hr, hdown, hup, hprod, hval⟩
  · rintro ⟨hrem, hr, hdown, hup, hprod, hval⟩
    have hnonneg : 0 ≤ ratedOut s n :=
      Int.ediv_nonneg (mul_nonneg hpos.le (flatRate_pos s).le) hscale.le
    exact ⟨ratedOut s n, ⟨hscale, hpos.le, (flatRate_pos s).le, hrem, hr, rfl⟩,
      (scaleDecimalsDown_eq_some hr).mpr ⟨hnonneg, hup, hdown, hprod, hval⟩⟩

end Quotes

/-- The flat rate quotes a deposit of `x` without an overflow. -/
structure DepositQuoted (w : World Store) (x : ℤ) : Prop where
  upscale : InRange (10 ^ (wrapperDecimals w.store - w.store.underlying.decimals))
  downscale : InRange (10 ^ (w.store.underlying.decimals - wrapperDecimals w.store))
  scaled : InRange (x * 10 ^ (wrapperDecimals w.store - w.store.underlying.decimals))
  remainder : InRange (scaledIn w.store x % flatRate w.store * SCALING_FACTOR)

/-- And what `x` units are worth more or less at the share price than at the flat rate is lost in
the rounding of the quote. -/
structure DepositPriced (w : World Store) (x : ℤ) : Prop extends DepositQuoted w x where
  price : WithinRounding (x * pricedShares w) (pricedAssets w)
    (scaledIn w.store x * SCALING_FACTOR) (flatRate w.store)

/-- The flat rate quotes `n` shares that are sold back; none can be. -/
structure WithdrawQuoted (w : World Store) (n : ℤ) : Prop where
  positive : 0 < n
  remainder : InRange (n % SCALING_FACTOR * flatRate w.store)
  rated : InRange (ratedOut w.store n)
  upscale : InRange (10 ^ (wrapperDecimals w.store - w.store.underlying.decimals))
  downscale : InRange (10 ^ (w.store.underlying.decimals - wrapperDecimals w.store))
  scaled : InRange
    (ratedOut w.store n * 10 ^ (w.store.underlying.decimals - wrapperDecimals w.store))

structure WithdrawPriced (w : World Store) (n : ℤ) : Prop extends WithdrawQuoted w n where
  price : WithinRounding (n * pricedAssets w) (pricedShares w)
    (ratedOut w.store n * 10 ^ (w.store.underlying.decimals - wrapperDecimals w.store))
    (10 ^ (wrapperDecimals w.store - w.store.underlying.decimals))

/-- The share price over the flat rate, the decimals being kept: what `flatOut` units buy at the
price, against what they should. -/
def priceGap (w : World Store) : ℤ :=
  flatOut w.store * pricedShares w - flatIn w.store * pricedAssets w

/-- The flat rate is the share price, and loses no decimals on the way in. -/
structure SamePrice (w : World Store) : Prop where
  decimals : w.store.underlying.decimals ≤ wrapperDecimals w.store
  rate : flatIn w.store * pricedAssets w = flatOut w.store * pricedShares w

section KeptDecimals

theorem flatOut_of_le (h : w.store.underlying.decimals ≤ wrapperDecimals w.store) :
    flatOut w.store = flatRate w.store := by
  rw [flatOut, Nat.sub_eq_zero_of_le h, pow_zero, mul_one]

theorem scaledIn_of_le (h : w.store.underlying.decimals ≤ wrapperDecimals w.store) (x : ℤ) :
    scaledIn w.store x * SCALING_FACTOR = x * flatIn w.store := by
  rw [scaledIn, Nat.sub_eq_zero_of_le h, pow_zero, Int.ediv_one, flatIn, mul_assoc]

/-- Without lost decimals two roundings come to one. -/
theorem ratedOut_of_le (h : w.store.underlying.decimals ≤ wrapperDecimals w.store) (n : ℤ) :
    ratedOut w.store n * 10 ^ (w.store.underlying.decimals - wrapperDecimals w.store) /
        10 ^ (wrapperDecimals w.store - w.store.underlying.decimals) =
      n * flatOut w.store / flatIn w.store := by
  have hscale : (0 : ℤ) ≤ SCALING_FACTOR := by decide
  rw [Nat.sub_eq_zero_of_le h, pow_zero, mul_one, ratedOut, Int.ediv_ediv_of_nonneg hscale,
    flatOut_of_le h, flatIn, mul_comm SCALING_FACTOR]

end KeptDecimals

section Agreement

variable {signers : List Address} {uploaded : List BytesN32}

theorem pricedAssets_pos (w : World Store) : 0 < pricedAssets w := by
  have hnonneg := w.store.underlying.balance_nonneg w.self
  have ho := offset_pos
  unfold pricedAssets
  omega

theorem deposit_preview_iff (hw : Ready w)
    (h : Runs (deposit c x) (w.env signers uploaded) w.store m s') :
    Runs (previewDeposit x) e w.store m w.store ↔ DepositPriced w x := by
  obtain ⟨-, ha, -, -, t, ht, hm, hpos, hr, rfl⟩ := runs_deposit h
  obtain ⟨⟨-, hle⟩, -, hb⟩ := Token.transferFrom_spec ht (World.authorized_ne_self c ha)
  have hassets : t.balance w.self - x = w.store.underlying.balance w.self := by
    simp [hb]
  rw [World.env_self, hassets] at hm
  obtain ⟨hx, hsupply, -, hval⟩ := convertToShares_spec hm
  have hxr : InRange x := inRange_of_le hx.le le_rfl
    ⟨by unfold I128.MIN; omega, hle.trans (w.store.underlying.balance_le c)⟩
  have hmr : InRange m := inRange_of_le hpos.le (by omega) hr
  have hprice : m = scaledIn w.store x * SCALING_FACTOR / flatRate w.store ↔
      WithinRounding (x * pricedShares w) (pricedAssets w)
        (scaledIn w.store x * SCALING_FACTOR) (flatRate w.store) := by
    rw [hval]
    exact ediv_eq_ediv_iff (pricedAssets_pos w) (flatRate_pos _)
  rw [runs_previewDeposit, calcSharesForAssets_eq_some hxr hmr, hprice]
  constructor
  · rintro ⟨-, -, ⟨-, hup, hdown, hscaled, hrem, hk⟩, -⟩
    exact ⟨⟨hup, hdown, hscaled, hrem⟩, hk⟩
  · rintro ⟨⟨hup, hdown, hscaled, hrem⟩, hk⟩
    exact ⟨hw.initialized, hw.token, ⟨hx, hup, hdown, hscaled, hrem, hk⟩, rfl⟩

theorem withdraw_preview_iff (hw : Ready w) (hsupply : w.store.supply ≤ I128.MAX)
    (hc : (readCooldownConfig w.store).enabled = false)
    (h : Runs (withdraw c n) (w.env signers uploaded) w.store x s') :
    Runs (previewWithdraw n) e w.store x w.store ↔ WithdrawPriced w n := by
  obtain ⟨-, -, ⟨rfl, -⟩ | ⟨hn, -, hexit⟩⟩ := runs_withdraw h
  · refine iff_of_false ?_ fun hp => absurd hp.positive (lt_irrefl 0)
    intro hr
    exact absurd (calcAssetsForShares_spec (runs_previewWithdraw.mp hr).2.2.1).1 (lt_irrefl 0)
  · obtain ⟨-, -, hle, y, windows, hy, -, -, ⟨he, -⟩ | ⟨-, rfl, -⟩⟩ := runs_withdrawShares hexit
    · rw [hc] at he
      cases he
    have hnr : InRange n := by
      have hheld : w.store.balance c ≤ w.store.supply :=
        hw.balanced.shares_total.le hw.balanced.shares_nonneg c
      exact inRange_of_le hn.le le_rfl ⟨by unfold I128.MIN; omega, (hle.trans hheld).trans hsupply⟩
    obtain ⟨-, -, -, hval⟩ := convertToAssets_spec hy
    have hprice : x = ratedOut w.store n *
          10 ^ (w.store.underlying.decimals - wrapperDecimals w.store) /
          10 ^ (wrapperDecimals w.store - w.store.underlying.decimals) ↔
        WithinRounding (n * pricedAssets w) (pricedShares w)
          (ratedOut w.store n * 10 ^ (w.store.underlying.decimals - wrapperDecimals w.store))
          (10 ^ (wrapperDecimals w.store - w.store.underlying.decimals)) := by
      rw [hval]
      exact ediv_eq_ediv_iff (pricedShares_pos hw) (by positivity)
    rw [runs_previewWithdraw, calcAssetsForShares_eq_some hnr, hprice]
    constructor
    · rintro ⟨-, -, ⟨-, hrem, hrated, hup, hdown, hscaled, hk⟩, -⟩
      exact ⟨⟨hn, hrem, hrated, hup, hdown, hscaled⟩, hk⟩
    · rintro ⟨⟨-, hrem, hrated, hup, hdown, hscaled⟩, hk⟩
      exact ⟨hw.initialized, hw.token, ⟨hn, hrem, hrated, hup, hdown, hscaled, hk⟩, rfl⟩

theorem SamePrice.deposit (h : SamePrice w) (hq : DepositQuoted w x) :
    DepositPriced w x := by
  refine ⟨hq, (ediv_eq_ediv_iff (pricedAssets_pos w) (flatRate_pos _)).mp ?_⟩
  rw [scaledIn_of_le h.decimals, ← flatOut_of_le h.decimals]
  have hout : 0 < flatOut w.store := by
    rw [flatOut_of_le h.decimals]
    exact flatRate_pos _
  have hrate : x * pricedShares w * flatOut w.store = x * flatIn w.store * pricedAssets w := by
    have hr := h.rate
    calc x * pricedShares w * flatOut w.store = x * (flatOut w.store * pricedShares w) := by ring
      _ = x * flatIn w.store * pricedAssets w := by rw [← hr, mul_assoc]
  calc x * pricedShares w / pricedAssets w
      = x * pricedShares w * flatOut w.store / (pricedAssets w * flatOut w.store) :=
        (Int.mul_ediv_mul_of_pos_left _ _ hout).symm
    _ = x * flatIn w.store * pricedAssets w / (flatOut w.store * pricedAssets w) := by
        rw [hrate, mul_comm (pricedAssets w)]
    _ = x * flatIn w.store / flatOut w.store :=
        Int.mul_ediv_mul_of_pos_left _ _ (pricedAssets_pos w)

theorem SamePrice.withdraw (hw : Ready w) (h : SamePrice w) (hq : WithdrawQuoted w n) :
    WithdrawPriced w n := by
  refine ⟨hq, (ediv_eq_ediv_iff (pricedShares_pos hw) (by positivity)).mp ?_⟩
  rw [ratedOut_of_le h.decimals]
  have hrate : n * pricedAssets w * flatIn w.store = n * flatOut w.store * pricedShares w := by
    have hr := h.rate
    calc n * pricedAssets w * flatIn w.store = n * (flatIn w.store * pricedAssets w) := by ring
      _ = n * flatOut w.store * pricedShares w := by rw [hr, mul_assoc]
  calc n * pricedAssets w / pricedShares w
      = n * pricedAssets w * flatIn w.store / (pricedShares w * flatIn w.store) :=
        (Int.mul_ediv_mul_of_pos_left _ _ (flatIn_pos _)).symm
    _ = n * flatOut w.store * pricedShares w / (flatIn w.store * pricedShares w) := by
        rw [hrate, mul_comm (pricedShares w)]
    _ = n * flatOut w.store / flatIn w.store :=
        Int.mul_ediv_mul_of_pos_left _ _ (pricedShares_pos hw)

/-- A deposit is only quoted right while the gap of its price stays below one share. -/
theorem DepositPriced.gap_lt (hd : w.store.underlying.decimals ≤ wrapperDecimals w.store)
    (h : DepositPriced w x) :
    |x * priceGap w| < flatOut w.store * pricedAssets w := by
  have hlt := h.price.gap_lt (pricedAssets_pos w) (flatRate_pos _)
  rw [scaledIn_of_le hd, ← flatOut_of_le hd] at hlt
  have hgap : x * pricedShares w * flatOut w.store - x * flatIn w.store * pricedAssets w =
      x * priceGap w := by
    rw [priceGap]
    ring
  rwa [hgap] at hlt

theorem WithdrawPriced.gap_lt (hw : Ready w)
    (hd : w.store.underlying.decimals ≤ wrapperDecimals w.store) (h : WithdrawPriced w n) :
    |n * priceGap w| < flatIn w.store * pricedShares w := by
  have heq := (ediv_eq_ediv_iff (pricedShares_pos hw) (by positivity)).mpr h.price
  rw [ratedOut_of_le hd] at heq
  have hlt := ((ediv_eq_ediv_iff (pricedShares_pos hw) (flatIn_pos _)).mp heq).gap_lt
    (pricedShares_pos hw) (flatIn_pos _)
  have hgap : n * pricedAssets w * flatIn w.store - n * flatOut w.store * pricedShares w =
      -(n * priceGap w) := by
    rw [priceGap]
    ring
  rwa [hgap, abs_neg] at hlt

/-- In every reachable state, a preview tells what the call after it will mint or pay exactly when
the flat rate quotes the amount and the difference to the share price is lost in the rounding of
the quote. So every amount that is quoted is quoted right where the two prices are one; where they
are not, and no decimals are lost, only small amounts can be. -/
theorem previews_agree_iff (h : Deployed w) (ls : List (Label Op)) (e : Env) :
    (∀ c x m s', Runs (deposit c x) ((w.run exec ls).env signers uploaded)
        (w.run exec ls).store m s' →
      (Runs (previewDeposit x) e (w.run exec ls).store m (w.run exec ls).store ↔
        DepositPriced (w.run exec ls) x)) ∧
    ((readCooldownConfig (w.run exec ls).store).enabled = false → ∀ c n x s',
      Runs (withdraw c n) ((w.run exec ls).env signers uploaded) (w.run exec ls).store x s' →
      (Runs (previewWithdraw n) e (w.run exec ls).store x (w.run exec ls).store ↔
        WithdrawPriced (w.run exec ls) n)) ∧
    (SamePrice (w.run exec ls) → ∀ x,
      (DepositQuoted (w.run exec ls) x → DepositPriced (w.run exec ls) x) ∧
      (WithdrawQuoted (w.run exec ls) x → WithdrawPriced (w.run exec ls) x)) ∧
    ((w.run exec ls).store.underlying.decimals ≤ wrapperDecimals (w.run exec ls).store → ∀ x,
      (DepositPriced (w.run exec ls) x → |x * priceGap (w.run exec ls)| <
        flatOut (w.run exec ls).store * pricedAssets (w.run exec ls)) ∧
      (WithdrawPriced (w.run exec ls) x → |x * priceGap (w.run exec ls)| <
        flatIn (w.run exec ls).store * pricedShares (w.run exec ls))) := by
  have hready := ready_run h ls
  have hsupply := supply_le_run h ls
  refine ⟨fun c x m s' hr => deposit_preview_iff hready hr,
    fun hc c n x s' hr => withdraw_preview_iff hready hsupply hc hr, fun hsame x => ?_,
    fun hd x => ?_⟩
  · exact ⟨hsame.deposit, hsame.withdraw hready⟩
  · exact ⟨DepositPriced.gap_lt hd, WithdrawPriced.gap_lt hready hd⟩

end Agreement

/-- One unit a share: account 2 has deposited, account 3 has assets of its own. -/
def evenVault : List (Label Op) :=
  fundedDeposit ⟨2⟩ 1000000000 ++ [.call [] [] (.underlyingMint ⟨3⟩ 1000000000),
    .call [⟨3⟩] [] (.underlyingApprove ⟨3⟩ ⟨100⟩ 2000000000)]

theorem evenVault_samePrice : SamePrice (genesis.run exec evenVault) := by
  refine ⟨by decide +kernel, ?_⟩
  decide +kernel

theorem evenVault_previewed :
    Runs (previewDeposit 300000000) ((genesis.run exec evenVault).env [] [])
      (genesis.run exec evenVault).store 300000000 (genesis.run exec evenVault).store ∧
    Runs (previewWithdraw 400000000) ((genesis.run exec evenVault).env [] [])
      (genesis.run exec evenVault).store 400000000 (genesis.run exec evenVault).store := by
  obtain ⟨s₁, hdeposit⟩ : ∃ s', Runs (deposit ⟨3⟩ 300000000)
      ((genesis.run exec evenVault).env [⟨3⟩] []) (genesis.run exec evenVault).store 300000000 s' :=
    runs_of_value (by decide +kernel)
  obtain ⟨s₂, hwithdraw⟩ : ∃ s', Runs (withdraw ⟨2⟩ 400000000)
      ((genesis.run exec evenVault).env [⟨2⟩] []) (genesis.run exec evenVault).store 400000000 s' :=
    runs_of_value (by decide +kernel)
  have hready := ready_run genesis_deployed evenVault
  constructor
  · refine ((previews_agree_iff genesis_deployed evenVault _).1 _ _ _ _ hdeposit).mpr ?_
    exact evenVault_samePrice.deposit
      ⟨by decide +kernel, by decide +kernel, by decide +kernel, by decide +kernel⟩
  · refine ((previews_agree_iff genesis_deployed evenVault _).2.1 (by decide +kernel) _ _ _ _
      hwithdraw).mpr ?_
    exact evenVault_samePrice.withdraw hready
      ⟨by decide, by decide +kernel, by decide +kernel, by decide +kernel, by decide +kernel,
        by decide +kernel⟩

/-- Once a donation has doubled what a share is worth, a deposit mints half of what its preview
says, and a withdrawal pays twice as much. -/
theorem donated_not_previewed :
    Deployed genesis ∧ donated.store.paused = false ∧
    (readCooldownConfig donated.store).enabled = false ∧
    (∃ s', Runs (deposit ⟨3⟩ 1000000000) (donated.env [⟨3⟩] []) donated.store 502487562 s') ∧
    ¬ Runs (previewDeposit 1000000000) (donated.env [] []) donated.store 502487562 donated.store ∧
    (∃ s', Runs (withdraw ⟨2⟩ 500000000) (donated.env [⟨2⟩] []) donated.store 995049504 s') ∧
    ¬ Runs (previewWithdraw 500000000) (donated.env [] []) donated.store 995049504
      donated.store := by
  refine ⟨genesis_deployed, by decide, by decide +kernel, runs_of_value (by decide +kernel), ?_,
    runs_of_value (by decide +kernel), ?_⟩
  · intro h
    have hquote := (runs_previewDeposit.mp h).2.2.1
    revert hquote
    decide +kernel
  · intro h
    have hquote := (runs_previewWithdraw.mp h).2.2.1
    revert hquote
    decide +kernel

end BcForge.Wrapper
