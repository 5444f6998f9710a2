import BcForge.Soroban.Arith
import Mathlib.Data.Rat.Floor

/-! Fixed-point conversions between assets and shares, rounding down. -/
namespace BcForge.Wrapper

open Soroban I128

def SCALING_FACTOR : ℤ := 10000000

/-- Virtual shares and assets on both sides of the exchange rate. -/
def VIRTUAL_OFFSET : ℤ := 10000000

/-- Division is on non-negative numbers only, where truncation is floor. -/
def mulDivDown (a b denominator : ℤ) : Option ℤ :=
  if denominator ≤ 0 ∨ a < 0 ∨ b < 0 then none
  else
    match checkedMul a b with
    | some product => some (product / denominator)
    | none => do
      let term1 ← checkedMul (a / denominator) b
      let scaled ← checkedMul (a % denominator) b
      checkedAdd term1 (scaled / denominator)

/-- Unlike its counterpart it gives up as soon as the product overflows. -/
def mulDivUp (a b denominator : ℤ) : Option ℤ :=
  if denominator ≤ 0 ∨ a < 0 ∨ b < 0 then none
  else if a = 0 ∨ b = 0 then some 0
  else do
    let product ← checkedMul a b
    let rest ← checkedSub denominator 1
    let numerator ← checkedAdd product rest
    some (numerator / denominator)

def convertToShares (assets totalSupply totalAssets : ℤ) : Option ℤ :=
  if assets ≤ 0 ∨ totalSupply < 0 ∨ totalAssets < 0 then none
  else do
    let supply ← checkedAdd totalSupply VIRTUAL_OFFSET
    let assetsBase ← checkedAdd totalAssets VIRTUAL_OFFSET
    mulDivDown assets supply assetsBase

def convertToAssets (shares totalSupply totalAssets : ℤ) : Option ℤ :=
  if shares ≤ 0 ∨ totalSupply < 0 ∨ totalAssets < 0 then none
  else do
    let supply ← checkedAdd totalSupply VIRTUAL_OFFSET
    let assetsBase ← checkedAdd totalAssets VIRTUAL_OFFSET
    mulDivDown shares assetsBase supply

def scaleDecimalsDown (amount : ℤ) (fromDecimals toDecimals : ℕ) : Option ℤ :=
  if amount < 0 then none
  else if fromDecimals ≤ toDecimals then do
    let factor ← checkedPow 10 (toDecimals - fromDecimals)
    checkedMul amount factor
  else do
    let factor ← checkedPow 10 (fromDecimals - toDecimals)
    some (amount / factor)

variable {a b d v x y s t : ℤ}

theorem mul_ediv_split (hd : d ≠ 0) : a * b / d = a / d * b + a % d * b / d := by
  have hsplit : a * b = a % d * b + d * (a / d * b) := by
    conv_lhs => rw [← Int.emod_add_mul_ediv a d]
    ring
  rw [hsplit, Int.add_mul_ediv_left _ _ hd]
  ring

/-- On both of its paths the result is the exact floor. -/
theorem mulDivDown_spec (h : mulDivDown a b d = some v) :
    0 < d ∧ 0 ≤ a ∧ 0 ≤ b ∧ v = a * b / d := by
  unfold mulDivDown at h
  split at h
  · cases h
  · rename_i hc
    simp only [not_or, not_le, not_lt] at hc
    obtain ⟨hd, ha, hb⟩ := hc
    refine ⟨hd, ha, hb, ?_⟩
    split at h
    · rename_i product hp
      simp only [checkedMul, checked_eq_some] at hp
      obtain rfl := Option.some.inj h
      rw [hp.2]
    · simp only [checkedMul, checkedAdd, Option.bind_eq_bind, Option.bind_eq_some_iff,
        checked_eq_some] at h
      obtain ⟨term1, ⟨-, rfl⟩, scaled, ⟨-, rfl⟩, -, rfl⟩ := h
      exact (mul_ediv_split hd.ne').symm

theorem convertToShares_spec (h : convertToShares x s a = some v) :
    0 < x ∧ 0 ≤ s ∧ 0 ≤ a ∧ v = x * (s + VIRTUAL_OFFSET) / (a + VIRTUAL_OFFSET) := by
  unfold convertToShares at h
  split at h
  · cases h
  · rename_i hc
    simp only [not_or, not_le, not_lt] at hc
    simp only [checkedAdd, Option.bind_eq_bind, Option.bind_eq_some_iff, checked_eq_some] at h
    obtain ⟨_, ⟨-, rfl⟩, _, ⟨-, rfl⟩, h⟩ := h
    exact ⟨hc.1, hc.2.1, hc.2.2, (mulDivDown_spec h).2.2.2⟩

theorem convertToAssets_spec (h : convertToAssets x s a = some v) :
    0 < x ∧ 0 ≤ s ∧ 0 ≤ a ∧ v = x * (a + VIRTUAL_OFFSET) / (s + VIRTUAL_OFFSET) := by
  unfold convertToAssets at h
  split at h
  · cases h
  · rename_i hc
    simp only [not_or, not_le, not_lt] at hc
    simp only [checkedAdd, Option.bind_eq_bind, Option.bind_eq_some_iff, checked_eq_some] at h
    obtain ⟨_, ⟨-, rfl⟩, _, ⟨-, rfl⟩, h⟩ := h
    exact ⟨hc.1, hc.2.1, hc.2.2, (mulDivDown_spec h).2.2.2⟩

theorem offset_pos : (0 : ℤ) < VIRTUAL_OFFSET := by decide

/-- Less than one share is withheld. -/
theorem convertToShares_floor (h : convertToShares x s a = some v) :
    v * (a + VIRTUAL_OFFSET) ≤ x * (s + VIRTUAL_OFFSET) ∧
      x * (s + VIRTUAL_OFFSET) < (v + 1) * (a + VIRTUAL_OFFSET) := by
  obtain ⟨-, -, ha, rfl⟩ := convertToShares_spec h
  have hpos : 0 < a + VIRTUAL_OFFSET := by
    have := offset_pos
    omega
  exact ⟨Int.ediv_mul_le _ hpos.ne', Int.lt_ediv_add_one_mul_self _ hpos⟩

theorem convertToAssets_floor (h : convertToAssets x s a = some v) :
    v * (s + VIRTUAL_OFFSET) ≤ x * (a + VIRTUAL_OFFSET) ∧
      x * (a + VIRTUAL_OFFSET) < (v + 1) * (s + VIRTUAL_OFFSET) := by
  obtain ⟨-, hs, -, rfl⟩ := convertToAssets_spec h
  have hpos : 0 < s + VIRTUAL_OFFSET := by
    have := offset_pos
    omega
  exact ⟨Int.ediv_mul_le _ hpos.ne', Int.lt_ediv_add_one_mul_self _ hpos⟩

section RoundTrip

variable {supply assets : ℤ}

theorem redeem_le_deposit (hs : convertToShares x supply assets = some s)
    (hy : convertToAssets s (supply + s) (assets + x) = some y) : y ≤ x := by
  have hminted := (convertToShares_floor hs).1
  have hpaid := (convertToAssets_floor hy).1
  have hpos : 0 < supply + s + VIRTUAL_OFFSET := by
    obtain ⟨-, hnonneg, -⟩ := convertToAssets_spec hy
    have := offset_pos
    omega
  refine le_of_mul_le_mul_right ?_ hpos
  calc y * (supply + s + VIRTUAL_OFFSET)
      ≤ s * (assets + x + VIRTUAL_OFFSET) := hpaid
    _ = s * (assets + VIRTUAL_OFFSET) + s * x := by ring
    _ ≤ x * (supply + VIRTUAL_OFFSET) + s * x := by gcongr
    _ = x * (supply + s + VIRTUAL_OFFSET) := by ring

/-- Each of the two floors withholds less than one unit of what it rounds to. -/
theorem deposit_loss_lt (hs : convertToShares x supply assets = some s)
    (hy : convertToAssets s (supply + s) (assets + x) = some y) :
    (x - y - 1) * (supply + s + VIRTUAL_OFFSET) < assets + VIRTUAL_OFFSET := by
  have hminted := (convertToShares_floor hs).2
  have hpaid := (convertToAssets_floor hy).2
  calc (x - y - 1) * (supply + s + VIRTUAL_OFFSET)
      = x * (supply + VIRTUAL_OFFSET) + x * s - (y + 1) * (supply + s + VIRTUAL_OFFSET) := by ring
    _ < x * (supply + VIRTUAL_OFFSET) + x * s - s * (assets + x + VIRTUAL_OFFSET) := by gcongr
    _ = x * (supply + VIRTUAL_OFFSET) - s * (assets + VIRTUAL_OFFSET) := by ring
    _ < (s + 1) * (assets + VIRTUAL_OFFSET) - s * (assets + VIRTUAL_OFFSET) := by gcongr
    _ = assets + VIRTUAL_OFFSET := by ring

/-- A deposit taken straight back out loses rounding dust: less than a unit more than one share
is worth, whatever was donated before. -/
theorem deposit_redeem_dust (hs : convertToShares x supply assets = some s)
    (hy : convertToAssets s (supply + s) (assets + x) = some y) :
    y ≤ x ∧ (x - y - 1) * (supply + s + VIRTUAL_OFFSET) < assets + VIRTUAL_OFFSET :=
  ⟨redeem_le_deposit hs hy, deposit_loss_lt hs hy⟩

/-- A deposit behind a donation of ten times as much. -/
theorem donation_redeem_dust :
    (4999998 : ℤ) ≤ 5000000 ∧
      (5000000 - 4999998 - 1) * (0 + 833333 + VIRTUAL_OFFSET) < 50000000 + VIRTUAL_OFFSET := by
  have hs : convertToShares 5000000 0 50000000 = some 833333 := by decide
  have hy : convertToAssets 833333 (0 + 833333) (50000000 + 5000000) = some 4999998 := by decide
  exact deposit_redeem_dust hs hy

end RoundTrip

/-- One of the two powers is 1. -/
theorem scaleDecimalsDown_spec {m n : ℕ} (h : scaleDecimalsDown x m n = some y) :
    0 ≤ x ∧ y = x * 10 ^ (n - m) / 10 ^ (m - n) := by
  unfold scaleDecimalsDown at h
  split at h
  · cases h
  · rename_i hx
    rw [not_lt] at hx
    refine ⟨hx, ?_⟩
    split at h
    · rename_i hmn
      simp only [checkedPow, checkedMul, Option.bind_eq_bind, Option.bind_eq_some_iff,
        checked_eq_some] at h
      obtain ⟨_, ⟨-, rfl⟩, -, rfl⟩ := h
      rw [Nat.sub_eq_zero_of_le hmn, pow_zero, Int.ediv_one]
    · rename_i hmn
      rw [not_le] at hmn
      simp only [checkedPow, Option.bind_eq_bind, Option.bind_eq_some_iff, checked_eq_some,
        Option.some.injEq] at h
      obtain ⟨_, ⟨-, rfl⟩, rfl⟩ := h
      rw [Nat.sub_eq_zero_of_le hmn.le, pow_zero, mul_one]

section Computable

variable {m n : ℕ}

/-- All that can overflow besides the result is the product of the remainder. -/
theorem mulDivDown_eq_some : mulDivDown a b d = some v ↔
    0 < d ∧ 0 ≤ a ∧ 0 ≤ b ∧ InRange (a % d * b) ∧ InRange v ∧ v = a * b / d := by
  constructor
  · intro h
    obtain ⟨hd, ha, hb, rfl⟩ := mulDivDown_spec h
    refine ⟨hd, ha, hb, ?_⟩
    have hprod : 0 ≤ a * b := mul_nonneg ha hb
    have hmod : a % d ≤ a := by
      have hsplit := Int.emod_add_mul_ediv a d
      have hquot := mul_nonneg hd.le (Int.ediv_nonneg ha hd.le)
      omega
    have hrem : a % d * b ≤ a * b := mul_le_mul_of_nonneg_right hmod hb
    rw [mulDivDown, if_neg (by omega)] at h
    split at h
    · rename_i product hp
      simp only [checkedMul, checked_eq_some] at hp
      exact ⟨inRange_of_le (mul_nonneg (Int.emod_nonneg _ hd.ne') hb) hrem hp.1,
        inRange_of_le (Int.ediv_nonneg hprod hd.le) (Int.ediv_le_self _ hprod) hp.1, rfl⟩
    · simp only [checkedMul, checkedAdd, Option.bind_eq_bind, Option.bind_eq_some_iff,
        checked_eq_some] at h
      obtain ⟨term1, -, scaled, ⟨hscaled, rfl⟩, hsum, hv⟩ := h
      exact ⟨hscaled, hv ▸ hsum, rfl⟩
  · rintro ⟨hd, ha, hb, hrem, hv, rfl⟩
    rw [mulDivDown, if_neg (by omega)]
    by_cases hprod : InRange (a * b)
    · simp [checkedMul, checked, hprod]
    · have hrest : 0 ≤ a % d * b / d :=
        Int.ediv_nonneg (mul_nonneg (Int.emod_nonneg _ hd.ne') hb) hd.le
      rw [mul_ediv_split hd.ne'] at hv ⊢
      have hterm : InRange (a / d * b) :=
        inRange_of_le (mul_nonneg (Int.ediv_nonneg ha hd.le) hb) (by omega) hv
      simp [checkedMul, checkedAdd, checked, hprod, hrem, hterm, hv]

theorem scaleDecimalsDown_eq_some (hx : InRange x) : scaleDecimalsDown x m n = some y ↔
    0 ≤ x ∧ InRange (10 ^ (n - m)) ∧ InRange (10 ^ (m - n)) ∧ InRange (x * 10 ^ (n - m)) ∧
      y = x * 10 ^ (n - m) / 10 ^ (m - n) := by
  have hone : InRange 1 := by decide
  unfold scaleDecimalsDown
  by_cases hneg : x < 0
  · simp [hneg]
  · rw [if_neg hneg]
    by_cases hmn : m ≤ n
    · simp [hmn, checkedPow, checkedMul, Nat.sub_eq_zero_of_le hmn, hone, not_lt.mp hneg,
        Option.bind_eq_some_iff, and_assoc]
    · have hnm : n - m = 0 := by omega
      simp only [hmn, if_false, checkedPow, hnm, pow_zero, mul_one, hone, hx, not_lt.mp hneg,
        Option.bind_eq_bind, Option.bind_eq_some_iff, checked_eq_some, Option.some.injEq, true_and]
      constructor
      · rintro ⟨factor, ⟨hfactor, rfl⟩, rfl⟩
        exact ⟨hfactor, rfl⟩
      · rintro ⟨hfactor, rfl⟩
        exact ⟨_, ⟨hfactor, rfl⟩, rfl⟩

end Computable

section Rounding

variable {w : ℤ}

theorem floor_div (hd : 0 < d) : ⌊(x : ℚ) / d⌋ = x / d := by
  lift d to ℕ using hd.le
  exact_mod_cast Rat.floor_intCast_div_natCast x d

theorem ceil_div (hd : 0 < d) : ⌈(x : ℚ) / d⌉ = (x + (d - 1)) / d := by
  have hle : (x + (d - 1)) / d * d ≤ x + (d - 1) := Int.ediv_mul_le _ hd.ne'
  have hlt : x + (d - 1) < ((x + (d - 1)) / d + 1) * d := Int.lt_ediv_add_one_mul_self _ hd
  have hq : (0 : ℚ) < d := by exact_mod_cast hd
  rw [Int.ceil_eq_iff, lt_div_iff₀ hq, div_le_iff₀ hq]
  constructor
  · have : ((x + (d - 1)) / d - 1) * d < x := by linarith
    exact_mod_cast this
  · have : x ≤ (x + (d - 1)) / d * d := by linarith
    exact_mod_cast this

theorem mulDivUp_spec (h : mulDivUp a b d = some w) :
    0 < d ∧ 0 ≤ a ∧ 0 ≤ b ∧ InRange (a * b) ∧ w = (a * b + (d - 1)) / d := by
  unfold mulDivUp at h
  split at h
  · cases h
  · rename_i hc
    simp only [not_or, not_le, not_lt] at hc
    obtain ⟨hd, ha, hb⟩ := hc
    refine ⟨hd, ha, hb, ?_⟩
    split at h
    · rename_i hzero
      have hprod : a * b = 0 := mul_eq_zero.mpr hzero
      obtain rfl := Option.some.inj h
      rw [hprod, zero_add, Int.ediv_eq_zero_of_lt (by omega) (by omega)]
      exact ⟨by decide, rfl⟩
    · simp only [checkedMul, checkedSub, checkedAdd, Option.bind_eq_bind, Option.bind_eq_some_iff,
        checked_eq_some, Option.some.injEq] at h
      obtain ⟨_, ⟨hprod, rfl⟩, _, ⟨-, rfl⟩, _, ⟨-, rfl⟩, rfl⟩ := h
      exact ⟨hprod, rfl⟩

theorem mulDivDown_of_inRange (ha : 0 ≤ a) (hb : 0 ≤ b) (hd : 0 < d) (h : InRange (a * b)) :
    mulDivDown a b d = some (a * b / d) := by
  rw [mulDivDown, if_neg (by omega)]
  simp [checkedMul, checked, h]

/-- Whenever there is a result it is the exact quotient, rounded down or up as the name says. -/
theorem mulDiv_exact (ha : 0 ≤ a) (hb : 0 ≤ b) (hd : 0 < d) :
    (∀ v, mulDivDown a b d = some v → v = ⌊(a * b : ℚ) / d⌋) ∧
      (InRange (a * b) → mulDivDown a b d ≠ none) ∧
      ∀ w, mulDivUp a b d = some w → w = ⌈(a * b : ℚ) / d⌉ ∧
        ∃ v, mulDivDown a b d = some v ∧ 0 ≤ w - v ∧ w - v ≤ 1 := by
  rw [← Int.cast_mul, floor_div hd, ceil_div hd]
  refine ⟨?_, ?_, ?_⟩
  · intro v hv
    exact (mulDivDown_spec hv).2.2.2
  · intro h
    rw [mulDivDown_of_inRange ha hb hd h]
    exact Option.some_ne_none _
  · intro w hw
    obtain ⟨-, -, -, hprod, rfl⟩ := mulDivUp_spec hw
    refine ⟨rfl, _, mulDivDown_of_inRange ha hb hd hprod, ?_⟩
    have hlow : a * b / d ≤ (a * b + (d - 1)) / d := Int.ediv_le_ediv hd (by omega)
    have hhigh : (a * b + (d - 1)) / d ≤ a * b / d + 1 := by
      rw [← Int.add_mul_ediv_right _ 1 hd.ne']
      exact Int.ediv_le_ediv hd (by omega)
    omega

/-- A product beyond 128 bits, which only the remainder path can divide. -/
theorem mulDiv_exact_wide :
    mulDivDown (2 ^ 100 + 1) (2 ^ 60) (2 ^ 90) = some (2 ^ 70) ∧
      (2 : ℤ) ^ 70 = ⌊(((2 ^ 100 + 1 : ℤ) : ℚ) * ((2 ^ 60 : ℤ) : ℚ)) / ((2 ^ 90 : ℤ) : ℚ)⌋ := by
  have h : mulDivDown (2 ^ 100 + 1) (2 ^ 60) (2 ^ 90) = some (2 ^ 70) := by decide
  exact ⟨h, (mulDiv_exact (by decide) (by decide) (by decide)).1 _ h⟩

end Rounding

end BcForge.Wrapper
