import Mathlib.Algebra.BigOperators.Group.List.Basic
import Mathlib.Algebra.Order.BigOperators.Group.List
import Mathlib.Algebra.Order.Ring.Int

/-! Amounts spent over time, and a counter that is restarted now and then. -/
namespace Soroban

/-- When, and how much. -/
abbrev Spending := List (ℕ × ℤ)

namespace Spending

/-- What was spent in the `width` ticks from `start` on. -/
def within (start width : ℕ) (h : Spending) : ℤ :=
  (h.map fun e => if start ≤ e.1 ∧ e.1 < start + width then e.2 else 0).sum

/-- What was spent since `start`. -/
def since (start : ℕ) (h : Spending) : ℤ :=
  (h.map fun e => if start ≤ e.1 then e.2 else 0).sum

variable {h : Spending} {k now start width : ℕ} {x amount cap : ℤ}

theorem within_append (h h' : Spending) :
    within k width (h ++ h') = within k width h + within k width h' := by
  simp [within]

theorem since_append (h h' : Spending) : since k (h ++ h') = since k h + since k h' := by
  simp [since]

@[simp] theorem within_nil : within k width [] = 0 := rfl

@[simp] theorem since_nil : since k [] = 0 := rfl

theorem within_singleton :
    within k width [(now, x)] = if k ≤ now ∧ now < k + width then x else 0 := by
  simp [within]

theorem since_singleton (hk : k ≤ now) : since k [(now, x)] = x := by
  simp [since, hk]

theorem within_eq_zero (hz : ∀ e ∈ h, ¬ (k ≤ e.1 ∧ e.1 < k + width)) : within k width h = 0 := by
  refine List.sum_eq_zero fun y hy => ?_
  obtain ⟨e, he, rfl⟩ := List.mem_map.mp hy
  exact if_neg (hz e he)

theorem since_eq_zero (hz : ∀ e ∈ h, e.1 < k) : since k h = 0 := by
  refine List.sum_eq_zero fun y hy => ?_
  obtain ⟨e, he, rfl⟩ := List.mem_map.mp hy
  exact if_neg (not_le.mpr (hz e he))

/-- A window that holds nothing from before `start` is within what was spent since. -/
theorem within_le_since (hpos : ∀ e ∈ h, 0 ≤ e.2)
    (hnew : ∀ e ∈ h, k ≤ e.1 → e.1 < k + width → start ≤ e.1) :
    within k width h ≤ since start h := by
  refine List.sum_le_sum fun e he => ?_
  have hamount := hpos e he
  by_cases hk : k ≤ e.1 ∧ e.1 < k + width
  · rw [if_pos hk, if_pos (hnew e he hk.1 hk.2)]
  · rw [if_neg hk]
    split
    · exact hamount
    · exact le_rfl

/-- A counter that stands at `amount` since `start` accounts for the spending so far: it covers
what was spent since, whatever came before is out of reach, and no window exceeds the cap. -/
structure Counted (cap : ℤ) (width start : ℕ) (amount : ℤ) (h : Spending) : Prop where
  bounded : ∀ k, within k width h ≤ cap
  nonneg : ∀ e ∈ h, 0 ≤ e.2
  since_le : since start h ≤ amount
  past : ∀ e ∈ h, e.1 < start → e.1 + width ≤ start

theorem counted_nil (hcap : 0 ≤ cap) (hamount : 0 ≤ amount) :
    Counted cap width start amount [] where
  bounded _ := hcap
  nonneg _ he := absurd he List.not_mem_nil
  since_le := hamount
  past _ he := absurd he List.not_mem_nil

theorem nonneg_append (hc : ∀ e ∈ h, 0 ≤ e.2) (hx : 0 ≤ x) :
    ∀ e ∈ h ++ [(now, x)], 0 ≤ e.2 := by
  intro e he
  rcases List.mem_append.mp he with he | he
  · exact hc e he
  · rw [List.mem_singleton.mp he]
    exact hx

/-- Spending counted on top of what the counter stands at. -/
theorem Counted.spend (hc : Counted cap width start amount h) (hnow : start ≤ now) (hx : 0 ≤ x)
    (hle : amount + x ≤ cap) : Counted cap width start (amount + x) (h ++ [(now, x)]) where
  bounded k := by
    rw [within_append, within_singleton]
    by_cases hk : k ≤ now ∧ now < k + width
    · have hold : within k width h ≤ since start h := by
        refine within_le_since hc.nonneg fun e he hge _ => ?_
        by_contra hlt
        have hpast := hc.past e he (not_le.mp hlt)
        omega
      have hsince := hc.since_le
      rw [if_pos hk]
      omega
    · have hold := hc.bounded k
      rw [if_neg hk]
      omega
  nonneg := nonneg_append hc.nonneg hx
  since_le := by
    have hsince := hc.since_le
    rw [since_append, since_singleton hnow]
    omega
  past e he hlt := by
    rcases List.mem_append.mp he with he | he
    · exact hc.past e he hlt
    · rw [List.mem_singleton.mp he] at hlt
      change now < start at hlt
      omega

/-- Spending after a restart, when all that came before is out of reach. -/
theorem Counted.restart (hc : Counted cap width start amount h)
    (hold : ∀ e ∈ h, e.1 + width ≤ now) (hwidth : 0 < width) (hx : 0 ≤ x) (hle : x ≤ cap) :
    Counted cap width now x (h ++ [(now, x)]) where
  bounded k := by
    rw [within_append, within_singleton]
    by_cases hk : k ≤ now ∧ now < k + width
    · have hz : within k width h = 0 := by
        refine within_eq_zero fun e he hin => ?_
        have := hold e he
        omega
      rw [if_pos hk, hz]
      omega
    · have := hc.bounded k
      rw [if_neg hk]
      omega
  nonneg := nonneg_append hc.nonneg hx
  since_le := by
    have hz : since now h = 0 := by
      refine since_eq_zero fun e he => ?_
      have := hold e he
      omega
    rw [since_append, since_singleton le_rfl, hz]
    omega
  past e he hlt := by
    rcases List.mem_append.mp he with he | he
    · exact hold e he
    · rw [List.mem_singleton.mp he] at hlt
      exact absurd hlt (lt_irrefl now)

end Spending

end Soroban
