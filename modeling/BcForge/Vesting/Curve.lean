import BcForge.Vesting.Solvency
import Mathlib.Data.Int.ConditionallyCompleteOrder

/-! The vesting curve of a schedule the contract has accepted: a cliff, a linear part and tranches,
monotone and within the schedule's total. -/
namespace BcForge.Vesting

open Soroban Call Admin

variable {env : Env} {s s' : Store} {w : World Store} {l : Label Op} {ls : List (Label Op)}
  {ms : List Milestone} {stored : StoredVestingSchedule} {id L L' effective : ℕ} {v x : ℤ}
  {u : Unit}

/-- What `create_vesting` and `set_milestones` have checked of a schedule and its tranches, and
what releases keep. -/
structure Accepted (id : ℕ) (ms : List Milestone) (stored : StoredVestingSchedule) : Prop where
  id_eq : stored.scheduleId = id
  total_pos : 0 < stored.schedule.totalAmount
  total_le : stored.schedule.totalAmount ≤ I128.MAX
  start_le : stored.startLedger ≤ stored.schedule.cliffLedger
  cliff_le : stored.schedule.cliffLedger ≤ stored.schedule.endLedger
  lasts : stored.startLedger < stored.schedule.endLedger
  tranches_pos : ∀ m ∈ ms, 0 < m.amount
  tranches_le : (ms.map (·.amount)).sum ≤ stored.schedule.totalAmount
  released_nonneg : 0 ≤ stored.schedule.releasedAmount
  released_le : stored.schedule.releasedAmount ≤ stored.schedule.totalAmount

section Tranches

theorem passed_nonneg (h : ∀ m ∈ ms, 0 < m.amount) : 0 ≤ passed effective ms := by
  induction ms with
  | nil => exact le_rfl
  | cons m rest ih =>
    obtain ⟨hm, hrest⟩ := List.forall_mem_cons.mp h
    have htail := ih hrest
    rw [passed]
    split <;> omega

theorem passed_le_sum (h : ∀ m ∈ ms, 0 < m.amount) :
    passed effective ms ≤ (ms.map (·.amount)).sum := by
  induction ms with
  | nil => exact le_rfl
  | cons m rest ih =>
    obtain ⟨hm, hrest⟩ := List.forall_mem_cons.mp h
    have htail := ih hrest
    rw [passed, List.map_cons, List.sum_cons]
    split <;> omega

theorem passed_mono (h : ∀ m ∈ ms, 0 < m.amount) (hle : L ≤ L') :
    passed L ms ≤ passed L' ms := by
  induction ms with
  | nil => exact le_rfl
  | cons m rest ih =>
    obtain ⟨hm, hrest⟩ := List.forall_mem_cons.mp h
    have htail := ih hrest
    rw [passed, passed]
    split <;> split <;> omega

/-- Summing up positive tranches stays in the `i128` range if their sum does. -/
theorem milestoneTotal_runs {total : ℤ} (h : ∀ m ∈ ms, 0 < m.amount) (htotal : 0 ≤ total)
    (hmax : total + (ms.map (·.amount)).sum ≤ I128.MAX) :
    Runs (milestoneTotal effective ms total) env s (total + passed effective ms) s := by
  induction ms generalizing total with
  | nil => simp [milestoneTotal, passed]
  | cons m rest ih =>
    obtain ⟨hm, hrest⟩ := List.forall_mem_cons.mp h
    rw [List.map_cons, List.sum_cons] at hmax
    have hpassed : 0 ≤ passed effective rest := passed_nonneg hrest
    have hnonneg := hpassed.trans (passed_le_sum hrest)
    rw [milestoneTotal, passed]
    split
    · rw [runs_i128_bind, ← add_assoc]
      refine ⟨⟨?_, by omega⟩, ih hrest (by omega) (by omega)⟩
      have hmin : I128.MIN ≤ 0 := by decide
      omega
    · rw [zero_add]
      exact ih hrest htotal (by omega)

end Tranches

section Curve

/-- Inside the window the linear part is the elapsed share of the total, rounded down. -/
theorem linear_window (hc : stored.schedule.cliffLedger ≤ L) (he : L < stored.schedule.endLedger)
    (htotal : 0 ≤ stored.schedule.totalAmount) :
    linear stored L = stored.schedule.totalAmount * (L - stored.startLedger : ℕ) /
      (stored.schedule.endLedger - stored.startLedger : ℕ) := by
  rw [linear, if_neg (by omega), if_neg (by omega)]
  exact Int.tdiv_eq_ediv_of_nonneg (mul_nonneg htotal (by omega))

theorem linear_nonneg (h : Accepted id ms stored) : 0 ≤ linear stored L := by
  have htotal := h.total_pos.le
  by_cases hc : L < stored.schedule.cliffLedger
  · rw [linear, if_pos hc]
  · by_cases he : stored.schedule.endLedger ≤ L
    · rw [linear, if_neg hc, if_pos he]
      exact htotal
    · rw [linear_window (by omega) (by omega) htotal]
      exact Int.ediv_nonneg (mul_nonneg htotal (by omega)) (by omega)

theorem linear_le (h : Accepted id ms stored) :
    linear stored L ≤ stored.schedule.totalAmount := by
  have htotal := h.total_pos.le
  by_cases hc : L < stored.schedule.cliffLedger
  · rw [linear, if_pos hc]
    exact htotal
  · by_cases he : stored.schedule.endLedger ≤ L
    · rw [linear, if_neg hc, if_pos he]
    · have hstart := h.start_le
      rw [linear_window (by omega) (by omega) htotal]
      refine Int.ediv_le_of_le_mul (by omega) ?_
      exact mul_le_mul_of_nonneg_left (by omega) htotal

theorem linear_mono (h : Accepted id ms stored) : Monotone (linear stored) := by
  intro L L' hle
  have htotal := h.total_pos.le
  by_cases hc : L < stored.schedule.cliffLedger
  · rw [linear, if_pos hc]
    exact linear_nonneg h
  · by_cases he : stored.schedule.endLedger ≤ L'
    · have hend : linear stored L' = stored.schedule.totalAmount := by
        rw [linear, if_neg (by omega), if_pos he]
      rw [hend]
      exact linear_le h
    · have hstart := h.start_le
      rw [linear_window (by omega) (by omega) htotal, linear_window (by omega) (by omega) htotal]
      refine Int.ediv_le_ediv (by omega) ?_
      exact mul_le_mul_of_nonneg_left (by omega) htotal

theorem vested_nonneg (h : Accepted id ms stored) : 0 ≤ vested ms stored L := by
  unfold vested
  split
  · exact le_rfl
  · exact le_min h.total_pos.le (le_max_of_le_left (linear_nonneg h))

theorem vested_mono (h : Accepted id ms stored) : Monotone (vested ms stored) := by
  intro L L' hle
  by_cases hc : L < stored.schedule.cliffLedger
  · rw [vested, if_pos hc]
    exact vested_nonneg h
  · rw [vested, vested, if_neg hc, if_neg (by omega)]
    exact min_le_min le_rfl (max_le_max (linear_mono h hle) (passed_mono h.tranches_pos hle))

theorem linear_le_vested (h : Accepted id ms stored) :
    linear stored L ≤ vested ms stored L := by
  unfold vested
  split
  · rename_i hc
    rw [linear, if_pos hc]
  · exact le_min (linear_le h) (le_max_left _ _)

theorem vested_end (h : Accepted id ms stored) (he : stored.schedule.endLedger ≤ L) :
    vested ms stored L = stored.schedule.totalAmount := by
  have hc := h.cliff_le
  have hall : linear stored L = stored.schedule.totalAmount := by
    rw [linear, if_neg (by omega), if_pos he]
  refine le_antisymm (vested_le h.total_pos.le) ?_
  rw [← hall]
  exact linear_le_vested h

theorem effectiveLedger_mono : Monotone (effectiveLedger stored) := by
  intro L L' hle
  unfold effectiveLedger
  split
  · split <;> split <;> omega
  · exact hle

theorem effectiveLedger_le : effectiveLedger stored L ≤ L := by
  unfold effectiveLedger
  split
  · split <;> omega
  · exact le_rfl

end Curve

section Computed

/-- The one product that is formed, inside the window between cliff and end, fits an `i128`. -/
def Fits (stored : StoredVestingSchedule) (L : ℕ) : Prop :=
  stored.schedule.cliffLedger ≤ L → L < stored.schedule.endLedger →
    I128.InRange (stored.schedule.totalAmount * (L - stored.startLedger : ℕ))

theorem runs_linearVestedAmount_iff (hstart : stored.startLedger ≤ stored.schedule.cliffLedger) :
    Runs (linearVestedAmount stored L) env s v s' ↔
      Fits stored L ∧ v = linear stored L ∧ s' = s := by
  constructor
  · intro h
    refine ⟨?_, runs_linearVestedAmount h⟩
    intro hc he
    simp only [linearVestedAmount, runs_ite, runs_unsignedSub_bind, runs_i128_bind, runs_pure] at h
    rcases h with ⟨hlt, -⟩ | ⟨-, ⟨hle, -⟩ | ⟨-, -, -, hr, -⟩⟩
    · omega
    · omega
    · exact hr
  · rintro ⟨hfits, rfl, rfl⟩
    unfold linear
    simp only [linearVestedAmount, runs_ite, runs_unsignedSub_bind, runs_i128_bind, runs_pure,
      and_true]
    by_cases hc : L < stored.schedule.cliffLedger
    · exact Or.inl ⟨hc, by rw [if_pos hc]⟩
    · by_cases he : stored.schedule.endLedger ≤ L
      · exact Or.inr ⟨hc, Or.inl ⟨he, by rw [if_neg hc, if_pos he]⟩⟩
      · exact Or.inr ⟨hc, Or.inr ⟨he, by omega, by omega, hfits (by omega) (by omega),
          by rw [if_neg hc, if_neg he]⟩⟩

/-- Of an accepted schedule the vested amount is computed exactly when that product fits. -/
theorem runs_vestedAmount_iff (h : Accepted id (s.milestones id) stored) :
    Runs (vestedAmount stored L) env s v s' ↔
      Fits stored (effectiveLedger stored L) ∧ v = s.vested stored L ∧ s' = s := by
  constructor
  · intro hr
    refine ⟨?_, runs_vestedAmount hr⟩
    simp only [vestedAmount, runs_ite, runs_pure] at hr
    rcases hr with ⟨hc, -⟩ | ⟨-, hr⟩
    · intro hge
      omega
    · obtain ⟨l, s₁, hl, -⟩ := runs_bind.mp hr
      exact ((runs_linearVestedAmount_iff h.start_le).mp hl).1
  · rintro ⟨hfits, rfl, rfl⟩
    have hsum : 0 + ((s'.milestones stored.scheduleId).map (·.amount)).sum ≤ I128.MAX := by
      rw [zero_add, h.id_eq]
      exact h.tranches_le.trans h.total_le
    have htranches : ∀ m ∈ s'.milestones stored.scheduleId, 0 < m.amount := by
      rw [h.id_eq]
      exact h.tranches_pos
    have hl : Runs (linearVestedAmount stored (effectiveLedger stored L)) env s'
        (linear stored (effectiveLedger stored L)) s' :=
      (runs_linearVestedAmount_iff h.start_le).mpr ⟨hfits, rfl, rfl⟩
    have hm : Runs (milestoneTotal (effectiveLedger stored L)
        (s'.milestones stored.scheduleId) 0) env s' _ s' :=
      milestoneTotal_runs htranches le_rfl hsum
    unfold Store.vested vested
    simp only [vestedAmount, runs_ite, runs_pure, and_true]
    by_cases hc : effectiveLedger stored L < stored.schedule.cliffLedger
    · exact Or.inl ⟨hc, by rw [if_pos hc]⟩
    · refine Or.inr ⟨hc, runs_bind.mpr ⟨_, s', hl, ?_⟩⟩
      rw [runs_gets_bind]
      refine runs_bind.mpr ⟨_, s', hm, runs_pure.mpr ⟨?_, rfl⟩⟩
      rw [if_neg hc, zero_add, min_def]
      split <;> split <;> omega

end Computed

end BcForge.Vesting
