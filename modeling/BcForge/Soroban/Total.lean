import Mathlib.Algebra.BigOperators.Group.Finset.Basic
import Mathlib.Algebra.Order.BigOperators.Group.Finset
import Mathlib.Algebra.BigOperators.Finprod
import Mathlib.Tactic.Abel

/-! Totals of finitely supported amounts, such as the balances of all accounts. -/
namespace Soroban

section Group

variable {ι M : Type*} [AddCommGroup M] {f : ι → M} {t : M}

/-- Only finitely many entries are nonzero, and they add up to `t`. -/
def HasTotal (f : ι → M) (t : M) : Prop :=
  ∃ keys : Finset ι, (∀ i, i ∉ keys → f i = 0) ∧ ∑ i ∈ keys, f i = t

theorem hasTotal_zero : HasTotal (fun _ : ι => (0 : M)) 0 :=
  ⟨∅, by simp, by simp⟩

theorem HasTotal.finsum_eq (h : HasTotal f t) : ∑ᶠ i, f i = t := by
  obtain ⟨keys, hz, rfl⟩ := h
  apply finsum_eq_sum_of_support_subset
  intro i hi
  by_contra hn
  exact hi (hz i (by simpa using hn))

theorem HasTotal.unique {t' : M} (h : HasTotal f t) (h' : HasTotal f t') : t' = t :=
  h'.finsum_eq.symm.trans h.finsum_eq

theorem HasTotal.update [DecidableEq ι] (h : HasTotal f t) (i : ι) (v : M) :
    HasTotal (Function.update f i v) (t + (v - f i)) := by
  obtain ⟨keys, hz, rfl⟩ := h
  refine ⟨insert i keys, ?_, ?_⟩
  · intro j hj
    rw [Finset.mem_insert, not_or] at hj
    rw [Function.update_of_ne hj.1, hz j hj.2]
  · have hsum : ∑ j ∈ keys, f j = ∑ j ∈ insert i keys, f j := by
      by_cases hi : i ∈ keys
      · rw [Finset.insert_eq_of_mem hi]
      · rw [Finset.sum_insert hi, hz i hi, zero_add]
    rw [hsum, Finset.sum_update_of_mem (Finset.mem_insert_self i keys),
      ← Finset.sum_sdiff (Finset.singleton_subset_iff.mpr (Finset.mem_insert_self i keys)),
      Finset.sum_singleton]
    abel

theorem HasTotal.add {g : ι → M} {u : M} (h : HasTotal f t) (hg : HasTotal g u) :
    HasTotal (f + g) (t + u) := by
  classical
  obtain ⟨keys, hz, rfl⟩ := h
  obtain ⟨keys', hz', rfl⟩ := hg
  refine ⟨keys ∪ keys', ?_, ?_⟩
  · intro i hi
    rw [Finset.mem_union, not_or] at hi
    rw [Pi.add_apply, hz i hi.1, hz' i hi.2, add_zero]
  · rw [Finset.sum_subset Finset.subset_union_left fun i _ hi => hz i hi,
      Finset.sum_subset Finset.subset_union_right fun i _ hi => hz' i hi]
    exact Finset.sum_add_distrib

theorem HasTotal.sub {g : ι → M} {u : M} (h : HasTotal f t) (hg : HasTotal g u) :
    HasTotal (f - g) (t - u) := by
  have hneg : HasTotal (-g) (-u) := by
    obtain ⟨keys, hz, rfl⟩ := hg
    refine ⟨keys, ?_, ?_⟩
    · intro i hi
      rw [Pi.neg_apply, hz i hi, neg_zero]
    · simp
  rw [sub_eq_add_neg, sub_eq_add_neg]
  exact h.add hneg

/-- Moving an amount between two entries keeps the total. -/
theorem HasTotal.move [DecidableEq ι] (h : HasTotal f t) {i j : ι} (hij : i ≠ j) (x : M) :
    HasTotal (Function.update (Function.update f i (f i - x)) j (f j + x)) t := by
  have hu := (h.update i (f i - x)).update j (f j + x)
  rw [Function.update_of_ne hij.symm] at hu
  convert hu using 1
  abel

end Group

section Order

variable {ι M : Type*} [AddCommGroup M] [PartialOrder M] [IsOrderedAddMonoid M]
  {f : ι → M} {t : M}

theorem HasTotal.le (h : HasTotal f t) (hn : ∀ i, 0 ≤ f i) (i : ι) : f i ≤ t := by
  obtain ⟨keys, hz, rfl⟩ := h
  by_cases hi : i ∈ keys
  · exact Finset.single_le_sum (fun j _ => hn j) hi
  · rw [hz i hi]
    exact Finset.sum_nonneg fun j _ => hn j

theorem HasTotal.nonneg (h : HasTotal f t) (hn : ∀ i, 0 ≤ f i) : 0 ≤ t := by
  obtain ⟨keys, _, rfl⟩ := h
  exact Finset.sum_nonneg fun j _ => hn j

/-- Entries that stay below others of the same total are equal to them. -/
theorem HasTotal.eq_of_le {g : ι → M} (h : HasTotal f t) (hg : HasTotal g t)
    (hle : ∀ i, f i ≤ g i) : f = g := by
  have hd : HasTotal (g - f) 0 := by simpa using hg.sub h
  funext i
  have hi := hd.le (fun j => sub_nonneg.mpr (hle j)) i
  exact le_antisymm (hle i) (sub_nonpos.mp hi)

/-- Two different entries together stay within the total. -/
theorem HasTotal.add_le [DecidableEq ι] (h : HasTotal f t) (hn : ∀ i, 0 ≤ f i) {i j : ι}
    (hij : i ≠ j) : f i + f j ≤ t := by
  have hz : HasTotal (Function.update f i 0) (t - f i) := by
    simpa [sub_eq_add_neg] using h.update i 0
  have hj := hz.le (i := j) fun k => by
    by_cases hk : k = i
    · simp [hk]
    · simpa [Function.update_of_ne hk] using hn k
  rw [Function.update_of_ne hij.symm] at hj
  exact le_sub_iff_add_le'.mp hj

/-- So do any number of different ones. -/
theorem HasTotal.sum_map_le [DecidableEq ι] (h : HasTotal f t) (hn : ∀ i, 0 ≤ f i) {is : List ι}
    (hnd : is.Nodup) : (is.map f).sum ≤ t := by
  obtain ⟨keys, hz, rfl⟩ := h
  calc (is.map f).sum = ∑ i ∈ is.toFinset, f i := (List.sum_toFinset f hnd).symm
    _ ≤ ∑ i ∈ is.toFinset ∪ keys, f i :=
      Finset.sum_le_sum_of_subset_of_nonneg Finset.subset_union_left fun i _ _ => hn i
    _ = ∑ i ∈ keys, f i := (Finset.sum_subset Finset.subset_union_right fun i _ hi => hz i hi).symm

end Order

end Soroban
