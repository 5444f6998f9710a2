import Mathlib.Data.List.Count
import Mathlib.Data.Nat.Basic

/-! A counter with a limit whose window is restarted by the first event after it is over: windows
tumble, and an interval of their width meets at most two of them. -/
namespace Soroban

structure Meter where
  count : ℕ
  start : ℕ

namespace Meter

/-- What an event at `now` can do to the counter; the flag tells whether it was counted. -/
inductive Step (limit width now : ℕ) : Meter → Bool → Meter → Prop
  | idle (m : Meter) : Step limit width now m false m
  | hit (m : Meter) : m.count < limit → now < m.start + width →
      Step limit width now m true ⟨m.count + 1, m.start⟩
  | restart (m : Meter) : m.start + width ≤ now → Step limit width now m false ⟨0, now⟩
  | restartHit (m : Meter) : m.start + width ≤ now → 0 < limit →
      Step limit width now m true ⟨1, now⟩

variable {limit width now t : ℕ} {m m' : Meter} {counted : Bool}
  {old cur hits : List ℕ}

/-- How many of the events fall into the `width` ticks from `t` on. -/
def within (t width : ℕ) (h : List ℕ) : ℕ := h.countP fun x => t ≤ x ∧ x < t + width

theorem within_append (h h' : List ℕ) :
    within t width (h ++ h') = within t width h + within t width h' :=
  List.countP_append

theorem within_le_length (h : List ℕ) : within t width h ≤ h.length := List.countP_le_length

/-- The events counted by `now`: those of the current window, and those of the windows before it, of
which an interval that reaches into the current window sees the last one only. -/
structure Paced (limit width now : ℕ) (m : Meter) (old cur : List ℕ) : Prop where
  current : cur.length ≤ m.count
  bounded : m.count ≤ limit
  fresh : ∀ x ∈ cur, x < m.start + width
  opened : old = [] ∨ m.start ≤ now ∧ ∀ x ∈ cur, m.start ≤ x
  past : ∀ x ∈ old, x < m.start
  reach : ∀ t, m.start < t + width → old.countP (fun x => t ≤ x) ≤ limit
  twice : ∀ t, within t width old ≤ 2 * limit

theorem paced_nil (hm : m.count ≤ limit) : Paced limit width now m [] [] where
  current := Nat.zero_le _
  bounded := hm
  fresh _ hx := absurd hx List.not_mem_nil
  opened := Or.inl rfl
  past _ hx := absurd hx List.not_mem_nil
  reach _ _ := Nat.zero_le _
  twice _ := Nat.zero_le _

theorem Paced.current_le (h : Paced limit width now m old cur) : cur.length ≤ limit :=
  Nat.le_trans h.current h.bounded

theorem Paced.later {now' : ℕ} (h : Paced limit width now m old cur) (hle : now ≤ now') :
    Paced limit width now' m old cur :=
  { h with opened := h.opened.imp_right fun ho => ⟨Nat.le_trans ho.1 hle, ho.2⟩ }

/-- An interval of the window's width meets the current window and one before it, or none of the
current one. -/
theorem Paced.within_le (h : Paced limit width now m old cur) :
    within t width (old ++ cur) ≤ 2 * limit := by
  have hcur : within t width cur ≤ cur.length := within_le_length cur
  have hlimit := h.current_le
  rw [within_append]
  by_cases hmeet : ∃ x ∈ cur, t ≤ x ∧ x < t + width
  · obtain ⟨x, hx, -, hlt⟩ := hmeet
    rcases h.opened with rfl | ⟨-, hopened⟩
    · have hnil : within t width [] = 0 := rfl
      omega
    · have hstart := hopened x hx
      have hreach := h.reach t (by omega)
      have hold : within t width old ≤ old.countP (fun x => t ≤ x) := by
        refine List.countP_mono_left fun x _ hin => ?_
        simp only [decide_eq_true_eq] at hin ⊢
        exact hin.1
      omega
  · have hzero : within t width cur = 0 := by
      refine List.countP_eq_zero.mpr fun x hx hin => ?_
      exact hmeet ⟨x, hx, of_decide_eq_true hin⟩
    have htwice := h.twice t
    omega

/-- A restart closes the current window: an interval that reaches `now` sees nothing older. -/
theorem Paced.restart (h : Paced limit width now m old cur) (hw : 0 < width)
    (hnow : m.start + width ≤ now) : Paced limit width now ⟨0, now⟩ (old ++ cur) [] where
  current := Nat.zero_le _
  bounded := Nat.zero_le _
  fresh _ hx := absurd hx List.not_mem_nil
  opened := Or.inr ⟨Nat.le_refl now, fun _ hx => absurd hx List.not_mem_nil⟩
  past x hx := by
    change x < now
    rcases List.mem_append.mp hx with hx | hx
    · have hpast := h.past x hx
      omega
    · have hfresh := h.fresh x hx
      omega
  reach t ht := by
    change now < t + width at ht
    have hold : old.countP (fun x => t ≤ x) = 0 := by
      refine List.countP_eq_zero.mpr fun x hx hle => ?_
      have hpast := h.past x hx
      have hle := of_decide_eq_true hle
      omega
    have hcur : cur.countP (fun x => t ≤ x) ≤ cur.length := List.countP_le_length
    have hlimit := h.current_le
    rw [List.countP_append]
    omega
  twice _ := h.within_le

/-- At most one more event in the current window. -/
theorem Paced.hit (h : Paced limit width now m old cur) (hlt : m.count < limit)
    (hend : now < m.start + width) (hlen : hits.length ≤ 1) (hnow : ∀ x ∈ hits, x = now) :
    Paced limit width now ⟨m.count + 1, m.start⟩ old (cur ++ hits) where
  current := by
    have hcur := h.current
    simp only [List.length_append]
    omega
  bounded := hlt
  fresh x hx := by
    rcases List.mem_append.mp hx with hx | hx
    · exact h.fresh x hx
    · rw [hnow x hx]
      exact hend
  opened := by
    refine h.opened.imp_right fun ⟨hstart, hcur⟩ => ⟨hstart, fun x hx => ?_⟩
    rcases List.mem_append.mp hx with hx | hx
    · exact hcur x hx
    · rw [hnow x hx]
      exact hstart
  past := h.past
  reach := h.reach
  twice := h.twice

/-- Of the events at `now` at most the counted one is recorded. -/
theorem Paced.step (h : Paced limit width now m old cur) (hw : 0 < width)
    (hs : Step limit width now m counted m') (hlen : hits.length ≤ counted.toNat)
    (hnow : ∀ x ∈ hits, x = now) :
    ∃ old' cur', old' ++ cur' = old ++ cur ++ hits ∧ Paced limit width now m' old' cur' := by
  cases hs with
  | idle =>
    rw [List.length_eq_zero_iff.mp (Nat.le_zero.mp hlen)]
    exact ⟨old, cur, by simp, h⟩
  | hit hlt hend => exact ⟨old, cur ++ hits, by simp, h.hit hlt hend hlen hnow⟩
  | restart hover =>
    rw [List.length_eq_zero_iff.mp (Nat.le_zero.mp hlen)]
    exact ⟨old ++ cur, [], by simp, h.restart hw hover⟩
  | restartHit hover hpos =>
    have hend : now < now + width := by omega
    exact ⟨old ++ cur, hits, rfl, (h.restart hw hover).hit hpos hend hlen hnow⟩

/-- The counter covers the events recorded since it was last restarted. -/
theorem step_covers (hs : Step limit width now m counted m') (hstart : m'.start = m.start)
    (hw : 0 < width) : m.count + counted.toNat ≤ m'.count := by
  cases hs with
  | idle => exact Nat.le_refl _
  | hit hlt hend => exact Nat.le_refl _
  | restart hover =>
    change now = m.start at hstart
    omega
  | restartHit hover hpos =>
    change now = m.start at hstart
    omega

theorem step_counted (hs : Step limit width now m counted m') : counted.toNat ≤ m'.count := by
  cases hs with
  | idle => exact Nat.zero_le _
  | hit hlt hend => exact Nat.le_add_left 1 _
  | restart hover => exact Nat.zero_le _
  | restartHit hover hpos => exact Nat.le_refl 1

end Meter

end Soroban
