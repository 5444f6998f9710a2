import Mathlib.Data.List.Basic

/-! Isolation in an interleaving: what a view shows after a run is what it shows after the run's own
actions alone, if the others leave it as it is. -/
namespace Concurrent

variable {σ α ω : Type} {step : σ → α → σ} {view : σ → ω} {Inv : σ → Prop} {Free : α → Prop}
  {own : α → Bool} {s t : σ} {actions : List α}

/-- Every action keeps the invariant, one that is not its own leaves the view alone, and what an own
one does to the view depends on nothing else. -/
structure Isolated (step : σ → α → σ) (view : σ → ω) (Inv : σ → Prop) (Free : α → Prop)
    (own : α → Bool) : Prop where
  keeps : ∀ s a, Inv s → Free a → Inv (step s a)
  quiet : ∀ s a, Inv s → Free a → own a = false → view (step s a) = view s
  same : ∀ s t a, Inv s → Inv t → Free a → view s = view t → own a = true →
    view (step s a) = view (step t a)

theorem Isolated.invariant (h : Isolated step view Inv Free own) (hs : Inv s)
    (hfree : ∀ a ∈ actions, Free a) : Inv (actions.foldl step s) := by
  induction actions generalizing s with
  | nil => exact hs
  | cons a actions ih =>
    have ha := hfree a List.mem_cons_self
    exact ih (h.keeps s a hs ha) fun b hb => hfree b (List.mem_cons_of_mem a hb)

/-- Two runs from states of one view stay together, the second with the own actions only. -/
theorem Isolated.together (h : Isolated step view Inv Free own) (hs : Inv s) (ht : Inv t)
    (hview : view s = view t) (hfree : ∀ a ∈ actions, Free a) :
    view (actions.foldl step s) = view ((actions.filter own).foldl step t) := by
  induction actions generalizing s t with
  | nil => exact hview
  | cons a actions ih =>
    have ha := hfree a List.mem_cons_self
    have hrest : ∀ b ∈ actions, Free b := fun b hb => hfree b (List.mem_cons_of_mem a hb)
    have hkept := h.keeps s a hs ha
    rw [List.foldl_cons]
    cases hown : own a with
    | true =>
      rw [List.filter_cons_of_pos hown, List.foldl_cons]
      exact ih hkept (h.keeps t a ht ha) (h.same s t a hs ht ha hview hown) hrest
    | false =>
      rw [List.filter_cons_of_neg (by simp [hown])]
      exact ih hkept ht ((h.quiet s a hs ha hown).trans hview) hrest

/-- The actions of others can be taken out of a run. -/
theorem Isolated.run (h : Isolated step view Inv Free own) (hs : Inv s)
    (hfree : ∀ a ∈ actions, Free a) :
    view (actions.foldl step s) = view ((actions.filter own).foldl step s) :=
  h.together hs hs rfl hfree

end Concurrent
