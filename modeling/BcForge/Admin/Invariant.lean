import BcForge.Admin.Spec

/-! Runs of the access-control library: what holds in every reachable state. -/
namespace BcForge.Admin

open Soroban

variable {w : World Store} {l : Label Op} {ls : List (Label Op)} {id : ℕ}

/-- Between calls the reentrancy flag is down and the proposal flow is well formed. -/
structure Sound (w : World Store) : Prop where
  guard : w.store.adminProposalGuard = false
  flow : w.store.flow.Wellformed w.self

theorem sound_empty (h : w.store = Store.empty) : Sound w := by
  refine ⟨?_, ⟨?_, ?_, ?_⟩⟩
  · rw [h]
    rfl
  · intro id _
    rw [h]
    exact ⟨rfl, rfl, rfl⟩
  · intro id p hp
    rw [h] at hp
    cases hp
  · intro id p hp
    rw [h] at hp
    cases hp

/-- What one step of a run does. -/
theorem next_moves (w : World Store) (l : Label Op) :
    (w.next exec l).store = w.store ∨
      ∃ signers uploaded op, l = .call signers uploaded op ∧
        (Moves (w.env signers uploaded) op.votes w.store (w.next exec l).store ∨
          Repools op w.store (w.next exec l).store) := by
  rcases World.next_cases exec w l with ⟨hs, -⟩ | ⟨signers, uploaded, op, rfl, hr⟩
  · exact Or.inl hs
  · exact Or.inr ⟨signers, uploaded, op, rfl, exec_moves hr⟩

theorem sound_next (h : Sound w) : Sound (w.next exec l) := by
  rcases next_moves w l with hs | ⟨signers, uploaded, op, rfl, hm | hr⟩
  · refine ⟨?_, ?_⟩
    · rw [hs]
      exact h.guard
    · rw [hs, World.next_self]
      exact h.flow
  · refine ⟨hm.guard h.guard, ?_⟩
    rw [World.next_self]
    refine Flow.step_wellformed ?_ h.flow hm.step
    intro a ha
    exact ((w.env_authorized signers uploaded a).mp ha).1
  · refine ⟨hr.guard.trans h.guard, ?_⟩
    rw [hr.flow]
    exact h.flow

theorem sound_run (h : w.store = Store.empty) (ls : List (Label Op)) : Sound (w.run exec ls) :=
  World.run_induction (sound_empty h) fun _ _ hs => sound_next hs

theorem evolves_next (h : Sound w) (l : Label Op) :
    Flow.Evolves w.store.flow (w.next exec l).store.flow := by
  rcases next_moves w l with hs | ⟨signers, uploaded, op, rfl, hm | hr⟩
  · rw [hs]
    exact Flow.Evolves.refl _
  · exact Flow.step_evolves h.flow hm.step
  · rw [hr.flow]
    exact Flow.Evolves.refl _

theorem evolves_run (h : Sound w) (ls : List (Label Op)) :
    Flow.Evolves w.store.flow (w.run exec ls).store.flow := by
  induction ls generalizing w with
  | nil => exact Flow.Evolves.refl _
  | cons l ls ih => exact (evolves_next h l).trans (ih (sound_next h))

end BcForge.Admin
