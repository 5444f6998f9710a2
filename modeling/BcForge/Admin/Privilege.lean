import BcForge.Admin.Frame
import BcForge.Admin.Spec
import BcForge.Soroban.Delay

/-! Privileged actions as delayed actions: what the stored proposals let through, and when. -/
namespace BcForge.Admin

open Soroban Call

/-- When the proposal can be used, unless it was used or withdrawn. -/
def PrivilegeProposal.deadline (p : PrivilegeProposal) : Option ℕ :=
  if p.executed = true ∨ p.cancelled = true then none else some p.executableAt

def deadlines (s : Store) (action : PrivilegeAction) : Option ℕ :=
  (s.privilegeProposal action).bind PrivilegeProposal.deadline

/-- Every stored proposal is filed under its own action. -/
def Keyed (s : Store) : Prop :=
  ∀ action p, s.privilegeProposal action = some p → p.action = action

variable {env : Env} {s s' : Store} {action : PrivilegeAction} {p : PrivilegeProposal} {u : Unit}
  {x : Address}

theorem deadlines_writePrivilegeProposal : deadlines (writePrivilegeProposal p s) =
    Function.update (deadlines s) p.action p.deadline := by
  funext a
  by_cases ha : a = p.action
  · subst ha
    simp [deadlines, writePrivilegeProposal]
  · simp [deadlines, writePrivilegeProposal, Function.update_of_ne ha]

theorem keyed_writePrivilegeProposal (h : Keyed s) : Keyed (writePrivilegeProposal p s) := by
  intro a q hq
  by_cases ha : a = p.action
  · subst ha
    simp only [writePrivilegeProposal, Function.update_self, Option.some.injEq] at hq
    rw [← hq]
  · simp only [writePrivilegeProposal, Function.update_of_ne ha] at hq
    exact h a q hq

theorem keyed_of_eq (h : Keyed s) (he : s'.privilegeProposal = s.privilegeProposal) :
    Keyed s' := by
  intro a p hp
  rw [he] at hp
  exact h a p hp

theorem deadlines_of_eq (he : s'.privilegeProposal = s.privilegeProposal) :
    deadlines s' = deadlines s := by
  funext a
  rw [deadlines, deadlines, he]

theorem step_proposePrivilegeAction {n : ℕ} (hk : Keyed s)
    (h : Runs (proposePrivilegeAction x action) env s n s') :
    Delay.Step privilegeActionDelaySecs (deadlines s)
      (some (.proposed action env.ledger.timestamp)) (deadlines s') ∧ Keyed s' := by
  simp only [proposePrivilegeAction, requireAdmin, runs_requireRoleGuard_bind, runs_gets_bind,
    runs_failIf_bind, runs_ledger_bind, runs_u64_bind, runs_modify_bind, runs_pure] at h
  obtain ⟨-, -, -, -, -, rfl⟩ := h
  refine ⟨?_, keyed_writePrivilegeProposal hk⟩
  rw [deadlines_writePrivilegeProposal]
  exact .propose action env.ledger.timestamp

theorem step_cancelPrivilegeAction (hk : Keyed s)
    (h : Runs (cancelPrivilegeAction x action) env s u s') :
    Delay.Step privilegeActionDelaySecs (deadlines s) (some (.withdrawn action)) (deadlines s') ∧
      Keyed s' := by
  simp only [cancelPrivilegeAction, requireAdmin, runs_requireRoleGuard_bind, runs_gets_bind,
    runs_okOr_bind, runs_failIf_bind, runs_modify] at h
  obtain ⟨-, -, p, hp, -, rfl⟩ := h
  refine ⟨?_, keyed_writePrivilegeProposal hk⟩
  rw [deadlines_writePrivilegeProposal]
  have hnone : PrivilegeProposal.deadline { p with cancelled := true } = none := by
    simp [PrivilegeProposal.deadline]
  rw [hnone]
  obtain rfl : p.action = action := hk action p hp
  exact .withdraw p.action

/-- A proposal that is let through has waited for its time, and is spent. -/
theorem step_consumePrivilegeProposal (hk : Keyed s)
    (h : Runs (consumePrivilegeProposal action) env s u s') :
    Delay.Step privilegeActionDelaySecs (deadlines s)
      (some (.used action env.ledger.timestamp)) (deadlines s') ∧ Keyed s' := by
  simp only [consumePrivilegeProposal, runs_gets_bind, runs_okOr_bind, runs_failIf_bind,
    runs_ledger_bind, runs_modify, not_lt] at h
  obtain ⟨p, hp, hlive, hdue, rfl⟩ := h
  refine ⟨?_, keyed_writePrivilegeProposal hk⟩
  rw [deadlines_writePrivilegeProposal]
  have hnone : PrivilegeProposal.deadline { p with executed := true } = none := by
    simp [PrivilegeProposal.deadline]
  rw [hnone]
  obtain rfl : p.action = action := hk action p hp
  have hdeadline : deadlines s p.action = some p.executableAt := by
    simp [deadlines, hp, PrivilegeProposal.deadline, hlive]
  exact .use p.action _ _ hdeadline hdue

end BcForge.Admin
