import BcForge.Admin.Rbac

/-! Emergency pause, shared by the contracts that can be frozen. -/
namespace BcForge.Lifecycle

open Soroban Call

variable {σ ε : Type} (access : Lens σ Admin.Store) (paused : Lens σ Bool)
  (wrap : Admin.AdminError → ε)

def pause (caller : Address) : Call σ ε Unit := do
  within access wrap (Admin.requireRole .pauser caller)
  let isPaused ← gets paused.get
  trapIf (isPaused = true) (.panic "contract is already paused")
  modify (paused.set true)

def unpause (caller : Address) : Call σ ε Unit := do
  within access wrap (Admin.requirePauser caller)
  let isPaused ← gets paused.get
  trapIf (isPaused = false) (.panic "contract is not paused")
  modify (paused.set false)

def requireNotPaused : Call σ ε Unit := do
  let isPaused ← gets paused.get
  trapIf (isPaused = true) (.panic "contract is paused")

variable {env : Env} {s s' : σ} {u : Unit} {c : Address} {access : Lens σ Admin.Store}
  {paused : Lens σ Bool} {wrap : Admin.AdminError → ε}

theorem runs_pause : Runs (pause access paused wrap c) env s u s' ↔
    Admin.hasRole (access.get s) .pauser c = true ∧ env.Authorized c ∧
      paused.get (access.set (access.get s) s) = false ∧
      s' = paused.set true (access.set (access.get s) s) := by
  simp [pause, runs_bind, and_assoc, Unique.exists_iff]

theorem runs_unpause : Runs (unpause access paused wrap c) env s u s' ↔
    Admin.hasRole (access.get s) .pauser c = true ∧ env.Authorized c ∧
      paused.get (access.set (access.get s) s) = true ∧
      s' = paused.set false (access.set (access.get s) s) := by
  simp [unpause, Admin.requirePauser, runs_bind, and_assoc, Unique.exists_iff]

end BcForge.Lifecycle
