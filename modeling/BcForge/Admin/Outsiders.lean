import BcForge.Admin.Spec

/-! Accounts that have no part in the administration, and what they cannot sign for. -/
namespace BcForge.Admin

open Soroban Call

/-- No role on record, not the stored administrator, no seat in the pool. -/
structure Outsider (s : Store) (a : Address) : Prop where
  roleless : ∀ r, loadRoleMask s a &&& roleBit r = 0#32
  not_admin : s.admin ≠ some a
  not_member : a ∉ getAdminPool s

instance (s : Store) (a : Address) : Decidable (Outsider s a) :=
  decidable_of_iff ((∀ r ∈ allRoles, loadRoleMask s a &&& roleBit r = 0#32) ∧
    s.admin ≠ some a ∧ a ∉ getAdminPool s)
    ⟨fun h => ⟨fun r => h.1 r (by cases r <;> decide), h.2.1, h.2.2⟩,
      fun h => ⟨fun r _ => h.roleless r, h.not_admin, h.not_member⟩⟩

variable {env : Env} {s s' : Store} {α : Type} {v : α} {a c : Address} {r : Role} {u : Unit}
  {k : Unit → AdminCall α} {id n : ℕ}

theorem Outsider.hasRole (h : Outsider s a) (r : Role) : hasRole s r a = false := by
  unfold Admin.hasRole
  split
  · rfl
  · simp [h.roleless]

theorem Outsider.isAdminOrPauser (h : Outsider s a) : isAdminOrPauser s a = false := by
  simp [Admin.isAdminOrPauser, h.roleless]

/-- Somebody with a part in the administration has signed for the call. -/
def InsiderSigned (env : Env) (s : Store) : Prop := ∃ a, env.Authorized a ∧ ¬ Outsider s a

theorem insider_of_role (hc : env.Authorized c) (h : hasRole s r c = true) :
    InsiderSigned env s := by
  refine ⟨c, hc, ?_⟩
  intro hout
  rw [hout.hasRole] at h
  cases h

theorem insider_of_member (hc : env.Authorized c) (h : c ∈ getAdminPool s) :
    InsiderSigned env s :=
  ⟨c, hc, fun hout => hout.not_member h⟩

theorem insider_of_guard (h : Runs (requireRoleGuard r c >>= k) env s v s') :
    InsiderSigned env s := by
  obtain ⟨hrole, hc, -⟩ := runs_requireRoleGuard_bind.mp h
  exact insider_of_role hc hrole

theorem insider_setAdminPool {pool : List Address}
    (h : Runs (setAdminPool pool n) env s u s') : InsiderSigned env s := by
  simp only [setAdminPool, runs_getAdmin_bind, runs_requireAuth_bind] at h
  obtain ⟨c, hadmin, hc, -⟩ := h
  exact ⟨c, hc, fun hout => hout.not_admin hadmin⟩

theorem insider_approveProposal (h : Runs (approveProposal c id) env s u s') :
    InsiderSigned env s := by
  rw [approveProposal, runs_withProposalGuard] at h
  obtain ⟨-, t, ht, -⟩ := h
  simp only [runs_requireAuth_bind, runs_gets_bind, runs_failIf_bind, not_not] at ht
  exact insider_of_member ht.1 ht.2.1

theorem insider_createProposal {description : String} {i : ℕ}
    (h : Runs (createProposal c description) env s i s') : InsiderSigned env s := by
  obtain ⟨hc, hm, -⟩ := runs_createProposal h
  exact insider_of_member hc hm

theorem insider_createRoleProposal {target : Address} {description : String} {i : ℕ}
    (h : Runs (createRoleProposal c r target description) env s i s') : InsiderSigned env s := by
  obtain ⟨hc, hm, -⟩ := runs_createRoleProposal h
  exact insider_of_member hc hm

theorem insider_executeRoleProposal (h : Runs (executeRoleProposal c id) env s u s') :
    InsiderSigned env s := by
  obtain ⟨-, hc, hm, -⟩ := runs_executeRoleProposal.mp h
  exact insider_of_member hc hm

theorem insider_executeUpgrade {hash : BytesN32} (h : Runs (executeUpgrade c id hash) env s u s') :
    InsiderSigned env s := by
  obtain ⟨-, hc, hm, -⟩ := runs_executeUpgrade.mp h
  exact insider_of_member hc hm

end BcForge.Admin
