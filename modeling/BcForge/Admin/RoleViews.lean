import BcForge.Admin.Roster

/-! The role operations over both storage layouts at once, and the views of the roles: what one
operation changes, and that all views agree after it. -/
namespace BcForge.Admin

open Soroban Call

/-- One address's roles across the whole hierarchy. -/
structure RoleHierarchy where
  address : Address
  isAdmin : Bool
  isSuperAdmin : Bool
  isMinter : Bool
  isPauser : Bool

def getRoleHierarchy (s : Store) (a : Address) : RoleHierarchy :=
  let bitmask := getRolesBitmask s a
  { address := a
    isAdmin := bitmask &&& roleBit .admin ≠ 0#32
    isSuperAdmin := bitmask &&& roleBit .superAdmin ≠ 0#32
    isMinter := bitmask &&& roleBit .minter ≠ 0#32
    isPauser := bitmask &&& roleBit .pauser ≠ 0#32 }

def RoleHierarchy.flag (h : RoleHierarchy) : Role → Bool
  | .admin => h.isAdmin
  | .minter => h.isMinter
  | .superAdmin => h.isSuperAdmin
  | .pauser => h.isPauser

variable {env : Env} {s s' : Store} {w : World Store} {a : Address} {r : Role} {u : Unit}

section Views

/-- The views of the roles of one address agree with each other and with the raw roles, of which
`Admin` stands for all. -/
structure Agree (s : Store) (a : Address) : Prop where
  raw : ∀ r, hasRole s r a = true ↔ s.roster.holds r a = true ∨ s.roster.holds .admin a = true
  bitmask : ∀ r, hasRole s r a = true ↔ getRolesBitmask s a &&& roleBit r ≠ 0#32
  hierarchy : ∀ r, (getRoleHierarchy s a).flag r = hasRole s r a
  adminOrPauser : isAdminOrPauser s a = true ↔
    hasRole s .admin a = true ∨ hasRole s .pauser a = true

theorem hasRole_iff (ha : a ≠ zeroAddress) :
    hasRole s r a = true ↔ s.roster.holds r a = true ∨ s.roster.holds .admin a = true := by
  unfold hasRole Store.roster
  rw [if_neg ha]
  dsimp only
  by_cases hadmin : loadRoleMask s a &&& roleBit .admin ≠ 0#32
  · cases r <;> simp [hadmin]
  · cases r <;> simp [hadmin]

theorem ite_or_roleBit {p : Prop} [Decidable p] {m : BitVec 32} {r' : Role} :
    (if p then m ||| roleBit r else m) &&& roleBit r' ≠ 0#32 ↔
      p ∧ r' = r ∨ m &&& roleBit r' ≠ 0#32 := by
  split
  · rename_i hp
    rw [or_roleBit]
    simp [hp]
  · rename_i hp
    simp [hp]

/-- The effective mask has the bit of a role exactly when the role is held, if only through
`Admin`. -/
theorem getRolesBitmask_iff (ha : a ≠ zeroAddress) : getRolesBitmask s a &&& roleBit r ≠ 0#32 ↔
    s.roster.holds r a = true ∨ s.roster.holds .admin a = true := by
  unfold getRolesBitmask Store.roster
  rw [if_neg ha]
  dsimp only
  by_cases hadmin : loadRoleMask s a &&& roleBit .admin ≠ 0#32
  · rw [if_pos hadmin]
    cases r <;> simp [hadmin] <;> decide
  · have hminter : ∀ p : Prop, [Decidable p] → (if p then roleBit .minter else 0#32) =
        if p then 0#32 ||| roleBit .minter else 0#32 := fun p _ => by rw [BitVec.zero_or]
    rw [if_neg hadmin, hminter, ite_or_roleBit, ite_or_roleBit, ite_or_roleBit]
    cases r <;> simp [hadmin]

theorem agree (s : Store) (ha : a ≠ zeroAddress) : Agree s a := by
  have hbit : ∀ r, hasRole s r a = true ↔ getRolesBitmask s a &&& roleBit r ≠ 0#32 :=
    fun r => (hasRole_iff ha).trans (getRolesBitmask_iff ha).symm
  refine ⟨fun r => hasRole_iff ha, hbit, ?_, ?_⟩
  · intro r
    have hflag : (getRoleHierarchy s a).flag r =
        decide (getRolesBitmask s a &&& roleBit r ≠ 0#32) := by
      cases r <;> rfl
    rw [hflag]
    exact Bool.eq_iff_iff.mpr (decide_eq_true_iff.trans (hbit r).symm)
  · rw [hasRole_iff ha, hasRole_iff ha]
    simp [isAdminOrPauser, Store.roster, or_comm]

end Views

section Operations

/-- The operations on roles. -/
inductive RoleOp where
  | grantRole (caller : Address) (r : Role) (a : Address)
  | revokeRole (caller : Address) (r : Role) (a : Address)
  | renounceRole (caller : Address) (r : Role)
  | setAdmin (a : Address)

namespace RoleOp

def exec : RoleOp → AdminCall Unit
  | grantRole caller r a => Admin.grantRole caller r a
  | revokeRole caller r a => Admin.revokeRole caller r a
  | renounceRole caller r => Admin.renounceRole caller r
  | setAdmin a => Admin.setAdmin a

/-- The raw roles an operation is about: the old administrator's `Admin` as well when the
administrator is replaced. -/
def targets (admin : Option Address) : RoleOp → List (Role × Address)
  | grantRole _ r a => [(r, a)]
  | revokeRole _ r a => [(r, a)]
  | renounceRole caller r => [(r, caller)]
  | setAdmin a => (.admin, a) :: admin.toList.map fun old => (.admin, old)

/-- What it is to make of the roles. -/
def apply (f : Roster) : RoleOp → Roster
  | grantRole _ r a => f.put r a true
  | revokeRole _ r a => f.put r a false
  | renounceRole caller r => f.put r caller false
  | setAdmin a => f.reassign a

/-- The role a grant gives is not held before, the one a revocation takes is. -/
def Changes (f : Roster) : RoleOp → Prop
  | grantRole _ r a => f.holds r a = false
  | revokeRole _ r a => f.holds r a = true
  | renounceRole caller r => f.holds r caller = true
  | setAdmin a => f.admin = some a ∨ f.holds .admin a = false

end RoleOp

/-- Exactly the intended raw roles change, in whatever layout they were stored. -/
structure Exact (op : RoleOp) (s s' : Store) : Prop where
  changes : op.Changes s.roster
  roster : s'.roster = op.apply s.roster
  others : ∀ r a, (r, a) ∉ op.targets s.admin → s'.roster.holds r a = s.roster.holds r a

theorem Roster.reassign_others {f : Roster} {c : Address} (hne : ¬ (r = .admin ∧ a = c))
    (hold : ¬ (r = .admin ∧ f.admin = some a)) : (f.reassign c).holds r a = f.holds r a := by
  rw [Roster.reassign, Roster.put_holds_of_ne _ _ hne]
  cases hadmin : f.admin with
  | none => rfl
  | some old =>
    refine Roster.put_holds_of_ne _ _ ?_
    rintro ⟨hr, rfl⟩
    exact hold ⟨hr, hadmin⟩

theorem apply_others {op : RoleOp} {f : Roster} (h : (r, a) ∉ op.targets f.admin) :
    (op.apply f).holds r a = f.holds r a := by
  cases op with
  | grantRole caller r' c => exact Roster.put_holds_of_ne _ _ (by simpa [RoleOp.targets] using h)
  | revokeRole caller r' c => exact Roster.put_holds_of_ne _ _ (by simpa [RoleOp.targets] using h)
  | renounceRole caller r' => exact Roster.put_holds_of_ne _ _ (by simpa [RoleOp.targets] using h)
  | setAdmin c =>
    simp only [RoleOp.targets, List.mem_cons, Prod.mk.injEq, List.mem_map, Option.mem_toList,
      not_or, not_exists, not_and] at h
    refine Roster.reassign_others (fun hc => h.1 hc.1 hc.2) ?_
    rintro ⟨hr, hadmin⟩
    exact h.2 a hadmin hr.symm rfl

/-- The store when `set_admin` grants: the old administrator without the role, the new one
stored. -/
def vacated (c : Address) (s : Store) : Store :=
  { (match s.admin with
    | some old => clearRoleBit old .admin s
    | none => s) with admin := some c }

theorem vacated_free (s : Store) (c : Address) :
    loadRoleMask (vacated c s) c &&& roleBit .admin = 0#32 ↔
      s.admin = some c ∨ s.roster.holds .admin c = false := by
  have hmask : loadRoleMask (vacated c s) c &&& roleBit .admin = 0#32 ↔
      (vacated c s).roster.holds .admin c = false := by
    simp [Store.roster]
  rw [hmask]
  cases hadmin : s.admin with
  | none =>
    have hsame : (vacated c s).roster.holds = s.roster.holds := by
      simp only [vacated, hadmin]
      rfl
    simp [hsame]
  | some old =>
    have hcleared : (vacated c s).roster.holds = (s.roster.put .admin old false).holds := by
      have hput : (clearRoleBit old .admin s).roster.holds =
          (s.roster.put .admin old false).holds := congrArg Roster.holds roster_clearRoleBit
      simp only [vacated, hadmin]
      exact hput
    rw [hcleared]
    by_cases hc : old = c
    · subst hc
      simp
    · rw [Roster.put_holds_of_ne _ _ (fun h => hc h.2.symm)]
      simp [hc]

/-- When `set_admin` goes through: never for an address that is not the administrator but holds the
role already. -/
theorem setAdmin_runs_iff {c : Address} : (∃ s', Runs (setAdmin c) env s u s') ↔
    c ≠ zeroAddress ∧ (s.admin = some c ∨ s.roster.holds .admin c = false) := by
  rw [← vacated_free]
  simp only [setAdmin, runs_requireNonZeroAddress_bind, runs_modify_bind, runs_grantRole']
  constructor
  · rintro ⟨s', hc, -, hfree, -⟩
    exact ⟨hc, hfree⟩
  · rintro ⟨hc, hfree⟩
    exact ⟨_, hc, hc, hfree, rfl⟩

theorem exec_exact {op : RoleOp} (h : Runs op.exec env s u s') : Exact op s s' := by
  have hspec : op.Changes s.roster ∧ s'.roster = op.apply s.roster := by
    cases op with
    | grantRole caller r a => exact roster_grantRole h
    | revokeRole caller r a => exact roster_revokeRole h
    | renounceRole caller r => exact roster_renounceRole h
    | setAdmin a => exact ⟨(setAdmin_runs_iff.mp ⟨s', h⟩).2, (roster_setAdmin h).2⟩
  refine ⟨hspec.1, hspec.2, ?_⟩
  intro r a hother
  rw [hspec.2]
  exact apply_others hother

/-- Roles as the successful operations of a run make them. -/
def follow (w : World Store) (f : Roster) : Label RoleOp → Roster
  | .call signers uploaded op =>
    if (op.exec (w.env signers uploaded) w.store).isOk then op.apply f else f
  | .close _ => f

def ExactStep (w : World Store) : Label RoleOp → Prop
  | .call signers uploaded op =>
    ∀ s', Runs op.exec (w.env signers uploaded) w.store () s' → Exact op w.store s'
  | .close _ => True

theorem follow_next (w : World Store) (l : Label RoleOp) :
    (w.next RoleOp.exec l).store.roster = follow w w.store.roster l := by
  cases l with
  | close ledger => rw [World.next_close_store, follow]
  | call signers uploaded op =>
    rcases World.call_cases RoleOp.exec w signers uploaded op with hr | ⟨hfail, hs⟩
    · rw [follow, if_pos (isOk_of_runs hr)]
      exact (exec_exact hr).roster
    · rw [follow, if_neg hfail, hs]

/-- Over any run from any storage, each successful operation changes exactly the raw roles it is
about, the roles are at every point what the operations make of the initial ones, and all views of
them agree. -/
theorem role_operations_exact (w : World Store) (ls : List (Label RoleOp)) :
    w.EveryStep RoleOp.exec ExactStep ls ∧
    (w.run RoleOp.exec ls).store.roster = w.foldSteps RoleOp.exec follow w.store.roster ls ∧
    w.EveryState RoleOp.exec (fun w => ∀ a, a ≠ zeroAddress → Agree w.store a) ls := by
  refine ⟨World.everyStep_of_forall ?_, ?_, ?_⟩
  · intro w l
    cases l with
    | call signers uploaded op => exact fun s' hr => exec_exact hr
    | close ledger => trivial
  · refine World.run_induction_fold (J := fun (v : World Store) f => v.store.roster = f) rfl ?_
    rintro v f l rfl
    exact follow_next v l
  · exact World.everyState_of_invariant (fun a ha => agree _ ha) fun w l _ a ha => agree _ ha

end Operations

end BcForge.Admin
