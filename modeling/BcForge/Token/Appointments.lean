import BcForge.Token.Ownership

/-! Where the roles on record come from: every one was given by somebody entitled to, and none is
lost otherwise. -/
namespace BcForge.BcForgeToken

open Soroban Call Admin

/-- What is decided about a role: by one account, by the pool, or by handing the contract over. -/
inductive Decision where
  | granted (grantor : Address) (r : Role) (a : Address)
  | revoked (revoker : Address) (r : Role) (a : Address)
  | resolved (proposal : ℕ) (r : Role) (a : Address)
  | handedOver (old new : Address)
deriving DecidableEq

namespace Decision

def apply (f : Roster) : Decision → Roster
  | granted _ r a => f.put r a true
  | revoked _ r a => f.put r a false
  | resolved _ r a => f.put r a true
  | handedOver _ new => f.reassign new

/-- The role it gives, and to whom. -/
def gives : Decision → Option (Role × Address)
  | granted _ r a => some (r, a)
  | revoked _ _ _ => none
  | resolved _ r a => some (r, a)
  | handedOver _ new => some (.admin, new)

/-- What the contract had before it and who had signed: a super administrator, a member of the pool
with a role proposal that is live and quorate, or the administrator with a handover proposed in
time. -/
def Warranted (env : Env) (s : Admin.Store) : Decision → Prop
  | granted c _ _ => env.Authorized c ∧ hasRole s .superAdmin c = true
  | revoked c _ _ => env.Authorized c ∧ hasRole s .superAdmin c = true
  | resolved id r a =>
    (∃ x, env.Authorized x ∧ x ∈ getAdminPool s ∧ hasRole s .superAdmin x = true) ∧
      s.roleGrantProposal id = some ⟨r, a⟩ ∧
      ∃ p, s.proposal id = some p ∧ Executable env.ledger (getThreshold s) p
  | handedOver old new =>
    s.admin = some old ∧ env.Authorized old ∧ hasRole s .admin old = true ∧
      ∃ due, deadlines s (.transferOwnership new) = some due ∧ due ≤ env.ledger.timestamp

end Decision

/-- What an entry point decides if it succeeds. -/
def Op.decides (s : Admin.Store) : Op → List Decision
  | .grantRole caller r a => [.granted caller r a]
  | .revokeRole caller r a => [.revoked caller r a]
  | .executeRoleProposal _ id =>
    (s.roleGrantProposal id).toList.map fun act => .resolved id act.role act.target
  | .transferOwnership newAdmin => s.admin.toList.map fun old => .handedOver old newAdmin
  | _ => []

def decisions (w : World Store) : Label Op → List Decision
  | .call signers uploaded op =>
    if (exec op (w.env signers uploaded) w.store).isOk = true then op.decides w.store.access else []
  | .close _ => []

/-- All that a step decides is warranted where it is taken. -/
def WarrantedStep (w : World Store) : Label Op → Prop
  | .call signers uploaded op => ∀ d ∈ decisions w (.call signers uploaded op),
    d.Warranted (w.env signers uploaded) w.store.access
  | .close _ => True

variable {env : Env} {s s' : Store} {t t' : Admin.Store} {op : Op} {u : Unit} {r : Role}
  {a c x : Address} {id : ℕ} {f : Roster} {d : Decision} {ds : List Decision} {w : World Store}
  {l : Label Op}

theorem roster_of_parts (hadmin : t'.admin = t.admin)
    (hroles : Admin.Part.roles.get t' = Admin.Part.roles.get t) : t'.roster = t.roster := by
  obtain ⟨hrole, hmask⟩ := Prod.mk.inj hroles
  have hload : ∀ a, loadRoleMask t' a = loadRoleMask t a := by
    intro a
    unfold loadRoleMask
    rw [hrole, hmask]
  unfold Admin.Store.roster
  rw [hadmin]
  simp only [hload]

/-- What an entry point makes of the roster, and on what grounds. -/
structure Decides (env : Env) (s s' : Store) (ds : List Decision) : Prop where
  roster : s'.access.roster = ds.foldl Decision.apply s.access.roster
  warranted : ∀ d ∈ ds, d.Warranted env s.access

theorem decides_one (hroster : s'.access.roster = d.apply s.access.roster)
    (hd : d.Warranted env s.access) : Decides env s s' [d] := by
  refine ⟨hroster, ?_⟩
  intro e he
  obtain rfl := List.mem_singleton.mp he
  exact hd

theorem decides_grantRole (h : Runs (governed (Admin.grantRole c r a)) env s u s') :
    Decides env s s' [.granted c r a] := by
  simp only [governed, expectInitialized, admin, runs_bind_assoc, runs_gets_bind, runs_trapIf_bind,
    runs_within] at h
  obtain ⟨-, t, hgrant, rfl⟩ := h
  refine decides_one (roster_grantRole hgrant).2 ?_
  rw [Admin.grantRole, requireSuperAdmin, runs_requireRoleGuard_bind] at hgrant
  exact ⟨hgrant.2.1, hgrant.1⟩

theorem decides_revokeRole (h : Runs (governed (Admin.revokeRole c r a)) env s u s') :
    Decides env s s' [.revoked c r a] := by
  simp only [governed, expectInitialized, admin, runs_bind_assoc, runs_gets_bind, runs_trapIf_bind,
    runs_within] at h
  obtain ⟨-, t, hrevoke, rfl⟩ := h
  refine decides_one (roster_revokeRole hrevoke).2 ?_
  rw [Admin.revokeRole, requireSuperAdmin, runs_requireRoleGuard_bind] at hrevoke
  exact ⟨hrevoke.2.1, hrevoke.1⟩

theorem decides_executeRoleProposal
    (h : Runs (governed (Admin.executeRoleProposal x id)) env s u s') :
    Decides env s s' ((s.access.roleGrantProposal id).toList.map fun act =>
      .resolved id act.role act.target) := by
  simp only [governed, expectInitialized, admin, runs_bind_assoc, runs_gets_bind, runs_trapIf_bind,
    runs_within, runs_executeRoleProposal] at h
  obtain ⟨-, t, ⟨-, hx, hmember, hrole, p, hp, hexecutable, act, hact, -, -, rfl⟩, rfl⟩ := h
  have hput : (persistRoleMask act.target (loadRoleMask s.access act.target ||| roleBit act.role)
      s.access).roster = s.access.roster.put act.role act.target true := roster_grant
  have hgrant : s.access.roleGrantProposal id = some act := hact
  rw [hgrant]
  exact decides_one hput ⟨⟨x, hx, hmember, hrole⟩, hgrant, p, hp, hexecutable⟩

theorem decides_transferOwnership (h : Runs (transferOwnership a) env s u s') :
    Decides env s s' (s.access.admin.toList.map fun old => .handedOver old a) := by
  simp only [transferOwnership, admin, requireAdmin, runs_ensureInitialized_bind, runs_access_bind,
    runs_getAdmin, runs_requireRoleGuard, consume_runs_iff, runs_within] at h
  obtain ⟨-, c, _, ⟨hc, rfl⟩, _, _, ⟨hrole, hauth, rfl⟩, _, _, ⟨p, due, hp, hdue, hle, rfl⟩, t,
    hset, rfl⟩ := h
  have hroster := (roster_setAdmin hset).2
  have hopen : deadlines s.access (.transferOwnership a) = some due :=
    Option.bind_eq_some_iff.mpr ⟨p, hp, hdue⟩
  rw [hc]
  exact decides_one hroster ⟨hc, hauth, hrole, due, hopen, hle⟩

theorem exec_decides (hinit : ∀ a d n m, op ≠ .initializeToken a d n m)
    (h : Runs (exec op) env s u s') : Decides env s s' (op.decides s.access) := by
  by_cases hop : .access .roles ∈ op.writes ∨ .access .admin ∈ op.writes
  · cases op with
    | initializeToken a d n m => exact absurd rfl (hinit a d n m)
    | transferOwnership newAdmin => exact decides_transferOwnership h
    | grantRole caller r a => exact decides_grantRole h
    | revokeRole caller r a => exact decides_revokeRole h
    | executeRoleProposal executor id => exact decides_executeRoleProposal h
    | _ => simp [Op.writes] at hop
  · obtain ⟨hroles, hadmin⟩ := not_or.mp hop
    have hsame := roster_of_parts (exec_writes op env s u s' h _ hadmin)
      (exec_writes op env s u s' h _ hroles)
    have hnone : op.decides s.access = [] := by
      cases op with
      | transferOwnership newAdmin => simp [Op.writes] at hop
      | grantRole caller r a => simp [Op.writes] at hop
      | revokeRole caller r a => simp [Op.writes] at hop
      | executeRoleProposal executor id => simp [Op.writes] at hop
      | _ => rfl
    rw [hnone]
    refine ⟨hsame, ?_⟩
    intro d hd
    exact absurd hd List.not_mem_nil

theorem decisions_next (w : World Store) (l : Label Op) :
    (w.next exec l).store.access.roster =
        (decisions w l).foldl Decision.apply w.store.access.roster ∧
      WarrantedStep w l := by
  cases l with
  | close l =>
    rw [World.next_close_store]
    exact ⟨rfl, trivial⟩
  | call signers uploaded op =>
    unfold WarrantedStep
    dsimp only
    rcases World.call_cases exec w signers uploaded op with hr | ⟨hfail, hs⟩
    · have hinit : ∀ a d n m, op ≠ .initializeToken a d n m := by
        rintro a d n m rfl
        exact not_runs_initializeToken hr
      obtain ⟨hroster, hwarranted⟩ := exec_decides hinit hr
      rw [decisions, if_pos (isOk_of_runs hr)]
      exact ⟨hroster, hwarranted⟩
    · rw [decisions, if_neg hfail, hs]
      exact ⟨rfl, nofun⟩

/-- A role that appears was given. -/
theorem gives_of_apply (h : (d.apply f).holds r a = true) :
    f.holds r a = true ∨ d.gives = some (r, a) := by
  have hput : ∀ {r' a'}, (f.put r' a' true).holds r a = true →
      f.holds r a = true ∨ some (r', a') = some (r, a) := by
    intro r' a' hheld
    by_cases hra : r = r' ∧ a = a'
    · obtain ⟨rfl, rfl⟩ := hra
      exact Or.inr rfl
    · rw [Roster.put_holds_of_ne _ _ hra] at hheld
      exact Or.inl hheld
  have hdrop : ∀ {r' a'}, (f.put r' a' false).holds r a = true → f.holds r a = true := by
    intro r' a' hheld
    by_cases hra : r = r' ∧ a = a'
    · obtain ⟨rfl, rfl⟩ := hra
      rw [Roster.put_holds_self] at hheld
      cases hheld
    · rwa [Roster.put_holds_of_ne _ _ hra] at hheld
  cases d with
  | granted c r' a' => exact hput h
  | revoked c r' a' => exact Or.inl (hdrop h)
  | resolved i r' a' => exact hput h
  | handedOver old new =>
    by_cases hra : r = .admin ∧ a = new
    · obtain ⟨rfl, rfl⟩ := hra
      exact Or.inr rfl
    · rw [Decision.apply, Roster.reassign, Roster.put_holds_of_ne _ _ hra] at h
      cases hadmin : f.admin with
      | none =>
        rw [hadmin] at h
        exact Or.inl h
      | some c =>
        rw [hadmin] at h
        exact Or.inl (hdrop h)

theorem gives_of_replay (h : (ds.foldl Decision.apply f).holds r a = true) :
    f.holds r a = true ∨ ∃ d ∈ ds, d.gives = some (r, a) := by
  induction ds generalizing f with
  | nil => exact Or.inl h
  | cons d ds ih =>
    rcases ih h with hheld | ⟨e, he, hgives⟩
    · rcases gives_of_apply hheld with hheld | hgives
      · exact Or.inl hheld
      · exact Or.inr ⟨d, List.mem_cons_self, hgives⟩
    · exact Or.inr ⟨e, List.mem_cons_of_mem d he, hgives⟩

/-- From any state on, whatever is called: the administrator and the roles are what the decisions of
the run make of those there were, every decision was warranted when it was taken, and whoever holds
a role in the end held it before or was given it by one of them. -/
theorem roles_are_decisions (w : World Store) (ls : List (Label Op)) :
    (w.run exec ls).store.access.roster =
        (w.collectSteps exec decisions ls).foldl Decision.apply w.store.access.roster ∧
      w.EveryStep exec WarrantedStep ls ∧
      ∀ r a, (w.run exec ls).store.access.roster.holds r a = true →
        w.store.access.roster.holds r a = true ∨
          ∃ d ∈ w.collectSteps exec decisions ls, d.gives = some (r, a) := by
  have hreplay : (w.run exec ls).store.access.roster =
      (w.collectSteps exec decisions ls).foldl Decision.apply w.store.access.roster := by
    induction ls generalizing w with
    | nil => rfl
    | cons l ls ih =>
      rw [World.run_cons, ih, (decisions_next w l).1, World.collectSteps, List.foldl_append]
  refine ⟨hreplay, World.everyStep_of_forall fun w l => (decisions_next w l).2, ?_⟩
  intro r a hheld
  rw [hreplay] at hheld
  exact gives_of_replay hheld

/-- The decisions of a handover: the one to wait for, and a role given on the way. -/
example : (genesis.collectSteps exec decisions
    (staffHandover ++ [.call [⟨1⟩] [] (.transferOwnership ⟨2⟩)])) =
      [.granted ⟨1⟩ .minter ⟨2⟩, .granted ⟨1⟩ .pauser ⟨2⟩, .handedOver ⟨1⟩ ⟨2⟩] := by
  decide +kernel

end BcForge.BcForgeToken
