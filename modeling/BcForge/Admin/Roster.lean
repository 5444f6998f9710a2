import BcForge.Admin.Spec
import BcForge.Soroban.Respects
import BcForge.Soroban.Run

/-! Who holds which role: the roster behind the stored administrator and the role masks, and how
the entry points change it. -/
namespace BcForge.Admin

open Soroban Call

/-- The stored administrator and the role bits, as the masks spell them out. -/
structure Roster where
  admin : Option Address
  holds : Role → Address → Bool

namespace Roster

def put (r : Role) (a : Address) (held : Bool) (f : Roster) : Roster :=
  { f with holds := Function.update f.holds r (Function.update (f.holds r) a held) }

/-- The old administrator loses the role, the new one takes it. -/
def reassign (a : Address) (f : Roster) : Roster :=
  let cleared := match f.admin with
    | some old => f.put .admin old false
    | none => f
  { cleared with admin := some a }.put .admin a true

@[simp] theorem put_admin (f : Roster) (r : Role) (a : Address) (held : Bool) :
    (f.put r a held).admin = f.admin := rfl

@[simp] theorem put_holds_self (f : Roster) (r : Role) (a : Address) (held : Bool) :
    (f.put r a held).holds r a = held := by
  simp [put]

theorem put_holds_of_ne (f : Roster) {r r' : Role} {a a' : Address} (held : Bool)
    (h : ¬ (r' = r ∧ a' = a)) : (f.put r a held).holds r' a' = f.holds r' a' := by
  by_cases hr : r' = r
  · subst hr
    have ha : a' ≠ a := fun ha => h ⟨rfl, ha⟩
    simp [put, Function.update_of_ne ha]
  · simp [put, Function.update_of_ne hr]

end Roster

/-- The role a call takes away, and from whom. -/
def Op.drops : Op → Option (Role × Address)
  | .revokeRole _ r a => some (r, a)
  | .renounceRole caller r => some (r, caller)
  | _ => none

/-- What a call can do to the roster. -/
inductive Roster.Step (op : Op) (f : Roster) : Roster → Prop
  | keep (hop : op.drops = none) : Step op f f
  | grant (r : Role) (a : Address) (hop : op.drops = none) : Step op f (f.put r a true)
  | drop (r : Role) (a : Address) (hop : op.drops = some (r, a)) : Step op f (f.put r a false)
  | reassign (a : Address) (hop : op = .setAdmin a) (ha : a ≠ zeroAddress) :
      Step op f (f.reassign a)

def Store.roster (s : Store) : Roster where
  admin := s.admin
  holds r a := loadRoleMask s a &&& roleBit r ≠ 0#32

section Masks

variable {m : BitVec 32} {r r' : Role} {a b : Address} {s : Store}

def roleIndex : Role → ℕ
  | .admin => 0
  | .minter => 1
  | .superAdmin => 2
  | .pauser => 3

theorem roleBit_eq_twoPow (r : Role) : roleBit r = BitVec.twoPow 32 (roleIndex r) := by
  cases r <;> decide

theorem and_roleBit_ne_zero : m &&& roleBit r ≠ 0#32 ↔ m.getLsbD (roleIndex r) = true := by
  rw [roleBit_eq_twoPow, BitVec.and_twoPow]
  have hne : BitVec.twoPow 32 (roleIndex r) ≠ 0#32 := by
    cases r <;> decide
  cases m.getLsbD (roleIndex r) <;> simp [hne]

theorem getLsbD_roleBit : (roleBit r).getLsbD (roleIndex r') = decide (r' = r) := by
  cases r <;> cases r' <;> decide

theorem or_roleBit : (m ||| roleBit r) &&& roleBit r' ≠ 0#32 ↔
    r' = r ∨ m &&& roleBit r' ≠ 0#32 := by
  rw [and_roleBit_ne_zero, and_roleBit_ne_zero, BitVec.getLsbD_or, getLsbD_roleBit]
  by_cases h : r' = r <;> simp [h]

theorem and_not_roleBit : (m &&& ~~~roleBit r) &&& roleBit r' ≠ 0#32 ↔
    r' ≠ r ∧ m &&& roleBit r' ≠ 0#32 := by
  rw [and_roleBit_ne_zero, and_roleBit_ne_zero, BitVec.getLsbD_and, BitVec.getLsbD_not,
    getLsbD_roleBit]
  have hlt : roleIndex r' < 32 := by
    cases r' <;> decide
  by_cases h : r' = r <;> simp [h, hlt]

/-- A mask is read back as written: an empty one leaves no legacy entry behind. -/
theorem loadRoleMask_persistRoleMask : loadRoleMask (persistRoleMask a m s) b =
    if b = a then m else loadRoleMask s b := by
  by_cases hb : b = a
  · subst hb
    by_cases hm : m = 0#32
    · simp [loadRoleMask, persistRoleMask, hm, allRoles]
    · simp [loadRoleMask, persistRoleMask, hm]
  · simp [loadRoleMask, persistRoleMask, hb]

end Masks

section Calls

variable {env : Env} {s s' : Store} {α : Type} {a : α} {u : Unit} {r : Role} {c x : Address}
  {id : ℕ}

/-- Writing a mask that differs from the old one in a single role. -/
theorem roster_persistRoleMask {m : BitVec 32} {held : Bool}
    (h : ∀ r', m &&& roleBit r' ≠ 0#32 ↔
      if r' = r then held = true else loadRoleMask s c &&& roleBit r' ≠ 0#32) :
    (persistRoleMask c m s).roster = s.roster.put r c held := by
  have hholds : (persistRoleMask c m s).roster.holds = (s.roster.put r c held).holds := by
    funext r' b
    change decide (loadRoleMask (persistRoleMask c m s) b &&& roleBit r' ≠ 0#32) = _
    rw [loadRoleMask_persistRoleMask]
    by_cases hb : b = c
    · subst hb
      have hm := h r'
      rw [if_pos rfl]
      by_cases hr : r' = r
      · subst hr
        rw [if_pos rfl] at hm
        rw [Roster.put_holds_self]
        exact Bool.eq_iff_iff.mpr (decide_eq_true_iff.trans hm)
      · rw [if_neg hr] at hm
        rw [Roster.put_holds_of_ne _ _ (fun hc => hr hc.1)]
        exact decide_eq_decide.mpr hm
    · rw [if_neg hb, Roster.put_holds_of_ne _ _ (fun hc => hb hc.2)]
      rfl
  exact congrArg (Roster.mk s.admin) hholds

theorem roster_grant : (persistRoleMask c (loadRoleMask s c ||| roleBit r) s).roster =
    s.roster.put r c true := by
  apply roster_persistRoleMask
  intro r'
  rw [or_roleBit]
  by_cases hr : r' = r <;> simp [hr]

theorem roster_drop : (persistRoleMask c (loadRoleMask s c &&& ~~~roleBit r) s).roster =
    s.roster.put r c false := by
  apply roster_persistRoleMask
  intro r'
  rw [and_not_roleBit]
  by_cases hr : r' = r <;> simp [hr]

theorem roster_clearRoleBit : (clearRoleBit c r s).roster = s.roster.put r c false := by
  unfold clearRoleBit
  dsimp only
  split
  · exact roster_drop
  · rename_i hn
    have hf : s.roster.holds r c = false := by
      simpa [Store.roster] using hn
    have hsame : s.roster.holds = (s.roster.put r c false).holds := by
      funext r' b
      by_cases hrb : r' = r ∧ b = c
      · obtain ⟨rfl, rfl⟩ := hrb
        simp [hf]
      · rw [Roster.put_holds_of_ne _ _ hrb]
    exact congrArg (Roster.mk s.admin) hsame

theorem roster_setAdmin (h : Runs (setAdmin c) env s u s') :
    c ≠ zeroAddress ∧ s'.roster = s.roster.reassign c := by
  simp only [setAdmin, runs_requireNonZeroAddress_bind, runs_modify_bind, runs_grantRole'] at h
  obtain ⟨hc, -, -, rfl⟩ := h
  refine ⟨hc, ?_⟩
  rw [roster_grant]
  unfold Roster.reassign
  cases hs : s.admin with
  | none =>
    have ha : s.roster.admin = none := hs
    simp only [ha]
    rfl
  | some old =>
    have ha : s.roster.admin = some old := hs
    have hclear : (clearRoleBit old .admin s).roster = s.roster.put .admin old false :=
      roster_clearRoleBit
    simp only [ha, ← hclear]
    rfl

theorem runs_revokeRole' (h : Runs (revokeRole' r c) env s u s') :
    c ≠ zeroAddress ∧ s.roster.holds r c = true ∧ s'.roster = s.roster.put r c false := by
  simp only [revokeRole', runs_requireNonZeroAddress_bind, runs_gets_bind, runs_failIf_bind,
    runs_modify_bind, runs_getAdmin_bind, runs_pure] at h
  obtain ⟨hc, hheld, _, -, -, rfl⟩ := h
  exact ⟨hc, decide_eq_true hheld, roster_drop⟩

theorem runs_isLastSuperAdmin {last : Bool} (h : Runs (isLastSuperAdmin c) env s last s') :
    s' = s := by
  simp only [isLastSuperAdmin, runs_gets_bind, runs_ite, runs_pure, runs_getAdmin_bind,
    runs_gets] at h
  obtain ⟨-, -, h⟩ | ⟨-, _, -, ⟨-, -, h⟩ | ⟨-, -, h⟩⟩ := h
  · exact h
  · exact h
  · exact h

theorem roster_revokeRole (h : Runs (revokeRole x r c) env s u s') :
    s.roster.holds r c = true ∧ s'.roster = s.roster.put r c false := by
  simp only [revokeRole, requireSuperAdmin, runs_requireRoleGuard_bind,
    runs_requireNonZeroAddress_bind, runs_ite] at h
  obtain ⟨-, -, -, ⟨-, h⟩ | ⟨-, h⟩⟩ := h
  · obtain ⟨last, t, hlast, hrest⟩ := runs_bind.mp h
    obtain rfl := runs_isLastSuperAdmin hlast
    rw [runs_failIf_bind] at hrest
    exact (runs_revokeRole' hrest.2).2
  · exact (runs_revokeRole' h).2

theorem roster_renounceRole (h : Runs (renounceRole x r) env s u s') :
    s.roster.holds r x = true ∧ s'.roster = s.roster.put r x false := by
  simp only [renounceRole, requireOtherSuperAdmin, runs_requireAuth_bind, runs_gets_bind,
    runs_failIf_bind, runs_ite, runs_bind_assoc, runs_getAdmin_bind] at h
  obtain ⟨-, -, ⟨-, _, -, -, -, h⟩ | ⟨-, -, h⟩⟩ := h
  · exact (runs_revokeRole' h).2
  · exact (runs_revokeRole' h).2

theorem roster_grantRole (h : Runs (grantRole x r c) env s u s') :
    s.roster.holds r c = false ∧ s'.roster = s.roster.put r c true := by
  simp only [grantRole, requireSuperAdmin, runs_requireRoleGuard_bind,
    runs_requireNonZeroAddress_bind, runs_grantRole'] at h
  obtain ⟨-, -, -, -, hfree, rfl⟩ := h
  exact ⟨decide_eq_false (not_not.mpr hfree), roster_grant⟩

end Calls

section Aside

/-- The roles and the administrator are as before. -/
def SameRoster (s s' : Store) : Prop := s'.roster = s.roster

instance : IsPreorder Store SameRoster where
  refl _ := rfl
  trans _ _ _ h h' := Eq.trans h' h

variable {α : Type} {x : Address} {id : ℕ} {hash : BytesN32}

theorem respects_write {f : Store → Store} (h : ∀ s, (f s).roster = s.roster) :
    Respects SameRoster (modify f : AdminCall Unit) :=
  respects_modify h

theorem respects_withProposalGuard {body : AdminCall α} (h : Respects SameRoster body) :
    Respects SameRoster (withProposalGuard body) :=
  respects_guarded (fun _ _ => by rfl) h

/-- The opening most calls share: the guard, the caller's signature, one value read. -/
theorem respects_authorized {β : Type} {f : Store → β} {rest : β → AdminCall α}
    (h : ∀ b, Respects SameRoster (rest b)) :
    Respects SameRoster (withProposalGuard do
      requireAuth x
      let b ← gets f
      rest b) :=
  respects_withProposalGuard <| (respects_requireAuth _).bind fun _ => (respects_gets _).bind h

theorem respects_getAdmin : Respects SameRoster getAdmin :=
  respects_of_unchanged fun _ _ _ _ h => (runs_getAdmin.mp h).2

theorem respects_requireRoleGuard (r : Role) : Respects SameRoster (requireRoleGuard r x) :=
  respects_of_unchanged fun _ _ _ _ h => (runs_requireRoleGuard.mp h).2.2

theorem respects_requireAdmin : Respects SameRoster (requireAdmin x) :=
  respects_requireRoleGuard .admin

theorem respects_requireUploaded : Respects SameRoster (requireUploaded hash : AdminCall Unit) :=
  respects_of_unchanged fun _ _ _ _ h => (runs_requireUploaded.mp h).2

theorem respects_isProposalReady : Respects SameRoster (isProposalReady id) :=
  (respects_gets _).bind fun _ => (respects_okOr _ _).bind fun _ => respects_gets _

theorem respects_updateCurrentContractWasm :
    Respects SameRoster (updateCurrentContractWasm hash) :=
  respects_requireUploaded.bind fun _ => respects_write fun _ => by rfl

theorem respects_startTimelockIfQuorate : Respects SameRoster (startTimelockIfQuorate id) := by
  refine (respects_gets _).bind fun started => ?_
  split
  · exact respects_pure _
  · refine respects_isProposalReady.bind fun ready => ?_
    split
    · exact respects_pure _
    · exact respects_ledger.bind fun _ => respects_write fun _ => by rfl

theorem respects_createProposal (creator : Address) (description : String) :
    Respects SameRoster (createProposal creator description) :=
  respects_authorized fun _ =>
    (respects_failIf _ _).bind fun _ => (respects_gets _).bind fun _ =>
      (respects_u64 _).bind fun _ => (respects_write fun _ => by rfl).bind fun _ =>
        respects_ledger.bind fun _ => (respects_write fun _ => by rfl).bind fun _ =>
          respects_startTimelockIfQuorate.bind fun _ => respects_pure _

theorem respects_createRoleProposal (creator : Address) (r : Role) (target : Address)
    (description : String) :
    Respects SameRoster (createRoleProposal creator r target description) :=
  (respects_failIf _ _).bind fun _ => (respects_failIf _ _).bind fun _ =>
    (respects_gets _).bind fun _ => (respects_failIf _ _).bind fun _ =>
      (respects_createProposal _ _).bind fun _ => (respects_write fun _ => by rfl).bind fun _ =>
        respects_pure _

theorem respects_approveProposal : Respects SameRoster (approveProposal x id) :=
  respects_authorized fun _ =>
    (respects_failIf _ _).bind fun _ => (respects_gets _).bind fun _ =>
      (respects_okOr _ _).bind fun _ => (respects_failIf _ _).bind fun _ =>
        (respects_failIf _ _).bind fun _ => (respects_failIf _ _).bind fun _ =>
          (respects_write fun _ => by rfl).bind fun _ => respects_startTimelockIfQuorate

theorem respects_markExecuted : Respects SameRoster (markExecuted id) :=
  respects_withProposalGuard <| respects_getAdmin.bind fun _ =>
    (respects_requireAuth _).bind fun _ => (respects_gets _).bind fun _ =>
      (respects_failIf _ _).bind fun _ => (respects_gets _).bind fun _ =>
        (respects_okOr _ _).bind fun _ => (respects_failIf _ _).bind fun _ =>
          (respects_failIf _ _).bind fun _ => respects_ledger.bind fun _ =>
            (respects_failIf _ _).bind fun _ => respects_isProposalReady.bind fun _ =>
              (respects_failIf _ _).bind fun _ => respects_write fun _ => by rfl

theorem respects_cancelLegacyProposal : Respects SameRoster (cancelLegacyProposal x id) :=
  respects_authorized fun _ =>
    (respects_okOr _ _).bind fun _ => (respects_failIf _ _).bind fun _ =>
      (respects_failIf _ _).bind fun _ => respects_ledger.bind fun _ =>
        (respects_failIf _ _).bind fun _ => (respects_write fun _ => by rfl).bind fun _ =>
          respects_write fun _ => by rfl

theorem respects_executeUpgradeInner : Respects SameRoster (executeUpgradeInner x id hash) := by
  intro env s u s' h
  obtain ⟨-, -, -, p, -, -, -, rfl⟩ := runs_executeUpgradeInner.mp h
  rfl

theorem respects_executeUpgradeBatch (ids : List ℕ) (hashes : List BytesN32) :
    Respects SameRoster (executeUpgradeBatch x ids hashes) := by
  have hall : ∀ items, Respects SameRoster (executeUpgradeAll x items) := by
    intro items
    induction items with
    | nil => exact respects_pure _
    | cons item rest ih => exact respects_executeUpgradeInner.bind fun _ => ih
  exact respects_withProposalGuard <| (respects_failIf _ _).bind fun _ => hall _

theorem respects_emergencyExecuteUpgrade :
    Respects SameRoster (emergencyExecuteUpgrade x id hash) := by
  intro env s u s' h
  obtain ⟨-, -, -, -, p, -, -, -, rfl⟩ := runs_emergencyExecuteUpgrade.mp h
  rfl

theorem respects_submitUpgradeProposal : Respects SameRoster (submitUpgradeProposal x hash) :=
  respects_authorized fun _ =>
    (respects_failIf _ _).bind fun _ => (respects_failIf _ _).bind fun _ =>
      ((respects_gets _).bind fun _ => respects_failIf _ _).bind fun _ =>
        (respects_gets _).bind fun _ => (respects_u64 _).bind fun _ =>
          (respects_write fun _ => by rfl).bind fun _ => (respects_gets _).bind fun _ =>
            respects_self.bind fun _ => respects_ledger.bind fun _ =>
              (respects_write fun _ => by rfl).bind fun _ => respects_pure _

theorem respects_approveUpgrade : Respects SameRoster (approveUpgrade x id) :=
  respects_authorized fun _ =>
    (respects_failIf _ _).bind fun _ => (respects_gets _).bind fun _ =>
      (respects_okOr _ _).bind fun _ => respects_ledger.bind fun _ =>
        (respects_failIf _ _).bind fun _ => (respects_failIf _ _).bind fun _ =>
          respects_write fun _ => by rfl

theorem respects_cancelProposal : Respects SameRoster (cancelProposal x id) :=
  respects_authorized fun _ =>
    (respects_okOr _ _).bind fun _ => (respects_failIf _ _).bind fun _ =>
      (respects_failIf _ _).bind fun _ => (respects_failIf _ _).bind fun _ =>
        respects_write fun _ => by rfl

theorem respects_setAdminPool (pool : List Address) (n : ℕ) :
    Respects SameRoster (setAdminPool pool n) := by
  intro env s u s' h
  rw [runs_setAdminPool h]
  rfl

theorem respects_registerWasmHash : Respects SameRoster (registerWasmHash x hash) :=
  respects_requireAdmin.bind fun _ => respects_write fun _ => by rfl

theorem respects_proposePrivilegeAction (act : PrivilegeAction) :
    Respects SameRoster (proposePrivilegeAction x act) :=
  respects_requireAdmin.bind fun _ => (respects_gets _).bind fun _ =>
    (respects_failIf _ _).bind fun _ => respects_ledger.bind fun _ =>
      (respects_u64 _).bind fun _ => (respects_write fun _ => by rfl).bind fun _ =>
        respects_pure _

theorem respects_cancelPrivilegeAction (act : PrivilegeAction) :
    Respects SameRoster (cancelPrivilegeAction x act) :=
  respects_requireAdmin.bind fun _ => (respects_gets _).bind fun _ =>
    (respects_okOr _ _).bind fun _ => (respects_failIf _ _).bind fun _ =>
      respects_write fun _ => by rfl

theorem respects_consumePrivilegeProposal (act : PrivilegeAction) :
    Respects SameRoster (consumePrivilegeProposal act) :=
  (respects_gets _).bind fun _ => (respects_okOr _ _).bind fun _ =>
    (respects_failIf _ _).bind fun _ => respects_ledger.bind fun _ =>
      (respects_failIf _ _).bind fun _ => respects_write fun _ => by rfl

end Aside

section Stays

/-- A contract that has an administrator keeps having one. -/
def Stays (s s' : Store) : Prop := hasAdmin s = true → hasAdmin s' = true

instance : IsPreorder Store Stays where
  refl _ h := h
  trans _ _ _ h h' hs := h' (h hs)

variable {α : Type} {y : AdminCall α} {x : Address} {id : ℕ} {hash : BytesN32}

theorem stays_of_admin {s s' : Store} (h : s'.admin = s.admin) : Stays s s' := by
  intro hs
  rw [hasAdmin, h]
  exact hs

theorem stays_of_sameRoster (h : Respects SameRoster y) : Respects Stays y := by
  intro env s a s' hr
  exact stays_of_admin (congrArg Roster.admin (h env s a s' hr))

theorem stays_setAdmin : Respects Stays (setAdmin x) := by
  intro env s a s' h _
  have hadmin : s'.admin = some x := congrArg Roster.admin (roster_setAdmin h).2
  rw [hasAdmin, hadmin]
  rfl

theorem stays_grantRole (caller : Address) (r : Role) : Respects Stays (grantRole caller r x) := by
  intro env s a s' h
  exact stays_of_admin (congrArg Roster.admin (roster_grantRole h).2)

theorem stays_revokeRole (caller : Address) (r : Role) :
    Respects Stays (revokeRole caller r x) := by
  intro env s a s' h
  exact stays_of_admin (congrArg Roster.admin (roster_revokeRole h).2)

theorem stays_executeRoleProposal : Respects Stays (executeRoleProposal x id) := by
  intro env s a s' h
  obtain ⟨-, -, -, -, p, -, -, act, -, -, -, rfl⟩ := runs_executeRoleProposal.mp h
  exact stays_of_admin rfl

theorem stays_executeUpgrade : Respects Stays (executeUpgrade x id hash) :=
  stays_of_sameRoster (respects_withProposalGuard respects_executeUpgradeInner)

end Stays

section Runs

variable {env : Env} {s s' : Store} {op : Op}

/-- Outside the role calls, nothing touches the roster. -/
theorem exec_sameRoster (h : Respects SameRoster (exec op)) (hop : op.drops = none)
    (hr : Runs (exec op) env s () s') : Roster.Step op s.roster s'.roster := by
  have hs : s'.roster = s.roster := h env s () s' hr
  rw [hs]
  exact .keep hop

theorem exec_roster (h : Runs (exec op) env s () s') :
    Roster.Step op s.roster s'.roster := by
  cases op with
  | setAdmin c =>
    obtain ⟨hc, hs⟩ := roster_setAdmin h
    rw [hs]
    exact .reassign c rfl hc
  | grantRole caller r c =>
    rw [(roster_grantRole h).2]
    exact .grant r c rfl
  | revokeRole caller r c =>
    rw [(roster_revokeRole h).2]
    exact .drop r c rfl
  | renounceRole caller r =>
    rw [(roster_renounceRole h).2]
    exact .drop r caller rfl
  | executeRoleProposal executor id =>
    obtain ⟨-, -, -, -, p, -, -, act, -, -, -, rfl⟩ := runs_executeRoleProposal.mp h
    have hg : (persistRoleMask act.target (loadRoleMask s act.target ||| roleBit act.role)
        s).roster = s.roster.put act.role act.target true := roster_grant
    change Roster.Step _ s.roster (persistRoleMask act.target _ s).roster
    rw [hg]
    exact .grant act.role act.target rfl
  | setAdminPool pool n => exact exec_sameRoster (respects_setAdminPool pool n) rfl h
  | createProposal creator description =>
    exact exec_sameRoster ((respects_createProposal _ _).bind fun _ => respects_pure _) rfl h
  | createRoleProposal creator r target description =>
    exact exec_sameRoster ((respects_createRoleProposal _ _ _ _).bind fun _ => respects_pure _)
      rfl h
  | approveProposal admin id => exact exec_sameRoster respects_approveProposal rfl h
  | markExecuted id => exact exec_sameRoster respects_markExecuted rfl h
  | cancelLegacyProposal caller id => exact exec_sameRoster respects_cancelLegacyProposal rfl h
  | executeUpgrade executor id hash =>
    exact exec_sameRoster (respects_withProposalGuard respects_executeUpgradeInner) rfl h
  | executeUpgradeBatch executor ids hashes =>
    exact exec_sameRoster (respects_executeUpgradeBatch ids hashes) rfl h
  | emergencyExecuteUpgrade executor id hash =>
    exact exec_sameRoster respects_emergencyExecuteUpgrade rfl h
  | submitUpgradeProposal submitter hash =>
    exact exec_sameRoster (respects_submitUpgradeProposal.bind fun _ => respects_pure _) rfl h
  | approveUpgrade voter id => exact exec_sameRoster respects_approveUpgrade rfl h
  | cancelProposal caller id => exact exec_sameRoster respects_cancelProposal rfl h
  | registerWasmHash admin hash => exact exec_sameRoster respects_registerWasmHash rfl h
  | proposePrivilegeAction submitter action =>
    exact exec_sameRoster ((respects_proposePrivilegeAction _).bind fun _ => respects_pure _) rfl h
  | cancelPrivilegeAction caller action =>
    exact exec_sameRoster (respects_cancelPrivilegeAction action) rfl h
  | consumePrivilegeProposal action =>
    exact exec_sameRoster (respects_consumePrivilegeProposal action) rfl h

namespace Roster

variable {f f' : Roster} {a : Address}

/-- The stored administrator has the role bit. -/
def Governed (f : Roster) : Prop := ∃ a, f.admin = some a ∧ f.holds .admin a = true

theorem reassign_governed : (f.reassign a).Governed :=
  ⟨a, rfl, put_holds_self _ _ _ _⟩

/-- Only dropping the administrator's own bit leaves the administrator without it. -/
theorem step_governed_iff (h : Step op f f') (hf : f.Governed) :
    f'.Governed ↔ ∀ a, f.admin = some a → op.drops ≠ some (.admin, a) := by
  obtain ⟨admin, hadmin, hbit⟩ := hf
  cases h with
  | keep hop => simpa [hop] using ⟨admin, hadmin, hbit⟩
  | grant r a hop =>
    refine ⟨fun _ => by simp [hop], fun _ => ⟨admin, hadmin, ?_⟩⟩
    by_cases hr : Role.admin = r ∧ admin = a
    · obtain ⟨rfl, rfl⟩ := hr
      exact put_holds_self _ _ _ _
    · rw [put_holds_of_ne _ _ hr]
      exact hbit
  | drop r a hop =>
    constructor
    · rintro ⟨b, hb, hheld⟩ c hc hd
      have hcb : c = b := Option.some.inj (hc.symm.trans hb)
      have hra : some (r, a) = some (Role.admin, c) := hop.symm.trans hd
      obtain ⟨rfl, rfl⟩ := Prod.mk.inj (Option.some.inj hra)
      rw [← hcb, put_holds_self] at hheld
      cases hheld
    · intro hkeep
      refine ⟨admin, hadmin, ?_⟩
      have hr : ¬ (Role.admin = r ∧ admin = a) := by
        rintro ⟨rfl, rfl⟩
        exact hkeep admin hadmin hop
      rw [put_holds_of_ne _ _ hr]
      exact hbit
  | reassign a hop ha => exact ⟨fun _ => by simp [hop, Op.drops], fun _ => reassign_governed⟩

theorem step_admin_ne_zero (h : Step op f f') (hf : f.admin ≠ some zeroAddress) :
    f'.admin ≠ some zeroAddress := by
  cases h with
  | keep hop => exact hf
  | grant r a hop => exact hf
  | drop r a hop => exact hf
  | reassign a hop ha =>
    intro hz
    exact ha (Option.some.inj hz)

end Roster

/-- The stored administrator holds the `Admin` bit, and somebody can still grant roles. -/
def Governed (s : Store) : Prop :=
  (∃ a, s.admin = some a ∧ loadRoleMask s a &&& roleBit .admin ≠ 0#32) ∧
    ∃ b, ∀ env : Env, env.Authorized b → Runs (requireSuperAdmin b) env s () s

theorem governed_iff (hz : s.admin ≠ some zeroAddress) : Governed s ↔ s.roster.Governed := by
  have hbit : ∀ a, s.roster.holds .admin a = true ↔ loadRoleMask s a &&& roleBit .admin ≠ 0#32 :=
    fun a => decide_eq_true_iff
  constructor
  · rintro ⟨⟨a, ha, hheld⟩, -⟩
    exact ⟨a, ha, (hbit a).mpr hheld⟩
  · rintro ⟨a, ha, hheld⟩
    have hm := (hbit a).mp hheld
    refine ⟨⟨a, ha, hm⟩, a, fun env hauth => ?_⟩
    have hne : a ≠ zeroAddress := by
      rintro rfl
      exact hz ha
    have hrole : hasRole s .superAdmin a = true := by
      simp [hasRole, hne, hm]
    exact runs_requireRoleGuard.mpr ⟨hrole, hauth, rfl⟩

/-- The administrator is installed by the constructor, or by the first `set_admin`. -/
def Installs (s s' : Store) : Prop :=
  s.admin = none ∧ ∃ env a, Runs (initStorage a) env s () s' ∨ Runs (setAdmin a) env s () s'

theorem installs_admin (h : Installs s s') :
    s'.roster.Governed ∧ s'.admin ≠ some zeroAddress := by
  obtain ⟨-, env, a, h | h⟩ := h
  · simp only [initStorage, runs_self_bind, runs_requireAuth_bind, runs_gets_bind,
      runs_failIf_bind, runs_requireNonZeroAddress_bind, runs_modify] at h
    obtain ⟨-, -, ha, rfl⟩ := h
    refine ⟨⟨a, rfl, ?_⟩, fun hz => ha (Option.some.inj hz)⟩
    exact decide_eq_true_iff.mpr (by simp [loadRoleMask_persistRoleMask, roleBit])
  · obtain ⟨ha, hs⟩ := roster_setAdmin h
    have hadmin : s'.admin = some a := congrArg Roster.admin hs
    refine ⟨hs ▸ Roster.reassign_governed, ?_⟩
    rw [hadmin]
    exact fun hz => ha (Option.some.inj hz)

/-- The call does not take the `Admin` role from the stored administrator. -/
def KeepsAdmin (w : World Store) (op : Op) : Prop :=
  ∀ a, w.store.admin = some a → op.drops ≠ some (.admin, a)

theorem admin_ne_zero_next {w : World Store} {l : Label Op}
    (hz : w.store.admin ≠ some zeroAddress) :
    (w.next exec l).store.admin ≠ some zeroAddress := by
  have hstep : ∀ signers uploaded op s', Runs (exec op) (w.env signers uploaded) w.store () s' →
      s'.admin ≠ some zeroAddress :=
    fun _ _ _ _ hr => Roster.step_admin_ne_zero (exec_roster hr) hz
  exact World.next_store (P := fun s : Store => s.admin ≠ some zeroAddress) hz hstep

theorem next_governed_iff {w : World Store} {l : Label Op} (hz : w.store.admin ≠ some zeroAddress)
    (hg : Governed w.store) :
    Governed (w.next exec l).store ↔ World.OnSuccess exec KeepsAdmin w l := by
  refine World.next_store_iff hg fun signers uploaded op s' hr => ?_
  have hz' := Roster.step_admin_ne_zero (exec_roster hr) hz
  rw [governed_iff hz']
  exact Roster.step_governed_iff (exec_roster hr) ((governed_iff hz).mp hg)

/-- From its installation on, the administrator keeps the role, and somebody keeps the right to
grant roles, as long as nobody takes the `Admin` role from the stored administrator. -/
theorem administrator_kept_iff {s : Store} {w : World Store} (h : Installs s w.store)
    (ls : List (Label Op)) :
    w.EveryState exec (fun w => Governed w.store) ls ↔
      w.EveryStep exec (World.OnSuccess exec KeepsAdmin) ls := by
  obtain ⟨hg, hz⟩ := installs_admin h
  have hgov : Governed w.store := (governed_iff hz).mpr hg
  exact World.everyState_iff_everyStep hz (fun _ _ hz => admin_ne_zero_next hz) hgov
    fun _ _ hz hg => next_governed_iff hz hg

/-- Account 1 runs the contract at address 100. -/
def governedWorld : World Store where
  ledger := .ofNat 1000 1700000000
  self := ⟨100⟩
  store := persistRoleMask ⟨1⟩ (roleBit .admin) { Store.empty with admin := some ⟨1⟩ }

theorem installs_governedWorld : Installs Store.empty governedWorld.store := by
  refine ⟨rfl, ⟨governedWorld.ledger, ⟨100⟩, [], true, []⟩, ⟨1⟩, Or.inl ?_⟩
  exact runs_invoke (by decide)

/-- A second administrator is appointed, succeeds the first and loses an unrelated role. -/
def succession : List (Label Op) :=
  [.call [⟨1⟩] [] (.grantRole ⟨1⟩ .pauser ⟨2⟩),
   .call [⟨1⟩] [] (.setAdmin ⟨2⟩),
   .call [⟨2⟩] [] (.revokeRole ⟨2⟩ .pauser ⟨2⟩),
   .call [⟨2⟩] [] (.grantRole ⟨2⟩ .superAdmin ⟨3⟩)]

theorem succession_kept : governedWorld.EveryState exec (fun w => Governed w.store) succession := by
  refine (administrator_kept_iff installs_governedWorld succession).mpr ?_
  refine ⟨?_, ?_, ?_, ?_, trivial⟩
  all_goals
    intro s' _ a _
    simp [Op.drops]

/-- The administrator renounces the role and stays the stored administrator. -/
def renunciation : List (Label Op) := [.call [⟨1⟩] [] (.renounceRole ⟨1⟩ .admin)]

theorem renunciation_not_kept :
    ¬ governedWorld.EveryState exec (fun w => Governed w.store) renunciation := by
  rintro ⟨-, ⟨a, ha, hbit⟩, -⟩
  have hadmin : (governedWorld.run exec renunciation).store.admin = some ⟨1⟩ := by decide
  obtain rfl : a = ⟨1⟩ := Option.some.inj (ha.symm.trans hadmin)
  exact hbit (by decide)

end Runs

end BcForge.Admin
