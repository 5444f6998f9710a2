import BcForge.Admin.Privilege
import BcForge.Token.Conservation
import BcForge.Token.Frame
import BcForge.Token.Spec

/-! Ownership and fees change through delayed actions only, each proposal at most once. -/
namespace BcForge.BcForgeToken

open Soroban Call Admin

/-- What a success of the call means for the proposal of a privileged action. -/
def Op.privilegeEvent (now : ℕ) : Op → Option (Delay.Event PrivilegeAction)
  | .proposePrivilegeAction _ action => some (.proposed action now)
  | .cancelPrivilegeAction _ action => some (.withdrawn action)
  | .transferOwnership newAdmin => some (.used (.transferOwnership newAdmin) now)
  | .setFeeConfig _ _ => some (.used .setFeeConfig now)
  | _ => none

/-- Calls that fail have no part in the history. -/
def privilegeEvents (w : World Store) : Label Op → List (Delay.Event PrivilegeAction)
  | .call signers uploaded op =>
    if (exec op (w.env signers uploaded) w.store).isOk = true then
      (op.privilegeEvent w.ledger.timestamp).toList
    else []
  | .close _ => []

/-- The history of the privileged actions along a run. -/
def privilegeLog (w : World Store) (ls : List (Label Op)) : List (Delay.Event PrivilegeAction) :=
  w.collectSteps exec privilegeEvents ls

variable {env : Env} {s s' : Store} {op : Op}

theorem step_transferOwnership {newAdmin : Address} (hk : Keyed s.access)
    (h : Runs (transferOwnership newAdmin) env s () s') :
    Delay.Step privilegeActionDelaySecs (deadlines s.access)
        (some (.used (.transferOwnership newAdmin) env.ledger.timestamp)) (deadlines s'.access) ∧
      Keyed s'.access ∧ s'.access.admin = some newAdmin := by
  simp only [transferOwnership, admin, requireAdmin, runs_ensureInitialized_bind, runs_access_bind,
    runs_getAdmin, runs_requireRoleGuard] at h
  obtain ⟨-, _, _, ⟨-, rfl⟩, _, _, ⟨-, -, rfl⟩, _, t, hconsume, h⟩ := h
  obtain ⟨t', hset, rfl⟩ := runs_within.mp h
  obtain ⟨hstep, hkeyed⟩ := step_consumePrivilegeProposal hk hconsume
  have hsame : t'.privilegeProposal = t.privilegeProposal :=
    writes_setAdmin _ _ _ _ hset .privilege (by decide)
  have hdeadlines : deadlines t' = deadlines t := deadlines_of_eq hsame
  refine ⟨?_, keyed_of_eq hkeyed hsame, (runs_setAdmin hset).rules.admin⟩
  change Delay.Step _ _ _ (deadlines t')
  rw [hdeadlines]
  exact hstep

theorem step_setFeeConfig {caller : Address} {config : FeeConfig} (hk : Keyed s.access)
    (h : Runs (setFeeConfig caller config) env s () s') :
    Delay.Step privilegeActionDelaySecs (deadlines s.access)
        (some (.used .setFeeConfig env.ledger.timestamp)) (deadlines s'.access) ∧
      Keyed s'.access := by
  simp only [setFeeConfig, admin, requireAdmin, runs_ensureInitialized_bind, runs_access_bind,
    runs_requireRoleGuard, runs_failIf_bind, runs_modify] at h
  obtain ⟨-, _, _, ⟨-, -, rfl⟩, -, _, t, hconsume, rfl⟩ := h
  exact step_consumePrivilegeProposal hk hconsume

/-- Every entry point is one transition of the delayed actions. -/
theorem exec_privilege (hk : Keyed s.access) (h : Runs (exec op) env s () s') :
    Delay.Step privilegeActionDelaySecs (deadlines s.access)
        (op.privilegeEvent env.ledger.timestamp) (deadlines s'.access) ∧ Keyed s'.access := by
  by_cases hop : .access .privilege ∈ op.writes
  · cases op with
    | transferOwnership newAdmin =>
      obtain ⟨hstep, hkeyed, -⟩ := step_transferOwnership hk h
      exact ⟨hstep, hkeyed⟩
    | proposePrivilegeAction submitter action =>
      obtain ⟨n, h⟩ := runs_discarded.mp h
      obtain ⟨-, h⟩ := runs_ensureInitialized_bind.mp h
      obtain ⟨access, hpropose, rfl⟩ := runs_within.mp h
      exact step_proposePrivilegeAction hk hpropose
    | cancelPrivilegeAction caller action =>
      obtain ⟨-, h⟩ := runs_ensureInitialized_bind.mp h
      obtain ⟨access, hcancel, rfl⟩ := runs_within.mp h
      exact step_cancelPrivilegeAction hk hcancel
    | setFeeConfig caller config => exact step_setFeeConfig hk h
    | _ => simp [Op.writes] at hop
  · have hsame : s'.access.privilegeProposal = s.access.privilegeProposal :=
      exec_writes op env s () s' h _ hop
    have hnone : op.privilegeEvent env.ledger.timestamp = none := by
      cases op with
      | transferOwnership newAdmin => simp [Op.writes] at hop
      | proposePrivilegeAction submitter action => simp [Op.writes] at hop
      | cancelPrivilegeAction caller action => simp [Op.writes] at hop
      | setFeeConfig caller config => simp [Op.writes] at hop
      | _ => rfl
    rw [hnone, deadlines_of_eq hsame]
    exact ⟨.keep, keyed_of_eq hk hsame⟩

/-- The stored administrator is replaced by a transfer of ownership, and by nothing else. -/
theorem exec_admin (hinit : ∀ a d n m, op ≠ .initializeToken a d n m) (hk : Keyed s.access)
    (h : Runs (exec op) env s () s') (hne : s'.access.admin ≠ s.access.admin) :
    ∃ a, op = .transferOwnership a ∧ s'.access.admin = some a := by
  by_cases hop : .access .admin ∈ op.writes
  · cases op with
    | transferOwnership newAdmin => exact ⟨newAdmin, rfl, (step_transferOwnership hk h).2.2⟩
    | initializeToken a d n m => exact absurd rfl (hinit a d n m)
    | _ => simp [Op.writes] at hop
  · exact absurd (exec_writes op env s () s' h _ hop) hne

variable {w : World Store} {l : Label Op} {ls : List (Label Op)}

/-- The proposals on record are those the history has left open, and every use so far had one. -/
structure Accounted (w : World Store) (log : List (Delay.Event PrivilegeAction)) : Prop where
  keyed : Keyed w.store.access
  tracks : Delay.Tracks privilegeActionDelaySecs log (deadlines w.store.access)
  justified : Delay.Justified privilegeActionDelaySecs log

theorem accounted_deployed (h : Deployed w) : Accounted w [] := by
  obtain ⟨_, _, access, _, _, _, _, hset, hs⟩ := deployed_store h
  have hnone : w.store.access.privilegeProposal = fun _ => none := by
    rw [hs]
    exact writes_setAdmin _ _ _ _ hset .privilege (by decide)
  refine ⟨?_, ?_, ?_⟩
  · intro action p hp
    rw [hnone] at hp
    cases hp
  · intro action d hd
    rw [deadlines, hnone] at hd
    cases hd
  · intro j action t hj
    simp at hj

theorem accounted_next {log : List (Delay.Event PrivilegeAction)} (h : Accounted w log) :
    Accounted (w.next exec l) (log ++ privilegeEvents w l) := by
  cases l with
  | close l =>
    have hs : (w.next exec (.close l)).store = w.store := World.next_close_store exec w l
    rw [privilegeEvents, List.append_nil]
    exact ⟨hs ▸ h.keyed, hs ▸ h.tracks, h.justified⟩
  | call signers uploaded op =>
    rcases World.call_cases exec w signers uploaded op with hr | ⟨hfail, hs⟩
    · obtain ⟨hstep, hkeyed⟩ := exec_privilege h.keyed hr
      rw [privilegeEvents, if_pos (isOk_of_runs hr)]
      exact ⟨hkeyed, Delay.step_tracks h.tracks hstep,
        Delay.step_justified h.justified h.tracks hstep⟩
    · rw [privilegeEvents, if_neg hfail, List.append_nil, hs]
      exact h

theorem accounted_run (h : Deployed w) (ls : List (Label Op)) :
    Accounted (w.run exec ls) (privilegeLog w ls) :=
  World.run_induction_collect (b := []) (C := fun _ _ => True) (accounted_deployed h)
    (fun _ _ _ hr _ => accounted_next hr) (World.everyStep_of_forall fun _ _ => trivial)

/-- A step that replaces the stored administrator is a use of the transfer to the new one. -/
theorem next_admin (hk : Keyed w.store.access)
    (hne : (w.next exec l).store.access.admin ≠ w.store.access.admin) :
    ∃ a, privilegeEvents w l = [.used (.transferOwnership a) w.ledger.timestamp] ∧
      (w.next exec l).store.access.admin = some a := by
  cases l with
  | close l =>
    rw [World.next_close_store] at hne
    exact absurd rfl hne
  | call signers uploaded op =>
    rcases World.call_cases exec w signers uploaded op with hr | ⟨-, hs⟩
    · have hinit : ∀ a d n m, op ≠ .initializeToken a d n m := by
        rintro a d n m rfl
        exact not_runs_initializeToken hr
      obtain ⟨a, rfl, hadmin⟩ := exec_admin hinit hk hr hne
      refine ⟨a, ?_, hadmin⟩
      rw [privilegeEvents, if_pos (isOk_of_runs hr)]
      rfl
    · rw [hs] at hne
      exact absurd rfl hne

/-- In every run after deployment, every transfer of ownership and every fee change that succeeds
uses a proposal for that very action, made at least a day before and neither withdrawn nor used in
between; no proposal is used twice; and the stored administrator changes in no other way. -/
theorem privileged_changes_wait (h : Deployed w) (ls : List (Label Op)) :
    Delay.Justified 86400 (privilegeLog w ls) ∧
      (∀ i j j', Delay.Authorises 86400 (privilegeLog w ls) i j →
        Delay.Authorises 86400 (privilegeLog w ls) i j' → j = j') ∧
      w.EveryStep exec (fun w l => (w.next exec l).store.access.admin ≠ w.store.access.admin →
        ∃ a, privilegeEvents w l = [.used (.transferOwnership a) w.ledger.timestamp] ∧
          (w.next exec l).store.access.admin = some a) ls := by
  refine ⟨(accounted_run h ls).justified, fun _ _ _ => Delay.authorises_unique, ?_⟩
  have hkeyed : Keyed w.store.access := (accounted_deployed h).keyed
  refine World.everyStep_mono (I := fun w : World Store => Keyed w.store.access) hkeyed ?_ ?_
    (World.everyStep_of_forall (C := fun _ _ => True) fun _ _ => trivial)
  · intro w l hk _
    refine World.next_store (P := fun s : Store => Keyed s.access) hk ?_
    intro signers uploaded op s' hr
    exact (exec_privilege hk hr).2
  · intro w l hk _ hne
    exact next_admin hk hne

/-- Account 1 proposes account 2, thinks again, proposes it once more, and hands over a day
later. -/
def handover : List (Label Op) :=
  [.call [⟨1⟩] [] (.proposePrivilegeAction ⟨1⟩ (.transferOwnership ⟨2⟩)),
   .call [⟨1⟩] [] (.cancelPrivilegeAction ⟨1⟩ (.transferOwnership ⟨2⟩)),
   .call [⟨1⟩] [] (.proposePrivilegeAction ⟨1⟩ (.transferOwnership ⟨2⟩)),
   .close (.ofNat 200 1700086400),
   .call [⟨1⟩] [] (.transferOwnership ⟨2⟩)]

theorem handover_waits : Delay.Justified 86400 (privilegeLog genesis handover) ∧
    (genesis.run exec handover).store.access.admin = some ⟨2⟩ :=
  ⟨(privileged_changes_wait genesis_deployed handover).1, by decide +kernel⟩

end BcForge.BcForgeToken
