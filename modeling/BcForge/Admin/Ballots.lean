import BcForge.Admin.Frame
import BcForge.Admin.Invariant
import BcForge.Admin.Upgrades

/-! Where the approvals on record come from: every one is a vote of the run, cast and signed for by
a member of the pool, and no vote is lost. -/
namespace BcForge.Admin

open Soroban

/-- A vote for one proposal. -/
structure Ballot where
  proposal : ℕ
  voter : Address
deriving DecidableEq

/-- The votes cast for a proposal, in order. -/
def castFor (id : ℕ) (bs : List Ballot) : List Address :=
  bs.filterMap fun b => if b.proposal = id then some b.voter else none

/-- The vote a call brings if it succeeds: a proposer votes for the new proposal. -/
def Op.ballots (s : Store) : Op → List Ballot
  | .createProposal creator _ => [⟨s.proposalIdCounter, creator⟩]
  | .createRoleProposal creator _ _ _ => [⟨s.proposalIdCounter, creator⟩]
  | .approveProposal admin id => [⟨id, admin⟩]
  | _ => []

/-- The same for the proposals of the upgrade flow, which are numbered on their own. -/
def Op.upgradeBallots (s : Store) : Op → List Ballot
  | .submitUpgradeProposal submitter _ => [⟨s.upgradeProposalIdCounter, submitter⟩]
  | .approveUpgrade voter id => [⟨id, voter⟩]
  | _ => []

/-- What successful calls bring. -/
def ballotsBy (f : Op → Store → List Ballot) (w : World Store) : Label Op → List Ballot
  | .call signers uploaded op =>
    if (exec op (w.env signers uploaded) w.store).isOk = true then f op w.store else []
  | .close _ => []

def ballots : World Store → Label Op → List Ballot := ballotsBy fun op s => op.ballots s

def upgradeBallots : World Store → Label Op → List Ballot :=
  ballotsBy fun op s => op.upgradeBallots s

variable {env : Env} {s s' : Store} {op : Op} {u : Unit} {id i threshold : ℕ} {bs bs' : List Ballot}
  {x : Address}

theorem castFor_append : castFor id (bs ++ bs') = castFor id bs ++ castFor id bs' :=
  List.filterMap_append

theorem castFor_singleton : castFor id [⟨i, x⟩] = if i = id then [x] else [] := by
  by_cases h : i = id <;> simp [castFor, h]

namespace Flow

variable {f : Flow} {p : Proposal} {pool : List Address}

/-- Who has approved a proposal, nobody if there is none. -/
def approvals (f : Flow) (id : ℕ) : List Address := (f.proposal id).elim [] (·.approvals)

theorem approvals_of_eq (hp : f.proposal id = some p) : f.approvals id = p.approvals := by
  rw [approvals, hp]
  rfl

theorem approvals_write : (write i p f).approvals id =
    if i = id then p.approvals else f.approvals id := by
  by_cases h : id = i
  · subst h
    simp [approvals, write]
  · simp [approvals, write, Function.update_of_ne h, Ne.symm h]

/-- A write that keeps the votes of the proposal keeps everybody's. -/
theorem approvals_rewrite {q : Proposal} (hp : f.proposal i = some p)
    (hq : q.approvals = p.approvals) : (write i q f).approvals id = f.approvals id := by
  rw [approvals_write]
  split
  · rename_i h
    subst h
    rw [approvals_of_eq hp, hq]
  · rfl

@[simp] theorem approvals_startTimelock {now : ℕ} :
    (startTimelock threshold now i p f).approvals id = f.approvals id := by
  rw [approvals, startTimelock_proposal]
  rfl

theorem approvals_create {here : Address} (hw : Wellformed here f) (l : Ledger)
    (creator : Address) (description : String) :
    (f.create threshold l creator description).approvals id =
      f.approvals id ++ castFor id [⟨f.nextId, creator⟩] := by
  have hnone : f.approvals f.nextId = [] := by
    rw [approvals, (hw.fresh _ le_rfl).1]
    rfl
  rw [create, approvals_startTimelock, approvals_write, castFor_singleton]
  split
  · rename_i h
    subst h
    rw [hnone]
    rfl
  · rw [List.append_nil]
    rfl

theorem approvals_vote {l : Ledger} (hp : f.proposal i = some p) :
    (f.vote threshold l i p x).approvals id = f.approvals id ++ castFor id [⟨i, x⟩] := by
  rw [vote, approvals_startTimelock, approvals_write, castFor_singleton]
  split
  · rename_i h
    subst h
    rw [approvals_of_eq hp]
  · rw [List.append_nil]

theorem approvals_setExecuted (ids : List ℕ) :
    (f.setExecuted ids).approvals id = f.approvals id := by
  unfold approvals setExecuted
  cases hp : f.proposal id with
  | none => simp [hp]
  | some p => by_cases h : id ∈ ids <;> simp [h, hp]

end Flow

theorem flow_approveProposal (h : Runs (approveProposal x i) env s u s') :
    (env.Authorized x ∧ x ∈ getAdminPool s) ∧ ∃ p, s.proposal i = some p ∧
      s'.flow = s.flow.vote (getThreshold s) env.ledger i p x := by
  rw [approveProposal, runs_withProposalGuard] at h
  obtain ⟨-, t, ht, rfl⟩ := h
  simp only [runs_requireAuth_bind, runs_gets_bind, runs_failIf_bind, runs_okOr_bind,
    runs_modify_bind, not_not, Bool.not_eq_true] at ht
  obtain ⟨ha, hm, p, hp, -, -, -, ht⟩ := ht
  obtain ⟨hf, -⟩ := runs_startTimelockIfQuorate (by simp [writeProposal]; rfl) ht
  exact ⟨⟨ha, hm⟩, p, hp, hf⟩

theorem approvals_cancelLegacyProposal (h : Runs (cancelLegacyProposal x i) env s u s') :
    s'.flow.approvals id = s.flow.approvals id := by
  rw [cancelLegacyProposal, runs_withProposalGuard] at h
  obtain ⟨-, t, ht, rfl⟩ := h
  simp only [runs_requireAuth_bind, runs_gets_bind, runs_failIf_bind, runs_okOr_bind,
    runs_modify_bind, runs_ledger_bind, runs_modify] at ht
  obtain ⟨-, p, hp, -, -, -, rfl⟩ := ht
  have hkept : (Flow.write i { p with cancelled := true } s.flow).approvals id =
      s.flow.approvals id := Flow.approvals_rewrite (f := s.flow) hp rfl
  exact hkept

theorem flow_of_writes (h : Runs (exec op) env s () s') (hop : .flow ∉ op.writes) :
    s'.flow = s.flow :=
  exec_writes op env s () s' h _ hop

theorem approvals_executed {p : Proposal} (hp : s.proposal i = some p) :
    (s.flow.write i { p with executed := true }).approvals id = s.flow.approvals id :=
  Flow.approvals_rewrite (f := s.flow) hp rfl

/-- Every other call leaves all votes as they are. -/
theorem approvals_quiet (hop : op.votes = false) (h : Runs (exec op) env s () s') :
    s'.flow.approvals id = s.flow.approvals id := by
  by_cases hflow : .flow ∈ op.writes
  · cases op with
    | markExecuted j =>
      obtain ⟨-, -, -, p, hp, -, rfl⟩ := runs_markExecuted.mp h
      exact approvals_executed hp
    | executeRoleProposal executor j =>
      obtain ⟨-, -, -, -, p, hp, -, act, -, -, -, rfl⟩ := runs_executeRoleProposal.mp h
      exact approvals_executed hp
    | cancelLegacyProposal caller j => exact approvals_cancelLegacyProposal h
    | executeUpgrade executor j hash =>
      obtain ⟨-, -, -, -, p, hp, -, -, rfl⟩ := runs_executeUpgrade.mp h
      exact approvals_executed hp
    | executeUpgradeBatch executor ids hashes =>
      obtain ⟨-, -, hf, -⟩ := runs_executeUpgradeBatch h
      rw [hf]
      exact Flow.approvals_setExecuted ids
    | emergencyExecuteUpgrade executor j hash =>
      obtain ⟨-, -, -, -, p, hp, -, -, rfl⟩ := runs_emergencyExecuteUpgrade.mp h
      exact approvals_executed hp
    | createProposal creator description => cases hop
    | createRoleProposal creator r target description => cases hop
    | approveProposal admin j => cases hop
    | _ => simp [Op.writes] at hflow
  · rw [flow_of_writes h hflow]

/-- A successful call adds the vote it brings, and takes none away. -/
theorem approvals_exec {here : Address} (hw : s.flow.Wellformed here)
    (h : Runs (exec op) env s () s') :
    s'.flow.approvals id = s.flow.approvals id ++ castFor id (op.ballots s) := by
  cases op with
  | createProposal creator description =>
    obtain ⟨j, ht⟩ := runs_discarded.mp h
    obtain ⟨-, -, -, hf, -⟩ := runs_createProposal ht
    rw [hf, Flow.approvals_create hw]
    rfl
  | createRoleProposal creator r target description =>
    obtain ⟨j, ht⟩ := runs_discarded.mp h
    obtain ⟨-, -, -, hf, -⟩ := runs_createRoleProposal ht
    have hcreated : (s.flow.create (getThreshold s) env.ledger creator description).approvals id =
        s.flow.approvals id ++ castFor id [⟨s.flow.nextId, creator⟩] :=
      Flow.approvals_create hw env.ledger creator description
    rw [hf]
    exact hcreated
  | approveProposal admin j =>
    obtain ⟨-, p, hp, hf⟩ := flow_approveProposal h
    rw [hf, Flow.approvals_vote (f := s.flow) hp]
    rfl
  | _ => exact (approvals_quiet rfl h).trans (List.append_nil _).symm

namespace Upgrades

variable {f : Upgrades} {p : UpgradeProposal}

/-- Who has voted for an upgrade, nobody if there is no such proposal. -/
def approvals (f : Upgrades) (id : ℕ) : List Address := (f.proposal id).elim [] voters

theorem approvals_of_eq (hp : f.proposal id = some p) : f.approvals id = voters p := by
  rw [approvals, hp]
  rfl

theorem approvals_write : (write i p f).approvals id =
    if i = id then voters p else f.approvals id := by
  by_cases h : id = i
  · subst h
    simp [approvals, write]
  · simp [approvals, write, Function.update_of_ne h, Ne.symm h]

end Upgrades

theorem signed_submitUpgradeProposal {hash : BytesN32}
    (h : Runs (submitUpgradeProposal x hash) env s i s') :
    env.Authorized x ∧ x ∈ getAdminPool s := by
  rw [submitUpgradeProposal, runs_withProposalGuard] at h
  obtain ⟨-, t, h, -⟩ := h
  simp only [runs_requireAuth_bind, runs_gets_bind, runs_failIf_bind, not_not] at h
  exact ⟨h.1, h.2.1⟩

theorem signed_approveUpgrade (h : Runs (approveUpgrade x i) env s u s') :
    env.Authorized x ∧ x ∈ getAdminPool s := by
  rw [approveUpgrade, runs_withProposalGuard] at h
  obtain ⟨-, t, h, -⟩ := h
  simp only [runs_requireAuth_bind, runs_gets_bind, runs_failIf_bind, not_not] at h
  exact ⟨h.1, h.2.1⟩

theorem upgradeApprovals_exec (hw : s.upgrades.Wellformed) (h : Runs (exec op) env s () s') :
    s'.upgrades.approvals id = s.upgrades.approvals id ++ castFor id (op.upgradeBallots s) := by
  by_cases hop : .upgrades ∈ op.writes
  · cases op with
    | submitUpgradeProposal submitter hash =>
      obtain ⟨j, ht⟩ := runs_discarded.mp h
      have hnone : s.upgrades.approvals s.upgrades.nextId = [] := by
        rw [Upgrades.approvals, hw.fresh _ le_rfl]
        rfl
      rw [upgrades_submitUpgradeProposal ht, Upgrades.approvals_write, Op.upgradeBallots,
        castFor_singleton]
      by_cases hid : s.upgrades.nextId = id
      · have hcounter : s.upgradeProposalIdCounter = id := hid
        rw [if_pos hid, if_pos hcounter, ← hid, hnone]
        rfl
      · have hcounter : s.upgradeProposalIdCounter ≠ id := hid
        rw [if_neg hid, if_neg hcounter, List.append_nil]
        rfl
    | approveUpgrade voter j =>
      obtain ⟨p, hp, -, -, -, heq⟩ := upgrades_approveUpgrade h
      rw [heq, Upgrades.approvals_write, Op.upgradeBallots, castFor_singleton]
      split
      · rename_i hid
        subst hid
        rw [Upgrades.approvals_of_eq (f := s.upgrades) hp, Upgrades.voters_voted]
      · rw [List.append_nil]
    | cancelProposal caller j =>
      obtain ⟨p, hp, -, heq⟩ := upgrades_cancelProposal h
      have hkept : s'.upgrades.approvals id = s.upgrades.approvals id := by
        rw [heq, Upgrades.approvals_write]
        split
        · rename_i hid
          subst hid
          rw [Upgrades.approvals_of_eq (f := s.upgrades) hp]
          rfl
        · rfl
      exact hkept.trans (List.append_nil _).symm
    | _ => simp [Op.writes] at hop
  · rw [upgrades_eq_of_writes h hop]
    cases op with
    | submitUpgradeProposal submitter hash => simp [Op.writes] at hop
    | approveUpgrade voter j => simp [Op.writes] at hop
    | _ => exact (List.append_nil _).symm

/-- A vote is cast under the voter's own signature, by a member of the pool as it then is. -/
theorem ballots_signed (h : Runs (exec op) env s () s') :
    ∀ b ∈ op.ballots s ++ op.upgradeBallots s,
      env.Authorized b.voter ∧ b.voter ∈ getAdminPool s := by
  intro b hb
  cases op with
  | createProposal creator description =>
    obtain ⟨j, ht⟩ := runs_discarded.mp h
    obtain ⟨ha, hm, -⟩ := runs_createProposal ht
    obtain rfl := List.mem_singleton.mp hb
    exact ⟨ha, hm⟩
  | createRoleProposal creator r target description =>
    obtain ⟨j, ht⟩ := runs_discarded.mp h
    obtain ⟨ha, hm, -⟩ := runs_createRoleProposal ht
    obtain rfl := List.mem_singleton.mp hb
    exact ⟨ha, hm⟩
  | approveProposal admin j =>
    obtain rfl := List.mem_singleton.mp hb
    exact (flow_approveProposal h).1
  | submitUpgradeProposal submitter hash =>
    obtain ⟨j, ht⟩ := runs_discarded.mp h
    obtain rfl := List.mem_singleton.mp hb
    exact signed_submitUpgradeProposal ht
  | approveUpgrade voter j =>
    obtain rfl := List.mem_singleton.mp hb
    exact signed_approveUpgrade h
  | _ => cases hb

variable {w : World Store} {l : Label Op}

/-- The votes on record are those cast so far. -/
structure Counted (w : World Store) (cast upgrades : List Ballot) : Prop where
  sound : Sound w
  wellformed : w.store.upgrades.Wellformed
  legacy : ∀ id, w.store.flow.approvals id = castFor id cast
  upgrade : ∀ id, w.store.upgrades.approvals id = castFor id upgrades

theorem counted_empty (h : w.store = Store.empty) : Counted w [] [] := by
  refine ⟨sound_empty h, wellformed_none fun id => ?_, fun id => ?_, fun id => ?_⟩
  · rw [h]
    rfl
  · rw [h]
    rfl
  · rw [h]
    rfl

theorem counted_next {bs bs' : List Ballot} (h : Counted w bs bs') :
    Counted (w.next exec l) (bs ++ ballots w l) (bs' ++ upgradeBallots w l) := by
  refine ⟨sound_next h.sound, wellformed_next h.wellformed, fun id => ?_, fun id => ?_⟩
  · cases l with
    | close l =>
      rw [World.next_close_store, ballots, ballotsBy, List.append_nil]
      exact h.legacy id
    | call signers uploaded op =>
      rw [castFor_append, ← h.legacy id, ballots, ballotsBy]
      rcases World.call_cases exec w signers uploaded op with hr | ⟨hfail, hs⟩
      · rw [if_pos (isOk_of_runs hr)]
        exact approvals_exec h.sound.flow hr
      · rw [if_neg hfail, hs]
        exact (List.append_nil _).symm
  · cases l with
    | close l =>
      rw [World.next_close_store, upgradeBallots, ballotsBy, List.append_nil]
      exact h.upgrade id
    | call signers uploaded op =>
      rw [castFor_append, ← h.upgrade id, upgradeBallots, ballotsBy]
      rcases World.call_cases exec w signers uploaded op with hr | ⟨hfail, hs⟩
      · rw [if_pos (isOk_of_runs hr)]
        exact upgradeApprovals_exec h.wellformed hr
      · rw [if_neg hfail, hs]
        exact (List.append_nil _).symm

theorem counted_run {bs bs' : List Ballot} (h : Counted w bs bs') (ls : List (Label Op)) :
    Counted (w.run exec ls) (bs ++ w.collectSteps exec ballots ls)
      (bs' ++ w.collectSteps exec upgradeBallots ls) := by
  induction ls generalizing w bs bs' with
  | nil => simpa [World.collectSteps] using h
  | cons l ls ih =>
    have hn := ih (counted_next (l := l) h)
    rwa [List.append_assoc, List.append_assoc] at hn

theorem ballots_step (w : World Store) (l : Label Op) : ∀ b ∈ ballots w l ++ upgradeBallots w l,
    l.SignedBy b.voter ∧ b.voter ∈ getAdminPool w.store := by
  intro b hb
  cases l with
  | close l => cases hb
  | call signers uploaded op =>
    rw [ballots, upgradeBallots, ballotsBy, ballotsBy] at hb
    rcases World.call_cases exec w signers uploaded op with hr | ⟨hfail, -⟩
    · rw [if_pos (isOk_of_runs hr), if_pos (isOk_of_runs hr)] at hb
      obtain ⟨ha, hm⟩ := ballots_signed hr b hb
      rw [World.env_authorized] at ha
      exact ⟨ha.2, hm⟩
    · rw [if_neg hfail, if_neg hfail] at hb
      cases hb

/-- In every run from deployment on, the approvals of each proposal, of either flow, are exactly
the votes that successful calls of the run have cast for it, each as often as it was cast, and in
the legacy flow in their order; and each of these calls was signed by the voter, who was in the
pool when it was made. Changing the pool, the threshold or the roles, executing and cancelling
neither adds a vote nor takes one away. -/
theorem approvals_are_votes (h : w.store = Store.empty) (ls : List (Label Op)) :
    (∀ id p, (w.run exec ls).store.proposal id = some p →
        p.approvals = castFor id (w.collectSteps exec ballots ls)) ∧
      (∀ id p, (w.run exec ls).store.upgradeProposal id = some p →
        (voters p).Perm (castFor id (w.collectSteps exec upgradeBallots ls))) ∧
      w.EveryStep exec (fun w l => ∀ b ∈ ballots w l ++ upgradeBallots w l,
        l.SignedBy b.voter ∧ b.voter ∈ getAdminPool w.store) ls := by
  have hcounted := counted_run (counted_empty h) ls
  refine ⟨fun id p hp => ?_, fun id p hp => ?_, World.everyStep_of_forall ballots_step⟩
  · rw [← Flow.approvals_of_eq (f := (w.run exec ls).store.flow) hp]
    exact hcounted.legacy id
  · rw [← Upgrades.approvals_of_eq (f := (w.run exec ls).store.upgrades) hp]
    exact List.Perm.of_eq (hcounted.upgrade id)

/-- Account 2 tries to vote twice, and is then replaced along with account 1. -/
def replacedVoters : List (Label Op) :=
  [.call [⟨1⟩] [] (.setAdmin ⟨1⟩),
   .call [⟨1⟩] [] (.setAdminPool [⟨1⟩, ⟨2⟩] 2),
   .call [⟨1⟩] [] (.createProposal ⟨1⟩ "upgrade"),
   .call [⟨2⟩] [] (.approveProposal ⟨2⟩ 0),
   .call [⟨2⟩] [] (.approveProposal ⟨2⟩ 0),
   .call [⟨1⟩] [] (.setAdminPool [⟨3⟩, ⟨4⟩] 1),
   .call [⟨3⟩] [] (.createProposal ⟨3⟩ "pause")]

theorem replacedVoters_votes : ∃ p,
    ((⟨.ofNat 1000 1700000000, ⟨100⟩, Store.empty⟩ : World Store).run exec
      replacedVoters).store.proposal 0 = some p ∧ p.approvals = [⟨1⟩, ⟨2⟩] := by
  have hsome : (((⟨.ofNat 1000 1700000000, ⟨100⟩, Store.empty⟩ : World Store).run exec
      replacedVoters).store.proposal 0).isSome = true := by decide +kernel
  obtain ⟨p, hp⟩ := Option.isSome_iff_exists.mp hsome
  refine ⟨p, hp, ?_⟩
  rw [(approvals_are_votes rfl replacedVoters).1 0 p hp]
  decide +kernel

end BcForge.Admin
