import BcForge.Admin.Quorum

/-! What can still be done with a proposal: cancelled and expired ones, and the grants that role
proposals are bound to. -/
namespace BcForge.Admin

open Soroban

/-- Cancelled, or past the last ledger at which it may execute. -/
def Dead (l : Ledger) (p : Proposal) : Prop :=
  p.cancelled = true ∨ proposalExpired l p = true

/-- No call of any execution path succeeds on the proposal, whoever signs. -/
def Unexecutable (w : World Store) (id : ℕ) : Prop :=
  ∀ signers uploaded op, id ∈ op.regular ∨ id ∈ op.emergency →
    ∀ s', ¬ Runs (exec op) (w.env signers uploaded) w.store () s'

/-- The pool has a member that can sign a call; the contract itself cannot. -/
def HasSigner (w : World Store) : Prop := ∃ m ∈ getAdminPool w.store, m ≠ w.self

/-- The proposal has been executed, or it has not exactly as many approvals as the pool entries. -/
def EmergencyShut (w : World Store) (id : ℕ) : Prop :=
  ∀ p, w.store.proposal id = some p →
    p.executed = true ∨ p.approvals.length ≠ (getAdminPool w.store).length ∨ ¬ HasSigner w

variable {w : World Store} {ls ls' : List (Label Op)} {id : ℕ} {p q : Proposal}

theorem dead_later {l l' : Ledger} (hl : l.sequence ≤ l'.sequence) (hpq : Flow.Later p q)
    (h : Dead l p) : Dead l' q := by
  rcases h with h | h
  · exact Or.inl (hpq.cancelled h)
  · refine Or.inr ?_
    rw [proposalExpired] at h ⊢
    rw [hpq.expiry]
    cases he : p.expiryLedger with
    | none => simp [he] at h
    | some expiry =>
      simp only [he, decide_eq_true_eq] at h ⊢
      omega

theorem Executable.not_dead {l : Ledger} {n : ℕ} (h : Executable l n p) : ¬ Dead l p := by
  rintro (hc | he)
  · simp [h.cancelled] at hc
  · simp [h.expired] at he

theorem emergency_succeeds (hs : Sound w) (hp : w.store.proposal id = some p)
    (hx : p.executed = false) (hl : p.approvals.length = (getAdminPool w.store).length)
    (hm : HasSigner w) : ∃ m s', Runs (exec (.emergencyExecuteUpgrade m id 0)) (w.env [m] [0])
      w.store () s' := by
  obtain ⟨m, hm, hne⟩ := hm
  refine ⟨m, _, runs_emergencyExecuteUpgrade.mpr ⟨hs.guard, ?_, hm, ?_, p, hp, hx, hl, rfl⟩⟩
  · simpa using hne
  · simp

/-- Cancelling or outliving a proposal closes every path but the emergency one. -/
theorem dead_unexecutable_iff (h : w.store = Store.empty)
    (hp : (w.run exec ls).store.proposal id = some p) (hd : Dead (w.run exec ls).ledger p) :
    Unexecutable (w.run exec (ls ++ ls')) id ↔ EmergencyShut (w.run exec (ls ++ ls')) id := by
  have hs : Sound (w.run exec ls) := sound_run h ls
  have hs' : Sound (w.run exec (ls ++ ls')) := sound_run h _
  rw [World.run_append] at hs' ⊢
  have hmono := World.run_ledger_mono exec (w.run exec ls) ls'
  have hev := evolves_run hs ls'
  generalize (w.run exec ls).run exec ls' = v at hs' hmono hev ⊢
  obtain ⟨q, hq, hpq⟩ := hev.proposal id p hp
  have hdq : Dead v.ledger q := dead_later hmono.1 hpq hd
  constructor
  · intro hn r hr
    by_contra hc
    simp only [not_or, not_not, Bool.not_eq_true] at hc
    obtain ⟨m, s', hrun⟩ := emergency_succeeds hs' hr hc.1 hc.2.1 hc.2.2
    exact hn [m] [0] (.emergencyExecuteUpgrade m id 0) (Or.inr (List.mem_singleton_self id)) s' hrun
  · intro hc signers uploaded op hop s' hrun
    rcases hop with hop | hop
    · obtain ⟨r, hr, hl⟩ := regular_executable hrun hop
      cases hq.symm.trans hr
      exact hl.not_dead hdq
    · obtain ⟨r, hr, hx, hl, m, hm, ha⟩ := emergency_unanimous hrun hop
      rcases hc r hr with h | h | h
      · simp [hx] at h
      · exact h hl
      · exact h ⟨m, hm, ((v.env_authorized signers uploaded m).mp ha).1⟩

/-- The creator withdraws the proposal and executes it all the same. -/
def cancelledRun : List (Label Op) :=
  [.call [⟨1⟩] [] (.setAdmin ⟨1⟩),
   .call [⟨1⟩] [] (.createProposal ⟨1⟩ "upgrade"),
   .call [⟨1⟩] [] (.cancelLegacyProposal ⟨1⟩ 0)]

theorem cancelledRun_executable :
    (∃ p, (deployed.run exec cancelledRun).store.proposal 0 = some p ∧
      Dead (deployed.run exec cancelledRun).ledger p) ∧
    ¬ Unexecutable (deployed.run exec cancelledRun) 0 := by
  refine ⟨⟨_, rfl, Or.inl rfl⟩, ?_⟩
  intro h
  exact h [⟨1⟩] [7] (.emergencyExecuteUpgrade ⟨1⟩ 0 7) (Or.inr (by decide)) _
    (runs_invoke (by decide))

/-- With a second pool member the lone approval no longer counts as unanimous. -/
theorem cancelledRun_shut : Unexecutable (deployed.run exec
    (cancelledRun ++ [.call [⟨1⟩] [] (.setAdminPool [⟨1⟩, ⟨2⟩] 1)])) 0 := by
  refine (dead_unexecutable_iff (p := ?_) rfl ?_ ?_).mpr ?_
  rotate_left
  · exact rfl
  · exact Or.inl rfl
  · intro p hp
    cases hp
    exact Or.inr (Or.inl (by decide))

/-! Role proposals share ids, approvals and the executed flag with upgrades. -/

/-- The legacy proposals a call executes as a WASM upgrade. -/
def Op.upgrades : Op → List ℕ
  | .executeUpgrade _ id _ => [id]
  | .executeUpgradeBatch _ ids _ => ids
  | .emergencyExecuteUpgrade _ id _ => [id]
  | _ => []

/-- The proposal can take effect only as the grant of `action`. -/
structure BoundToGrant (w : World Store) (id : ℕ) (action : RoleGrantAction) : Prop where
  upgrade : ∀ signers uploaded op, id ∈ op.upgrades →
    ∀ s', ¬ Runs (exec op) (w.env signers uploaded) w.store () s'
  mark : ∀ signers uploaded s',
    ¬ Runs (exec (.markExecuted id)) (w.env signers uploaded) w.store () s'
  grant : ∀ signers uploaded executor s',
    Runs (exec (.executeRoleProposal executor id)) (w.env signers uploaded) w.store () s' →
    ∃ p t, w.store.proposal id = some p ∧
      Runs (grantRole' action.role action.target) (w.env signers uploaded) w.store () t ∧
      s' = writeProposal id { p with executed := true } t

/-- Neither the emergency path nor the timelocked one is open to the proposal. -/
def UpgradeShut (w : World Store) (id : ℕ) : Prop :=
  ∀ p, w.store.proposal id = some p → p.executed = true ∨ ¬ HasSigner w ∨
    (p.approvals.length ≠ (getAdminPool w.store).length ∧
      (Dead w.ledger p ∨ p.approvals.length < getThreshold w.store ∨
        ¬ Unlocked w.ledger w.store id))

theorem upgrade_succeeds (hs : Sound w) (hu : Upgradable w.ledger w.store id) (hm : HasSigner w) :
    ∃ m s', Runs (exec (.executeUpgrade m id 0)) (w.env [m] [0]) w.store () s' := by
  obtain ⟨m, hm, hne⟩ := hm
  obtain ⟨p, hp, hl, hu⟩ := hu
  refine ⟨m, _, runs_executeUpgrade.mpr ⟨hs.guard, ?_, hm, ?_, p, hp, hl, hu, rfl⟩⟩
  · simpa using hne
  · simp

theorem upgrades_cases {env : Env} {s s' : Store} {op : Op} (h : Runs (exec op) env s () s')
    (hid : id ∈ op.upgrades) :
    (∃ m ∈ getAdminPool s, env.Authorized m) ∧ (Upgradable env.ledger s id ∨
      ∃ p, s.proposal id = some p ∧ p.executed = false ∧
        p.approvals.length = (getAdminPool s).length) := by
  cases op with
  | executeUpgrade x i hash =>
    rw [List.mem_singleton.mp hid]
    obtain ⟨-, ha, hm, -, p, hp, hl, hu, -⟩ := runs_executeUpgrade.mp h
    exact ⟨⟨x, hm, ha⟩, Or.inl ⟨p, hp, hl, hu⟩⟩
  | executeUpgradeBatch x ids hashes =>
    obtain ⟨hu, hm, -⟩ := runs_executeUpgradeBatch h
    exact ⟨⟨x, hm (List.ne_nil_of_mem hid)⟩, Or.inl (hu id hid)⟩
  | emergencyExecuteUpgrade x i hash =>
    rw [List.mem_singleton.mp hid]
    obtain ⟨-, ha, hm, -, p, hp, hx, hl, -⟩ := runs_emergencyExecuteUpgrade.mp h
    exact ⟨⟨x, hm, ha⟩, Or.inr ⟨p, hp, hx, hl⟩⟩
  | _ => cases hid

section Role

variable {signers : List Address} {uploaded : List BytesN32} {creator target : Address} {r : Role}
  {description : String} {s₁ : Store}

theorem createRoleProposal_next
    (hc : Runs (createRoleProposal creator r target description) (w.env signers uploaded)
      w.store id s₁) :
    (w.next exec (.call signers uploaded
      (.createRoleProposal creator r target description))).store = s₁ := by
  apply invoke_of_runs (a := ())
  simp only [exec, runs_bind, runs_pure]
  exact ⟨id, s₁, hc, trivial, rfl⟩

/-- From its creation on, the proposal keeps its grant unless it is cancelled. -/
theorem roleProposal_later (hs : Sound w)
    (hc : Runs (createRoleProposal creator r target description) (w.env signers uploaded)
      w.store id s₁) (ls : List (Label Op)) :
    ∃ q, (w.run exec (.call signers uploaded
        (.createRoleProposal creator r target description) :: ls)).store.proposal id = some q ∧
      ((w.run exec (.call signers uploaded
        (.createRoleProposal creator r target description) :: ls)).store.roleGrantProposal id =
          some ⟨r, target⟩ ∨ q.cancelled = true) := by
  have hs₁ : Sound (w.next exec (.call signers uploaded
    (.createRoleProposal creator r target description))) := sound_next hs
  have hev := evolves_run hs₁ ls
  rw [createRoleProposal_next hc] at hev
  obtain ⟨-, -, hid, hf, -, -⟩ := runs_createRoleProposal hc
  have hid : id = w.store.flow.nextId := hid
  have hp : s₁.flow.proposal id = some (Flow.newProposal w.ledger creator description) := by
    rw [hf, hid]
    simp [Flow.bind, Flow.create, Flow.write]
  have hg : s₁.flow.grant id = some ⟨r, target⟩ := by
    rw [hf, hid]
    simp [Flow.bind]
  obtain ⟨q, hq, -⟩ := hev.proposal id _ hp
  refine ⟨q, hq, ?_⟩
  rcases hev.grant id _ hg with h | ⟨q', hq', hx⟩
  · exact Or.inl h
  · cases hq.symm.trans hq'
    exact Or.inr hx

/-- The binding keeps `mark_executed` and other grants away; upgrades it keeps away only while
both upgrade paths are shut for other reasons. -/
theorem boundToGrant_iff (h : w.store = Store.empty)
    (hc : Runs (createRoleProposal creator r target description)
      ((w.run exec ls).env signers uploaded) (w.run exec ls).store id s₁) :
    BoundToGrant (w.run exec (ls ++ .call signers uploaded
        (.createRoleProposal creator r target description) :: ls')) id ⟨r, target⟩ ↔
      UpgradeShut (w.run exec (ls ++ .call signers uploaded
        (.createRoleProposal creator r target description) :: ls')) id := by
  have hs' : Sound (w.run exec (ls ++ .call signers uploaded
    (.createRoleProposal creator r target description) :: ls')) := sound_run h _
  rw [World.run_append] at hs' ⊢
  obtain ⟨q, hq, hg⟩ := roleProposal_later (sound_run h ls) hc ls'
  generalize (w.run exec ls).run exec _ = v at hs' hq hg ⊢
  constructor
  · intro hb p hp
    cases hq.symm.trans hp
    by_contra hn
    simp only [not_or, not_and, not_not, not_lt, Bool.not_eq_true] at hn
    obtain ⟨hx, hm, hn⟩ := hn
    by_cases hl : q.approvals.length = (getAdminPool v.store).length
    · obtain ⟨m, s', hrun⟩ := emergency_succeeds hs' hq hx hl hm
      exact hb.upgrade [m] [0] (.emergencyExecuteUpgrade m id 0) (List.mem_singleton_self id)
        s' hrun
    · obtain ⟨hd, ht, hu⟩ := hn hl
      simp only [Dead, not_or, Bool.not_eq_true] at hd
      obtain ⟨m, s', hrun⟩ := upgrade_succeeds hs' ⟨q, hq, ⟨hx, hd.1, hd.2, ht⟩, hu⟩ hm
      exact hb.upgrade [m] [0] (.executeUpgrade m id 0) (List.mem_singleton_self id) s' hrun
  · intro hu
    refine ⟨?_, ?_, ?_⟩
    · intro signers uploaded op hop s' hrun
      obtain ⟨⟨m, hm, ha⟩, hcase⟩ := upgrades_cases hrun hop
      have hsig : HasSigner v := ⟨m, hm, ((v.env_authorized signers uploaded m).mp ha).1⟩
      rcases hcase with ⟨p, hp, hl, hlock⟩ | ⟨p, hp, hx, hl⟩
      · rcases hu p hp with h | h | ⟨-, h | h | h⟩
        · simp [hl.executed] at h
        · exact h hsig
        · exact hl.not_dead h
        · exact absurd hl.quorate (not_le.mpr h)
        · exact h hlock
      · rcases hu p hp with h | h | ⟨h, -⟩
        · simp [hx] at h
        · exact h hsig
        · exact h hl
    · intro signers uploaded s' hrun
      obtain ⟨-, -, hn, p, hp, hl, -⟩ := runs_markExecuted.mp hrun
      cases hq.symm.trans hp
      rcases hg with hg | hg
      · simp [hn] at hg
      · simp [hl.cancelled] at hg
    · intro signers uploaded executor s' hrun
      obtain ⟨-, -, -, -, p, hp, hl, act, hact, hz, hb, rfl⟩ := runs_executeRoleProposal.mp hrun
      cases hq.symm.trans hp
      rcases hg with hg | hg
      · cases hact.symm.trans hg
        exact ⟨q, _, hq, runs_grantRole'.mpr ⟨hz, hb, rfl⟩, rfl⟩
      · simp [hl.cancelled] at hg

end Role

def twoMembers : List (Label Op) :=
  [.call [⟨1⟩] [] (.setAdmin ⟨1⟩), .call [⟨1⟩] [] (.setAdminPool [⟨1⟩, ⟨2⟩] 2)]

/-- One of two required votes: the proposal can be nothing but a grant. -/
theorem roleProposal_bound :
    BoundToGrant (deployed.run exec (twoMembers ++
      .call [⟨1⟩] [] (.createRoleProposal ⟨1⟩ .minter ⟨5⟩ "grant") :: [])) 0 ⟨.minter, ⟨5⟩⟩ := by
  have hc : ∃ s₁, Runs (createRoleProposal ⟨1⟩ .minter ⟨5⟩ "grant")
      ((deployed.run exec twoMembers).env [⟨1⟩] []) (deployed.run exec twoMembers).store 0 s₁ :=
    runs_of_value (by decide)
  obtain ⟨s₁, hc⟩ := hc
  refine (boundToGrant_iff rfl hc).mpr ?_
  intro p hp
  cases hp
  exact Or.inr (Or.inr ⟨by decide, Or.inr (Or.inl (by decide))⟩)

/-- The proposal to make account 5 a minter installs new code instead. -/
theorem roleProposal_upgrades :
    ¬ BoundToGrant (deployed.run exec ([.call [⟨1⟩] [] (.setAdmin ⟨1⟩)] ++
      .call [⟨1⟩] [] (.createRoleProposal ⟨1⟩ .minter ⟨5⟩ "grant") :: [])) 0 ⟨.minter, ⟨5⟩⟩ := by
  intro h
  exact h.upgrade [⟨1⟩] [7] (.emergencyExecuteUpgrade ⟨1⟩ 0 7) (by decide) _
    (runs_invoke (by decide))

end BcForge.Admin
