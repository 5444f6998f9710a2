import BcForge.Admin.Flow

/-! Every entry point of the library refines the proposal flow. -/
namespace BcForge.Admin

open Soroban Call

variable {env : Env} {s s' t : Store} {α : Type} {a : α} {u : Unit} {id : ℕ} {x : Address}
  {hash : BytesN32} {p : Proposal}

theorem runs_withProposalGuard {body : AdminCall α} :
    Runs (withProposalGuard body) env s a s' ↔ s.adminProposalGuard = false ∧
      ∃ t, Runs body env (proposalGuard.set true s) a t ∧ s' = proposalGuard.set false t :=
  runs_guarded

/-- The pool and the threshold in force have not changed. -/
structure SameRules (s s' : Store) : Prop where
  admin : s'.admin = s.admin
  pool : s'.adminPool = s.adminPool
  threshold : s'.threshold = s.threshold

theorem SameRules.getAdminPool_eq (h : SameRules s s') : getAdminPool s' = getAdminPool s := by
  rw [getAdminPool, getAdminPool, h.pool, h.admin]

theorem SameRules.getThreshold_eq (h : SameRules s s') : getThreshold s' = getThreshold s := by
  rw [getThreshold, getThreshold, h.threshold]

/-- Nothing the proposal flow depends on has changed. -/
structure Aside (s s' : Store) : Prop where
  flow : s'.flow = s.flow
  rules : SameRules s s'
  guard : s'.adminProposalGuard = s.adminProposalGuard

theorem Aside.refl (s : Store) : Aside s s := ⟨rfl, ⟨rfl, rfl, rfl⟩, rfl⟩

section Roles

variable {r : Role} {c target : Address} {mask : BitVec 32}

theorem aside_persistRoleMask : Aside s (persistRoleMask c mask s) :=
  ⟨rfl, ⟨rfl, rfl, rfl⟩, rfl⟩

theorem aside_clearRoleBit : Aside s (clearRoleBit c r s) := by
  unfold clearRoleBit
  dsimp only
  split
  · exact aside_persistRoleMask
  · exact Aside.refl s

theorem runs_grantRole' : Runs (grantRole' r c) env s u s' ↔
    c ≠ zeroAddress ∧ loadRoleMask s c &&& roleBit r = 0#32 ∧
      s' = persistRoleMask c (loadRoleMask s c ||| roleBit r) s := by
  simp [grantRole']

theorem runs_grantRole'_bind {k : Unit → AdminCall α} :
    Runs (grantRole' r c >>= k) env s a s' ↔
      c ≠ zeroAddress ∧ loadRoleMask s c &&& roleBit r = 0#32 ∧
        Runs (k ()) env (persistRoleMask c (loadRoleMask s c ||| roleBit r) s) a s' := by
  simp [grantRole']

theorem aside_grantRole' (h : Runs (grantRole' r c) env s u s') : Aside s s' := by
  rw [runs_grantRole'] at h
  rw [h.2.2]
  exact aside_persistRoleMask

theorem aside_revokeRole' (h : Runs (revokeRole' r c) env s u s') : Aside s s' := by
  simp only [revokeRole', runs_requireNonZeroAddress_bind, runs_gets_bind, runs_failIf_bind,
    runs_modify_bind, runs_getAdmin_bind, runs_pure] at h
  obtain ⟨-, -, c, -, -, rfl⟩ := h
  exact aside_persistRoleMask

theorem aside_grantRole (h : Runs (grantRole x r c) env s u s') : Aside s s' := by
  simp only [grantRole, requireSuperAdmin, runs_requireRoleGuard_bind,
    runs_requireNonZeroAddress_bind] at h
  exact aside_grantRole' h.2.2.2

theorem runs_setAdmin (h : Runs (setAdmin c) env s u s') : Aside { s with admin := some c } s' := by
  simp only [setAdmin, runs_requireNonZeroAddress_bind, runs_modify_bind] at h
  have hg := aside_grantRole' h.2
  cases hs : s.admin with
  | none =>
    simp only [hs] at hg
    exact hg
  | some old =>
    simp only [hs] at hg
    have hc : Aside s (clearRoleBit old .admin s) := aside_clearRoleBit
    exact ⟨hg.flow.trans hc.flow, ⟨hg.rules.admin, hg.rules.pool.trans hc.rules.pool,
      hg.rules.threshold.trans hc.rules.threshold⟩, hg.guard.trans hc.guard⟩

theorem aside_revokeRole (h : Runs (revokeRole x r c) env s u s') : Aside s s' := by
  simp only [revokeRole, requireSuperAdmin, runs_requireRoleGuard_bind,
    runs_requireNonZeroAddress_bind, runs_ite, isLastSuperAdmin] at h
  obtain ⟨-, -, -, ⟨-, h⟩ | ⟨-, h⟩⟩ := h
  · rw [runs_bind] at h
    obtain ⟨last, t, hl, h⟩ := h
    have ht : t = s := by
      simp only [runs_gets_bind, runs_ite, runs_pure, runs_getAdmin_bind, runs_gets] at hl
      grind
    subst ht
    simp only [runs_failIf_bind] at h
    exact aside_revokeRole' h.2
  · exact aside_revokeRole' h

theorem aside_renounceRole (h : Runs (renounceRole x r) env s u s') : Aside s s' := by
  simp [renounceRole, requireOtherSuperAdmin] at h
  obtain ⟨-, -, ⟨-, admin, -, -, -, h⟩ | ⟨-, -, h⟩⟩ := h
  · exact aside_revokeRole' h
  · exact aside_revokeRole' h

end Roles

section Proposals

variable {creator voter : Address} {description : String} {hash : BytesN32}

@[simp] theorem runs_isProposalReady_bind {k : Bool → AdminCall α} :
    Runs (isProposalReady id >>= k) env s a s' ↔ ∃ p, s.proposal id = some p ∧
      Runs (k (decide (getThreshold s ≤ p.approvals.length))) env s a s' := by
  simp [isProposalReady]

theorem runs_startTimelockIfQuorate (hp : s.proposal id = some p)
    (h : Runs (startTimelockIfQuorate id) env s u s') :
    s'.flow = s.flow.startTimelock (getThreshold s) env.ledger.timestamp id p ∧
      SameRules s s' := by
  simp [startTimelockIfQuorate, hp] at h
  unfold Flow.startTimelock
  rcases h with ⟨hs, rfl⟩ | ⟨hn, ⟨hq, rfl⟩ | ⟨hq, rfl⟩⟩
  · rw [if_neg]
    · exact ⟨rfl, rfl, rfl, rfl⟩
    · rintro ⟨hc, -⟩
      have hn : (s'.proposalTimelock id).isSome = false := by
        rw [Option.isSome_eq_false_iff, Option.isNone_iff_eq_none]
        exact hc
      simp [hn] at hs
  · rw [if_neg (by omega)]
    exact ⟨rfl, rfl, rfl, rfl⟩
  · rw [if_pos ⟨hn, hq⟩]
    exact ⟨rfl, rfl, rfl, rfl⟩

/-- The call is one transition of the proposal flow; pool and threshold stay in force, and unlock
times too unless it brings a vote. -/
structure Moves (env : Env) (votes : Bool) (s s' : Store) : Prop where
  step : Flow.Step env (getAdminPool s) (getThreshold s) s.flow s'.flow
  timelock : votes = false → s'.flow.timelock = s.flow.timelock
  rules : SameRules s s'
  guard : s.adminProposalGuard = false → s'.adminProposalGuard = false

variable {voting : Bool}

theorem Aside.moves (h : Aside s s') : Moves env voting s s' := by
  refine ⟨?_, fun _ => ?_, h.rules, fun hg => h.guard.trans hg⟩
  · rw [h.flow]
    exact .keep
  · rw [h.flow]

theorem moves_guarded {body : AdminCall α} (h : Runs (withProposalGuard body) env s a s')
    (hb : ∀ t, Runs body env (proposalGuard.set true s) a t →
      Flow.Step env (getAdminPool s) (getThreshold s) s.flow t.flow ∧
        (voting = false → t.flow.timelock = s.flow.timelock) ∧ SameRules s t) :
    Moves env voting s s' := by
  rw [runs_withProposalGuard] at h
  obtain ⟨-, t, ht, rfl⟩ := h
  obtain ⟨hs, hv, hr⟩ := hb t ht
  exact ⟨hs, hv, ⟨hr.admin, hr.pool, hr.threshold⟩, fun _ => rfl⟩

theorem runs_createProposal {i : ℕ} (h : Runs (createProposal creator description) env s i s') :
    env.Authorized creator ∧ creator ∈ getAdminPool s ∧ i = s.proposalIdCounter ∧
      s'.flow = s.flow.create (getThreshold s) env.ledger creator description ∧
      SameRules s s' ∧ s'.adminProposalGuard = false := by
  rw [createProposal, runs_withProposalGuard] at h
  obtain ⟨-, t, ht, rfl⟩ := h
  simp only [runs_requireAuth_bind, runs_gets_bind, runs_failIf_bind, runs_u64_bind,
    runs_modify_bind, runs_ledger_bind, not_not] at ht
  obtain ⟨ha, hm, -, ht⟩ := ht
  rw [runs_bind] at ht
  obtain ⟨v, r, hr, ht⟩ := ht
  rw [runs_pure] at ht
  obtain ⟨rfl, rfl⟩ := ht
  obtain ⟨hf, ht⟩ := runs_startTimelockIfQuorate (by simp [writeProposal]; rfl) hr
  exact ⟨ha, hm, rfl, hf, ⟨ht.admin, ht.pool, ht.threshold⟩, rfl⟩

theorem runs_createRoleProposal {i : ℕ} {r : Role} {target : Address}
    (h : Runs (createRoleProposal creator r target description) env s i s') :
    env.Authorized creator ∧ creator ∈ getAdminPool s ∧ i = s.proposalIdCounter ∧
      s'.flow = (s.flow.create (getThreshold s) env.ledger creator description).bind
        s.flow.nextId ⟨r, target⟩ ∧
      SameRules s s' ∧ s'.adminProposalGuard = false := by
  simp only [createRoleProposal, runs_requireNonZeroAddress_bind, runs_failIf_bind,
    runs_gets_bind] at h
  obtain ⟨-, -, -, h⟩ := h
  rw [runs_bind] at h
  obtain ⟨j, t, ht, h⟩ := h
  simp only [runs_modify_bind, runs_pure] at h
  obtain ⟨rfl, rfl⟩ := h
  obtain ⟨ha, hm, hi, hf, hr, hg⟩ := runs_createProposal ht
  refine ⟨ha, hm, hi, ?_, ⟨hr.admin, hr.pool, hr.threshold⟩, hg⟩
  rw [← hf, hi]
  rfl

theorem moves_approveProposal (h : Runs (approveProposal x id) env s u s') :
    Moves env true s s' := by
  refine moves_guarded h fun t ht => ?_
  simp only [runs_requireAuth_bind, runs_gets_bind, runs_failIf_bind, runs_okOr_bind,
    runs_modify_bind, not_not, Bool.not_eq_true] at ht
  obtain ⟨ha, hm, p, hp, hx, hc, hv, ht⟩ := ht
  obtain ⟨hf, hr⟩ := runs_startTimelockIfQuorate (by simp [writeProposal]; rfl) ht
  refine ⟨?_, by simp, hr.admin, hr.pool, hr.threshold⟩
  rw [hf]
  exact .vote id p x hp hx hc hv ha hm

theorem moves_cancelLegacyProposal (h : Runs (cancelLegacyProposal x id) env s u s') :
    Moves env voting s s' := by
  refine moves_guarded h fun t ht => ?_
  simp only [runs_requireAuth_bind, runs_gets_bind, runs_failIf_bind, runs_okOr_bind,
    runs_modify_bind, runs_ledger_bind, runs_modify] at ht
  obtain ⟨-, p, hp, -, hx, -, rfl⟩ := ht
  exact ⟨.cancel id p hp (by simpa using hx), fun _ => rfl, rfl, rfl, rfl⟩

/-- The checks the regular execution paths share. -/
structure Executable (l : Ledger) (threshold : ℕ) (p : Proposal) : Prop where
  executed : p.executed = false
  cancelled : p.cancelled = false
  expired : proposalExpired l p = false
  quorate : threshold ≤ p.approvals.length

theorem executable_iff {l : Ledger} {n : ℕ} : Executable l n p ↔
    ¬ p.executed = true ∧ ¬ p.cancelled = true ∧ ¬ proposalExpired l p = true ∧
      ¬ decide (n ≤ p.approvals.length) = false := by
  constructor
  · rintro ⟨hx, hc, he, hq⟩
    simp [hx, hc, he, hq]
  · rintro ⟨hx, hc, he, hq⟩
    exact ⟨by simpa using hx, by simpa using hc, by simpa using he, by simpa using hq⟩

theorem setExecuted_singleton {f : Flow} (hp : f.proposal id = some p) :
    f.write id { p with executed := true } = f.setExecuted [id] := by
  have he : Function.update f.proposal id (some { p with executed := true }) =
      (f.setExecuted [id]).proposal := by
    funext i
    by_cases hi : i = id
    · subst hi
      simp [Flow.setExecuted, hp]
    · simp [Flow.setExecuted, hi]
  simp [Flow.write, he, Flow.setExecuted]

theorem step_execute {pool : List Address} {n : ℕ} (hp : s.proposal id = some p)
    (hx : p.executed = false) :
    Flow.Step env pool n s.flow (s.flow.write id { p with executed := true }) := by
  rw [setExecuted_singleton hp]
  refine .execute [id] ?_
  intro i hi
  rw [List.mem_singleton.mp hi]
  exact ⟨p, hp, hx⟩

/-- Taking and releasing the flag leaves no trace. -/
theorem guard_restore (h : s.adminProposalGuard = false) :
    proposalGuard.set false (proposalGuard.set true s) = s := by
  cases s
  simp only at h
  subst h
  rfl

theorem guard_writeProposal (h : s.adminProposalGuard = false) :
    proposalGuard.set false (writeProposal id p (proposalGuard.set true s)) =
      writeProposal id p s :=
  congrArg (writeProposal id p) (guard_restore h)

theorem runs_markExecuted : Runs (markExecuted id) env s u s' ↔
    s.adminProposalGuard = false ∧ (∃ c, s.admin = some c ∧ env.Authorized c) ∧
      s.roleGrantProposal id = none ∧
      ∃ p, s.proposal id = some p ∧ Executable env.ledger (getThreshold s) p ∧
        s' = writeProposal id { p with executed := true } s := by
  rw [markExecuted, runs_withProposalGuard]
  simp only [runs_getAdmin_bind, runs_requireAuth_bind, runs_gets_bind, runs_failIf_bind,
    runs_okOr_bind, runs_ledger_bind, runs_isProposalReady_bind, runs_modify,
    Bool.not_eq_true, Option.isSome_eq_false_iff, Option.isNone_iff_eq_none]
  constructor
  · rintro ⟨hg, t, ⟨c, hc, ha, hr, p, hp, hx, hn, he, q, hq, ht, rfl⟩, rfl⟩
    cases hp.symm.trans hq
    have hl : Executable env.ledger (getThreshold s) p :=
      executable_iff.mpr ⟨by simpa using hx, by simpa using hn, by simpa using he, ht⟩
    exact ⟨hg, ⟨c, hc, ha⟩, hr, p, hp, hl, guard_writeProposal hg⟩
  · rintro ⟨hg, ⟨c, hc, ha⟩, hr, p, hp, hl, rfl⟩
    exact ⟨hg, _, ⟨c, hc, ha, hr, p, hp, hl.executed, hl.cancelled, hl.expired, p, hp,
      (executable_iff.mp hl).2.2.2, rfl⟩, (guard_writeProposal hg).symm⟩

theorem runs_executeRoleProposal : Runs (executeRoleProposal x id) env s u s' ↔
    s.adminProposalGuard = false ∧ env.Authorized x ∧ x ∈ getAdminPool s ∧
      hasRole s .superAdmin x = true ∧
      ∃ p, s.proposal id = some p ∧ Executable env.ledger (getThreshold s) p ∧
        ∃ act, s.roleGrantProposal id = some act ∧ act.target ≠ zeroAddress ∧
          loadRoleMask s act.target &&& roleBit act.role = 0#32 ∧
          s' = writeProposal id { p with executed := true }
            (persistRoleMask act.target (loadRoleMask s act.target ||| roleBit act.role) s) := by
  rw [executeRoleProposal, runs_withProposalGuard]
  simp only [requireSuperAdmin, runs_requireRoleGuard_bind, runs_requireAuth_bind, runs_gets_bind,
    runs_failIf_bind, runs_okOr_bind, runs_ledger_bind, runs_isProposalReady_bind,
    runs_grantRole'_bind, runs_modify, not_not]
  constructor
  · rintro ⟨hg, t, ⟨ha, hm, hr, -, p, hp, hx, hn, he, q, hq, ht, act, hact, hz, hb, rfl⟩, rfl⟩
    cases hp.symm.trans hq
    refine ⟨hg, ha, hm, hr, p, hp, executable_iff.mpr ⟨hx, hn, he, ht⟩, act, hact, hz, hb, ?_⟩
    exact congrArg (fun s₀ => writeProposal id _ (persistRoleMask _ _ s₀)) (guard_restore hg)
  · rintro ⟨hg, ha, hm, hr, p, hp, hl, act, hact, hz, hb, rfl⟩
    obtain ⟨hx, hn, he, ht⟩ := executable_iff.mp hl
    refine ⟨hg, _, ⟨ha, hm, hr, ha, p, hp, hx, hn, he, p, hp, ht, act, hact, hz, hb, rfl⟩, ?_⟩
    exact congrArg (fun s₀ => writeProposal id _ (persistRoleMask _ _ s₀)) (guard_restore hg).symm

def Unlocked (l : Ledger) (s : Store) (id : ℕ) : Prop :=
  ∃ unlock, s.proposalTimelock id = some unlock ∧ unlock ≤ l.timestamp

/-- The proposal passes every check of the timelocked upgrade path. -/
def Upgradable (l : Ledger) (s : Store) (id : ℕ) : Prop :=
  ∃ p, s.proposal id = some p ∧ Executable l (getThreshold s) p ∧ Unlocked l s id

theorem runs_executeUpgradeInner : Runs (executeUpgradeInner x id hash) env s u s' ↔
    env.Authorized x ∧ x ∈ getAdminPool s ∧ hash ∈ env.uploaded ∧
      ∃ p, s.proposal id = some p ∧ Executable env.ledger (getThreshold s) p ∧
        Unlocked env.ledger s id ∧
        s' = { writeProposal id { p with executed := true } s with wasm := some hash } := by
  simp only [executeUpgradeInner, requireTimelockExpired, updateCurrentContractWasm,
    runs_requireAuth_bind, runs_gets_bind, runs_failIf_bind, runs_okOr_bind, runs_ledger_bind,
    runs_isProposalReady_bind, runs_modify, runs_bind_assoc, runs_modify_bind,
    runs_requireUploaded_bind, not_not]
  constructor
  · rintro ⟨ha, hm, p, hp, hx, hn, he, q, hq, ht, v, hv, hu, hh, rfl⟩
    cases hp.symm.trans hq
    exact ⟨ha, hm, hh, p, hp, executable_iff.mpr ⟨hx, hn, he, ht⟩, ⟨v, hv, not_lt.mp hu⟩, rfl⟩
  · rintro ⟨ha, hm, hh, p, hp, hl, ⟨v, hv, hu⟩, rfl⟩
    obtain ⟨hx, hn, he, ht⟩ := executable_iff.mp hl
    exact ⟨ha, hm, p, hp, hx, hn, he, p, hp, ht, v, hv, not_lt.mpr hu, hh, rfl⟩

theorem runs_executeUpgrade : Runs (executeUpgrade x id hash) env s u s' ↔
    s.adminProposalGuard = false ∧ env.Authorized x ∧ x ∈ getAdminPool s ∧
      hash ∈ env.uploaded ∧
      ∃ p, s.proposal id = some p ∧ Executable env.ledger (getThreshold s) p ∧
        Unlocked env.ledger s id ∧
        s' = { writeProposal id { p with executed := true } s with wasm := some hash } := by
  rw [executeUpgrade, runs_withProposalGuard]
  simp only [runs_executeUpgradeInner]
  constructor
  · rintro ⟨hg, t, ⟨ha, hm, hh, p, hp, hl, hu, rfl⟩, rfl⟩
    refine ⟨hg, ha, hm, hh, p, hp, hl, hu, ?_⟩
    exact congrArg (fun s₀ => { writeProposal id _ s₀ with wasm := some hash }) (guard_restore hg)
  · rintro ⟨hg, ha, hm, hh, p, hp, hl, hu, rfl⟩
    refine ⟨hg, _, ⟨ha, hm, hh, p, hp, hl, hu, rfl⟩, ?_⟩
    exact congrArg (fun s₀ => { writeProposal id _ s₀ with wasm := some hash })
      (guard_restore hg).symm

theorem runs_emergencyExecuteUpgrade : Runs (emergencyExecuteUpgrade x id hash) env s u s' ↔
    s.adminProposalGuard = false ∧ env.Authorized x ∧ x ∈ getAdminPool s ∧
      hash ∈ env.uploaded ∧
      ∃ p, s.proposal id = some p ∧ p.executed = false ∧
        p.approvals.length = (getAdminPool s).length ∧
        s' = { writeProposal id { p with executed := true } s with wasm := some hash } := by
  rw [emergencyExecuteUpgrade, runs_withProposalGuard]
  simp only [updateCurrentContractWasm, runs_requireAuth_bind, runs_gets_bind, runs_failIf_bind,
    runs_okOr_bind, runs_modify_bind, runs_requireUploaded_bind, runs_modify, not_not,
    Bool.not_eq_true]
  constructor
  · rintro ⟨hg, t, ⟨ha, hm, p, hp, hx, hl, hh, rfl⟩, rfl⟩
    refine ⟨hg, ha, hm, hh, p, hp, hx, hl, ?_⟩
    exact congrArg (fun s₀ => { writeProposal id _ s₀ with wasm := some hash }) (guard_restore hg)
  · rintro ⟨hg, ha, hm, hh, p, hp, hx, hl, rfl⟩
    refine ⟨hg, _, ⟨ha, hm, p, hp, hx, hl, hh, rfl⟩, ?_⟩
    exact congrArg (fun s₀ => { writeProposal id _ s₀ with wasm := some hash })
      (guard_restore hg).symm

/-- Executing one proposal of a batch leaves the others exactly as upgradable as before. -/
theorem upgradable_of_write {l : Ledger} {i : ℕ} (hp : s.proposal id = some p)
    (h : Upgradable l
      { writeProposal id { p with executed := true } s with wasm := some hash } i) :
    i ≠ id ∧ Upgradable l s i := by
  obtain ⟨q, hq, hl, hu⟩ := h
  have hi : i ≠ id := by
    rintro rfl
    simp only [writeProposal, Function.update_self, Option.some.injEq] at hq
    have hx := hl.executed
    simp [← hq] at hx
  have hq' : s.proposal i = some q := by
    simpa [writeProposal, Function.update_of_ne hi] using hq
  exact ⟨hi, q, hq', hl, hu⟩

theorem setExecuted_cons {f : Flow} {ids : List ℕ} :
    (f.setExecuted [id]).setExecuted ids = f.setExecuted (id :: ids) := by
  simp only [Flow.setExecuted]
  congr 1
  funext i
  by_cases h : i = id
  · subst h
    cases f.proposal i <;> simp
  · simp [h]

theorem runs_executeUpgradeAll {items : List (ℕ × BytesN32)}
    (h : Runs (executeUpgradeAll x items) env s u s') :
    (∀ i ∈ items.map Prod.fst, Upgradable env.ledger s i) ∧
      (items ≠ [] → x ∈ getAdminPool s ∧ env.Authorized x) ∧
      s'.flow = s.flow.setExecuted (items.map Prod.fst) ∧ SameRules s s' := by
  induction items generalizing s with
  | nil =>
    simp only [executeUpgradeAll, runs_pure] at h
    rw [h.2]
    exact ⟨by simp, by simp, by simp [Flow.setExecuted], rfl, rfl, rfl⟩
  | cons item rest ih =>
    obtain ⟨id, hash⟩ := item
    simp only [executeUpgradeAll] at h
    rw [runs_bind] at h
    obtain ⟨v, t, ht, h⟩ := h
    rw [runs_executeUpgradeInner] at ht
    obtain ⟨ha, hm, -, p, hp, hl, hu, rfl⟩ := ht
    obtain ⟨hr, -, hf, hs⟩ := ih h
    refine ⟨?_, fun _ => ⟨hm, ha⟩, ?_, hs.admin, hs.pool, hs.threshold⟩
    · intro i hi
      simp only [List.map_cons, List.mem_cons] at hi
      rcases hi with rfl | hi
      · exact ⟨p, hp, hl, hu⟩
      · exact (upgradable_of_write hp (hr i hi)).2
    · rw [hf, List.map_cons, ← setExecuted_cons, ← setExecuted_singleton hp]
      rfl

theorem runs_executeUpgradeBatch {ids : List ℕ} {hashes : List BytesN32}
    (h : Runs (executeUpgradeBatch x ids hashes) env s u s') :
    (∀ i ∈ ids, Upgradable env.ledger s i) ∧
      (ids ≠ [] → x ∈ getAdminPool s ∧ env.Authorized x) ∧ s'.flow = s.flow.setExecuted ids ∧
      SameRules s s' ∧ s'.adminProposalGuard = false := by
  rw [executeUpgradeBatch, runs_withProposalGuard] at h
  obtain ⟨-, t, h, rfl⟩ := h
  simp only [runs_failIf_bind, not_not] at h
  obtain ⟨hlen, h⟩ := h
  obtain ⟨hu, hm, hf, ht⟩ := runs_executeUpgradeAll h
  rw [List.map_fst_zip hlen.le] at hu hf
  refine ⟨hu, fun hne => hm ?_, hf, ⟨ht.admin, ht.pool, ht.threshold⟩, rfl⟩
  intro hnil
  have hz := congrArg List.length hnil
  rw [List.length_zip, ← hlen, Nat.min_self, List.length_nil] at hz
  exact hne (List.eq_nil_of_length_eq_zero hz)

theorem moves_execute (hp : s.proposal id = some p) (hx : p.executed = false)
    (hf : s'.flow = s.flow.write id { p with executed := true }) (hr : SameRules s s')
    (hg : s'.adminProposalGuard = s.adminProposalGuard) : Moves env voting s s' :=
  ⟨hf ▸ step_execute hp hx, fun _ => hf ▸ rfl, hr, fun h => hg.trans h⟩

end Proposals

section Exec

variable {voting : Bool}

/-- The call only touched fields outside the legacy flow, behind the reentrancy flag. -/
theorem moves_of_aside_body {body : AdminCall α} (h : Runs (withProposalGuard body) env s a s')
    (hb : ∀ t, Runs body env (proposalGuard.set true s) a t →
      t.flow = s.flow ∧ SameRules s t) : Moves env voting s s' := by
  refine moves_guarded h fun t ht => ?_
  obtain ⟨hf, hr⟩ := hb t ht
  rw [hf]
  exact ⟨.keep, fun _ => rfl, hr⟩

theorem moves_approveUpgrade (h : Runs (approveUpgrade x id) env s u s') :
    Moves env voting s s' := by
  refine moves_of_aside_body h fun t ht => ?_
  simp only [runs_requireAuth_bind, runs_gets_bind, runs_failIf_bind, runs_okOr_bind,
    runs_ledger_bind, runs_modify] at ht
  obtain ⟨-, -, p, -, -, -, rfl⟩ := ht
  exact ⟨rfl, rfl, rfl, rfl⟩

theorem moves_cancelProposal (h : Runs (cancelProposal x id) env s u s') :
    Moves env voting s s' := by
  refine moves_of_aside_body h fun t ht => ?_
  simp only [runs_requireAuth_bind, runs_gets_bind, runs_failIf_bind, runs_okOr_bind,
    runs_modify] at ht
  obtain ⟨-, p, -, -, -, -, rfl⟩ := ht
  exact ⟨rfl, rfl, rfl, rfl⟩

theorem moves_submitUpgradeProposal {i : ℕ}
    (h : Runs (submitUpgradeProposal x hash) env s i s') : Moves env voting s s' := by
  refine moves_of_aside_body h fun t ht => ?_
  simp only [requireValidWasmHash, runs_requireAuth_bind, runs_gets_bind, runs_failIf_bind,
    runs_bind_assoc, runs_u64_bind, runs_modify_bind, runs_self_bind, runs_ledger_bind,
    runs_pure] at ht
  obtain ⟨-, -, -, -, -, -, rfl⟩ := ht
  exact ⟨rfl, rfl, rfl, rfl⟩

theorem aside_registerWasmHash (h : Runs (registerWasmHash x hash) env s u s') : Aside s s' := by
  simp only [registerWasmHash, requireAdmin, runs_requireRoleGuard_bind, runs_modify] at h
  obtain ⟨-, -, rfl⟩ := h
  exact ⟨rfl, ⟨rfl, rfl, rfl⟩, rfl⟩

theorem aside_proposePrivilegeAction {i : ℕ} {act : PrivilegeAction}
    (h : Runs (proposePrivilegeAction x act) env s i s') : Aside s s' := by
  simp only [proposePrivilegeAction, requireAdmin, runs_requireRoleGuard_bind, runs_gets_bind,
    runs_failIf_bind, runs_ledger_bind, runs_u64_bind, runs_modify_bind, runs_pure] at h
  obtain ⟨-, -, -, -, -, rfl⟩ := h
  exact ⟨rfl, ⟨rfl, rfl, rfl⟩, rfl⟩

theorem aside_cancelPrivilegeAction {act : PrivilegeAction}
    (h : Runs (cancelPrivilegeAction x act) env s u s') : Aside s s' := by
  simp only [cancelPrivilegeAction, requireAdmin, runs_requireRoleGuard_bind, runs_gets_bind,
    runs_okOr_bind, runs_failIf_bind, runs_modify] at h
  obtain ⟨-, -, p, -, -, rfl⟩ := h
  exact ⟨rfl, ⟨rfl, rfl, rfl⟩, rfl⟩

theorem aside_consumePrivilegeProposal {act : PrivilegeAction}
    (h : Runs (consumePrivilegeProposal act) env s u s') : Aside s s' := by
  simp only [consumePrivilegeProposal, runs_gets_bind, runs_okOr_bind, runs_failIf_bind,
    runs_ledger_bind, runs_modify] at h
  obtain ⟨p, -, -, -, rfl⟩ := h
  exact ⟨rfl, ⟨rfl, rfl, rfl⟩, rfl⟩

theorem runs_setAdminPool {pool : List Address} {n : ℕ}
    (h : Runs (setAdminPool pool n) env s u s') :
    s' = { s with adminPool := some pool, threshold := some n } := by
  simp only [setAdminPool, runs_getAdmin_bind, runs_requireAuth_bind, runs_failIf_bind,
    runs_modify] at h
  obtain ⟨c, -, -, -, -, rfl⟩ := h
  rfl

/-- The calls that change who decides: the flow itself is untouched. -/
inductive Repools (op : Op) (s s' : Store) : Prop
  | pool (pool : List Address) (n : ℕ) (hop : op = .setAdminPool pool n)
      (hs : s' = { s with adminPool := some pool, threshold := some n })
  | admin (c : Address) (hop : op = .setAdmin c) (hs : Aside { s with admin := some c } s')

theorem Repools.flow {op : Op} (h : Repools op s s') : s'.flow = s.flow := by
  cases h with
  | pool pool n hop hs => rw [hs]; rfl
  | admin c hop hs => exact hs.flow

theorem Repools.guard {op : Op} (h : Repools op s s') :
    s'.adminProposalGuard = s.adminProposalGuard := by
  cases h with
  | pool pool n hop hs => rw [hs]
  | admin c hop hs => exact hs.guard

/-- The calls that bring a vote to a legacy proposal. -/
def Op.votes : Op → Bool
  | .createProposal _ _ => true
  | .createRoleProposal _ _ _ _ => true
  | .approveProposal _ _ => true
  | _ => false

/-- Every call moves the proposal flow by one transition, or replaces pool or admin. -/
theorem exec_moves {op : Op} (h : Runs (exec op) env s () s') :
    Moves env op.votes s s' ∨ Repools op s s' := by
  cases op with
  | setAdminPool pool n => exact Or.inr (.pool pool n rfl (runs_setAdminPool h))
  | setAdmin c => exact Or.inr (.admin c rfl (runs_setAdmin h))
  | grantRole caller r c => exact Or.inl (aside_grantRole h).moves
  | revokeRole caller r c => exact Or.inl (aside_revokeRole h).moves
  | renounceRole caller r => exact Or.inl (aside_renounceRole h).moves
  | createProposal creator description =>
    simp only [exec, runs_bind, runs_pure] at h
    obtain ⟨i, t, ht, -, rfl⟩ := h
    obtain ⟨ha, hm, -, hf, hr, hg⟩ := runs_createProposal ht
    exact Or.inl ⟨hf ▸ .create creator description ha hm, by simp [Op.votes], hr, fun _ => hg⟩
  | createRoleProposal creator r target description =>
    simp only [exec, runs_bind, runs_pure] at h
    obtain ⟨i, t, ht, -, rfl⟩ := h
    obtain ⟨ha, hm, -, hf, hr, hg⟩ := runs_createRoleProposal ht
    exact Or.inl ⟨hf ▸ .createRole creator description ⟨r, target⟩ ha hm, by simp [Op.votes], hr,
      fun _ => hg⟩
  | approveProposal admin id => exact Or.inl (moves_approveProposal h)
  | markExecuted id =>
    obtain ⟨-, -, -, p, hp, hl, rfl⟩ := runs_markExecuted.mp h
    exact Or.inl (moves_execute hp hl.executed rfl ⟨rfl, rfl, rfl⟩ rfl)
  | executeRoleProposal executor id =>
    obtain ⟨-, -, -, -, p, hp, hl, act, -, -, -, rfl⟩ := runs_executeRoleProposal.mp h
    exact Or.inl (moves_execute hp hl.executed rfl ⟨rfl, rfl, rfl⟩ rfl)
  | cancelLegacyProposal caller id => exact Or.inl (moves_cancelLegacyProposal h)
  | executeUpgrade executor id hash =>
    obtain ⟨-, -, -, -, p, hp, hl, -, rfl⟩ := runs_executeUpgrade.mp h
    exact Or.inl (moves_execute hp hl.executed rfl ⟨rfl, rfl, rfl⟩ rfl)
  | executeUpgradeBatch executor ids hashes =>
    obtain ⟨hu, -, hf, hr, hg⟩ := runs_executeUpgradeBatch h
    refine Or.inl ⟨hf ▸ .execute ids fun i hi => ?_, fun _ => hf ▸ rfl, hr, fun _ => hg⟩
    obtain ⟨p, hp, hl, -⟩ := hu i hi
    exact ⟨p, hp, hl.executed⟩
  | emergencyExecuteUpgrade executor id hash =>
    obtain ⟨-, -, -, -, p, hp, hx, -, rfl⟩ := runs_emergencyExecuteUpgrade.mp h
    exact Or.inl (moves_execute hp hx rfl ⟨rfl, rfl, rfl⟩ rfl)
  | submitUpgradeProposal submitter hash =>
    simp only [exec, runs_bind, runs_pure] at h
    obtain ⟨i, t, ht, -, rfl⟩ := h
    exact Or.inl (moves_submitUpgradeProposal ht)
  | approveUpgrade voter id => exact Or.inl (moves_approveUpgrade h)
  | cancelProposal caller id => exact Or.inl (moves_cancelProposal h)
  | registerWasmHash admin hash => exact Or.inl (aside_registerWasmHash h).moves
  | proposePrivilegeAction submitter action =>
    simp only [exec, runs_bind, runs_pure] at h
    obtain ⟨i, t, ht, -, rfl⟩ := h
    exact Or.inl (aside_proposePrivilegeAction ht).moves
  | cancelPrivilegeAction caller action => exact Or.inl (aside_cancelPrivilegeAction h).moves
  | consumePrivilegeProposal action => exact Or.inl (aside_consumePrivilegeProposal h).moves

end Exec

end BcForge.Admin
