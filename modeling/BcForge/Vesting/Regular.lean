import BcForge.Vesting.Curve

/-! What every reachable state of the vesting contract keeps: accepted schedules, each listed once
under its beneficiary. -/
namespace BcForge.Vesting

open Soroban Call Admin

variable {env : Env} {s s' : Store} {w : World Store} {l : Label Op} {ls : List (Label Op)}
  {ms : List Milestone} {stored : StoredVestingSchedule} {id L : ℕ} {v : ℤ} {u : Unit}
  {vault b c : Address}

structure Regular (vault : Address) (s : Store) : Prop where
  accepted : ∀ id stored, s.schedule id = some stored → Accepted id (s.milestones id) stored
  fresh : ∀ id, s.nextScheduleId ≤ id → s.schedule id = none ∧ s.milestones id = []
  listed : ∀ b id, id ∈ s.beneficiarySchedules b ↔
    ∃ stored, s.schedule id = some stored ∧ stored.schedule.beneficiary = b
  nodup : ∀ b, (s.beneficiarySchedules b).Nodup
  unlocked : ∀ g, s.guard g = false
  delegates : s.claimDelegates vault = []

theorem Accepted.topped (h : Accepted id (s.milestones id) stored) :
    Accepted id (s.milestones id) (withReleased stored (s.vested stored L)) := by
  have hms : s.vested stored L = vested (s.milestones id) stored (effectiveLedger stored L) := by
    rw [Store.vested, h.id_eq]
  refine ⟨h.id_eq, h.total_pos, h.total_le, h.start_le, h.cliff_le, h.lasts, h.tranches_pos,
    h.tranches_le, ?_, ?_⟩
  · change 0 ≤ s.vested stored L
    rw [hms]
    exact vested_nonneg h
  · change s.vested stored L ≤ stored.schedule.totalAmount
    rw [hms]
    exact vested_le h.total_pos.le

/-- What a schedule was agreed on with. -/
structure SameTerms (st st' : StoredVestingSchedule) : Prop where
  beneficiary : st'.schedule.beneficiary = st.schedule.beneficiary
  total : st'.schedule.totalAmount = st.schedule.totalAmount
  cliff : st'.schedule.cliffLedger = st.schedule.cliffLedger
  finish : st'.schedule.endLedger = st.schedule.endLedger
  start : st'.startLedger = st.startLedger

theorem SameTerms.refl (st : StoredVestingSchedule) : SameTerms st st := ⟨rfl, rfl, rfl, rfl, rfl⟩

theorem SameTerms.trans {st st' st'' : StoredVestingSchedule} (h : SameTerms st st')
    (h' : SameTerms st' st'') : SameTerms st st'' :=
  ⟨h'.beneficiary.trans h.beneficiary, h'.total.trans h.total, h'.cliff.trans h.cliff,
    h'.finish.trans h.finish, h'.start.trans h.start⟩

/-- A regular store again, in which every schedule is still there on its terms. -/
structure Follows (vault : Address) (s s' : Store) : Prop where
  regular : Regular vault s'
  terms : ∀ id st, s.schedule id = some st → ∃ st', s'.schedule id = some st' ∧ SameTerms st st'

/-- The schedule as before, or another one on the same terms that is accepted as well. -/
def Rewritten (s s' : Store) (id : ℕ) : Prop :=
  s'.schedule id = s.schedule id ∨ ∃ st st', s.schedule id = some st ∧
    s'.schedule id = some st' ∧ SameTerms st st' ∧ Accepted id (s.milestones id) st'

theorem terms_of_eq (hs : s'.schedule id = s.schedule id) :
    ∀ st, s.schedule id = some st → ∃ st', s'.schedule id = some st' ∧ SameTerms st st' :=
  fun st hst => ⟨st, hs.trans hst, SameTerms.refl st⟩

theorem terms_rewritten (hs : Rewritten s s' id) :
    ∀ st, s.schedule id = some st → ∃ st', s'.schedule id = some st' ∧ SameTerms st st' := by
  intro st hst
  rcases hs with he | ⟨st₁, st', hst₁, hst', hsame, -⟩
  · exact terms_of_eq he st hst
  · rw [hst₁] at hst
    exact ⟨st', hst', Option.some.inj hst ▸ hsame⟩

theorem regular_rewritten (h : Regular vault s) (hs : ∀ id, Rewritten s s' id)
    (hm : s'.milestones = s.milestones) (hn : s'.nextScheduleId = s.nextScheduleId)
    (hb : s'.beneficiarySchedules = s.beneficiarySchedules) (hg : s'.guard = s.guard)
    (hd : s'.claimDelegates vault = s.claimDelegates vault) : Regular vault s' where
  accepted id stored hst := by
    rw [hm]
    rcases hs id with he | ⟨st, st', -, hst', -, ha⟩
    · exact h.accepted id stored (he ▸ hst)
    · rw [hst'] at hst
      exact Option.some.inj hst ▸ ha
  fresh id hid := by
    rw [hn] at hid
    obtain ⟨hnone, hempty⟩ := h.fresh id hid
    rw [hm]
    rcases hs id with he | ⟨st, st', hst, -⟩
    · exact ⟨he.trans hnone, hempty⟩
    · rw [hnone] at hst
      cases hst
  listed b id := by
    rw [hb, h.listed]
    rcases hs id with he | ⟨st, st', hst, hst', hsame, -⟩
    · rw [he]
    · simp [hst, hst', hsame.beneficiary]
  nodup b := by
    rw [hb]
    exact h.nodup b
  unlocked g := by
    rw [hg]
    exact h.unlocked g
  delegates := hd.trans h.delegates

theorem follows_rewritten (h : Regular vault s) (hs : ∀ id, Rewritten s s' id)
    (hm : s'.milestones = s.milestones) (hn : s'.nextScheduleId = s.nextScheduleId)
    (hb : s'.beneficiarySchedules = s.beneficiarySchedules) (hg : s'.guard = s.guard)
    (hd : s'.claimDelegates vault = s.claimDelegates vault) : Follows vault s s' :=
  ⟨regular_rewritten h hs hm hn hb hg hd, fun id => terms_rewritten (hs id)⟩

theorem accepted_newSchedule {x : ℤ} {now m n : ℕ} {revocable : Bool} (hx : 0 < x)
    (hmax : x ≤ I128.MAX) (hn : 0 < n) (hm : m ≤ n) :
    Accepted id [] (newSchedule id now b x m n revocable) := by
  refine ⟨rfl, hx, hmax, Nat.le_add_right _ _, ?_, ?_, by simp, hx.le, le_rfl, hx.le⟩
  · change now + m ≤ now + n
    omega
  · change now < now + n
    omega

/-- An id not given out yet is on nobody's list. -/
theorem Regular.unlisted (h : Regular vault s) (hid : s.nextScheduleId ≤ id) (b : Address) :
    id ∉ s.beneficiarySchedules b := by
  intro hmem
  obtain ⟨stored, hst, -⟩ := (h.listed b id).mp hmem
  rw [(h.fresh id hid).1] at hst
  cases hst

theorem nodup_create (h : Regular vault s) (b b' : Address) :
    (Function.update s.beneficiarySchedules b (s.beneficiarySchedules b ++ [s.nextScheduleId])
      b').Nodup := by
  by_cases hb : b' = b
  · subst hb
    rw [Function.update_self]
    refine List.nodup_append.mpr ⟨h.nodup b', List.nodup_singleton _, ?_⟩
    intro i hi j hj he
    rw [he, List.mem_singleton.mp hj] at hi
    exact h.unlisted le_rfl b' hi
  · rw [Function.update_of_ne hb]
    exact h.nodup b'

theorem regular_create {x : ℤ} {m n : ℕ} {revocable : Bool} (h : Regular vault s)
    (hr : Runs (createVesting b x m n revocable) env s id s') : Regular vault s' := by
  obtain ⟨rfl, hx, hn, hm, t, ht, rfl⟩ := runs_createVesting hr
  obtain ⟨hnone, hempty⟩ := h.fresh s.nextScheduleId le_rfl
  refine ⟨?_, ?_, ?_, nodup_create h b, h.unlocked, h.delegates⟩
  · intro id stored hst
    change Function.update s.schedule _ _ id = some stored at hst
    change Accepted id (s.milestones id) stored
    by_cases hid : id = s.nextScheduleId
    · subst hid
      rw [Function.update_self] at hst
      obtain rfl := Option.some.inj hst
      rw [hempty]
      exact accepted_newSchedule hx (Token.mint_le_max ht) hn hm
    · rw [Function.update_of_ne hid] at hst
      exact h.accepted id stored hst
  · intro id hid
    change s.nextScheduleId + 1 ≤ id at hid
    change Function.update s.schedule _ _ id = none ∧ s.milestones id = []
    rw [Function.update_of_ne (by omega)]
    exact h.fresh id (by omega)
  · intro b' id
    change id ∈ Function.update s.beneficiarySchedules b _ b' ↔
      ∃ stored, Function.update s.schedule _ _ id = some stored ∧ _
    by_cases hid : id = s.nextScheduleId
    · subst hid
      by_cases hb : b' = b
      · subst hb
        simp [newSchedule]
      · simp [newSchedule, Function.update_of_ne hb, h.unlisted le_rfl, Ne.symm hb]
    · rw [Function.update_of_ne hid, ← h.listed]
      by_cases hb : b' = b
      · subst hb
        simp [hid]
      · rw [Function.update_of_ne hb]

theorem follows_create {x : ℤ} {m n : ℕ} {revocable : Bool} (h : Regular vault s)
    (hr : Runs (createVesting b x m n revocable) env s id s') : Follows vault s s' := by
  refine ⟨regular_create h hr, ?_⟩
  obtain ⟨rfl, -, -, -, t, -, rfl⟩ := runs_createVesting hr
  intro i st hst
  refine terms_of_eq (Function.update_of_ne ?_ ..) st hst
  rintro rfl
  rw [(h.fresh _ le_rfl).1] at hst
  cases hst

theorem guard_of_releaseAll {g : Guard} {delegated : Bool} {s₁ : Store}
    (hg : Function.update (Function.update s.guard g true) g false = s.guard)
    (h : Runs (releaseAll delegated b) env ((guardLens g).set true s) v s₁) :
    ((guardLens g).set false s₁).guard = s.guard := by
  obtain ⟨s₂, t, hreleased, rfl, -⟩ := runs_releaseAll h
  have hsame : s₂.guard = ((guardLens g).set true s).guard := by
    rw [hreleased.only]
  simp only [guardLens, hsame, hg]

theorem guard_release (h : Runs (release b) env s v s') : s'.guard = s.guard := by
  obtain ⟨s₁, hbody, rfl⟩ := runs_reentrancyGuard h
  have hg := guard_lowered h
  simp only [runs_ensureInitialized_bind, runs_requireAuth_bind] at hbody
  exact guard_of_releaseAll hg hbody.2.2

theorem guard_claimOnBehalfOf (h : Runs (claimOnBehalfOf c b) env s v s') :
    s'.guard = s.guard := by
  obtain ⟨s₁, hbody, rfl⟩ := runs_reentrancyGuard h
  have hg := guard_lowered h
  simp only [runs_ensureInitialized_bind, runs_requireAuth_bind, runs_gets_bind,
    runs_failIf_bind] at hbody
  exact guard_of_releaseAll hg hbody.2.2.2

theorem follows_releases (h : Regular vault s) (hg : s'.guard = s.guard)
    (hr : ReleasesTo env b v s s') : Follows vault s s' := by
  obtain ⟨s₁, t, guard, hreleased, rfl, -⟩ := hr
  have hm : s₁.milestones = s.milestones := by rw [hreleased.only]
  have hn : s₁.nextScheduleId = s.nextScheduleId := by rw [hreleased.only]
  have hb : s₁.beneficiarySchedules = s.beneficiarySchedules := by rw [hreleased.only]
  have hd : s₁.claimDelegates = s.claimDelegates := by rw [hreleased.only]
  refine follows_rewritten h ?_ hm hn hb hg (congrFun hd vault)
  intro id
  rcases hreleased.topped id with he | ⟨st, hst, -, he⟩
  · exact Or.inl he
  · exact Or.inr ⟨st, _, hst, he, ⟨rfl, rfl, rfl, rfl, rfl⟩, (h.accepted id st hst).topped⟩

theorem follows_revoke (h : Regular vault s) (hr : Runs (revoke id) env s v s') :
    Follows vault s s' := by
  obtain ⟨stored, hs, -, -, t, -, rfl⟩ := runs_revoke hr
  refine follows_rewritten h ?_ rfl rfl rfl rfl rfl
  intro i
  by_cases hi : i = id
  · subst hi
    have ha := h.accepted i stored hs
    refine Or.inr ⟨stored, _, hs, Function.update_self .., ⟨rfl, rfl, rfl, rfl, rfl⟩, ?_⟩
    exact ⟨ha.id_eq, ha.total_pos, ha.total_le, ha.start_le, ha.cliff_le, ha.lasts,
      ha.tranches_pos, ha.tranches_le, ha.released_nonneg, ha.released_le⟩
  · exact Or.inl (Function.update_of_ne hi ..)

theorem follows_setMilestones (h : Regular vault s) (hr : Runs (setMilestones id ms) env s u s') :
    Follows vault s s' := by
  obtain ⟨st, hst, hpos, hle, rfl⟩ := runs_setMilestones hr
  refine ⟨⟨?_, ?_, h.listed, h.nodup, h.unlocked, h.delegates⟩, fun i => terms_of_eq rfl⟩
  · intro i stored hs
    change Accepted i (Function.update s.milestones id ms i) stored
    have ha := h.accepted i stored hs
    by_cases hi : i = id
    · subst hi
      have hsame : s.schedule i = some stored := hs
      rw [hst] at hsame
      obtain rfl := Option.some.inj hsame
      rw [Function.update_self]
      exact ⟨ha.id_eq, ha.total_pos, ha.total_le, ha.start_le, ha.cliff_le, ha.lasts, hpos, hle,
        ha.released_nonneg, ha.released_le⟩
    · rwa [Function.update_of_ne hi]
  · intro i hi
    obtain ⟨hnone, hempty⟩ := h.fresh i hi
    have hne : i ≠ id := by
      rintro rfl
      rw [hst] at hnone
      cases hnone
    exact ⟨hnone, (Function.update_of_ne hne ..).trans hempty⟩

theorem follows_authorizeClaimer {authorize : Bool} (h : Regular vault s)
    (hv : ∀ a, env.Authorized a → a ≠ vault)
    (hr : Runs (authorizeClaimer b c authorize) env s u s') : Follows vault s s' := by
  obtain ⟨s₁, hbody, rfl⟩ := runs_reentrancyGuard hr
  have hg := guard_lowered hr
  simp only [runs_ensureInitialized_bind, runs_requireAuth_bind, runs_modify] at hbody
  obtain ⟨-, ha, rfl⟩ := hbody
  refine follows_rewritten h (fun _ => Or.inl rfl) rfl rfl rfl hg ?_
  exact Function.update_of_ne (hv b ha).symm ..

theorem regular_deployed (h : Deployed w) : Regular w.self w.store := by
  obtain ⟨env, adminAddress, token, ledger, refuses, -, hr⟩ := h
  simp only [initializeVesting, runs_self_bind, runs_requireAuth_bind, runs_gets_bind,
    runs_failIf_bind, runs_modify_bind, Vesting.admin, runs_within] at hr
  obtain ⟨-, -, a, -, hstore⟩ := hr
  rw [hstore]
  refine ⟨?_, fun _ _ => ⟨rfl, rfl⟩, ?_, fun _ => List.nodup_nil, fun _ => rfl, rfl⟩
  · rintro id stored ⟨⟩
  · intro b id
    constructor
    · rintro ⟨⟩
    · rintro ⟨stored, ⟨⟩, -⟩

theorem follows_call {signers : List Address} {uploaded : List BytesN32} {op : Op}
    (h : Regular w.self w.store) (hr : Runs (exec op) (w.env signers uploaded) w.store () s') :
    Follows w.self w.store s' := by
  cases op with
  | createVesting b x m n revocable =>
    obtain ⟨id, hcreate⟩ := runs_discarded.mp hr
    exact follows_create h hcreate
  | release b =>
    obtain ⟨v, hrelease⟩ := runs_discarded.mp hr
    exact follows_releases h (guard_release hrelease) (runs_release hrelease).2
  | revoke id =>
    obtain ⟨v, hrevoke⟩ := runs_discarded.mp hr
    exact follows_revoke h hrevoke
  | setMilestones id ms => exact follows_setMilestones h hr
  | authorizeClaimer b c authorize =>
    exact follows_authorizeClaimer h World.authorized_ne_self hr
  | claimOnBehalfOf c b =>
    obtain ⟨v, hclaim⟩ := runs_discarded.mp hr
    exact follows_releases h (guard_claimOnBehalfOf hclaim) (runs_claimOnBehalfOf hclaim).2.2
  | tokenMint dst amount =>
    obtain ⟨t, -, rfl⟩ := TokenClient.runs_commit.mp hr
    exact follows_rewritten h (fun _ => Or.inl rfl) rfl rfl rfl rfl rfl
  | tokenTransfer src dst amount =>
    obtain ⟨-, hrest⟩ := runs_requireAuth_bind.mp hr
    obtain ⟨-, t, -, rfl⟩ := runs_tokenTransfer.mp hrest
    exact follows_rewritten h (fun _ => Or.inl rfl) rfl rfl rfl rfl rfl
  | tokenSetRefusals refuses =>
    obtain rfl := runs_modify.mp hr
    exact follows_rewritten h (fun _ => Or.inl rfl) rfl rfl rfl rfl rfl

theorem regular_next (h : Regular w.self w.store) :
    Regular (w.next exec l).self (w.next exec l).store := by
  rw [World.next_self]
  exact World.next_store (P := Regular w.self) h fun _ _ _ _ hr => (follows_call h hr).regular

theorem regular_from (h : Regular w.self w.store) (ls : List (Label Op)) :
    Regular w.self (w.run exec ls).store := by
  have hrun : Regular (w.run exec ls).self (w.run exec ls).store :=
    World.run_induction (P := fun w : World Store => Regular w.self w.store) h
      fun _ _ => regular_next
  rwa [World.run_self] at hrun

theorem regular_run (h : Deployed w) (ls : List (Label Op)) :
    Regular w.self (w.run exec ls).store :=
  regular_from (regular_deployed h) ls

/-- A schedule stays there, on its terms, whatever happens after. -/
theorem terms_run {st : StoredVestingSchedule} (h : Regular w.self w.store)
    (hst : w.store.schedule id = some st) (ls : List (Label Op)) :
    ∃ st', (w.run exec ls).store.schedule id = some st' ∧ SameTerms st st' := by
  have hstart : Regular w.self w.store ∧
      ∃ st', w.store.schedule id = some st' ∧ SameTerms st st' :=
    ⟨h, st, hst, SameTerms.refl st⟩
  refine (World.run_induction (P := fun v : World Store => Regular v.self v.store ∧
    ∃ st', v.store.schedule id = some st' ∧ SameTerms st st') hstart ?_).2
  rintro v l ⟨hv, st', hst', hsame⟩
  refine ⟨regular_next hv, ?_⟩
  refine World.next_store (P := fun s : Store => ∃ st', s.schedule id = some st' ∧
    SameTerms st st') ⟨st', hst', hsame⟩ ?_
  intro signers uploaded op s' hr
  obtain ⟨st'', hst'', hnext⟩ := (follows_call hv hr).terms id st' hst'
  exact ⟨st'', hst'', hsame.trans hnext⟩

section Law

/-- The law of the curve of one schedule, against the curve it would have without its
revocation. -/
structure CurveLaw (stored : StoredVestingSchedule) (unrevoked curve : ℕ → ℤ) : Prop where
  monotone : Monotone curve
  before : ∀ L, L < stored.schedule.cliffLedger → curve L = 0
  bounds : ∀ L, 0 ≤ curve L ∧ curve L ≤ stored.schedule.totalAmount
  floor : stored.revokedAtLedger = none → ∀ L, stored.schedule.cliffLedger ≤ L →
    linear stored L ≤ curve L
  complete : stored.revokedAtLedger = none → ∀ L, stored.schedule.endLedger ≤ L →
    curve L = stored.schedule.totalAmount
  agrees : ∀ r, stored.revokedAtLedger = some r → ∀ L, L ≤ r → curve L = unrevoked L
  frozen : ∀ r, stored.revokedAtLedger = some r → ∀ L, r ≤ L → curve L = curve r

theorem vested_eq (h : Accepted id (s.milestones id) stored) :
    s.vested stored L = vested (s.milestones id) stored (effectiveLedger stored L) := by
  rw [Store.vested, h.id_eq]

theorem vested_monotone (h : Accepted id (s.milestones id) stored) :
    Monotone (s.vested stored) := by
  intro L L' hle
  rw [vested_eq h, vested_eq h]
  exact vested_mono h (effectiveLedger_mono hle)

theorem curveLaw_of_accepted (h : Accepted id (s.milestones id) stored) :
    CurveLaw stored (s.vested { stored with revokedAtLedger := none }) (s.vested stored) where
  monotone := vested_monotone h
  before L hL := by
    rw [vested_eq h, vested, if_pos]
    exact effectiveLedger_le.trans_lt hL
  bounds L := by
    rw [vested_eq h]
    exact ⟨vested_nonneg h, vested_le h.total_pos.le⟩
  floor hr L _ := by
    have heff : effectiveLedger stored L = L := by rw [effectiveLedger, hr]
    rw [vested_eq h, heff]
    exact linear_le_vested h
  complete hr L hL := by
    have heff : effectiveLedger stored L = L := by rw [effectiveLedger, hr]
    rw [vested_eq h, heff]
    exact vested_end h hL
  agrees r hr L hL := by
    have heff : effectiveLedger stored L = L := by
      rw [effectiveLedger, hr]
      exact if_neg (by omega)
    rw [Store.vested, heff]
    rfl
  frozen r hr L hL := by
    have heff : effectiveLedger stored L = effectiveLedger stored r := by
      rw [effectiveLedger, effectiveLedger, hr]
      dsimp only
      split <;> split <;> omega
    rw [Store.vested, heff, Store.vested]

/-- In every reachable state the vested amount of a schedule follows its curve, and is computed
unless the product inside the window overflows. -/
theorem vesting_curve (h : Deployed w) (ls : List (Label Op))
    (hs : (w.run exec ls).store.schedule id = some stored) :
    CurveLaw stored ((w.run exec ls).store.vested { stored with revokedAtLedger := none })
      ((w.run exec ls).store.vested stored) ∧
    ∀ (env : Env) (L : ℕ) (v : ℤ) (s' : Store),
      Runs (vestedAmount stored L) env (w.run exec ls).store v s' ↔
        Fits stored (effectiveLedger stored L) ∧
          v = (w.run exec ls).store.vested stored L ∧ s' = (w.run exec ls).store := by
  have haccepted := (regular_run h ls).accepted id stored hs
  exact ⟨curveLaw_of_accepted haccepted, fun _ _ _ _ => runs_vestedAmount_iff haccepted⟩

/-- A schedule with a cliff and two tranches, revoked between them. -/
def tranchedSchedule : List (Label Op) :=
  [.call [⟨1⟩] [] (.createVesting ⟨2⟩ 1000 10 100 true),
   .call [⟨1⟩] [] (.setMilestones 0 [⟨120, 300⟩, ⟨150, 400⟩]),
   .close (.ofNat 130 1700000150),
   .call [⟨1⟩] [] (.revoke 0)]

theorem tranchedSchedule_curve : ∃ stored,
    (genesis.run exec tranchedSchedule).store.schedule 0 = some stored ∧
    Monotone ((genesis.run exec tranchedSchedule).store.vested stored) ∧
    (genesis.run exec tranchedSchedule).store.vested stored 160 =
      (genesis.run exec tranchedSchedule).store.vested stored 130 := by
  have hsome : ((genesis.run exec tranchedSchedule).store.schedule 0).map (·.revokedAtLedger) =
      some (some 130) := by
    decide +kernel
  obtain ⟨stored, hs, hrevoked⟩ := Option.map_eq_some_iff.mp hsome
  obtain ⟨hcurve, -⟩ := vesting_curve genesis_deployed tranchedSchedule hs
  exact ⟨stored, hs, hcurve.monotone, hcurve.frozen 130 hrevoked 160 (by decide)⟩

end Law

end BcForge.Vesting
