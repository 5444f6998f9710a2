import BcForge.Vesting.Payout

/-! Releases and delegated claims over whole runs: what a beneficiary gets does not depend on how
often or by whom it is called for. -/
namespace BcForge.Vesting

open Soroban Call Admin

variable {env : Env} {s s' : Store} {w : World Store} {l : Label Op} {ls : List (Label Op)}
  {id L : ℕ} {v x : ℤ} {b vault : Address} {op : Op} {signers : List Address}
  {uploaded : List BytesN32} {delegated : Bool} {s₀ : Store}

/-- The beneficiary an operation pays. -/
def Op.releases : Op → Option Address
  | .release b => some b
  | .claimOnBehalfOf _ b => some b
  | _ => none

/-- Neither a revocation nor a change of milestones. -/
def Op.Steady : Op → Prop
  | .revoke _ => False
  | .setMilestones _ _ => False
  | _ => True

def Steady : Label Op → Prop
  | .call _ _ op => op.Steady
  | .close _ => True

/-- What `b` receives in the step, if it is a release to `b`. -/
def payTo (b : Address) (w : World Store) : Label Op → ℤ
  | .call signers uploaded op =>
    if op.releases = some b then
      (w.next exec (.call signers uploaded op)).store.token.balance b - w.store.token.balance b
    else 0
  | .close _ => 0

def paidTo (b : Address) (w : World Store) (ls : List (Label Op)) : ℤ :=
  w.sumSteps exec (payTo b) ls

/-- The sum of `f` over the schedules of `b`. -/
def Store.overSchedules (s : Store) (b : Address) (f : ℕ → ℤ) : ℤ :=
  ((s.beneficiarySchedules b).map f).sum

theorem overSchedules_congr {f g : ℕ → ℤ}
    (hb : s'.beneficiarySchedules b = s.beneficiarySchedules b)
    (hfg : ∀ id ∈ s.beneficiarySchedules b, f id = g id) :
    s'.overSchedules b f = s.overSchedules b g := by
  rw [Store.overSchedules, Store.overSchedules, hb, List.map_congr_left hfg]

theorem balance_pays (h : Pays delegated env b v s s') (hb : b ≠ env.self) :
    s'.token.balance b = s.token.balance b + v := by
  obtain ⟨t, ht, rfl⟩ := h.sent
  change t.balance b = _
  rcases ht with ⟨rfl, rfl⟩ | ⟨-, -, ht⟩
  · rw [add_zero]
  · obtain ⟨-, -, hbalance⟩ := Token.transfer_spec ht hb.symm
    rw [hbalance, Function.update_self]

/-- A successful release or claim pays its beneficiary, who is never the vault itself. -/
theorem exec_releases (h : Regular w.self w.store) (hop : op.releases = some b)
    (hr : Runs (exec op) (w.env signers uploaded) w.store () s') :
    b ≠ w.self ∧ ∃ v delegated, Pays delegated (w.env signers uploaded) b v w.store s' := by
  cases op with
  | release b' =>
    obtain rfl : b' = b := Option.some.inj hop
    obtain ⟨v, hrelease⟩ := runs_discarded.mp hr
    obtain ⟨-, ha, hpays⟩ := (runs_release_iff h).mp hrelease
    exact ⟨World.authorized_ne_self b' ha, v, false, hpays⟩
  | claimOnBehalfOf c b' =>
    obtain rfl : b' = b := Option.some.inj hop
    obtain ⟨v, hclaim⟩ := runs_discarded.mp hr
    obtain ⟨-, ha, hc, hpays⟩ := (runs_claimOnBehalfOf_iff h).mp hclaim
    refine ⟨?_, v, true, hpays⟩
    rintro rfl
    rcases hc with hc | hc
    · exact World.authorized_ne_self c ha hc
    · rw [h.delegates] at hc
      cases hc
  | _ => cases hop

/-- Nothing of the schedules of `b` has changed, except that a new one may have been added. -/
structure Untouched (b : Address) (L : ℕ) (s s' : Store) : Prop where
  same : ∀ id ∈ s.beneficiarySchedules b, s'.schedule id = s.schedule id
  curves : s'.milestones = s.milestones
  listed : s'.beneficiarySchedules b = s.beneficiarySchedules b ∨
    ∃ id, s'.beneficiarySchedules b = s.beneficiarySchedules b ++ [id] ∧
      s.schedule id = none ∧ releasedOf s' id = 0 ∧ s'.vestedOf L id = 0

theorem untouched_of_eq (hs : s'.schedule = s.schedule) (hm : s'.milestones = s.milestones)
    (hb : s'.beneficiarySchedules = s.beneficiarySchedules) : Untouched b L s s' :=
  ⟨fun id _ => congrFun hs id, hm, Or.inl (congrFun hb b)⟩

theorem vested_newSchedule {now m n : ℕ} {revocable : Bool} (hx : 0 < x) (hn : 0 < n) :
    vested [] (newSchedule id now b x m n revocable) now = 0 := by
  have hlinear : linear (newSchedule id now b x m n revocable) now = 0 := by
    unfold linear newSchedule
    dsimp only
    rw [if_neg (by omega : ¬ now + n ≤ now), Nat.sub_self, Nat.cast_zero, mul_zero, Int.zero_tdiv,
      ite_self]
  have htotal : min (newSchedule id now b x m n revocable).schedule.totalAmount 0 = 0 :=
    min_eq_right hx.le
  rw [vested, hlinear, passed, max_self, htotal, ite_self]

theorem untouched_create {m n : ℕ} {revocable : Bool} {b' : Address} (h : Regular vault s)
    (hr : Runs (createVesting b' x m n revocable) env s id s') :
    Untouched b env.ledger.sequence s s' := by
  obtain ⟨rfl, hx, hn, -, t, -, rfl⟩ := runs_createVesting hr
  obtain ⟨hnone, hempty⟩ := h.fresh s.nextScheduleId le_rfl
  refine ⟨?_, rfl, ?_⟩
  · intro i hi
    obtain ⟨st, hst, -⟩ := (h.listed b i).mp hi
    refine Function.update_of_ne ?_ ..
    rintro rfl
    rw [hnone] at hst
    cases hst
  · by_cases hb : b = b'
    · subst hb
      have hvested : vested [] (newSchedule s.nextScheduleId env.ledger.sequence b x m n revocable)
          env.ledger.sequence = 0 := vested_newSchedule hx hn
      refine Or.inr ⟨s.nextScheduleId, Function.update_self .., hnone, ?_, ?_⟩
      · simp [releasedOf, writeSchedule, newSchedule]
      · simpa [Store.vestedOf, Store.vested, writeSchedule, hempty, effectiveLedger, newSchedule]
          using hvested
    · exact Or.inl (Function.update_of_ne hb ..)

/-- Schedules belong to one beneficiary, so paying another one leaves those of `b` alone. -/
theorem untouched_pays {b' : Address} (h : Regular vault s) (hne : b' ≠ b)
    (hpays : Pays delegated env b' v s s') : Untouched b env.ledger.sequence s s' := by
  obtain ⟨t, -, rfl⟩ := hpays.sent
  refine ⟨?_, rfl, Or.inl rfl⟩
  intro id hid
  refine schedule_topUp_of_notMem ?_
  intro hid'
  obtain ⟨st, hst, hb⟩ := (h.listed b id).mp hid
  obtain ⟨st', hst', hb'⟩ := (h.listed b' id).mp hid'
  rw [hst] at hst'
  obtain rfl := Option.some.inj hst'
  exact hne (hb'.symm.trans hb)

theorem untouched_call (h : Regular w.self w.store) (hop : op.Steady) (hne : op.releases ≠ some b)
    (hr : Runs (exec op) (w.env signers uploaded) w.store () s') :
    Untouched b w.ledger.sequence w.store s' := by
  have hother : ∀ b', op.releases = some b' → Untouched b w.ledger.sequence w.store s' := by
    intro b' hb'
    obtain ⟨-, v, delegated, hpays⟩ := exec_releases h hb' hr
    refine untouched_pays h ?_ hpays
    rintro rfl
    exact hne hb'
  cases op with
  | createVesting b' x m n revocable =>
    obtain ⟨id, hcreate⟩ := runs_discarded.mp hr
    exact untouched_create h hcreate
  | release b' => exact hother b' rfl
  | claimOnBehalfOf c b' => exact hother b' rfl
  | revoke id => exact hop.elim
  | setMilestones id ms => exact hop.elim
  | authorizeClaimer b' c authorize =>
    obtain ⟨s₁, hbody, rfl⟩ := runs_reentrancyGuard hr
    simp only [runs_ensureInitialized_bind, runs_requireAuth_bind, runs_modify] at hbody
    obtain ⟨-, -, rfl⟩ := hbody
    exact untouched_of_eq rfl rfl rfl
  | tokenMint dst amount =>
    obtain ⟨t, -, rfl⟩ := TokenClient.runs_commit.mp hr
    exact untouched_of_eq rfl rfl rfl
  | tokenTransfer src dst amount =>
    obtain ⟨-, hrest⟩ := runs_requireAuth_bind.mp hr
    obtain ⟨-, t, -, rfl⟩ := runs_tokenTransfer.mp hrest
    exact untouched_of_eq rfl rfl rfl
  | tokenSetRefusals refuses =>
    obtain rfl := runs_modify.mp hr
    exact untouched_of_eq rfl rfl rfl

theorem Untouched.releasedOf_eq (h : Untouched b L s s') (hid : id ∈ s.beneficiarySchedules b) :
    releasedOf s' id = releasedOf s id := by
  rw [releasedOf, releasedOf, h.same id hid]

theorem Untouched.vestedOf_eq (h : Untouched b L s s') (hid : id ∈ s.beneficiarySchedules b)
    (L' : ℕ) : s'.vestedOf L' id = s.vestedOf L' id := by
  simp only [Store.vestedOf, Store.vested, h.same id hid, h.curves]

/-- What is to be shown of every schedule of `b` after a step that leaves them alone. -/
theorem Untouched.forall_mem {p : ℕ → Prop} (h : Untouched b L s s')
    (hold : ∀ id ∈ s.beneficiarySchedules b, p id)
    (hnew : ∀ id, s.schedule id = none → releasedOf s' id = 0 → s'.vestedOf L id = 0 → p id) :
    ∀ id ∈ s'.beneficiarySchedules b, p id := by
  intro id hid
  rcases h.listed with hb | ⟨id', hb, hnone, hreleased, hvested⟩
  · exact hold id (hb ▸ hid)
  · rw [hb, List.mem_append, List.mem_singleton] at hid
    rcases hid with hid | rfl
    · exact hold id hid
    · exact hnew id hnone hreleased hvested

/-- Since the store `s₀` the schedules of `b` have been released no further than their curves, and
`x` is what that comes to. -/
structure Paced (b : Address) (s₀ : Store) (w : World Store) (x : ℤ) : Prop where
  regular : Regular w.self w.store
  kept : ∀ id, w.store.schedule id = none → releasedOf s₀ id = 0
  within : ∀ id ∈ w.store.beneficiarySchedules b, releasedOf s₀ id ≤ releasedOf w.store id ∧
    releasedOf w.store id ≤ max (releasedOf s₀ id) (w.store.vestedOf w.ledger.sequence id)
  paid : x = w.store.overSchedules b fun id => releasedOf w.store id - releasedOf s₀ id

theorem paced_untouched (h : Paced b s₀ w x) (hregular : Regular w.self s')
    (hkept : ∀ id, s'.schedule id = none → w.store.schedule id = none)
    (hu : Untouched b w.ledger.sequence w.store s') : Paced b s₀ { w with store := s' } x := by
  refine ⟨hregular, fun id hid => h.kept id (hkept id hid), ?_, ?_⟩
  · refine hu.forall_mem ?_ ?_
    · intro id hid
      change _ ≤ releasedOf s' id ∧ releasedOf s' id ≤ max _ (s'.vestedOf _ id)
      rw [hu.releasedOf_eq hid, hu.vestedOf_eq hid]
      exact h.within id hid
    · intro id hnone hreleased _
      change _ ≤ releasedOf s' id ∧ releasedOf s' id ≤ _
      rw [hreleased, h.kept id hnone]
      exact ⟨le_rfl, le_max_left _ _⟩
  · rw [h.paid]
    change _ = s'.overSchedules b fun id => releasedOf s' id - releasedOf s₀ id
    have hsame : ∀ id ∈ w.store.beneficiarySchedules b,
        releasedOf s' id - releasedOf s₀ id = releasedOf w.store id - releasedOf s₀ id :=
      fun id hid => by rw [hu.releasedOf_eq hid]
    rcases hu.listed with hb | ⟨id, hb, hnone, hreleased, -⟩
    · exact (overSchedules_congr hb hsame).symm
    · rw [Store.overSchedules, Store.overSchedules, hb, List.map_append, List.sum_append,
        List.map_congr_left hsame]
      simp [hreleased, h.kept id hnone]

theorem released_pays (h : Pays delegated env b v s s')
    (hid : id ∈ s.beneficiarySchedules b) :
    releasedOf s' id = max (releasedOf s id) (s'.vestedOf env.ledger.sequence id) ∧
      releasedOf s' id = releasedOf s id + s.gain env.ledger.sequence id := by
  obtain ⟨stored, hs, -⟩ := h.releasable id hid
  obtain ⟨t, -, rfl⟩ := h.sent
  have hvested : (s.topUp env.ledger.sequence (s.beneficiarySchedules b)).vestedOf
      env.ledger.sequence id = s.vestedOf env.ledger.sequence id := by
    rw [vestedOf_topUp]
  constructor
  · change releasedOf (s.topUp _ _) id = max _ ((s.topUp _ _).vestedOf _ id)
    rw [hvested]
    exact released_topUp_of_mem hid hs
  · exact released_topUp hid hs

theorem vestedOf_pays (h : Pays delegated env b v s s') :
    s'.vestedOf = s.vestedOf := by
  obtain ⟨t, -, rfl⟩ := h.sent
  exact vestedOf_topUp ..

theorem listed_pays (h : Pays delegated env b v s s') :
    s'.beneficiarySchedules = s.beneficiarySchedules := by
  obtain ⟨t, -, rfl⟩ := h.sent
  rfl

/-- A payment to `b` is what its schedules are brought up by. -/
theorem paced_pays (h : Paced b s₀ w x)
    (hregular : Regular w.self s')
    (hpays : Pays delegated (w.env signers uploaded) b v w.store s') :
    Paced b s₀ { w with store := s' } (x + v) := by
  have hlisted := listed_pays hpays
  refine ⟨hregular, ?_, ?_, ?_⟩
  · intro id hid
    obtain ⟨t, -, rfl⟩ := hpays.sent
    exact h.kept id (schedule_topUp_eq_none.mp hid)
  · intro id hid
    change id ∈ s'.beneficiarySchedules b at hid
    rw [hlisted] at hid
    obtain ⟨hreleased, -⟩ := released_pays hpays hid
    obtain ⟨habove, hbelow⟩ := h.within id hid
    rw [← vestedOf_pays hpays] at hbelow
    change _ ≤ releasedOf s' id ∧ releasedOf s' id ≤ max _ (s'.vestedOf w.ledger.sequence id)
    change releasedOf s' id = max _ (s'.vestedOf w.ledger.sequence id) at hreleased
    omega
  · change _ = s'.overSchedules b fun id => releasedOf s' id - releasedOf s₀ id
    have hsplit : ∀ id ∈ w.store.beneficiarySchedules b, releasedOf s' id - releasedOf s₀ id =
        releasedOf w.store id - releasedOf s₀ id + w.store.gain w.ledger.sequence id := by
      intro id hid
      rw [(released_pays hpays hid).2]
      exact add_sub_right_comm ..
    rw [overSchedules_congr (congrFun hlisted b) hsplit, h.paid, hpays.value]
    exact List.sum_map_add.symm

/-- After it, the sum is that of the curves alone. -/
theorem paid_after_release (h : Paced b s₀ w x)
    (hregular : Regular w.self s')
    (hpays : Pays delegated (w.env signers uploaded) b v w.store s') :
    x + v = s'.overSchedules b fun id =>
      max 0 (s'.vestedOf w.ledger.sequence id - releasedOf s₀ id) := by
  rw [(paced_pays h hregular hpays).paid]
  refine overSchedules_congr rfl ?_
  intro id hid
  change id ∈ s'.beneficiarySchedules b at hid
  rw [listed_pays hpays] at hid
  obtain ⟨hreleased, -⟩ := released_pays hpays hid
  obtain ⟨habove, hbelow⟩ := h.within id hid
  rw [← vestedOf_pays hpays] at hbelow
  change releasedOf s' id - _ = _
  change releasedOf s' id = max _ (s'.vestedOf w.ledger.sequence id) at hreleased
  omega

theorem vestedOf_monotone (h : Regular vault s) (id : ℕ) : Monotone (s.vestedOf · id) := by
  intro L L' hle
  cases hs : s.schedule id with
  | none => simp [Store.vestedOf, hs]
  | some stored =>
    simp only [Store.vestedOf, hs]
    exact vested_monotone (h.accepted id stored hs) hle

theorem vestedOf_nonneg (h : Regular vault s) (L id : ℕ) : 0 ≤ s.vestedOf L id := by
  cases hs : s.schedule id with
  | none => simp [Store.vestedOf, hs]
  | some stored =>
    simp only [Store.vestedOf, hs]
    exact ((curveLaw_of_accepted (h.accepted id stored hs)).bounds L).1

theorem paced_call (h : Paced b s₀ w x) (hop : op.Steady)
    (hr : Runs (exec op) (w.env signers uploaded) w.store () s') :
    Paced b s₀ { w with store := s' } (x + payTo b w (.call signers uploaded op)) := by
  have hfollows := follows_call h.regular hr
  have hnext : (w.next exec (.call signers uploaded op)).store = s' := invoke_of_runs hr
  by_cases hb : op.releases = some b
  · obtain ⟨hne, v, delegated, hpays⟩ := exec_releases h.regular hb hr
    rw [payTo, if_pos hb, hnext, balance_pays hpays hne, add_sub_cancel_left]
    exact paced_pays h hfollows.regular hpays
  · rw [payTo, if_neg hb, add_zero]
    refine paced_untouched h hfollows.regular ?_ (untouched_call h.regular hop hb hr)
    intro id hid
    by_contra hsome
    obtain ⟨st, hst⟩ := Option.ne_none_iff_exists'.mp hsome
    obtain ⟨st', hst', -⟩ := hfollows.terms id st hst
    rw [hid] at hst'
    cases hst'

theorem paced_next (h : Paced b s₀ w x) (hl : Steady l) :
    Paced b s₀ (w.next exec l) (x + payTo b w l) := by
  cases l with
  | call signers uploaded op =>
    rcases World.call_cases exec w signers uploaded op with hr | ⟨-, hs⟩
    · exact paced_call h hl hr
    · rw [payTo, hs, sub_self, ite_self, add_zero]
      exact h
  | close ledger =>
    have hstore := World.next_close_store exec w ledger
    have hle := (World.next_ledger_mono exec w (.close ledger)).1
    rw [payTo, add_zero]
    refine ⟨?_, ?_, ?_, ?_⟩
    · rw [World.next_self, hstore]
      exact h.regular
    · rw [hstore]
      exact h.kept
    · rw [hstore]
      intro id hid
      obtain ⟨habove, hbelow⟩ := h.within id hid
      exact ⟨habove, hbelow.trans (max_le_max le_rfl (vestedOf_monotone h.regular id hle))⟩
    · rw [hstore]
      exact h.paid

theorem paced_refl (h : Regular w.self w.store) (b : Address) : Paced b w.store w 0 where
  regular := h
  kept id hid := by simp [releasedOf, hid]
  within _ _ := ⟨le_rfl, le_max_left _ _⟩
  paid := by simp [Store.overSchedules]

theorem paced_run (h : Regular w.self w.store) (hls : ∀ l ∈ ls, Steady l) :
    Paced b w.store (w.run exec ls) (paidTo b w ls) := by
  have hsteps : World.EveryStep exec (fun _ l => True ∧ Steady l) w ls :=
    World.everyStep_and_forall (World.everyStep_of_forall fun _ _ => trivial) hls
  have hrun := World.run_induction_sum (paced_refl h b)
    (fun _ _ _ hpaced hl => paced_next hpaced hl.2) hsteps
  rwa [zero_add] at hrun

/-- There is nothing to release to `b` at this ledger. -/
def Settled (b : Address) (w : World Store) : Prop :=
  ∀ id ∈ w.store.beneficiarySchedules b, w.store.gain w.ledger.sequence id = 0

def SteadyCall : Label Op → Prop
  | .call _ _ op => op.Steady
  | .close _ => False

theorem settled_pays (hpays : Pays delegated (w.env signers uploaded) b v
    w.store s') : Settled b { w with store := s' } := by
  intro id hid
  change id ∈ s'.beneficiarySchedules b at hid
  rw [listed_pays hpays] at hid
  obtain ⟨hreleased, -⟩ := released_pays hpays hid
  change releasedOf s' id = max _ (s'.vestedOf w.ledger.sequence id) at hreleased
  change max 0 (s'.vestedOf w.ledger.sequence id - releasedOf s' id) = 0
  omega

theorem settled_untouched (h : Settled b w) (hu : Untouched b w.ledger.sequence w.store s') :
    Settled b { w with store := s' } := by
  refine hu.forall_mem ?_ ?_
  · intro id hid
    have hgain := h id hid
    rw [Store.gain] at hgain ⊢
    change max 0 (s'.vestedOf w.ledger.sequence id - releasedOf s' id) = 0
    rwa [hu.releasedOf_eq hid, hu.vestedOf_eq hid]
  · intro id _ hreleased hvested
    change max 0 (s'.vestedOf w.ledger.sequence id - releasedOf s' id) = 0
    rw [hreleased, hvested, sub_self, max_self]

/-- As long as the ledger stays, nothing more is paid. -/
theorem settled_next (h : Regular w.self w.store) (hs : Settled b w) (hl : SteadyCall l) :
    Settled b (w.next exec l) ∧ payTo b w l = 0 := by
  cases l with
  | close ledger => exact hl.elim
  | call signers uploaded op =>
    rcases World.call_cases exec w signers uploaded op with hr | ⟨-, hsame⟩
    · by_cases hb : op.releases = some b
      · obtain ⟨hne, v, delegated, hpays⟩ := exec_releases h hb hr
        refine ⟨settled_pays hpays, ?_⟩
        have hzero : v = 0 := by
          rw [hpays.value, World.env_ledger, List.map_congr_left hs]
          simp
        rw [payTo, if_pos hb, balance_pays hpays hne, hzero]
        omega
      · exact ⟨settled_untouched hs (untouched_call h hl hb hr), by rw [payTo, if_neg hb]⟩
    · rw [payTo, hsame, sub_self, ite_self]
      exact ⟨hs, rfl⟩

theorem paidTo_settled (h : Regular w.self w.store) (hs : Settled b w)
    (hls : ∀ l ∈ ls, SteadyCall l) : paidTo b w ls = 0 := by
  have hsteps : World.EveryStep exec (fun _ l => True ∧ SteadyCall l) w ls :=
    World.everyStep_and_forall (World.everyStep_of_forall fun _ _ => trivial) hls
  have hstart : Regular w.self w.store ∧ Settled b w ∧ (0 : ℤ) = 0 := ⟨h, hs, rfl⟩
  have hrun := World.run_induction_sum (f := payTo b)
    (J := fun v x => Regular v.self v.store ∧ Settled b v ∧ x = 0) hstart
    (fun v l x hJ hl => by
      obtain ⟨hsettled, hzero⟩ := settled_next hJ.1 hJ.2.1 hl.2
      exact ⟨regular_next hJ.1, hsettled, by rw [hJ.2.2, hzero, add_zero]⟩) hsteps
  have hsum := hrun.2.2
  rwa [zero_add] at hsum

/-- Between `start` and `final` the schedules of `b` have been paid out along their curves: `x` is
the sum of what was still missing, all that is vested if nothing had been released before, and
nothing more can be had at that ledger. -/
structure PaidAlong (b : Address) (start final : World Store) (x : ℤ) : Prop where
  missing : x = final.store.overSchedules b fun id =>
    max 0 (final.store.vestedOf final.ledger.sequence id - releasedOf start.store id)
  vested : (∀ id ∈ start.store.beneficiarySchedules b, releasedOf start.store id = 0) →
    x = final.store.overSchedules b (final.store.vestedOf final.ledger.sequence)
  again : ∀ ls, (∀ l ∈ ls, SteadyCall l) → paidTo b final ls = 0

/-- A schedule of `b` that was there before was a schedule of `b` then. -/
theorem releasedOf_start (h : Regular w.self w.store)
    (hzero : ∀ id ∈ w.store.beneficiarySchedules b, releasedOf w.store id = 0) :
    ∀ id ∈ (w.run exec ls).store.beneficiarySchedules b, releasedOf w.store id = 0 := by
  intro id hid
  cases hs : w.store.schedule id with
  | none => simp [releasedOf, hs]
  | some st =>
    obtain ⟨st', hst', hsame⟩ := terms_run h hs ls
    obtain ⟨stored, hstored, hb⟩ := ((regular_from h ls).listed b id).mp hid
    rw [hst'] at hstored
    obtain rfl := Option.some.inj hstored
    exact hzero id ((h.listed b id).mpr ⟨st, hs, hsame.beneficiary.symm.trans hb⟩)

theorem paidAlong_pays (h : Regular w.self w.store) (hls : ∀ l ∈ ls, Steady l)
    (hregular : Regular (w.run exec ls).self s')
    (hpays : Pays delegated ((w.run exec ls).env signers uploaded) b v (w.run exec ls).store s') :
    PaidAlong b w { w.run exec ls with store := s' } (paidTo b w ls + v) := by
  have hmissing := paid_after_release (paced_run h hls) hregular hpays
  refine ⟨hmissing, ?_, ?_⟩
  · intro hzero
    rw [hmissing]
    refine overSchedules_congr rfl ?_
    intro id hid
    change id ∈ s'.beneficiarySchedules b at hid
    rw [listed_pays hpays] at hid
    rw [releasedOf_start h hzero id hid, sub_zero]
    exact max_eq_right (vestedOf_nonneg hregular _ id)
  · intro ls' hls'
    exact paidTo_settled hregular (settled_pays hpays) hls'

/-- From any reachable state on, with neither revocations nor changes of milestones, releases and
delegated claims up to a last successful one pay the beneficiary what its curves say. -/
theorem release_path_independent (h : Deployed w) (history : List (Label Op))
    (hls : ∀ l ∈ ls, Steady l) (hop : op.releases = some b)
    (hr : Runs (exec op) (((w.run exec history).run exec ls).env signers uploaded)
      ((w.run exec history).run exec ls).store () s') :
    PaidAlong b (w.run exec history)
      ((w.run exec history).run exec (ls ++ [.call signers uploaded op]))
      (paidTo b (w.run exec history) (ls ++ [.call signers uploaded op])) := by
  have hstart : Regular (w.run exec history).self (w.run exec history).store := by
    rw [World.run_self]
    exact regular_run h history
  have hlast : Regular ((w.run exec history).run exec ls).self
      ((w.run exec history).run exec ls).store := by
    rw [World.run_self]
    exact regular_from hstart ls
  obtain ⟨hne, v, delegated, hpays⟩ := exec_releases hlast hop hr
  have hnext : (((w.run exec history).run exec ls).next exec
      (.call signers uploaded op)).store = s' := invoke_of_runs hr
  have hv : payTo b ((w.run exec history).run exec ls) (.call signers uploaded op) = v := by
    rw [payTo, if_pos hop, hnext, balance_pays hpays hne, add_sub_cancel_left]
  have hsum : paidTo b (w.run exec history) (ls ++ [.call signers uploaded op]) =
      paidTo b (w.run exec history) ls + v := by
    rw [paidTo, World.sumSteps_append, ← hv]
    simp [World.sumSteps, paidTo]
  have hfinal : (w.run exec history).run exec (ls ++ [.call signers uploaded op]) =
      { (w.run exec history).run exec ls with store := s' } := by
    rw [World.run_append, ← hnext]
    rfl
  rw [hsum, hfinal]
  exact paidAlong_pays hstart hls (follows_call hlast hr).regular hpays

/-- A delegated claim, a release by the beneficiary and a last one later, over both schedules. -/
def severalReleases : List (Label Op) :=
  [.close (.ofNat 155 1700000275),
   .call [⟨4⟩] [] (.claimOnBehalfOf ⟨4⟩ ⟨2⟩),
   .close (.ofNat 170 1700000350),
   .call [⟨2⟩] [] (.release ⟨2⟩),
   .close (.ofNat 180 1700000400)]

theorem severalReleases_paid :
    paidTo ⟨2⟩ (genesis.run exec cliffAhead)
      (severalReleases ++ [.call [⟨2⟩] [] (.release ⟨2⟩)]) = 1600 ∧
    PaidAlong ⟨2⟩ (genesis.run exec cliffAhead)
      ((genesis.run exec cliffAhead).run exec (severalReleases ++ [.call [⟨2⟩] [] (.release ⟨2⟩)]))
      (paidTo ⟨2⟩ (genesis.run exec cliffAhead)
        (severalReleases ++ [.call [⟨2⟩] [] (.release ⟨2⟩)])) := by
  refine ⟨by decide +kernel, ?_⟩
  refine release_path_independent genesis_deployed cliffAhead ?_ rfl
    (runs_invoke (by decide +kernel))
  simp [severalReleases, Steady, Op.Steady]

end BcForge.Vesting
