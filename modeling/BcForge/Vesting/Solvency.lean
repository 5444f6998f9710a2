import BcForge.Admin.Spec
import BcForge.Vesting.Spec

/-! What is given out for a schedule, to its beneficiary and back to the administrator, against
what it was funded with. -/
namespace BcForge.Vesting

open Soroban Call Admin

/-- What the step books as released, schedule by schedule. -/
def paidBy (w : World Store) (l : Label Op) : ℕ → ℤ :=
  releasedOf (w.next exec l).store - releasedOf w.store

/-- What the step sends back to the administrator: the value a `revoke` returns. -/
def refundedBy (w : World Store) : Label Op → ℕ → ℤ
  | .call signers uploaded (.revoke id) =>
    match revoke id (w.env signers uploaded) w.store with
    | .ok d => Function.update (0 : ℕ → ℤ) id d.value
    | .error _ => 0
  | _ => 0

def paid (w : World Store) (ls : List (Label Op)) : ℕ → ℤ := w.sumSteps exec paidBy ls

def refunded (w : World Store) (ls : List (Label Op)) : ℕ → ℤ := w.sumSteps exec refundedBy ls

/-- A schedule is revoked only while no more is released than is vested, and new milestones never
raise what a revoked schedule has vested. -/
def KeepsRefund (w : World Store) : Op → Prop
  | .revoke id => ∀ stored, w.store.schedule id = some stored →
    stored.schedule.releasedAmount ≤ w.store.vested stored w.ledger.sequence
  | .setMilestones id ms => ∀ stored revokedAt, w.store.schedule id = some stored →
    stored.revokedAtLedger = some revokedAt →
      vested ms stored revokedAt ≤ vested (w.store.milestones id) stored revokedAt
  | _ => True

/-- A contract just initialized, over a token in any state. -/
def Deployed (w : World Store) : Prop :=
  ∃ env adminAddress token ledger refuses, env.self = w.self ∧
    Runs (initializeVesting adminAddress token) env (Store.empty ledger refuses) () w.store

/-- One schedule, of which `r` has been refunded: what is released and what can still be stays
within the rest. -/
structure Kept (now : ℕ) (ms : List Milestone) (id : ℕ) (r : ℤ) (stored : StoredVestingSchedule) :
    Prop where
  id_eq : stored.scheduleId = id
  total_nonneg : 0 ≤ stored.schedule.totalAmount
  unrevoked : stored.revokedAtLedger = none → r = 0
  released_le : stored.schedule.releasedAmount + r ≤ stored.schedule.totalAmount
  frozen : ∀ revokedAt, stored.revokedAtLedger = some revokedAt →
    revokedAt ≤ now ∧ vested ms stored revokedAt + r ≤ stored.schedule.totalAmount

/-- All schedules are kept, and the vault holds what is still due on them. -/
structure Funded (w : World Store) (r : ℕ → ℤ) : Prop where
  kept : ∀ id stored, w.store.schedule id = some stored →
    Kept w.ledger.sequence (w.store.milestones id) id (r id) stored
  absent : ∀ id, w.store.schedule id = none → r id = 0
  fresh : ∀ id, w.store.nextScheduleId ≤ id → w.store.schedule id = none
  backed : ∃ q, HasTotal (w.store.due r) q ∧ q ≤ w.store.token.balance w.self

variable {w : World Store} {l : Label Op} {ls : List (Label Op)} {r : ℕ → ℤ} {s' : Store}
  {now id : ℕ} {ms : List Milestone} {x : ℤ} {stored : StoredVestingSchedule}

/-- The vested amount as of now respects the refund. -/
theorem Kept.vested_le (h : Kept now ms id x stored) :
    vested ms stored (effectiveLedger stored now) + x ≤ stored.schedule.totalAmount := by
  unfold effectiveLedger
  cases hr : stored.revokedAtLedger with
  | none =>
    have hv : vested ms stored now ≤ stored.schedule.totalAmount := Vesting.vested_le h.total_nonneg
    have hx := h.unrevoked hr
    dsimp only
    omega
  | some revokedAt =>
    obtain ⟨hle, hf⟩ := h.frozen revokedAt hr
    dsimp only
    split
    · exact hf
    · obtain rfl : revokedAt = now := by omega
      exact hf

theorem Kept.topped (h : Kept now ms id x stored) :
    Kept now ms id x (withReleased stored (vested ms stored (effectiveLedger stored now))) where
  id_eq := h.id_eq
  total_nonneg := h.total_nonneg
  unrevoked := h.unrevoked
  released_le := h.vested_le
  frozen := h.frozen

theorem Kept.later {now' : ℕ} (h : Kept now ms id x stored) (hn : now ≤ now') :
    Kept now' ms id x stored where
  id_eq := h.id_eq
  total_nonneg := h.total_nonneg
  unrevoked := h.unrevoked
  released_le := h.released_le
  frozen revokedAt hr := ⟨(h.frozen revokedAt hr).1.trans hn, (h.frozen revokedAt hr).2⟩

/-- What a release pays to its beneficiary is what it books, all schedules together. -/
theorem release_pays_booked {signers : List Address} {uploaded : List BytesN32} {b : Address}
    {v : ℤ} (h : Runs (release b) (w.env signers uploaded) w.store v s') :
    HasTotal (paidBy w (.call signers uploaded (.release b))) v ∧
      s'.token.balance b = w.store.token.balance b + v := by
  obtain ⟨ha, s₁, t, guard, hreleased, hs', -, hpaid⟩ := runs_release h
  have hexec : Runs (exec (.release b)) (w.env signers uploaded) w.store () s' :=
    runs_discarded.mpr ⟨v, h⟩
  have hnext : (w.next exec (.call signers uploaded (.release b))).store = s' :=
    invoke_of_runs hexec
  rw [paidBy, hnext, hs']
  exact ⟨hreleased.booked, hpaid ((World.env_authorized w signers uploaded b).mp ha).1⟩

theorem funded_releases {env : Env} {b : Address} {v : ℤ} (h : Funded w r)
    (hl : env.ledger = w.ledger) (hself : env.self = w.self)
    (hr : ReleasesTo env b v w.store s') : Funded { w with store := s' } r := by
  obtain ⟨s₁, t, guard, hreleased, rfl, hvault, -⟩ := hr
  rw [hl] at hreleased
  have hms : s₁.milestones = w.store.milestones := by
    rw [hreleased.only]
  have hnext : s₁.nextScheduleId = w.store.nextScheduleId := by
    rw [hreleased.only]
  refine ⟨?_, ?_, ?_, ?_⟩
  · intro id stored hs
    change Kept w.ledger.sequence (s₁.milestones id) id (r id) stored
    rw [hms]
    change s₁.schedule id = some stored at hs
    rcases hreleased.topped id with he | ⟨st, hst, -, he⟩
    · exact h.kept id stored (he ▸ hs)
    · rw [he] at hs
      obtain rfl := Option.some.inj hs
      have hk := h.kept id st hst
      have htop := hk.topped
      rw [Store.vested, hk.id_eq]
      exact htop
  · intro id hs
    change s₁.schedule id = none at hs
    rcases hreleased.topped id with he | ⟨st, -, -, he⟩
    · exact h.absent id (he ▸ hs)
    · rw [he] at hs
      cases hs
  · intro id hid
    change s₁.nextScheduleId ≤ id at hid
    rw [hnext] at hid
    change s₁.schedule id = none
    rcases hreleased.topped id with he | ⟨st, hst, -, -⟩
    · rw [he]
      exact h.fresh id hid
    · rw [h.fresh id hid] at hst
      cases hst
  · obtain ⟨q, hq, hle⟩ := h.backed
    refine ⟨q - v, hreleased.due r q hq, ?_⟩
    rw [hself] at hvault
    change q - v ≤ t.balance w.self
    omega

/-- Schedule `id` alone is written and kept afterwards, and what is due on it is in the vault. -/
theorem funded_at (h : Funded w r)
    (hs : s'.schedule = Function.update w.store.schedule id (some stored))
    (hm : s'.milestones = w.store.milestones) (hn : w.store.nextScheduleId ≤ s'.nextScheduleId)
    (hid : id < s'.nextScheduleId)
    (hk : Kept w.ledger.sequence (w.store.milestones id) id (r id + x) stored)
    (hb : w.store.token.balance w.self + (stored.schedule.totalAmount -
      stored.schedule.releasedAmount - (r id + x) - w.store.due r id) ≤
        s'.token.balance w.self) :
    Funded { w with store := s' } (r + Function.update (0 : ℕ → ℤ) id x) := by
  have hthis : (r + Function.update (0 : ℕ → ℤ) id x) id = r id + x := by simp
  have hother : ∀ i, i ≠ id → (r + Function.update (0 : ℕ → ℤ) id x) i = r i := by
    intro i hi
    simp [Function.update_of_ne hi]
  refine ⟨?_, ?_, ?_, ?_⟩
  · intro i st hst
    change s'.schedule i = some st at hst
    change Kept w.ledger.sequence (s'.milestones i) i _ st
    rw [hs] at hst
    rw [hm]
    by_cases hi : i = id
    · subst hi
      rw [Function.update_self] at hst
      obtain rfl := Option.some.inj hst
      rwa [hthis]
    · rw [Function.update_of_ne hi] at hst
      rw [hother i hi]
      exact h.kept i st hst
  · intro i hi
    change s'.schedule i = none at hi
    rw [hs] at hi
    by_cases he : i = id
    · subst he
      rw [Function.update_self] at hi
      cases hi
    · rw [Function.update_of_ne he] at hi
      rw [hother i he]
      exact h.absent i hi
  · intro i hi
    change s'.nextScheduleId ≤ i at hi
    change s'.schedule i = none
    rw [hs, Function.update_of_ne (by omega)]
    exact h.fresh i (by omega)
  · obtain ⟨q, hq, hle⟩ := h.backed
    have hdue : s'.due (r + Function.update (0 : ℕ → ℤ) id x) =
        Function.update (w.store.due r) id
          (stored.schedule.totalAmount - stored.schedule.releasedAmount - (r id + x)) := by
      funext i
      by_cases hi : i = id
      · subst hi
        simp [Store.due, hs]
      · simp [Store.due, hs, Function.update_of_ne hi]
    refine ⟨_, hdue ▸ hq.update id _, ?_⟩
    change _ ≤ s'.token.balance w.self
    omega

theorem funded_create {env : Env} {b : Address} {v : ℤ} {m n : ℕ} {revocable : Bool}
    (h : Funded w r) (hself : env.self = w.self)
    (hr : Runs (createVesting b v m n revocable) env w.store id s') :
    Funded { w with store := s' } r := by
  obtain ⟨rfl, hv, -, -, t, ht, hs'⟩ := runs_createVesting hr
  have hnone := h.fresh w.store.nextScheduleId le_rfl
  have hzero := h.absent _ hnone
  have hdue : w.store.due r w.store.nextScheduleId = 0 := by
    simp [Store.due, hnone, hzero]
  obtain ⟨-, -, hb⟩ := Token.mint_spec ht
  have hbalance : s'.token.balance w.self = w.store.token.balance w.self + v := by
    rw [hs', ← hself]
    simp [hb]
  have hnext : s'.nextScheduleId = w.store.nextScheduleId + 1 := by
    rw [hs']
  have hschedule : s'.schedule = Function.update w.store.schedule w.store.nextScheduleId
      (some (newSchedule w.store.nextScheduleId env.ledger.sequence b v m n revocable)) := by
    rw [hs']
    rfl
  have hmilestones : s'.milestones = w.store.milestones := by
    rw [hs']
    rfl
  suffices hat : Funded { w with store := s' }
      (r + Function.update (0 : ℕ → ℤ) w.store.nextScheduleId 0) by
    simpa using hat
  refine funded_at h hschedule hmilestones (by omega) (by omega) ?_ ?_
  · refine ⟨rfl, hv.le, fun _ => by omega, ?_, ?_⟩
    · change 0 + (r w.store.nextScheduleId + 0) ≤ v
      omega
    · rintro revokedAt ⟨⟩
  · change w.store.token.balance w.self + (v - 0 - _ - _) ≤ s'.token.balance w.self
    omega

theorem funded_revoke {env : Env} {v : ℤ} (h : Funded w r) (hl : env.ledger = w.ledger)
    (hself : env.self = w.self) (hr : Runs (revoke id) env w.store v s')
    (hk : KeepsRefund w (.revoke id)) :
    Funded { w with store := s' } (r + Function.update (0 : ℕ → ℤ) id v) := by
  obtain ⟨stored, hs, hnot, hv, t, hvault, rfl⟩ := runs_revoke hr
  rw [hl] at hv ⊢
  rw [hself] at hvault
  have hkept := h.kept id stored hs
  have hzero := hkept.unrevoked hnot
  have hreleased := hk stored hs
  have hvested : w.store.vested stored w.ledger.sequence =
      vested (w.store.milestones id) stored w.ledger.sequence := by
    simp [Store.vested, hkept.id_eq, effectiveLedger, hnot]
  have hdue : w.store.due r id =
      stored.schedule.totalAmount - stored.schedule.releasedAmount := by
    simp [Store.due, hs, hzero]
  have hid : id < w.store.nextScheduleId := by
    by_contra hge
    rw [h.fresh id (by omega)] at hs
    cases hs
  refine funded_at h rfl rfl le_rfl hid ?_ ?_
  · refine ⟨hkept.id_eq, hkept.total_nonneg, ?_, ?_, ?_⟩
    · rintro ⟨⟩
    · change stored.schedule.releasedAmount + (r id + v) ≤ stored.schedule.totalAmount
      omega
    · rintro revokedAt ⟨⟩
      refine ⟨le_rfl, ?_⟩
      change vested (w.store.milestones id) stored w.ledger.sequence + (r id + v) ≤
        stored.schedule.totalAmount
      omega
  · change w.store.token.balance w.self + (stored.schedule.totalAmount -
      stored.schedule.releasedAmount - _ - _) ≤ t.balance w.self
    omega

theorem funded_setMilestones {env : Env} {u : Unit} (h : Funded w r)
    (hr : Runs (setMilestones id ms) env w.store u s') (hk : KeepsRefund w (.setMilestones id ms)) :
    Funded { w with store := s' } r := by
  obtain ⟨st, hst, -, -, rfl⟩ := runs_setMilestones hr
  refine ⟨?_, h.absent, h.fresh, h.backed⟩
  intro i stored hs
  change Kept w.ledger.sequence (Function.update w.store.milestones id ms i) i (r i) stored
  have hkept := h.kept i stored hs
  by_cases hi : i = id
  · subst hi
    rw [Function.update_self]
    refine ⟨hkept.id_eq, hkept.total_nonneg, hkept.unrevoked, hkept.released_le, ?_⟩
    intro revokedAt hrev
    obtain ⟨hle, hf⟩ := hkept.frozen revokedAt hrev
    have hms := hk stored revokedAt hs hrev
    exact ⟨hle, by omega⟩
  · rwa [Function.update_of_ne hi]

/-- Nothing is lost by what leaves the schedules alone and takes nothing out of the vault. -/
theorem funded_frame (h : Funded w r) (hs : s'.schedule = w.store.schedule)
    (hm : s'.milestones = w.store.milestones) (hn : s'.nextScheduleId = w.store.nextScheduleId)
    (hb : w.store.token.balance w.self ≤ s'.token.balance w.self) :
    Funded { w with store := s' } r where
  kept := by
    change ∀ id stored, s'.schedule id = some stored →
      Kept w.ledger.sequence (s'.milestones id) id (r id) stored
    rw [hs, hm]
    exact h.kept
  absent := by
    change ∀ id, s'.schedule id = none → r id = 0
    rw [hs]
    exact h.absent
  fresh := by
    change ∀ id, s'.nextScheduleId ≤ id → s'.schedule id = none
    rw [hs, hn]
    exact h.fresh
  backed := by
    obtain ⟨q, hq, hle⟩ := h.backed
    refine ⟨q, ?_, hle.trans hb⟩
    have hdue : s'.due r = w.store.due r := by
      funext id
      rw [Store.due, Store.due, hs]
    change HasTotal (s'.due r) q
    rwa [hdue]

theorem funded_authorizeClaimer {env : Env} {u : Unit} {b c : Address} {authorize : Bool}
    (h : Funded w r) (hr : Runs (authorizeClaimer b c authorize) env w.store u s') :
    Funded { w with store := s' } r := by
  obtain ⟨s₁, hbody, rfl⟩ := runs_reentrancyGuard hr
  simp only [runs_ensureInitialized_bind, runs_requireAuth_bind, runs_modify] at hbody
  obtain ⟨-, -, rfl⟩ := hbody
  exact funded_frame h rfl rfl rfl le_rfl

theorem funded_later {ledger : Ledger} (h : Funded w r)
    (hl : w.ledger.sequence ≤ ledger.sequence) : Funded { w with ledger := ledger } r where
  kept id stored hs := (h.kept id stored hs).later hl
  absent := h.absent
  fresh := h.fresh
  backed := h.backed

theorem schedule_deployed (h : Deployed w) : w.store.schedule = fun _ => none := by
  obtain ⟨env, adminAddress, token, ledger, refuses, -, hr⟩ := h
  simp only [initializeVesting, runs_self_bind, runs_requireAuth_bind, runs_gets_bind,
    runs_failIf_bind, runs_modify_bind, Vesting.admin, runs_within] at hr
  obtain ⟨-, -, a, -, hstore⟩ := hr
  rw [hstore]
  rfl

theorem funded_deployed (h : Deployed w) : Funded w 0 := by
  have hnone := schedule_deployed h
  refine ⟨?_, fun _ _ => rfl, fun id _ => by rw [hnone], 0, ?_, w.store.token.balance_nonneg _⟩
  · intro id stored hs
    rw [hnone] at hs
    cases hs
  · have hdue : w.store.due 0 = fun _ => 0 := by
      funext id
      simp [Store.due, hnone]
    rw [hdue]
    exact hasTotal_zero

theorem funded_call {signers : List Address} {uploaded : List BytesN32} {op : Op} (h : Funded w r)
    (hr : Runs (exec op) (w.env signers uploaded) w.store () s') (hk : KeepsRefund w op) :
    Funded { w with store := s' } (r + refundedBy w (.call signers uploaded op)) := by
  cases op with
  | createVesting b v m n revocable =>
    obtain ⟨id, hcreate⟩ := runs_discarded.mp hr
    simpa [refundedBy] using funded_create h rfl hcreate
  | release b =>
    obtain ⟨v, hrelease⟩ := runs_discarded.mp hr
    simpa [refundedBy] using funded_releases h rfl rfl (runs_release hrelease).2
  | revoke id =>
    obtain ⟨v, hrevoke⟩ := runs_discarded.mp hr
    have hrefund : refundedBy w (.call signers uploaded (.revoke id)) =
        Function.update (0 : ℕ → ℤ) id v := by
      obtain ⟨log, hok⟩ := hrevoke
      simp [refundedBy, hok]
    rw [hrefund]
    exact funded_revoke h rfl rfl hrevoke hk
  | setMilestones id ms => simpa [refundedBy] using funded_setMilestones h hr hk
  | authorizeClaimer b c authorize => simpa [refundedBy] using funded_authorizeClaimer h hr
  | claimOnBehalfOf c b =>
    obtain ⟨v, hclaim⟩ := runs_discarded.mp hr
    simpa [refundedBy] using funded_releases h rfl rfl (runs_claimOnBehalfOf hclaim).2.2
  | tokenMint dst amount =>
    obtain ⟨t, ht, rfl⟩ := TokenClient.runs_commit.mp hr
    have hvault := Token.mint_le ht w.self
    have hframe : Funded { w with store := tokenLens.set t w.store } r :=
      funded_frame h rfl rfl rfl hvault
    simpa [refundedBy] using hframe
  | tokenTransfer src dst amount =>
    obtain ⟨hauth, hrest⟩ := runs_requireAuth_bind.mp hr
    obtain ⟨-, t, ht, rfl⟩ := runs_tokenTransfer.mp hrest
    have hsrc := ((World.env_authorized w signers uploaded src).mp hauth).1
    have hvault := (Token.transfer_le ht hsrc.symm).1
    have hframe : Funded { w with store := { w.store with token := t } } r :=
      funded_frame h rfl rfl rfl hvault
    simpa [refundedBy] using hframe
  | tokenSetRefusals refuses =>
    obtain rfl := runs_modify.mp hr
    have hframe : Funded { w with store := { w.store with refuses := refuses } } r :=
      funded_frame h rfl rfl rfl le_rfl
    simpa [refundedBy] using hframe

theorem funded_next (h : Funded w r) (hk : World.OnSuccess exec KeepsRefund w l) :
    Funded (w.next exec l) (r + refundedBy w l) := by
  cases l with
  | close ledger =>
    simp only [refundedBy, add_zero, World.next]
    split
    · rename_i hle
      exact funded_later h hle.1
    · exact h
  | call signers uploaded op =>
    rcases World.call_cases exec w signers uploaded op with hr | ⟨hfail, hs⟩
    · exact funded_call h hr (hk _ hr)
    · have hrefund : refundedBy w (.call signers uploaded op) = 0 := by
        cases op with
        | revoke id =>
          cases hd : revoke id (w.env signers uploaded) w.store with
          | ok d =>
            have hr : Runs (exec (.revoke id)) (w.env signers uploaded) w.store () d.store :=
              runs_discarded.mpr ⟨d.value, _, hd⟩
            exact absurd (isOk_of_runs hr) hfail
          | error e => simp [refundedBy, hd]
        | _ => rfl
      rw [hrefund, add_zero, hs]
      exact h

theorem funded_run (hw : Deployed w)
    (hc : World.EveryStep exec (World.OnSuccess exec KeepsRefund) w ls) :
    Funded (w.run exec ls) (refunded w ls) := by
  have h := World.run_induction_sum (funded_deployed hw)
    (fun w l r => funded_next (w := w) (l := l) (r := r)) hc
  rwa [zero_add] at h

theorem paid_eq_releasedOf (hw : Deployed w) (id : ℕ) :
    paid w ls id = releasedOf (w.run exec ls).store id := by
  have hsum : paid w ls = releasedOf (w.run exec ls).store - releasedOf w.store :=
    World.sumSteps_sub fun w => releasedOf w.store
  have hnone : releasedOf w.store id = 0 := by
    rw [releasedOf, schedule_deployed hw]
    rfl
  rw [hsum, Pi.sub_apply, hnone, sub_zero]

/-- What has gone out for a schedule, to its beneficiary and back to the administrator, is at most
what the schedule was funded with. -/
def WithinTotal (w : World Store) (ls : List (Label Op)) : Prop :=
  ∀ id stored, (w.run exec ls).store.schedule id = some stored →
    paid w ls id + refunded w ls id ≤ stored.schedule.totalAmount

/-- The vault holds what has not gone out yet for any of the schedules. -/
def Backed (w : World Store) (ls : List (Label Op)) : Prop :=
  ∃ q, HasTotal ((w.run exec ls).store.due (refunded w ls)) q ∧
    q ≤ (w.run exec ls).store.token.balance w.self

/-- At every point of a run that keeps its refunds each schedule stays within its own funds, and
the vault can pay what is left of all of them. -/
theorem payouts_within_total (hw : Deployed w)
    (hc : World.EveryStep exec (World.OnSuccess exec KeepsRefund) w ls) :
    ∀ done, done <+: ls → WithinTotal w done ∧ Backed w done := by
  rintro done ⟨rest, rfl⟩
  have h := funded_run hw (World.everyStep_append.mp hc).1
  constructor
  · intro id stored hs
    have hk := h.kept id stored hs
    rw [paid_eq_releasedOf hw, releasedOf, hs]
    exact hk.released_le
  · obtain ⟨q, hq, hle⟩ := h.backed
    rw [World.run_self] at hle
    exact ⟨q, hq, hle⟩

/-- A vesting contract at address 300 with account 1 as its administrator. -/
def genesis : World Store where
  ledger := .ofNat 100 1700000000
  self := ⟨300⟩
  store := invoke (initializeVesting ⟨1⟩ ⟨50⟩)
    ⟨.ofNat 100 1700000000, ⟨300⟩, [], true, []⟩ (Store.empty (Token.empty 7) fun _ _ _ => false)

theorem genesis_deployed : Deployed genesis := by
  refine ⟨⟨.ofNat 100 1700000000, ⟨300⟩, [], true, []⟩, ⟨1⟩, ⟨50⟩,
    Token.empty 7, fun _ _ _ => false, rfl, ?_⟩
  exact runs_invoke (by decide)

/-- Two equal schedules, the first one revoked after a tenth of its time. -/
def earlyRevoke : List (Label Op) :=
  [.call [⟨1⟩] [] (.createVesting ⟨2⟩ 1000 0 100 true),
   .call [⟨1⟩] [] (.createVesting ⟨3⟩ 1000 0 100 true),
   .close (.ofNat 110 1700000050),
   .call [⟨1⟩] [] (.revoke 0)]

/-- The first beneficiary then takes what had vested. -/
def revokeThenRelease : List (Label Op) := earlyRevoke ++ [.call [⟨2⟩] [] (.release ⟨2⟩)]

/-- A tranche set on the revoked schedule vests it in full, and the release is paid out of what
the second schedule was funded with. -/
def revokeThenMilestone : List (Label Op) :=
  earlyRevoke ++ [.call [⟨1⟩] [] (.setMilestones 0 [⟨110, 1000⟩]),
    .call [⟨2⟩] [] (.release ⟨2⟩)]

theorem earlyRevoke_keepsRefund :
    KeepsRefund (genesis.run exec (earlyRevoke.take 3)) (.revoke 0) := by
  intro stored hs
  have hall : ((genesis.run exec (earlyRevoke.take 3)).store.schedule 0).all (fun stored =>
      stored.schedule.releasedAmount ≤ (genesis.run exec (earlyRevoke.take 3)).store.vested stored
        (genesis.run exec (earlyRevoke.take 3)).ledger.sequence) = true := by
    decide +kernel
  rw [hs] at hall
  exact of_decide_eq_true hall

theorem revokeThenRelease_within_total : WithinTotal genesis revokeThenRelease ∧
    paid genesis revokeThenRelease 0 = 100 ∧ refunded genesis revokeThenRelease 0 = 900 := by
  have hkeeps : World.EveryStep exec (World.OnSuccess exec KeepsRefund) genesis
      revokeThenRelease :=
    ⟨fun _ _ => trivial, fun _ _ => trivial, trivial, fun _ _ => earlyRevoke_keepsRefund,
      fun _ _ => trivial, trivial⟩
  exact ⟨(payouts_within_total genesis_deployed hkeeps _ (List.prefix_refl _)).1,
    by decide +kernel, by decide +kernel⟩

theorem revokeThenMilestone_exceeds_total :
    Deployed genesis ∧ ¬ WithinTotal genesis revokeThenMilestone ∧
      paid genesis revokeThenMilestone 0 = 1000 ∧ refunded genesis revokeThenMilestone 0 = 900 := by
  have hpaid : paid genesis revokeThenMilestone 0 = 1000 := by decide +kernel
  have hrefunded : refunded genesis revokeThenMilestone 0 = 900 := by decide +kernel
  refine ⟨genesis_deployed, ?_, hpaid, hrefunded⟩
  intro h
  have htotal : ((genesis.run exec revokeThenMilestone).store.schedule 0).map
      (·.schedule.totalAmount) = some 1000 := by
    decide +kernel
  obtain ⟨stored, hs, hamount⟩ := Option.map_eq_some_iff.mp htotal
  have hle := h 0 stored hs
  omega

end BcForge.Vesting
