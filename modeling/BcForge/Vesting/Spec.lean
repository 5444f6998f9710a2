import BcForge.Vesting.Contract

/-! What each entry point of the vesting contract does, with the vested amount as a function. -/
namespace BcForge.Vesting

open Soroban Call Admin

variable {env : Env} {s s' : Store} {α : Type} {a : α} {u : Unit} {id current effective : ℕ}
  {stored : StoredVestingSchedule} {v total : ℤ} {ms : List Milestone}

@[simp] theorem runs_ensureInitialized_bind {k : Unit → VestingCall α} :
    Runs (ensureInitialized >>= k) env s a s' ↔
      (hasAdmin s.access = true ∧ s.tokenId.isSome = true) ∧ Runs (k ()) env s a s' := by
  simp [ensureInitialized, ← Option.isSome_iff_ne_none]

@[simp] theorem runs_requireStoredAdmin_bind {k : Address → VestingCall α} :
    Runs (requireStoredAdmin >>= k) env s a s' ↔
      ∃ c, s.access.admin = some c ∧ hasRole s.access .admin c = true ∧ env.Authorized c ∧
        Runs (k c) env s a s' := by
  simp [requireStoredAdmin, runs_bind, admin, requireAdmin, accessLens, and_assoc,
    Unique.exists_iff]

@[simp] theorem runs_readSchedule_bind {k : StoredVestingSchedule → VestingCall α} :
    Runs (readSchedule id >>= k) env s a s' ↔
      ∃ stored, s.schedule id = some stored ∧ Runs (k stored) env s a s' := by
  simp [readSchedule]

/-- The sum of the tranches unlocked by `effective`. -/
def passed (effective : ℕ) : List Milestone → ℤ
  | [] => 0
  | m :: rest => (if m.unlockLedger ≤ effective then m.amount else 0) + passed effective rest

def linear (stored : StoredVestingSchedule) (effective : ℕ) : ℤ :=
  if effective < stored.schedule.cliffLedger then 0
  else if stored.schedule.endLedger ≤ effective then stored.schedule.totalAmount
  else (stored.schedule.totalAmount * (effective - stored.startLedger : ℕ)).tdiv
    (stored.schedule.endLedger - stored.startLedger : ℕ)

def vested (ms : List Milestone) (stored : StoredVestingSchedule) (effective : ℕ) : ℤ :=
  if effective < stored.schedule.cliffLedger then 0
  else min stored.schedule.totalAmount (max (linear stored effective) (passed effective ms))

/-- The vested amount of a schedule of the store, as of ledger `current`. -/
def Store.vested (s : Store) (stored : StoredVestingSchedule) (current : ℕ) : ℤ :=
  Vesting.vested (s.milestones stored.scheduleId) stored (effectiveLedger stored current)

theorem vested_le (h : 0 ≤ stored.schedule.totalAmount) :
    vested ms stored effective ≤ stored.schedule.totalAmount := by
  unfold vested
  split
  · exact h
  · exact min_le_left _ _

theorem runs_milestoneTotal (h : Runs (milestoneTotal effective ms total) env s v s') :
    v = total + passed effective ms ∧ s' = s := by
  induction ms generalizing total with
  | nil =>
    simp only [milestoneTotal, runs_pure] at h
    simpa [passed] using h
  | cons m rest ih =>
    simp only [milestoneTotal, runs_ite, runs_i128_bind] at h
    rcases h with ⟨hm, -, h⟩ | ⟨hm, h⟩
    · obtain ⟨hv, hs⟩ := ih h
      refine ⟨?_, hs⟩
      rw [hv, passed, if_pos hm]
      ring
    · obtain ⟨hv, hs⟩ := ih h
      refine ⟨?_, hs⟩
      rw [hv, passed, if_neg hm]
      ring

theorem runs_linearVestedAmount (h : Runs (linearVestedAmount stored effective) env s v s') :
    v = linear stored effective ∧ s' = s := by
  unfold linear
  simp only [linearVestedAmount, runs_ite, runs_unsignedSub_bind, runs_i128_bind, runs_pure] at h
  rcases h with ⟨hc, hv, hs⟩ | ⟨hc, ⟨he, hv, hs⟩ | ⟨he, -, -, -, hv, hs⟩⟩
  · exact ⟨by rw [if_pos hc, hv], hs⟩
  · exact ⟨by rw [if_neg hc, if_pos he, hv], hs⟩
  · exact ⟨by rw [if_neg hc, if_neg he, hv], hs⟩

theorem runs_vestedAmount (h : Runs (vestedAmount stored current) env s v s') :
    v = s.vested stored current ∧ s' = s := by
  unfold Store.vested vested
  simp only [vestedAmount, runs_ite, runs_pure] at h
  rcases h with ⟨hc, hv, hs⟩ | ⟨hc, h⟩
  · exact ⟨by rw [if_pos hc, hv], hs⟩
  · obtain ⟨l, s₁, hl, hrest⟩ := runs_bind.mp h
    obtain ⟨rfl, rfl⟩ := runs_linearVestedAmount hl
    rw [runs_gets_bind] at hrest
    obtain ⟨m, s₂, hm, hpure⟩ := runs_bind.mp hrest
    obtain ⟨rfl, rfl⟩ := runs_milestoneTotal hm
    obtain ⟨hv, hs⟩ := runs_pure.mp hpure
    refine ⟨?_, hs⟩
    rw [if_neg hc, hv, zero_add, min_def]
    split <;> split <;> omega

theorem runs_claimableAmount_bind {k : ℤ → VestingCall α}
    (h : Runs (claimableAmount stored current >>= k) env s a s') :
    Runs (k (s.vested stored current - stored.schedule.releasedAmount)) env s a s' := by
  simp only [claimableAmount, runs_bind_assoc] at h
  obtain ⟨v, s₁, hv, hrest⟩ := runs_bind.mp h
  obtain ⟨rfl, rfl⟩ := runs_vestedAmount hv
  rw [runs_i128_bind] at hrest
  exact hrest.2

theorem runs_tokenTransfer {src dst : Address} :
    Runs (tokenTransfer src dst v) env s u s' ↔ s.refuses src dst v = false ∧
      ∃ t, s.token.transfer src dst v = some t ∧ s' = { s with token := t } := by
  simp only [tokenTransfer, TokenClient.transfer, runs_gets_bind, runs_trapIf_bind,
    TokenClient.runs_commit, Bool.not_eq_true]
  rfl

/-- The vault keeps at least its balance less the amount, more if it pays itself. -/
theorem runs_transferFromVault {recipient : Address}
    (h : Runs (transferFromVault recipient v) env s u s') :
    ∃ t, s' = { s with token := t } ∧ s.token.balance env.self - v ≤ t.balance env.self ∧
      (recipient ≠ env.self → t.balance recipient = s.token.balance recipient + v) := by
  simp only [transferFromVault, readToken, runs_tokenTransfer, runs_ite, runs_pure,
    runs_bind_assoc, runs_gets_bind, runs_expect_bind, runs_self_bind] at h
  rcases h with ⟨hz, -, hs⟩ | ⟨hv, _, -, -, t, ht, rfl⟩
  · exact ⟨s.token, hs, by omega, fun _ => by omega⟩
  · refine ⟨t, rfl, ?_, ?_⟩
    · by_cases hne : recipient = env.self
      · subst hne
        obtain ⟨hpos, rfl⟩ := Token.transfer_self ht
        omega
      · obtain ⟨-, -, hb⟩ := Token.transfer_spec ht (Ne.symm hne)
        rw [hb, Function.update_of_ne (Ne.symm hne), Function.update_self]
    · intro hne
      obtain ⟨-, -, hb⟩ := Token.transfer_spec ht hne.symm
      rw [hb, Function.update_self]

/-- The amount not yet given out for a schedule, when `refunded` went back to the administrator. -/
def Store.due (s : Store) (refunded : ℕ → ℤ) (id : ℕ) : ℤ :=
  (s.schedule id).elim 0 (fun st => st.schedule.totalAmount - st.schedule.releasedAmount) -
    refunded id

theorem due_writeSchedule (refunded : ℕ → ℤ) (id : ℕ) (stored : StoredVestingSchedule)
    (s : Store) : (writeSchedule id stored s).due refunded = Function.update (s.due refunded) id
      (stored.schedule.totalAmount - stored.schedule.releasedAmount - refunded id) := by
  funext i
  by_cases hi : i = id
  · subst hi
    simp [Store.due, writeSchedule]
  · simp [Store.due, writeSchedule, Function.update_of_ne hi]

def releasedOf (s : Store) (id : ℕ) : ℤ := (s.schedule id).elim 0 (·.schedule.releasedAmount)

def withReleased (stored : StoredVestingSchedule) (x : ℤ) : StoredVestingSchedule :=
  { stored with schedule := { stored.schedule with releasedAmount := x } }

/-- The schedule is as before, or released up to what is vested. -/
def Topped (current : ℕ) (s s' : Store) (id : ℕ) : Prop :=
  s'.schedule id = s.schedule id ∨ ∃ stored, s.schedule id = some stored ∧
    stored.schedule.releasedAmount ≤ s.vested stored current ∧
    s'.schedule id = some (withReleased stored (s.vested stored current))

/-- A release changes schedules only, tops some of them up, and returns what it has booked. -/
structure Released (current : ℕ) (v : ℤ) (s s' : Store) : Prop where
  nonneg : 0 ≤ v
  only : s' = { s with schedule := s'.schedule }
  topped : ∀ id, Topped current s s' id
  booked : HasTotal (releasedOf s' - releasedOf s) v
  due : ∀ refunded q, HasTotal (s.due refunded) q → HasTotal (s'.due refunded) (q - v)

theorem released_refl (current : ℕ) (s : Store) : Released current 0 s s where
  nonneg := le_rfl
  only := rfl
  topped _ := Or.inl rfl
  booked := by
    rw [sub_self]
    exact hasTotal_zero
  due _ _ h := by simpa using h

theorem topped_trans {s₁ : Store} (hs : s₁ = { s with schedule := s₁.schedule })
    (h : Topped current s s₁ id) (h' : Topped current s₁ s' id) : Topped current s s' id := by
  have hv : ∀ st x, s₁.vested (withReleased st x) current = s.vested st current := by
    intro st x
    rw [hs]
    rfl
  have hv' : ∀ st, s₁.vested st current = s.vested st current := by
    intro st
    rw [hs]
    rfl
  rcases h with h | ⟨st, hst, hle, h⟩
  · rcases h' with h' | ⟨st', hst', hle', h'⟩
    · exact Or.inl (h'.trans h)
    · rw [hv'] at hle' h'
      exact Or.inr ⟨st', h ▸ hst', hle', h'⟩
  · rcases h' with h' | ⟨st', hst', hle', h'⟩
    · exact Or.inr ⟨st, hst, hle, h'.trans h⟩
    · rw [h] at hst'
      obtain rfl := Option.some.inj hst'
      rw [hv] at h'
      exact Or.inr ⟨st, hst, hle, h'⟩

theorem released_trans {s₁ : Store} {v₁ : ℤ} (h : Released current v₁ s s₁)
    (h' : Released current v s₁ s') : Released current (v₁ + v) s s' where
  nonneg := add_nonneg h.nonneg h'.nonneg
  only := by
    rw [h'.only, h.only]
  topped id := topped_trans h.only (h.topped id) (h'.topped id)
  booked := by
    have hsum := h'.booked.add h.booked
    rwa [sub_add_sub_cancel, add_comm] at hsum
  due refunded q hq := by
    have := h'.due refunded _ (h.due refunded q hq)
    rwa [sub_sub] at this

theorem released_one (hs : s.schedule id = some stored)
    (hpos : 0 < s.vested stored current - stored.schedule.releasedAmount) :
    Released current (s.vested stored current - stored.schedule.releasedAmount) s
      (writeReleased id stored (s.vested stored current) s) where
  nonneg := hpos.le
  only := rfl
  topped i := by
    by_cases hi : i = id
    · subst hi
      refine Or.inr ⟨stored, hs, by omega, ?_⟩
      simp [writeReleased, writeSchedule, withReleased]
    · exact Or.inl (by simp [writeReleased, writeSchedule, Function.update_of_ne hi])
  booked := by
    have hupd : releasedOf (writeReleased id stored (s.vested stored current) s) - releasedOf s =
        Function.update (fun _ => 0) id
          (s.vested stored current - stored.schedule.releasedAmount) := by
      funext i
      by_cases hi : i = id
      · subst hi
        simp [releasedOf, writeReleased, writeSchedule, hs]
      · simp [releasedOf, writeReleased, writeSchedule, Function.update_of_ne hi]
    rw [hupd]
    simpa using hasTotal_zero.update id (s.vested stored current - stored.schedule.releasedAmount)
  due refunded q hq := by
    rw [writeReleased, due_writeSchedule]
    have hdue : s.due refunded id = stored.schedule.totalAmount -
        stored.schedule.releasedAmount - refunded id := by
      simp [Store.due, hs]
    convert hq.update id _ using 1
    rw [hdue]
    ring

theorem runs_releaseSchedules {delegated : Bool} {ids : List ℕ}
    (h : Runs (releaseSchedules delegated current ids total) env s v s') :
    Released current (v - total) s s' := by
  induction ids generalizing total s with
  | nil =>
    obtain ⟨rfl, rfl⟩ := runs_pure.mp h
    simpa using released_refl current s'
  | cons id rest ih =>
    simp only [releaseSchedules, runs_readSchedule_bind, runs_failIf_bind] at h
    obtain ⟨stored, hs, -, h⟩ := h
    have hrun := runs_claimableAmount_bind h
    simp only [runs_ite, runs_i128_bind, runs_modify_bind] at hrun
    rcases hrun with ⟨hpos, -, -, hrest⟩ | ⟨-, hrest⟩
    · rw [add_sub_cancel] at hrest
      have htail := released_trans (released_one hs hpos) (ih hrest)
      convert htail using 1
      ring
    · exact ih hrest

/-- What a release pays is what it has booked, and it goes to the beneficiary. -/
theorem runs_releaseAll {delegated : Bool} {b : Address}
    (h : Runs (releaseAll delegated b) env s v s') :
    ∃ s₁ t, Released env.ledger.sequence v s s₁ ∧ s' = { s₁ with token := t } ∧
      s.token.balance env.self - v ≤ t.balance env.self ∧
      (b ≠ env.self → t.balance b = s.token.balance b + v) := by
  simp only [releaseAll, runs_ledger_bind, runs_gets_bind] at h
  obtain ⟨v', s₁, hloop, hrest⟩ := runs_bind.mp h
  obtain ⟨_, s₂, htransfer, hpure⟩ := runs_bind.mp hrest
  obtain ⟨rfl, rfl⟩ := runs_pure.mp hpure
  have hreleased := runs_releaseSchedules hloop
  rw [sub_zero] at hreleased
  obtain ⟨t, ht, hvault, hb⟩ := runs_transferFromVault htransfer
  have htoken : s₁.token = s.token := by
    rw [hreleased.only]
  rw [htoken] at hvault hb
  exact ⟨s₁, t, hreleased, ht, hvault, hb⟩

section Operations

variable {b c : Address} {m n : ℕ} {revocable : Bool}

theorem runs_reentrancyGuard {g : Guard} {body : VestingCall α}
    (h : Runs (reentrancyGuard g body) env s a s') :
    ∃ t, Runs body env ((guardLens g).set true s) a t ∧ s' = (guardLens g).set false t :=
  (runs_guarded.mp h).2

/-- The flag a finished call has lowered was down before it. -/
theorem guard_lowered {g : Guard} {body : VestingCall α}
    (h : Runs (reentrancyGuard g body) env s a s') :
    Function.update (Function.update s.guard g true) g false = s.guard := by
  have hfree : s.guard g = false := (runs_guarded.mp h).1
  rw [Function.update_idem, ← hfree, Function.update_eq_self]

/-- The schedule `create_vesting` writes at ledger `now`. -/
def newSchedule (id now : ℕ) (b : Address) (x : ℤ) (m n : ℕ) (revocable : Bool) :
    StoredVestingSchedule where
  schedule := ⟨b, x, now + m, now + n, 0, revocable⟩
  startLedger := now
  revokedAtLedger := none
  scheduleId := id

theorem runs_createVesting (h : Runs (createVesting b v m n revocable) env s id s') :
    id = s.nextScheduleId ∧ 0 < v ∧ 0 < n ∧ m ≤ n ∧ ∃ t, s.token.mint env.self v = some t ∧
      s' = { writeSchedule id (newSchedule id env.ledger.sequence b v m n revocable) s with
        nextScheduleId := id + 1
        token := t
        beneficiarySchedules := Function.update s.beneficiarySchedules b
          (s.beneficiarySchedules b ++ [id]) } := by
  obtain ⟨s₁, hbody, rfl⟩ := runs_reentrancyGuard h
  have hguard := guard_lowered h
  simp only [allocateScheduleId, mintIntoVault, readToken, runs_ensureInitialized_bind,
    runs_requireStoredAdmin_bind, runs_failIf_bind, runs_ledger_bind, runs_bind_assoc,
    runs_gets_bind, runs_u64_bind, runs_modify_bind, runs_pure_bind, runs_u32_bind,
    runs_expect_bind, runs_self_bind, TokenClient.runs_commit_bind, runs_pure, not_le,
    not_lt] at hbody
  obtain ⟨-, _, -, -, -, hv, hn, hm, -, -, -, _, -, t, ht, rfl, rfl⟩ := hbody
  refine ⟨rfl, hv, Nat.pos_of_ne_zero hn, hm, t, ht, ?_⟩
  simp only [guardLens, tokenLens, writeSchedule, newSchedule, hguard]

theorem released_guard {guard : Guard → Bool} {s₁ : Store}
    (h : Released current v { s with guard := guard } s₁) :
    Released current v s { s₁ with guard := s.guard } where
  nonneg := h.nonneg
  only := by
    rw [h.only]
  topped := h.topped
  booked := h.booked
  due := h.due

/-- A successful release: schedules topped up, the sum paid out. -/
def ReleasesTo (env : Env) (b : Address) (v : ℤ) (s s' : Store) : Prop :=
  ∃ s₁ t guard, Released env.ledger.sequence v s s₁ ∧
    s' = { s₁ with token := t, guard := guard } ∧
    s.token.balance env.self - v ≤ t.balance env.self ∧
    (b ≠ env.self → t.balance b = s.token.balance b + v)

theorem releasesTo_of_guarded {g : Guard} {delegated : Bool} {s₁ : Store}
    (h : Runs (releaseAll delegated b) env ((guardLens g).set true s) v s₁) :
    ReleasesTo env b v s ((guardLens g).set false s₁) := by
  obtain ⟨s₂, t, hr, rfl, hvault, hb⟩ := runs_releaseAll h
  exact ⟨{ s₂ with guard := s.guard }, t, _, released_guard hr, rfl, hvault, hb⟩

theorem runs_release (h : Runs (release b) env s v s') :
    env.Authorized b ∧ ReleasesTo env b v s s' := by
  obtain ⟨s₁, hbody, rfl⟩ := runs_reentrancyGuard h
  simp only [runs_ensureInitialized_bind, runs_requireAuth_bind] at hbody
  exact ⟨hbody.2.1, releasesTo_of_guarded hbody.2.2⟩

theorem runs_claimOnBehalfOf (h : Runs (claimOnBehalfOf c b) env s v s') :
    env.Authorized c ∧ (c = b ∨ c ∈ s.claimDelegates b) ∧ ReleasesTo env b v s s' := by
  obtain ⟨s₁, hbody, rfl⟩ := runs_reentrancyGuard h
  simp only [runs_ensureInitialized_bind, runs_requireAuth_bind, runs_gets_bind,
    runs_failIf_bind, not_and, not_not] at hbody
  obtain ⟨-, ha, hc, hrelease⟩ := hbody
  exact ⟨ha, or_iff_not_imp_left.mpr hc, releasesTo_of_guarded hrelease⟩

theorem runs_revoke (h : Runs (revoke id) env s v s') :
    ∃ stored, s.schedule id = some stored ∧ stored.revokedAtLedger = none ∧
      v = stored.schedule.totalAmount - s.vested stored env.ledger.sequence ∧
      ∃ t, s.token.balance env.self - v ≤ t.balance env.self ∧
        s' = { writeSchedule id { stored with revokedAtLedger := some env.ledger.sequence } s with
          token := t } := by
  obtain ⟨s₁, hbody, rfl⟩ := runs_reentrancyGuard h
  have hguard := guard_lowered h
  simp only [runs_ensureInitialized_bind, runs_requireStoredAdmin_bind, runs_ledger_bind,
    runs_readSchedule_bind, runs_failIf_bind, Option.not_isSome_iff_eq_none] at hbody
  obtain ⟨-, c, -, -, -, stored, hs, -, hr, hbody⟩ := hbody
  obtain ⟨x, s₂, hvested, hrest⟩ := runs_bind.mp hbody
  obtain ⟨rfl, rfl⟩ := runs_vestedAmount hvested
  simp only [runs_i128_bind, runs_modify_bind] at hrest
  obtain ⟨_, s₃, htransfer, hpure⟩ := runs_bind.mp hrest.2
  obtain ⟨rfl, rfl⟩ := runs_pure.mp hpure
  obtain ⟨t, rfl, hvault, -⟩ := runs_transferFromVault htransfer
  refine ⟨stored, hs, hr, rfl, t, hvault, ?_⟩
  simp only [guardLens, writeSchedule, hguard]

theorem runs_checkMilestones {v : ℤ} (h : Runs (checkMilestones ms n total) env s v s') :
    s' = s ∧ (∀ m ∈ ms, 0 < m.amount) ∧ v = total + (ms.map (·.amount)).sum := by
  induction ms generalizing n total with
  | nil =>
    obtain ⟨rfl, rfl⟩ := runs_pure.mp h
    simp
  | cons m rest ih =>
    simp only [checkMilestones, runs_failIf_bind, runs_i128_bind, not_le] at h
    obtain ⟨hm, -, -, hrest⟩ := h
    obtain ⟨hs, hpos, hv⟩ := ih hrest
    refine ⟨hs, List.forall_mem_cons.mpr ⟨hm, hpos⟩, ?_⟩
    rw [hv, List.map_cons, List.sum_cons, add_assoc]

theorem runs_setMilestones (h : Runs (setMilestones id ms) env s u s') :
    ∃ stored, s.schedule id = some stored ∧ (∀ m ∈ ms, 0 < m.amount) ∧
      (ms.map (·.amount)).sum ≤ stored.schedule.totalAmount ∧
      s' = { s with milestones := Function.update s.milestones id ms } := by
  obtain ⟨s₁, hbody, rfl⟩ := runs_reentrancyGuard h
  have hguard := guard_lowered h
  simp only [runs_ensureInitialized_bind, runs_requireStoredAdmin_bind,
    runs_readSchedule_bind] at hbody
  obtain ⟨-, c, -, -, -, stored, hs, hbody⟩ := hbody
  obtain ⟨total, s₂, hcheck, hrest⟩ := runs_bind.mp hbody
  obtain ⟨rfl, hpos, rfl⟩ := runs_checkMilestones hcheck
  simp only [runs_failIf_bind, runs_modify, not_lt, zero_add] at hrest
  obtain ⟨hle, rfl⟩ := hrest
  refine ⟨stored, hs, hpos, hle, ?_⟩
  simp only [guardLens, hguard]

end Operations

end BcForge.Vesting
