import BcForge.Vesting.Regular

/-! Which accepted schedules can be paid at every later ledger: those whose product of total and
elapsed ledgers never overflows. -/
namespace BcForge.Vesting

open Soroban Call Admin

variable {env : Env} {s s' : Store} {w : World Store} {ls : List (Label Op)}
  {stored : StoredVestingSchedule} {id L m n : ℕ} {v x : ℤ} {b : Address} {revocable : Bool}

theorem runs_claimableAmount_iff (h : Accepted id (s.milestones id) stored) :
    Runs (claimableAmount stored L) env s v s' ↔ Fits stored (effectiveLedger stored L) ∧
      v = s.vested stored L - stored.schedule.releasedAmount ∧ s' = s := by
  simp only [claimableAmount]
  constructor
  · intro hr
    obtain ⟨y, s₁, hy, hr⟩ := runs_bind.mp hr
    obtain ⟨hfits, rfl, rfl⟩ := (runs_vestedAmount_iff h).mp hy
    exact ⟨hfits, (runs_i128.mp hr).2⟩
  · rintro ⟨hfits, rfl, rfl⟩
    have hbounds := (curveLaw_of_accepted h).bounds L
    have hmax := h.total_le
    have hmin : I128.MIN ≤ -I128.MAX := by decide
    have hnonneg := h.released_nonneg
    have hle := h.released_le
    refine runs_bind.mpr ⟨_, s', (runs_vestedAmount_iff h).mpr ⟨hfits, rfl, rfl⟩, ?_⟩
    exact runs_i128.mpr ⟨⟨by omega, by omega⟩, rfl, rfl⟩

theorem runs_claimableAmount_bind_iff {α : Type} {a : α} {k : ℤ → VestingCall α}
    (h : Accepted id (s.milestones id) stored) :
    Runs (claimableAmount stored L >>= k) env s a s' ↔ Fits stored (effectiveLedger stored L) ∧
      Runs (k (s.vested stored L - stored.schedule.releasedAmount)) env s a s' := by
  rw [runs_bind]
  constructor
  · rintro ⟨v, t, hv, hk⟩
    obtain ⟨hfits, rfl, rfl⟩ := (runs_claimableAmount_iff h).mp hv
    exact ⟨hfits, hk⟩
  · rintro ⟨hfits, hk⟩
    exact ⟨_, s, (runs_claimableAmount_iff h).mpr ⟨hfits, rfl, rfl⟩, hk⟩

/-- Whatever is called from here on, and as of every ledger, what is vested and what is claimable
of the schedule can be computed. -/
def AlwaysVests (w : World Store) (id : ℕ) : Prop :=
  ∀ (ls : List (Label Op)) (stored : StoredVestingSchedule) (env : Env) (L : ℕ),
    (w.run exec ls).store.schedule id = some stored →
    (∃ v, Runs (vestedAmount stored L) env (w.run exec ls).store v (w.run exec ls).store) ∧
    ∃ v, Runs (claimableAmount stored L) env (w.run exec ls).store v (w.run exec ls).store

theorem alwaysVests_of_fits {st : StoredVestingSchedule} (h : Regular w.self w.store)
    (hst : w.store.schedule id = some st) (hfits : ∀ L, Fits st L) : AlwaysVests w id := by
  intro ls stored env L hs
  obtain ⟨st', hst', hsame⟩ := terms_run h hst ls
  rw [hs] at hst'
  obtain rfl := Option.some.inj hst'
  have haccepted := (regular_from h ls).accepted id stored hs
  have hlater : Fits stored (effectiveLedger stored L) := by
    unfold Fits
    rw [hsame.cliff, hsame.finish, hsame.total, hsame.start]
    exact hfits _
  exact ⟨⟨_, (runs_vestedAmount_iff haccepted).mpr ⟨hlater, rfl, rfl⟩⟩,
    _, (runs_claimableAmount_iff haccepted).mpr ⟨hlater, rfl, rfl⟩⟩

/-- A new schedule fits at every ledger when its longest product does, if it has a window at
all. -/
theorem fits_newSchedule_iff (hx : 0 < x) (hmn : m ≤ n) (hn : 0 < n) {now : ℕ} :
    (∀ L, Fits (newSchedule id now b x m n revocable) L) ↔ m = n ∨ x * (n - 1 : ℕ) ≤ I128.MAX := by
  simp only [Fits, newSchedule]
  constructor
  · intro h
    by_cases heq : m = n
    · exact Or.inl heq
    · have hlast := (h (now + n - 1) (by omega) (by omega)).2
      rw [show now + n - 1 - now = n - 1 by omega] at hlast
      exact Or.inr hlast
  · rintro (rfl | hmax) L hc he
    · omega
    · have hle : x * (L - now : ℕ) ≤ x * (n - 1 : ℕ) :=
        mul_le_mul_of_nonneg_left (by omega) hx.le
      have hnonneg : 0 ≤ x * (L - now : ℕ) := mul_nonneg hx.le (by omega)
      exact ⟨(by decide : I128.MIN ≤ 0).trans hnonneg, hle.trans hmax⟩

section Created

variable {signers : List Address} {uploaded : List BytesN32}

/-- The state after `create_vesting` has gone through in `w`. -/
def created (w : World Store) (signers : List Address) (uploaded : List BytesN32) (b : Address)
    (x : ℤ) (m n : ℕ) (revocable : Bool) : World Store :=
  w.next exec (.call signers uploaded (.createVesting b x m n revocable))

theorem schedule_created
    (hr : Runs (createVesting b x m n revocable) (w.env signers uploaded) w.store id s') :
    (created w signers uploaded b x m n revocable).store.schedule id =
      some (newSchedule id w.ledger.sequence b x m n revocable) := by
  have hexec : Runs (exec (.createVesting b x m n revocable)) (w.env signers uploaded) w.store ()
      s' := runs_discarded.mpr ⟨id, hr⟩
  have hstore : (created w signers uploaded b x m n revocable).store = s' := invoke_of_runs hexec
  obtain ⟨-, -, -, -, t, -, rfl⟩ := runs_createVesting hr
  rw [hstore]
  exact Function.update_self ..

theorem fits_of_alwaysVests (h : Regular w.self w.store)
    (hr : Runs (createVesting b x m n revocable) (w.env signers uploaded) w.store id s')
    (hall : AlwaysVests (created w signers uploaded b x m n revocable) id) (L : ℕ) :
    Fits (newSchedule id w.ledger.sequence b x m n revocable) L := by
  have hst := schedule_created hr
  have hregular : Regular (created w signers uploaded b x m n revocable).self
      (created w signers uploaded b x m n revocable).store := regular_next h
  obtain ⟨⟨v, hv⟩, -⟩ := hall [] _ (w.env [] []) L hst
  exact ((runs_vestedAmount_iff (hregular.accepted id _ hst)).mp hv).1

/-- A schedule that is accepted can be computed at every later ledger, whatever happens to it,
exactly when it has no window between cliff and end or its longest product fits an `i128`. -/
theorem accepted_always_vests_iff (h : Deployed w) (ls : List (Label Op))
    (hr : Runs (createVesting b x m n revocable) ((w.run exec ls).env signers uploaded)
      (w.run exec ls).store id s') :
    AlwaysVests (created (w.run exec ls) signers uploaded b x m n revocable) id ↔
      m = n ∨ x * (n - 1 : ℕ) ≤ I128.MAX := by
  have hregular : Regular (w.run exec ls).self (w.run exec ls).store := by
    rw [World.run_self]
    exact regular_run h ls
  obtain ⟨-, hx, hn, hmn, -⟩ := runs_createVesting hr
  have hfits : (∀ L, Fits (newSchedule id (w.run exec ls).ledger.sequence b x m n revocable) L) ↔
      m = n ∨ x * (n - 1 : ℕ) ≤ I128.MAX := fits_newSchedule_iff hx hmn hn
  rw [← hfits]
  exact ⟨fits_of_alwaysVests hregular hr,
    alwaysVests_of_fits (regular_next hregular) (schedule_created hr)⟩

/-- A thousand units over a hundred ledgers. -/
theorem thousand_alwaysVests : AlwaysVests (created genesis [⟨1⟩] [] ⟨2⟩ 1000 10 100 true) 0 := by
  obtain ⟨s', hr⟩ : ∃ s', Runs (createVesting ⟨2⟩ 1000 10 100 true) (genesis.env [⟨1⟩] [])
      genesis.store 0 s' := runs_of_value (by decide +kernel)
  exact (accepted_always_vests_iff genesis_deployed [] hr).mpr (Or.inr (by decide))

/-- An amount most of an `i128` over three ledgers: in the last one before the end the beneficiary
cannot release anything, and the administrator cannot revoke. -/
theorem huge_not_alwaysVests :
    Deployed genesis ∧
    (∃ s', Runs (createVesting ⟨2⟩ (10 ^ 38) 0 3 true) (genesis.env [⟨1⟩] []) genesis.store 0 s') ∧
    ¬ AlwaysVests (created genesis [⟨1⟩] [] ⟨2⟩ (10 ^ 38) 0 3 true) 0 ∧
    (exec (.release ⟨2⟩) ⟨.ofNat 102 1700000010, ⟨300⟩, [⟨2⟩], false, []⟩
      (created genesis [⟨1⟩] [] ⟨2⟩ (10 ^ 38) 0 3 true).store).isOk = false ∧
    (exec (.revoke 0) ⟨.ofNat 102 1700000010, ⟨300⟩, [⟨1⟩], false, []⟩
      (created genesis [⟨1⟩] [] ⟨2⟩ (10 ^ 38) 0 3 true).store).isOk = false := by
  have hr : ∃ s', Runs (createVesting ⟨2⟩ (10 ^ 38) 0 3 true) (genesis.env [⟨1⟩] [])
      genesis.store 0 s' := runs_of_value (by decide +kernel)
  refine ⟨genesis_deployed, hr, ?_, by decide +kernel, by decide +kernel⟩
  intro hall
  obtain ⟨s', hr⟩ := hr
  have hfits := fits_of_alwaysVests (regular_deployed genesis_deployed) hr hall 102
  have hrange := hfits (by decide +kernel) (by decide +kernel)
  revert hrange
  decide +kernel

end Created

end BcForge.Vesting
