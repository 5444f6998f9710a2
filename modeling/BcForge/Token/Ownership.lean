import BcForge.Admin.RoleViews
import BcForge.Token.Privilege

/-! When a transfer of ownership that has waited its time goes through. -/
namespace BcForge.BcForgeToken

open Soroban Call Admin

variable {env : Env} {s : Store} {w : World Store} {ls : List (Label Op)} {a c : Address} {t : ℕ}
  {signers : List Address} {uploaded : List BytesN32}

/-- The proposal to hand over to `a` is neither used nor withdrawn, and was made at time `t`. -/
def LiveSince (s : Store) (a : Address) (t : ℕ) : Prop :=
  deadlines s.access (.transferOwnership a) = some (t + privilegeActionDelaySecs)

instance : Decidable (LiveSince s a t) := inferInstanceAs (Decidable (_ = _))

/-- The transfer succeeds and makes `a` the stored administrator, with the role. -/
def HandsOver (a : Address) (env : Env) (s : Store) : Prop :=
  ∃ s', Runs (transferOwnership a) env s () s' ∧ s'.access.admin = some a ∧
    hasRole s'.access .admin a = true

/-- `a` is not the zero address, the stored administrator `c` has the role, and `a` is `c` or lacks
it. -/
def CanHandOver (c a : Address) (s : Store) : Prop :=
  a ≠ zeroAddress ∧ hasRole s.access .admin c = true ∧
    (c = a ∨ s.access.roster.holds .admin a = false)

instance : Decidable (CanHandOver c a s) := inferInstanceAs (Decidable (_ ∧ _ ∧ _))

theorem consume_runs_iff {action : PrivilegeAction} {s s' : Admin.Store} {u : Unit} :
    Runs (consumePrivilegeProposal action) env s u s' ↔ ∃ p d, s.privilegeProposal action = some p ∧
      p.deadline = some d ∧ d ≤ env.ledger.timestamp ∧
        s' = writePrivilegeProposal { p with executed := true } s := by
  simp only [consumePrivilegeProposal, runs_gets_bind, runs_okOr_bind, runs_failIf_bind,
    runs_ledger_bind, runs_modify, not_lt, PrivilegeProposal.deadline]
  constructor
  · rintro ⟨p, hp, hlive, hdue, rfl⟩
    exact ⟨p, p.executableAt, hp, if_neg hlive, hdue, rfl⟩
  · rintro ⟨p, d, hp, hd, hdue, rfl⟩
    by_cases hlive : p.executed = true ∨ p.cancelled = true
    · rw [if_pos hlive] at hd
      cases hd
    · rw [if_neg hlive] at hd
      obtain rfl := Option.some.inj hd
      exact ⟨p, hp, hlive, hdue, rfl⟩

/-- The transfer once its proposal can be used: what is left is the administrator's role and the
grant to the new one. -/
theorem runs_transferOwnership_iff {s' : Store} {p : PrivilegeProposal} {d : ℕ}
    (hp : s.access.privilegeProposal (.transferOwnership a) = some p) (hd : p.deadline = some d)
    (hdue : d ≤ env.ledger.timestamp) (hc : s.access.admin = some c) (ha : env.Authorized c) :
    Runs (transferOwnership a) env s () s' ↔ hasRole s.access .admin c = true ∧
      ∃ t, Runs (setAdmin a) env
          (writePrivilegeProposal { p with executed := true } s.access) () t ∧
        s' = { s with access := t } := by
  simp only [transferOwnership, admin, requireAdmin, runs_ensureInitialized_bind, runs_access_bind,
    runs_getAdmin, runs_requireRoleGuard, consume_runs_iff, runs_within]
  constructor
  · rintro ⟨-, c', _, ⟨hc', rfl⟩, _, _, ⟨hrole, -, rfl⟩, _, _, ⟨p', d', hp', -, -, rfl⟩, t, hset,
      rfl⟩
    rw [hc] at hc'
    obtain rfl := Option.some.inj hc'
    have hsame : p' = p := Option.some.inj (hp'.symm.trans hp)
    rw [hsame] at hset
    exact ⟨hrole, t, hset, rfl⟩
  · rintro ⟨hrole, t, hset, rfl⟩
    refine ⟨by rw [hasAdmin, hc]; rfl, c, _, ⟨hc, rfl⟩, (), _, ⟨hrole, ha, rfl⟩, (), _,
      ⟨p, d, hp, hd, hdue, rfl⟩, t, hset, rfl⟩

theorem handsOver_iff (hlive : LiveSince s a t)
    (hdue : t + privilegeActionDelaySecs ≤ env.ledger.timestamp)
    (hc : s.access.admin = some c) (ha : env.Authorized c) :
    HandsOver a env s ↔ CanHandOver c a s := by
  obtain ⟨p, hp, hd⟩ := Option.bind_eq_some_iff.mp hlive
  have hgrant : (∃ x, Runs (setAdmin a) env
      (writePrivilegeProposal { p with executed := true } s.access) () x) ↔
      a ≠ zeroAddress ∧ (s.access.admin = some a ∨ s.access.roster.holds .admin a = false) :=
    setAdmin_runs_iff
  rw [hc, Option.some.injEq] at hgrant
  constructor
  · rintro ⟨s', hr, -⟩
    obtain ⟨hrole, x, hset, -⟩ := (runs_transferOwnership_iff hp hd hdue hc ha).mp hr
    obtain ⟨hzero, hfree⟩ := hgrant.mp ⟨x, hset⟩
    exact ⟨hzero, hrole, hfree⟩
  · rintro ⟨hzero, hrole, hfree⟩
    obtain ⟨x, hset⟩ := hgrant.mpr ⟨hzero, hfree⟩
    obtain ⟨-, hroster⟩ := roster_setAdmin hset
    refine ⟨{ s with access := x },
      (runs_transferOwnership_iff hp hd hdue hc ha).mpr ⟨hrole, x, hset, rfl⟩, ?_, ?_⟩
    · exact congrArg Roster.admin hroster
    · refine (hasRole_iff hzero).mpr (Or.inl ?_)
      rw [hroster]
      exact Roster.put_holds_self ..

/-- In every reachable state a proposal to hand over that is live and a day old can be executed by
the administrator exactly when the administrator still has the role and the new one does not have it
already. -/
theorem matured_transfer_iff (h : Deployed w) (ls : List (Label Op))
    (hlive : LiveSince (w.run exec ls).store a t)
    (hdue : t + 86400 ≤ (w.run exec ls).ledger.timestamp)
    (hc : (w.run exec ls).store.access.admin = some c)
    (ha : ((w.run exec ls).env signers uploaded).Authorized c) :
    Delay.Open (privilegeLog w ls) (.transferOwnership a) t ∧
      (HandsOver a ((w.run exec ls).env signers uploaded) (w.run exec ls).store ↔
        CanHandOver c a (w.run exec ls).store) := by
  refine ⟨?_, handsOver_iff hlive hdue hc ha⟩
  obtain ⟨t', hopen, heq⟩ := (accounted_run h ls).tracks _ _ hlive
  obtain rfl : t = t' := Nat.add_right_cancel heq
  exact hopen

/-- Account 2 mints and pauses already. -/
def staffHandover : List (Label Op) :=
  [.call [⟨1⟩] [] (.grantRole ⟨1⟩ .minter ⟨2⟩),
   .call [⟨1⟩] [] (.proposePrivilegeAction ⟨1⟩ (.transferOwnership ⟨2⟩)),
   .call [⟨1⟩] [] (.grantRole ⟨1⟩ .pauser ⟨2⟩),
   .close (.ofNat 200 1700086400)]

theorem staffHandover_done :
    HandsOver ⟨2⟩ ((genesis.run exec staffHandover).env [⟨1⟩] [])
      (genesis.run exec staffHandover).store := by
  have hlive : LiveSince (genesis.run exec staffHandover).store ⟨2⟩ 1700000000 := by
    decide +kernel
  have hadmin : (genesis.run exec staffHandover).store.access.admin = some ⟨1⟩ := by
    decide +kernel
  exact (matured_transfer_iff genesis_deployed staffHandover hlive (by decide +kernel) hadmin
    (by decide +kernel)).2.mpr (by decide +kernel)

/-- Account 2 is made an administrator beside account 1 while the transfer is waiting. -/
def promotedHandover : List (Label Op) :=
  [.call [⟨1⟩] [] (.proposePrivilegeAction ⟨1⟩ (.transferOwnership ⟨2⟩)),
   .call [⟨1⟩] [] (.grantRole ⟨1⟩ .admin ⟨2⟩),
   .close (.ofNat 200 1700086400)]

theorem promotedHandover_fails :
    Deployed genesis ∧
    LiveSince (genesis.run exec promotedHandover).store ⟨2⟩ 1700000000 ∧
    1700000000 + 86400 ≤ (genesis.run exec promotedHandover).ledger.timestamp ∧
    (genesis.run exec promotedHandover).store.access.admin = some ⟨1⟩ ∧
    hasRole (genesis.run exec promotedHandover).store.access .admin ⟨1⟩ = true ∧
    ((genesis.run exec promotedHandover).env [⟨1⟩] []).Authorized ⟨1⟩ ∧
    ¬ HandsOver ⟨2⟩ ((genesis.run exec promotedHandover).env [⟨1⟩] [])
      (genesis.run exec promotedHandover).store := by
  refine ⟨genesis_deployed, by decide +kernel, by decide +kernel, by decide +kernel,
    by decide +kernel, by decide +kernel, ?_⟩
  rintro ⟨s', hr, -⟩
  have hfails : (transferOwnership ⟨2⟩ ((genesis.run exec promotedHandover).env [⟨1⟩] [])
      (genesis.run exec promotedHandover).store).isOk = false := by
    decide +kernel
  rw [isOk_of_runs hr] at hfails
  cases hfails

end BcForge.BcForgeToken
