import BcForge.Admin.Upgrades

/-! The timelock of an upgrade proposal: the field is there, but no vote ever writes it. -/
namespace BcForge.Admin

open Soroban Call

namespace Upgrades

variable {now id : ℕ} {f g : Upgrades} {p : UpgradeProposal} {voter : Address}

/-- No proposal has its timelock recorded. -/
def Unarmed (f : Upgrades) : Prop := ∀ id p, f.proposal id = some p → p.timelockExpiresAt = none

/-- Every proposal is still short of its quorum. -/
def Below (f : Upgrades) : Prop := ∀ id p, f.proposal id = some p → tally p < p.quorum

theorem voted_timelockExpiresAt : (voted voter p).timelockExpiresAt = p.timelockExpiresAt := by
  unfold voted
  dsimp only
  split <;> rfl

theorem tally_voted : tally (voted voter p) = tally p + 1 := by
  unfold voted
  dsimp only
  split <;> simp [tally]

theorem unarmed_write (hf : Unarmed f) (hp : p.timelockExpiresAt = none) :
    Unarmed (f.write id p) := by
  intro i q hq
  rcases write_proposal_cases hq with ⟨-, rfl⟩ | ⟨-, hq⟩
  · exact hp
  · exact hf i q hq

/-- Neither the submission nor a vote nor a cancellation touches the timelock. -/
theorem step_unarmed (hf : Unarmed f) (h : Step now f g) : Unarmed g := by
  cases h with
  | keep => exact hf
  | submit submitter here quorum => exact unarmed_write hf rfl
  | vote id p voter hp hs ht hv =>
    exact unarmed_write hf (voted_timelockExpiresAt.trans (hf id p hp))
  | cancel id p hp hs => exact unarmed_write hf (hf id p hp)

/-- A write leaves every proposal below its quorum exactly if the new one is. -/
theorem below_write_iff (hf : Below f) : Below (f.write id p) ↔ tally p < p.quorum := by
  constructor
  · intro h
    exact h id p (by simp [write])
  · intro hlt i q hq
    rcases write_proposal_cases hq with ⟨-, rfl⟩ | ⟨-, hq⟩
    · exact hlt
    · exact hf i q hq

end Upgrades

variable {env : Env} {s s' : Store} {op : Op} {w : World Store} {l : Label Op}
  {ls : List (Label Op)}

/-- The vote this call records, if it records one, does not complete a quorum. -/
def VoteBelowQuorum (s : Store) : Op → Prop
  | .submitUpgradeProposal _ _ => 1 < getThreshold s
  | .approveUpgrade _ id => ∀ p, s.upgradeProposal id = some p → tally p + 1 < p.quorum
  | _ => True

theorem below_submitUpgradeProposal {submitter : Address} {hash : BytesN32} {i : ℕ}
    (hs : s.upgrades.Below) (h : Runs (submitUpgradeProposal submitter hash) env s i s') :
    s'.upgrades.Below ↔ 1 < getThreshold s := by
  rw [upgrades_submitUpgradeProposal h]
  exact Upgrades.below_write_iff (f := { s.upgrades with nextId := s.upgrades.nextId + 1 }) hs

theorem below_approveUpgrade {voter : Address} {id : ℕ} {u : Unit} (hs : s.upgrades.Below)
    (h : Runs (approveUpgrade voter id) env s u s') :
    s'.upgrades.Below ↔ ∀ p, s.upgradeProposal id = some p → tally p + 1 < p.quorum := by
  obtain ⟨p, hp, -, -, -, heq⟩ := upgrades_approveUpgrade h
  rw [heq, Upgrades.below_write_iff hs, Upgrades.tally_voted, Upgrades.voted_quorum]
  constructor
  · intro hlt q hq
    cases hp.symm.trans hq
    exact hlt
  · intro hall
    exact hall p hp

theorem below_cancelProposal {caller : Address} {id : ℕ} {u : Unit} (hs : s.upgrades.Below)
    (h : Runs (cancelProposal caller id) env s u s') : s'.upgrades.Below := by
  obtain ⟨p, hp, -, heq⟩ := upgrades_cancelProposal h
  rw [heq, Upgrades.below_write_iff hs]
  exact hs id p hp

theorem exec_below_iff (hs : s.upgrades.Below) (h : Runs (exec op) env s () s') :
    s'.upgrades.Below ↔ VoteBelowQuorum s op := by
  by_cases hop : .upgrades ∈ op.writes
  · cases op with
    | submitUpgradeProposal submitter hash =>
      obtain ⟨i, ht⟩ := runs_discarded.mp h
      exact below_submitUpgradeProposal hs ht
    | approveUpgrade voter id => exact below_approveUpgrade hs h
    | cancelProposal caller id => exact iff_of_true (below_cancelProposal hs h) trivial
    | _ => simp [Op.writes] at hop
  · rw [upgrades_eq_of_writes h hop]
    refine iff_of_true hs ?_
    cases op with
    | submitUpgradeProposal submitter hash => simp [Op.writes] at hop
    | approveUpgrade voter id => simp [Op.writes] at hop
    | _ => trivial

theorem next_below_iff (h : w.store.upgrades.Below) :
    (w.next exec l).store.upgrades.Below ↔
      World.OnSuccess exec (fun w op => VoteBelowQuorum w.store op) w l :=
  World.next_store_iff (P := fun s : Store => s.upgrades.Below) h
    fun _ _ _ _ hr => exec_below_iff h hr

theorem unarmed_next (h : w.store.upgrades.Unarmed) : (w.next exec l).store.upgrades.Unarmed :=
  Upgrades.step_unarmed h (next_upgrades w l)

/-- When each proposal first had the votes of its quorum, as noted along a run. -/
def noteQuorate (w : World Store) (reached : ℕ → Option ℕ) (l : Label Op) (id : ℕ) : Option ℕ :=
  match reached id with
  | some t => some t
  | none =>
    if ((w.next exec l).store.upgradeProposal id).any fun p => p.quorum ≤ tally p then
      some w.ledger.timestamp
    else none

def quorateSince (w : World Store) (ls : List (Label Op)) : ℕ → Option ℕ :=
  World.foldSteps exec noteQuorate w (fun _ => none) ls

/-- A proposal with the votes of its quorum unlocks a full delay after it got them; one without
them has no unlock time. -/
structure Armed (s : Store) (reached : ℕ → Option ℕ) : Prop where
  quorate : ∀ id p, s.upgradeProposal id = some p → p.quorum ≤ tally p →
    ∃ t, reached id = some t ∧ p.timelockExpiresAt = some (t + timelockDelaySecs)
  below : ∀ id p, s.upgradeProposal id = some p → tally p < p.quorum → p.timelockExpiresAt = none

/-- Every state of the run is armed, and no unlock time is ever changed. -/
structure AlwaysArmed (w : World Store) (ls : List (Label Op)) : Prop where
  armed : ∀ done, done <+: ls → Armed (w.run exec done).store (quorateSince w done)
  kept : ∀ done more id p q unlock, done ++ more <+: ls →
    (w.run exec done).store.upgradeProposal id = some p → p.timelockExpiresAt = some unlock →
    (w.run exec (done ++ more)).store.upgradeProposal id = some q →
      q.timelockExpiresAt = some unlock

/-- As no timelock is ever recorded, only a store without a quorate proposal is armed. -/
theorem armed_iff {reached : ℕ → Option ℕ} (h : s.upgrades.Unarmed) :
    Armed s reached ↔ s.upgrades.Below := by
  constructor
  · intro ha id p hp
    by_contra hq
    obtain ⟨t, -, hsome⟩ := ha.quorate id p hp (not_lt.mp hq)
    rw [h id p hp] at hsome
    cases hsome
  · intro hb
    refine ⟨fun id p hp hq => ?_, fun id p hp _ => h id p hp⟩
    exact absurd (hb id p hp) (not_lt.mpr hq)

/-- The timelocks are armed exactly as long as no vote completes a quorum. -/
theorem timelock_armed_iff (h : ∀ id, w.store.upgradeProposal id = none) (ls : List (Label Op)) :
    AlwaysArmed w ls ↔
      w.EveryStep exec (World.OnSuccess exec fun w op => VoteBelowQuorum w.store op) ls := by
  have hnone : ∀ id p, w.store.upgrades.proposal id = some p → False := by
    intro id p hp
    cases (h id).symm.trans hp
  have hunarmed : w.store.upgrades.Unarmed := fun id p hp => (hnone id p hp).elim
  have hbelow : w.store.upgrades.Below := fun id p hp => (hnone id p hp).elim
  have hruns : ∀ done, (w.run exec done).store.upgrades.Unarmed := fun done =>
    World.run_induction (P := fun w : World Store => w.store.upgrades.Unarmed) hunarmed
      fun _ _ => unarmed_next
  have hstates : w.EveryState exec (fun w => w.store.upgrades.Below) ls ↔
      w.EveryStep exec (World.OnSuccess exec fun w op => VoteBelowQuorum w.store op) ls :=
    World.everyState_iff_everyStep (I := fun _ => True) trivial (fun _ _ _ => trivial) hbelow
      fun _ _ _ hb => next_below_iff hb
  rw [← hstates, World.everyState_iff_prefix]
  constructor
  · intro ha done hdone
    exact (armed_iff (hruns done)).mp (ha.armed done hdone)
  · intro hb
    refine ⟨fun done hdone => (armed_iff (hruns done)).mpr (hb done hdone), ?_⟩
    intro done more id p q unlock _ hp hunlock
    rw [hruns done id p hp] at hunlock
    cases hunlock

/-- A proposal in a pool of three that two have to approve. -/
def underway : List (Label Op) := ballot.take 3

theorem underway_armed : AlwaysArmed (upgradeWorld 1700000000 (by decide)) underway := by
  refine (timelock_armed_iff (fun _ => rfl) underway).mpr ?_
  refine ⟨fun _ _ => trivial, fun _ _ => trivial, fun _ _ => ?_, trivial⟩
  change 1 < getThreshold _
  decide +kernel

/-- The second of two votes completes the quorum, and no unlock time is recorded. -/
theorem ballot_not_armed :
    ¬ AlwaysArmed (upgradeWorld 1700000000 (by decide)) (ballot.take 4) := by
  intro h
  have hvotes : (((upgradeWorld 1700000000 (by decide)).run exec
      (ballot.take 4)).store.upgradeProposal 0).map
        (fun p => (p.quorum, tally p, p.timelockExpiresAt)) = some (2, 2, none) := by
    decide +kernel
  obtain ⟨p, hp, hvote⟩ := Option.map_eq_some_iff.mp hvotes
  obtain ⟨hquorum, htally, hnone⟩ : p.quorum = 2 ∧ tally p = 2 ∧ p.timelockExpiresAt = none := by
    simpa using hvote
  obtain ⟨t, -, hsome⟩ := (h.armed _ (List.prefix_refl _)).quorate 0 p hp (by omega)
  rw [hnone] at hsome
  cases hsome

end BcForge.Admin
