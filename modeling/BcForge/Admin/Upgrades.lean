import BcForge.Admin.Frame
import BcForge.Admin.Spec

/-! The upgrade proposals: votes, the quorum snapshotted at submission, and the status. -/
namespace BcForge.Admin

open Soroban Call

def voters (p : UpgradeProposal) : List Address := p.votes.map (·.1)

/-- The part of the store the upgrade proposals live in. -/
structure Upgrades where
  proposal : ℕ → Option UpgradeProposal
  nextId : ℕ

def Store.upgrades (s : Store) : Upgrades := ⟨s.upgradeProposal, s.upgradeProposalIdCounter⟩

namespace Upgrades

def write (id : ℕ) (p : UpgradeProposal) (f : Upgrades) : Upgrades :=
  { f with proposal := Function.update f.proposal id (some p) }

def submitted (submitter here : Address) (quorum now : ℕ) : UpgradeProposal where
  proposer := submitter
  targets := [here]
  votes := [(submitter, 1)]
  quorum := quorum
  status := if quorum ≤ 1 then .approved else .pending
  expiresAt := saturatingU64 (now + timelockDelaySecs)
  timelockExpiresAt := none

/-- The vote that meets the quorum approves the proposal. -/
def voted (voter : Address) (p : UpgradeProposal) : UpgradeProposal :=
  let p := { p with votes := p.votes ++ [(voter, 1)] }
  if p.quorum ≤ tally p then { p with status := .approved } else p

/-- One transition of the upgrade proposals at the time `now`. -/
inductive Step (now : ℕ) (f : Upgrades) : Upgrades → Prop
  | keep : Step now f f
  | submit (submitter here : Address) (quorum : ℕ) :
      Step now f (write f.nextId (submitted submitter here quorum now)
        { f with nextId := f.nextId + 1 })
  | vote (id : ℕ) (p : UpgradeProposal) (voter : Address) (hp : f.proposal id = some p)
      (hs : p.status = .pending) (ht : now < p.expiresAt) (hv : voter ∉ voters p) :
      Step now f (f.write id (voted voter p))
  | cancel (id : ℕ) (p : UpgradeProposal) (hp : f.proposal id = some p)
      (hs : p.status ≠ .cancelled) : Step now f (f.write id { p with status := .cancelled })

/-- Votes are one a voter, and the status says whether they meet the quorum. -/
structure Tallied (p : UpgradeProposal) : Prop where
  nodup : (voters p).Nodup
  pending : p.status = .pending → tally p < p.quorum
  approved : p.status = .approved → p.quorum ≤ tally p

/-- What later calls cannot undo: the quorum stays, and so does a cancellation. -/
structure Bound (p q : UpgradeProposal) : Prop where
  quorum : q.quorum = p.quorum
  cancelled : p.status = .cancelled → q.status = .cancelled

/-- What holds of the upgrade proposals in every reachable state. -/
structure Wellformed (f : Upgrades) : Prop where
  fresh : ∀ id, f.nextId ≤ id → f.proposal id = none
  tallied : ∀ id p, f.proposal id = some p → Tallied p

/-- Every proposal is still there, under the quorum it was submitted with. -/
def Preserves (f g : Upgrades) : Prop :=
  ∀ id p, f.proposal id = some p → ∃ q, g.proposal id = some q ∧ Bound p q

/-- A vote recorded at the time `now` is cast before the deadline, or it is the submitter's own at
the last time there is, when the deadline saturates to the submission itself. -/
def InTime (now : ℕ) (f g : Upgrades) : Prop :=
  ∀ id q voter, g.proposal id = some q → voter ∈ voters q →
    (∃ p, f.proposal id = some p ∧ voter ∈ voters p) ∨ now < q.expiresAt ∨
      (f.proposal id = none ∧ voter = q.proposer ∧ now = 2 ^ 64 - 1)

variable {now id : ℕ} {f g h : Upgrades} {p q : UpgradeProposal} {voter : Address}

theorem Bound.refl (p : UpgradeProposal) : Bound p p := ⟨rfl, fun hc => hc⟩

theorem Preserves.refl (f : Upgrades) : Preserves f f := fun _ p hp => ⟨p, hp, Bound.refl p⟩

theorem Preserves.trans (hfg : Preserves f g) (hgh : Preserves g h) : Preserves f h := by
  intro id p hp
  obtain ⟨q, hq, hpq⟩ := hfg id p hp
  obtain ⟨r, hr, hqr⟩ := hgh id q hq
  exact ⟨r, hr, hqr.quorum.trans hpq.quorum, fun hc => hqr.cancelled (hpq.cancelled hc)⟩

theorem InTime.refl (now : ℕ) (f : Upgrades) : InTime now f f :=
  fun _ p _ hp hv => Or.inl ⟨p, hp, hv⟩

/-! One proposal. -/

theorem voters_voted : voters (voted voter p) = voters p ++ [voter] := by
  unfold voted
  dsimp only
  split <;> simp [voters]

theorem voted_quorum : (voted voter p).quorum = p.quorum := by
  unfold voted
  dsimp only
  split <;> rfl

theorem voted_expiresAt : (voted voter p).expiresAt = p.expiresAt := by
  unfold voted
  dsimp only
  split <;> rfl

theorem tallied_submitted (submitter here : Address) (quorum now : ℕ) :
    Tallied (submitted submitter here quorum now) := by
  have htally : tally (submitted submitter here quorum now) = 1 := rfl
  refine ⟨List.nodup_singleton submitter, ?_, ?_⟩
  · intro hs
    rw [htally]
    by_contra hq
    have hle : quorum ≤ 1 := not_lt.mp hq
    simp [submitted, hle] at hs
  · intro hs
    rw [htally]
    by_contra hq
    have hlt : ¬ quorum ≤ 1 := hq
    simp [submitted, hlt] at hs

theorem tallied_voted (hp : Tallied p) (hs : p.status = .pending) (hv : voter ∉ voters p) :
    Tallied (voted voter p) := by
  refine ⟨?_, ?_, ?_⟩
  · rw [voters_voted]
    exact hp.nodup.append (List.nodup_singleton voter) (by simpa using hv)
  · intro hpending
    unfold voted at hpending ⊢
    dsimp only at hpending ⊢
    split at hpending
    · cases hpending
    · rename_i hq
      rw [if_neg hq]
      exact not_le.mp hq
  · intro happroved
    unfold voted at happroved ⊢
    dsimp only at happroved ⊢
    split at happroved
    · rename_i hq
      rw [if_pos hq]
      exact hq
    · rw [hs] at happroved
      cases happroved

theorem tallied_cancelled (hp : Tallied p) : Tallied { p with status := .cancelled } :=
  ⟨hp.nodup, nofun, nofun⟩

/-! One transition. -/

theorem write_proposal_cases {i : ℕ} (hq : (f.write id p).proposal i = some q) :
    (i = id ∧ q = p) ∨ (i ≠ id ∧ f.proposal i = some q) := by
  by_cases hi : i = id
  · subst hi
    simp only [write, Function.update_self, Option.some.injEq] at hq
    exact Or.inl ⟨rfl, hq.symm⟩
  · exact Or.inr ⟨hi, by simpa [write, Function.update_of_ne hi] using hq⟩

theorem wellformed_write (hf : Wellformed f) (hi : id < f.nextId) (hp : Tallied p) :
    Wellformed (f.write id p) where
  fresh i h := by
    have hle : f.nextId ≤ i := h
    have hne : i ≠ id := by omega
    simpa [write, Function.update_of_ne hne] using hf.fresh i h
  tallied i q hq := by
    rcases write_proposal_cases hq with ⟨-, rfl⟩ | ⟨-, hq⟩
    · exact hp
    · exact hf.tallied i q hq

theorem preserves_write (hp : f.proposal id = some p) (hb : Bound p q) :
    Preserves f (f.write id q) := by
  intro i r hr
  by_cases hi : i = id
  · subst hi
    cases hp.symm.trans hr
    exact ⟨q, by simp [write], hb⟩
  · exact ⟨r, by simpa [write, Function.update_of_ne hi] using hr, Bound.refl r⟩

theorem Wellformed.lt_nextId (hf : Wellformed f) (hp : f.proposal id = some p) :
    id < f.nextId := by
  by_contra hn
  have hnone := hf.fresh id (not_lt.mp hn)
  rw [hnone] at hp
  cases hp

theorem step_wellformed (hf : Wellformed f) (h : Step now f g) : Wellformed g := by
  cases h with
  | keep => exact hf
  | submit submitter here quorum =>
    have hnext : Wellformed { f with nextId := f.nextId + 1 } :=
      ⟨fun i hi => hf.fresh i (Nat.le_of_succ_le hi), hf.tallied⟩
    exact wellformed_write hnext (Nat.lt_succ_self _) (tallied_submitted _ _ _ _)
  | vote id p voter hp hs ht hv =>
    exact wellformed_write hf (hf.lt_nextId hp) (tallied_voted (hf.tallied id p hp) hs hv)
  | cancel id p hp hs =>
    exact wellformed_write hf (hf.lt_nextId hp) (tallied_cancelled (hf.tallied id p hp))

theorem step_preserves (hf : Wellformed f) (h : Step now f g) : Preserves f g := by
  cases h with
  | keep => exact Preserves.refl f
  | submit submitter here quorum =>
    intro i p hp
    have hne : i ≠ f.nextId := (hf.lt_nextId hp).ne
    exact ⟨p, by simpa [write, Function.update_of_ne hne] using hp, Bound.refl p⟩
  | vote id p voter hp hs ht hv =>
    refine preserves_write hp ⟨voted_quorum, fun hc => ?_⟩
    rw [hs] at hc
    cases hc
  | cancel id p hp hs => exact preserves_write hp ⟨rfl, fun _ => rfl⟩

/-- Only at the last time there is does the deadline of a new proposal not lie ahead. -/
theorem lt_expiresAt_submitted (submitter here : Address) (quorum : ℕ) (hnow : now < 2 ^ 64) :
    now < (submitted submitter here quorum now).expiresAt ∨ now = 2 ^ 64 - 1 := by
  simp only [submitted, saturatingU64, timelockDelaySecs]
  omega

theorem step_inTime (hf : Wellformed f) (hnow : now < 2 ^ 64) (h : Step now f g) :
    InTime now f g := by
  intro i q v hq hv
  cases h with
  | keep => exact Or.inl ⟨q, hq, hv⟩
  | submit submitter here quorum =>
    rcases write_proposal_cases hq with ⟨rfl, rfl⟩ | ⟨-, hq⟩
    · have hproposer : v = submitter := by simpa [voters, submitted] using hv
      rcases lt_expiresAt_submitted submitter here quorum hnow with hlt | hlast
      · exact Or.inr (Or.inl hlt)
      · exact Or.inr (Or.inr ⟨hf.fresh _ le_rfl, hproposer, hlast⟩)
    · exact Or.inl ⟨q, hq, hv⟩
  | vote id p voter hp hs ht hnew =>
    rcases write_proposal_cases hq with ⟨rfl, rfl⟩ | ⟨-, hq⟩
    · rw [voted_expiresAt]
      exact Or.inr (Or.inl ht)
    · exact Or.inl ⟨q, hq, hv⟩
  | cancel id p hp hs =>
    rcases write_proposal_cases hq with ⟨rfl, rfl⟩ | ⟨-, hq⟩
    · exact Or.inl ⟨p, hp, hv⟩
    · exact Or.inl ⟨q, hq, hv⟩

end Upgrades

variable {env : Env} {s s' : Store} {op : Op}

theorem upgrades_submitUpgradeProposal {submitter : Address} {hash : BytesN32} {i : ℕ}
    (h : Runs (submitUpgradeProposal submitter hash) env s i s') :
    s'.upgrades = Upgrades.write s.upgrades.nextId
      (Upgrades.submitted submitter env.self (getThreshold s) env.ledger.timestamp)
      { s.upgrades with nextId := s.upgrades.nextId + 1 } := by
  rw [submitUpgradeProposal, runs_withProposalGuard] at h
  obtain ⟨-, t, h, rfl⟩ := h
  simp only [requireValidWasmHash, runs_requireAuth_bind, runs_gets_bind, runs_failIf_bind,
    runs_bind_assoc, runs_u64_bind, runs_modify_bind, runs_self_bind, runs_ledger_bind,
    runs_pure] at h
  obtain ⟨-, -, -, -, -, -, rfl⟩ := h
  rfl

theorem upgrades_approveUpgrade {voter : Address} {id : ℕ} {u : Unit}
    (h : Runs (approveUpgrade voter id) env s u s') :
    ∃ p, s.upgradeProposal id = some p ∧ p.status = .pending ∧
      env.ledger.timestamp < p.expiresAt ∧ voter ∉ voters p ∧
      s'.upgrades = s.upgrades.write id (Upgrades.voted voter p) := by
  rw [approveUpgrade, runs_withProposalGuard] at h
  obtain ⟨-, t, h, rfl⟩ := h
  simp only [runs_requireAuth_bind, runs_gets_bind, runs_failIf_bind, runs_okOr_bind,
    runs_ledger_bind, runs_modify, not_or, not_not, not_le] at h
  obtain ⟨-, -, p, hp, ⟨hs, ht⟩, hv, rfl⟩ := h
  exact ⟨p, hp, hs, ht, hv, rfl⟩

theorem upgrades_cancelProposal {caller : Address} {id : ℕ} {u : Unit}
    (h : Runs (cancelProposal caller id) env s u s') :
    ∃ p, s.upgradeProposal id = some p ∧ p.status ≠ .cancelled ∧
      s'.upgrades = s.upgrades.write id { p with status := .cancelled } := by
  rw [cancelProposal, runs_withProposalGuard] at h
  obtain ⟨-, t, h, rfl⟩ := h
  simp only [runs_requireAuth_bind, runs_gets_bind, runs_failIf_bind, runs_okOr_bind,
    runs_modify, not_or] at h
  obtain ⟨-, p, hp, -, -, ⟨hs, -⟩, rfl⟩ := h
  exact ⟨p, hp, hs, rfl⟩

theorem upgrades_eq_of_writes (h : Runs (exec op) env s () s') (hop : .upgrades ∉ op.writes) :
    s'.upgrades = s.upgrades := by
  have hsame : (s'.upgradeProposal, s'.upgradeProposalIdCounter) =
      (s.upgradeProposal, s.upgradeProposalIdCounter) := exec_writes op env s () s' h _ hop
  obtain ⟨hp, hn⟩ := Prod.mk.inj hsame
  rw [Store.upgrades, Store.upgrades, hp, hn]

/-- Every entry point is one transition of the upgrade proposals. -/
theorem exec_upgrades (h : Runs (exec op) env s () s') :
    Upgrades.Step env.ledger.timestamp s.upgrades s'.upgrades := by
  by_cases hop : .upgrades ∈ op.writes
  · cases op with
    | submitUpgradeProposal submitter hash =>
      obtain ⟨i, ht⟩ := runs_discarded.mp h
      rw [upgrades_submitUpgradeProposal ht]
      exact .submit submitter env.self (getThreshold s)
    | approveUpgrade voter id =>
      obtain ⟨p, hp, hs, ht, hv, heq⟩ := upgrades_approveUpgrade h
      rw [heq]
      exact .vote id p voter hp hs ht hv
    | cancelProposal caller id =>
      obtain ⟨p, hp, hs, heq⟩ := upgrades_cancelProposal h
      rw [heq]
      exact .cancel id p hp hs
    | _ => simp [Op.writes] at hop
  · rw [upgrades_eq_of_writes h hop]
    exact .keep

variable {w : World Store} {l : Label Op} {ls : List (Label Op)}

theorem next_upgrades (w : World Store) (l : Label Op) :
    Upgrades.Step w.ledger.timestamp w.store.upgrades (w.next exec l).store.upgrades := by
  refine World.next_store
    (P := fun s : Store => Upgrades.Step w.ledger.timestamp w.store.upgrades s.upgrades) .keep ?_
  intro signers uploaded op s' hr
  exact exec_upgrades hr

theorem wellformed_none (h : ∀ id, s.upgradeProposal id = none) : s.upgrades.Wellformed := by
  refine ⟨fun id _ => h id, fun id p hp => ?_⟩
  have hnone : s.upgrades.proposal id = none := h id
  rw [hnone] at hp
  cases hp

theorem wellformed_next (h : w.store.upgrades.Wellformed) :
    (w.next exec l).store.upgrades.Wellformed :=
  Upgrades.step_wellformed h (next_upgrades w l)

theorem preserves_run (h : w.store.upgrades.Wellformed) (ls : List (Label Op)) :
    Upgrades.Preserves w.store.upgrades (w.run exec ls).store.upgrades := by
  induction ls generalizing w with
  | nil => exact Upgrades.Preserves.refl _
  | cons l ls ih =>
    exact (Upgrades.step_preserves h (next_upgrades w l)).trans (ih (wellformed_next h))

/-- Once there are upgrade proposals, in every run: each is tallied, keeps its quorum and stays
cancelled, and takes votes before its deadline only, the submitter's own at the last time there is
apart. -/
theorem upgrade_proposals_tallied (h : ∀ id, w.store.upgradeProposal id = none)
    (ls : List (Label Op)) :
    w.EveryState exec
        (fun w => ∀ id p, w.store.upgradeProposal id = some p → Upgrades.Tallied p) ls ∧
      (∀ pre post, ls = pre ++ post → Upgrades.Preserves (w.run exec pre).store.upgrades
        (w.run exec ls).store.upgrades) ∧
      w.EveryStep exec (fun w l => Upgrades.InTime w.ledger.timestamp w.store.upgrades
        (w.next exec l).store.upgrades) ls := by
  have hwell : w.store.upgrades.Wellformed := wellformed_none h
  refine ⟨?_, ?_, ?_⟩
  · have hstates : w.EveryState exec (fun w => w.store.upgrades.Wellformed) ls :=
      World.everyState_of_invariant hwell fun _ _ => wellformed_next
    refine World.everyState_mono ?_ hstates
    intro w hw id p hp
    exact hw.tallied id p hp
  · rintro pre post rfl
    have hpre : (w.run exec pre).store.upgrades.Wellformed :=
      World.run_induction (P := fun w : World Store => w.store.upgrades.Wellformed) hwell fun _ _ =>
        wellformed_next
    rw [World.run_append]
    exact preserves_run hpre post
  · refine World.everyStep_mono (I := fun w : World Store => w.store.upgrades.Wellformed) hwell
      (fun _ _ hw _ => wellformed_next hw) ?_
      (World.everyStep_of_forall (C := fun _ _ => True) fun _ _ => trivial)
    intro w l hw _
    exact Upgrades.step_inTime hw w.ledger.timestamp_lt (next_upgrades w l)

/-- Account 1 administers the contract at address 100. -/
def upgradeWorld (timestamp : ℕ) (h : timestamp < 2 ^ 64) : World Store where
  ledger := ⟨1000, timestamp, by decide, h⟩
  self := ⟨100⟩
  store := persistRoleMask ⟨1⟩ (roleBit .admin) { Store.empty with admin := some ⟨1⟩ }

/-- Two of three vote a hash through, and the submitter withdraws it. -/
def ballot : List (Label Op) :=
  [.call [⟨1⟩] [] (.setAdminPool [⟨1⟩, ⟨2⟩, ⟨3⟩] 2),
   .call [⟨1⟩] [] (.registerWasmHash ⟨1⟩ 7),
   .call [⟨2⟩] [] (.submitUpgradeProposal ⟨2⟩ 7),
   .call [⟨3⟩] [] (.approveUpgrade ⟨3⟩ 0),
   .call [⟨2⟩] [] (.cancelProposal ⟨2⟩ 0)]

theorem ballot_tallied :
    (upgradeWorld 1700000000 (by decide)).EveryState exec
        (fun w => ∀ id p, w.store.upgradeProposal id = some p → Upgrades.Tallied p) ballot ∧
      (((upgradeWorld 1700000000 (by decide)).run exec ballot).store.upgradeProposal 0).map
        (fun p => (voters p, p.status)) = some ([⟨2⟩, ⟨3⟩], .cancelled) :=
  ⟨(upgrade_proposals_tallied (fun _ => rfl) ballot).1, by decide +kernel⟩

/-- A submission in the last representable second. -/
def lastSecond : List (Label Op) :=
  [.call [⟨1⟩] [] (.registerWasmHash ⟨1⟩ 7),
   .call [⟨1⟩] [] (.submitUpgradeProposal ⟨1⟩ 7)]

/-- The submitter's vote is recorded at the deadline it sets. -/
theorem lastSecond_at_deadline :
    ¬ (upgradeWorld (2 ^ 64 - 1) (by decide)).EveryStep exec (fun w l => ∀ id q voter,
      (w.next exec l).store.upgradeProposal id = some q → voter ∈ voters q →
        (∃ p, w.store.upgradeProposal id = some p ∧ voter ∈ voters p) ∨
          w.ledger.timestamp < q.expiresAt) lastSecond := by
  rintro ⟨-, h, -⟩
  have hlast : (((upgradeWorld (2 ^ 64 - 1) (by decide)).run exec lastSecond).store.upgradeProposal
      0).map (fun q => (voters q, q.expiresAt)) = some ([⟨1⟩], 2 ^ 64 - 1) := by
    decide +kernel
  obtain ⟨q, hq, hvote⟩ := Option.map_eq_some_iff.mp hlast
  obtain ⟨hvoters, hexpires⟩ := Prod.mk.inj hvote
  rcases h 0 q ⟨1⟩ hq (by simp [hvoters]) with ⟨p, hp, -⟩ | hlt
  · cases hp
  · rw [hexpires] at hlt
    exact absurd hlt (by decide)

end BcForge.Admin
