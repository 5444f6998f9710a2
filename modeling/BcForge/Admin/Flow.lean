import BcForge.Admin.Multisig
import Mathlib.Data.List.Nodup

/-! What a call can do to the legacy proposals, and what that leaves invariant. -/
namespace BcForge.Admin

open Soroban

/-- The part of the store the legacy proposal flow owns. -/
structure Flow where
  proposal : ℕ → Option Proposal
  nextId : ℕ
  timelock : ℕ → Option ℕ
  grant : ℕ → Option RoleGrantAction

def Store.flow (s : Store) : Flow :=
  ⟨s.proposal, s.proposalIdCounter, s.proposalTimelock, s.roleGrantProposal⟩

namespace Flow

def write (id : ℕ) (p : Proposal) (f : Flow) : Flow :=
  { f with proposal := Function.update f.proposal id (some p) }

/-- The clock of a proposal starts when its approvals are first seen to meet the threshold. -/
def startTimelock (threshold now id : ℕ) (p : Proposal) (f : Flow) : Flow :=
  if f.timelock id = none ∧ threshold ≤ p.approvals.length then
    { f with
      timelock := Function.update f.timelock id (some (saturatingU64 (now + timelockDelaySecs))) }
  else f

def setExecuted (ids : List ℕ) (f : Flow) : Flow :=
  { f with
    proposal := fun i =>
      if i ∈ ids then (f.proposal i).map fun p => { p with executed := true } else f.proposal i }

def newProposal (l : Ledger) (creator : Address) (description : String) : Proposal where
  creator := creator
  description := description
  approvals := [creator]
  executed := false
  expiryLedger := some (saturatingU32 (l.sequence + proposalExpiryLedgers))
  cancelled := false

def create (threshold : ℕ) (l : Ledger) (creator : Address) (description : String) (f : Flow) :
    Flow :=
  let p := newProposal l creator description
  startTimelock threshold l.timestamp f.nextId p
    (write f.nextId p { f with nextId := f.nextId + 1 })

def bind (id : ℕ) (action : RoleGrantAction) (f : Flow) : Flow :=
  { f with grant := Function.update f.grant id (some action) }

def vote (threshold : ℕ) (l : Ledger) (id : ℕ) (p : Proposal) (voter : Address) (f : Flow) : Flow :=
  let p' := { p with approvals := p.approvals ++ [voter] }
  startTimelock threshold l.timestamp id p' (write id p' f)

def cancel (id : ℕ) (p : Proposal) (f : Flow) : Flow :=
  write id { p with cancelled := true } { f with grant := Function.update f.grant id none }

/-- One transition of the proposal flow under the pool and threshold in force. -/
inductive Step (env : Env) (pool : List Address) (threshold : ℕ) (f : Flow) : Flow → Prop
  | keep : Step env pool threshold f f
  | create (creator : Address) (description : String) (ha : env.Authorized creator)
      (hm : creator ∈ pool) :
      Step env pool threshold f (f.create threshold env.ledger creator description)
  | createRole (creator : Address) (description : String) (action : RoleGrantAction)
      (ha : env.Authorized creator) (hm : creator ∈ pool) :
      Step env pool threshold f
        ((f.create threshold env.ledger creator description).bind f.nextId action)
  | vote (id : ℕ) (p : Proposal) (voter : Address) (hp : f.proposal id = some p)
      (hx : p.executed = false) (hc : p.cancelled = false) (hv : voter ∉ p.approvals)
      (ha : env.Authorized voter) (hm : voter ∈ pool) :
      Step env pool threshold f (f.vote threshold env.ledger id p voter)
  | cancel (id : ℕ) (p : Proposal) (hp : f.proposal id = some p) (hx : p.executed = false) :
      Step env pool threshold f (f.cancel id p)
  | execute (ids : List ℕ)
      (hp : ∀ id ∈ ids, ∃ p, f.proposal id = some p ∧ p.executed = false) :
      Step env pool threshold f (f.setExecuted ids)

variable {env : Env} {pool : List Address} {threshold now id i : ℕ} {p : Proposal} {f g : Flow}

@[simp] theorem write_timelock : (write id p f).timelock = f.timelock := rfl

@[simp] theorem write_grant : (write id p f).grant = f.grant := rfl

@[simp] theorem write_nextId : (write id p f).nextId = f.nextId := rfl

@[simp] theorem startTimelock_proposal :
    (startTimelock threshold now id p f).proposal = f.proposal := by
  unfold startTimelock
  split <;> rfl

@[simp] theorem startTimelock_nextId :
    (startTimelock threshold now id p f).nextId = f.nextId := by
  unfold startTimelock
  split <;> rfl

@[simp] theorem startTimelock_grant :
    (startTimelock threshold now id p f).grant = f.grant := by
  unfold startTimelock
  split <;> rfl

theorem startTimelock_timelock_of_ne (h : i ≠ id) :
    (startTimelock threshold now id p f).timelock i = f.timelock i := by
  unfold startTimelock
  split
  · simp [Function.update_of_ne h]
  · rfl

/-- The unlock time is written at most once, and only for a quorate proposal. -/
theorem startTimelock_timelock {u : ℕ}
    (h : (startTimelock threshold now id p f).timelock i = some u) :
    f.timelock i = some u ∨
      (i = id ∧ u = saturatingU64 (now + timelockDelaySecs) ∧ threshold ≤ p.approvals.length) := by
  by_cases hi : i = id
  · subst hi
    unfold startTimelock at h
    split at h
    · rename_i hc
      simp only [Function.update_self, Option.some.injEq] at h
      exact Or.inr ⟨rfl, h.symm, hc.2⟩
    · exact Or.inl h
  · rw [startTimelock_timelock_of_ne hi] at h
    exact Or.inl h

theorem startTimelock_keeps {u : ℕ} (h : f.timelock i = some u) :
    (startTimelock threshold now id p f).timelock i = some u := by
  unfold startTimelock
  split
  · rename_i hc
    have hi : i ≠ id := by
      rintro rfl
      simp [h] at hc
    simpa [Function.update_of_ne hi] using h
  · exact h

/-- Every approver voted once, with a signature the contract itself cannot give. -/
structure Signed (here : Address) (p : Proposal) : Prop where
  nodup : p.approvals.Nodup
  nonempty : p.approvals ≠ []
  foreign : here ∉ p.approvals

/-- What holds of the flow in every reachable state. -/
structure Wellformed (here : Address) (f : Flow) : Prop where
  fresh : ∀ id, f.nextId ≤ id → f.proposal id = none ∧ f.timelock id = none ∧ f.grant id = none
  signed : ∀ id p, f.proposal id = some p → Signed here p
  cancelled : ∀ id p, f.proposal id = some p → p.cancelled = true → f.grant id = none

theorem Wellformed.lt_nextId {here : Address} (hw : Wellformed here f)
    (hp : f.proposal id = some p) : id < f.nextId := by
  by_contra hn
  simp [(hw.fresh id (not_lt.mp hn)).1] at hp

/-- How one proposal may differ later on. -/
structure Later (p q : Proposal) : Prop where
  creator : q.creator = p.creator
  expiry : q.expiryLedger = p.expiryLedger
  approvals : p.approvals <+: q.approvals
  executed : p.executed = true → q.executed = true
  cancelled : p.cancelled = true → q.cancelled = true

theorem Later.refl (p : Proposal) : Later p p :=
  ⟨rfl, rfl, List.prefix_refl _, id, id⟩

theorem Later.trans {p q r : Proposal} (h : Later p q) (h' : Later q r) : Later p r where
  creator := h'.creator.trans h.creator
  expiry := h'.expiry.trans h.expiry
  approvals := h.approvals.trans h'.approvals
  executed hx := h'.executed (h.executed hx)
  cancelled hc := h'.cancelled (h.cancelled hc)

/-- Proposals are never removed or replaced, and unlock times never change. -/
structure Evolves (f g : Flow) : Prop where
  proposal : ∀ id p, f.proposal id = some p → ∃ q, g.proposal id = some q ∧ Later p q
  timelock : ∀ id u, f.timelock id = some u → g.timelock id = some u
  grant : ∀ id a, f.grant id = some a →
    g.grant id = some a ∨ ∃ q, g.proposal id = some q ∧ q.cancelled = true

theorem Evolves.refl (f : Flow) : Evolves f f :=
  ⟨fun _ p h => ⟨p, h, Later.refl p⟩, fun _ _ h => h, fun _ _ h => Or.inl h⟩

theorem Evolves.trans {f g h : Flow} (hfg : Evolves f g) (hgh : Evolves g h) : Evolves f h where
  proposal id p hp := by
    obtain ⟨q, hq, hpq⟩ := hfg.proposal id p hp
    obtain ⟨r, hr, hqr⟩ := hgh.proposal id q hq
    exact ⟨r, hr, hpq.trans hqr⟩
  timelock id u hu := hgh.timelock id u (hfg.timelock id u hu)
  grant id a ha := by
    rcases hfg.grant id a ha with hg | ⟨q, hq, hc⟩
    · exact hgh.grant id a hg
    · obtain ⟨r, hr, hqr⟩ := hgh.proposal id q hq
      exact Or.inr ⟨r, hr, hqr.cancelled hc⟩

/-- Replacing one proposal by a later version of itself. -/
theorem evolves_write {q : Proposal} (hp : f.proposal id = some p) (hl : Later p q) :
    Evolves f (write id q f) where
  proposal i r hr := by
    by_cases hi : i = id
    · subst hi
      rw [hp] at hr
      cases hr
      exact ⟨q, by simp [write], hl⟩
    · exact ⟨r, by simpa [write, Function.update_of_ne hi] using hr, Later.refl r⟩
  timelock _ _ hu := hu
  grant _ _ ha := Or.inl ha

theorem evolves_startTimelock : Evolves f (startTimelock threshold now id p f) where
  proposal i q hq := ⟨q, by simpa using hq, Later.refl q⟩
  timelock _ _ hu := startTimelock_keeps hu
  grant i a ha := Or.inl (by simpa using ha)

theorem evolves_create {here : Address} (hw : Wellformed here f) (l : Ledger) (creator : Address)
    (description : String) : Evolves f (f.create threshold l creator description) := by
  refine Evolves.trans ?_ evolves_startTimelock
  refine ⟨fun i p hp => ⟨p, ?_, Later.refl p⟩, fun _ _ hu => hu, fun _ _ ha => Or.inl ha⟩
  have hi : i ≠ f.nextId := (hw.lt_nextId hp).ne
  simpa [write, Function.update_of_ne hi] using hp

theorem evolves_bind {action : RoleGrantAction} (hn : f.grant id = none) :
    Evolves f (f.bind id action) where
  proposal _ p hp := ⟨p, hp, Later.refl p⟩
  timelock _ _ hu := hu
  grant i a ha := by
    have hi : i ≠ id := by
      rintro rfl
      simp [hn] at ha
    exact Or.inl (by simpa [bind, Function.update_of_ne hi] using ha)

theorem evolves_cancel (hp : f.proposal id = some p) : Evolves f (f.cancel id p) where
  proposal := by
    have hl : Later p { p with cancelled := true } :=
      ⟨rfl, rfl, List.prefix_refl _, fun h => h, fun _ => rfl⟩
    exact (evolves_write hp hl).proposal
  timelock _ _ hu := hu
  grant i a ha := by
    by_cases hi : i = id
    · subst hi
      exact Or.inr ⟨{ p with cancelled := true }, by simp [cancel, write], rfl⟩
    · exact Or.inl (by simpa [cancel, Function.update_of_ne hi] using ha)

theorem evolves_setExecuted (ids : List ℕ) : Evolves f (f.setExecuted ids) where
  proposal i p hp := by
    by_cases hi : i ∈ ids
    · exact ⟨{ p with executed := true }, by simp [setExecuted, hi, hp],
        ⟨rfl, rfl, List.prefix_refl _, fun _ => rfl, fun h => h⟩⟩
    · exact ⟨p, by simpa [setExecuted, hi] using hp, Later.refl p⟩
  timelock _ _ hu := hu
  grant _ _ ha := Or.inl ha

@[simp] theorem create_grant {l : Ledger} {creator : Address} {description : String} :
    (f.create threshold l creator description).grant = f.grant := by
  simp [create]

theorem step_evolves {here : Address} (hw : Wellformed here f) (h : Step env pool threshold f g) :
    Evolves f g := by
  cases h with
  | keep => exact Evolves.refl f
  | create creator description ha hm => exact evolves_create hw _ _ _
  | createRole creator description action ha hm =>
    refine (evolves_create hw _ _ _).trans (evolves_bind ?_)
    simpa using (hw.fresh f.nextId le_rfl).2.2
  | vote id p voter hp hx hc hv ha hm =>
    refine (evolves_write hp ?_).trans evolves_startTimelock
    exact ⟨rfl, rfl, List.prefix_append _ _, fun h => h, fun h => h⟩
  | cancel id p hp hx => exact evolves_cancel hp
  | execute ids hp => exact evolves_setExecuted ids

theorem wellformed_write {here : Address} (hw : Wellformed here f) (hi : id < f.nextId)
    (hs : Signed here p) (hc : p.cancelled = true → f.grant id = none) :
    Wellformed here (write id p f) where
  fresh i h := by
    have hle : f.nextId ≤ i := h
    have hne : i ≠ id := by omega
    simpa [write, Function.update_of_ne hne] using hw.fresh i h
  signed i q hq := by
    by_cases h : i = id
    · subst h
      simp only [write, Function.update_self, Option.some.injEq] at hq
      exact hq ▸ hs
    · exact hw.signed i q (by simpa [write, Function.update_of_ne h] using hq)
  cancelled i q hq hx := by
    by_cases h : i = id
    · subst h
      simp only [write, Function.update_self, Option.some.injEq] at hq
      exact hc (hq ▸ hx)
    · exact hw.cancelled i q (by simpa [write, Function.update_of_ne h] using hq) hx

theorem wellformed_startTimelock {here : Address} (hw : Wellformed here f) (hi : id < f.nextId) :
    Wellformed here (startTimelock threshold now id p f) where
  fresh i h := by
    have hle : f.nextId ≤ i := by simpa using h
    have hne : i ≠ id := by omega
    simpa [startTimelock_timelock_of_ne hne] using hw.fresh i hle
  signed i q hq := hw.signed i q (by simpa using hq)
  cancelled i q hq hx := by simpa using hw.cancelled i q (by simpa using hq) hx

theorem wellformed_create {here creator : Address} {l : Ledger} {description : String}
    (hw : Wellformed here f) (hc : creator ≠ here) :
    Wellformed here (f.create threshold l creator description) := by
  have hg : Wellformed here { f with nextId := f.nextId + 1 } :=
    ⟨fun i h => hw.fresh i (Nat.le_of_succ_le h), hw.signed, hw.cancelled⟩
  refine wellformed_startTimelock (wellformed_write hg (Nat.lt_succ_self _) ?_ ?_)
    (Nat.lt_succ_self _)
  · refine ⟨?_, ?_, ?_⟩
    · simp [newProposal]
    · simp [newProposal]
    · simpa [newProposal] using hc.symm
  · intro hx
    simp [newProposal] at hx

theorem wellformed_bind {here : Address} {action : RoleGrantAction} (hw : Wellformed here f)
    (hi : id < f.nextId) (hc : ∀ p, f.proposal id = some p → p.cancelled = false) :
    Wellformed here (f.bind id action) where
  fresh i h := by
    have hle : f.nextId ≤ i := h
    have hne : i ≠ id := by omega
    simpa [bind, Function.update_of_ne hne] using hw.fresh i h
  signed := hw.signed
  cancelled i q hq hx := by
    have hne : i ≠ id := by
      rintro rfl
      simp [hc q hq] at hx
    simpa [bind, Function.update_of_ne hne] using hw.cancelled i q hq hx

theorem wellformed_unbind {here : Address} (hw : Wellformed here f) (id : ℕ) :
    Wellformed here { f with grant := Function.update f.grant id none } where
  fresh i h := by
    have hf := hw.fresh i h
    refine ⟨hf.1, hf.2.1, ?_⟩
    by_cases he : i = id
    · simp [he]
    · simpa [Function.update_of_ne he] using hf.2.2
  signed := hw.signed
  cancelled i q hq hx := by
    by_cases he : i = id
    · simp [he]
    · simpa [Function.update_of_ne he] using hw.cancelled i q hq hx

/-- Execution touches neither the votes nor the cancelled flag. -/
theorem setExecuted_proposal {ids : List ℕ} {q : Proposal}
    (hq : (f.setExecuted ids).proposal i = some q) :
    ∃ p, f.proposal i = some p ∧ q.approvals = p.approvals ∧ q.cancelled = p.cancelled := by
  by_cases hi : i ∈ ids
  · simp only [setExecuted, hi, if_true, Option.map_eq_some_iff] at hq
    obtain ⟨p, hp, rfl⟩ := hq
    exact ⟨p, hp, rfl, rfl⟩
  · exact ⟨q, by simpa [setExecuted, hi] using hq, rfl, rfl⟩

theorem wellformed_setExecuted {here : Address} (hw : Wellformed here f) (ids : List ℕ) :
    Wellformed here (f.setExecuted ids) where
  fresh i h := by
    have hf := hw.fresh i h
    by_cases hi : i ∈ ids
    · simp [setExecuted, hi, hf]
    · simp [setExecuted, hi, hf]
  signed i q hq := by
    obtain ⟨p, hp, ha, -⟩ := setExecuted_proposal hq
    have hs := hw.signed i p hp
    exact ⟨ha ▸ hs.nodup, ha ▸ hs.nonempty, ha ▸ hs.foreign⟩
  cancelled i q hq hx := by
    obtain ⟨p, hp, -, hc⟩ := setExecuted_proposal hq
    exact hw.cancelled i p hp (hc ▸ hx)

theorem signed_vote {here voter : Address} (hs : Signed here p) (hv : voter ∉ p.approvals)
    (hne : voter ≠ here) : Signed here { p with approvals := p.approvals ++ [voter] } := by
  refine ⟨?_, ?_, ?_⟩
  · rw [List.nodup_append]
    refine ⟨hs.nodup, by simp, ?_⟩
    intro a hm b hb
    rw [List.mem_singleton.mp hb]
    rintro rfl
    exact hv hm
  · simp
  · simp only [List.mem_append, List.mem_singleton, not_or]
    exact ⟨hs.foreign, hne.symm⟩

theorem step_wellformed {here : Address} (henv : ∀ a, env.Authorized a → a ≠ here)
    (hw : Wellformed here f) (h : Step env pool threshold f g) : Wellformed here g := by
  cases h with
  | keep => exact hw
  | create creator description ha hm => exact wellformed_create hw (henv _ ha)
  | createRole creator description action ha hm =>
    refine wellformed_bind (wellformed_create hw (henv _ ha)) ?_ ?_
    · simp [create]
    · intro p hp
      simp only [create, startTimelock_proposal, write, Function.update_self,
        Option.some.injEq] at hp
      rw [← hp]
      rfl
  | vote id p voter hp hx hc hv ha hm =>
    have hi := hw.lt_nextId hp
    have hs := signed_vote (hw.signed id p hp) hv (henv _ ha)
    exact wellformed_startTimelock (wellformed_write hw hi hs (hw.cancelled id p hp)) hi
  | cancel id p hp hx =>
    have hs := hw.signed id p hp
    refine wellformed_write (wellformed_unbind hw id) (hw.lt_nextId hp)
      ⟨hs.nodup, hs.nonempty, hs.foreign⟩ ?_
    intro _
    simp
  | execute ids hp => exact wellformed_setExecuted hw ids

/-- Where the approvals of an open proposal come from: an earlier version of it, and voters that
were in the pool. -/
theorem step_approvals {q : Proposal} (h : Step env pool threshold f g)
    (hq : g.proposal i = some q) (hx : q.executed = false) :
    (∃ p, f.proposal i = some p ∧ p.executed = false ∧
      ∀ a ∈ q.approvals, a ∈ p.approvals ∨ a ∈ pool) ∨ ∀ a ∈ q.approvals, a ∈ pool := by
  have hold : f.proposal i = some q → (∃ p, f.proposal i = some p ∧ p.executed = false ∧
      ∀ a ∈ q.approvals, a ∈ p.approvals ∨ a ∈ pool) ∨ ∀ a ∈ q.approvals, a ∈ pool :=
    fun hp => Or.inl ⟨q, hp, hx, fun a ha => Or.inl ha⟩
  have hcreate : ∀ creator description, creator ∈ pool →
      (f.create threshold env.ledger creator description).proposal i = some q →
      (∃ p, f.proposal i = some p ∧ p.executed = false ∧
        ∀ a ∈ q.approvals, a ∈ p.approvals ∨ a ∈ pool) ∨ ∀ a ∈ q.approvals, a ∈ pool := by
    intro creator description hm hq
    by_cases hi : i = f.nextId
    · subst hi
      simp only [create, startTimelock_proposal, write, Function.update_self,
        Option.some.injEq] at hq
      subst hq
      exact Or.inr (by simpa [newProposal] using hm)
    · exact hold (by simpa [create, write, Function.update_of_ne hi] using hq)
  cases h with
  | keep => exact hold hq
  | create creator description ha hm => exact hcreate creator description hm hq
  | createRole creator description action ha hm => exact hcreate creator description hm hq
  | vote id p voter hp hx' hc hv ha hm =>
    by_cases hi : i = id
    · subst hi
      simp only [vote, startTimelock_proposal, write, Function.update_self,
        Option.some.injEq] at hq
      subst hq
      refine Or.inl ⟨p, hp, hx', fun a ha => ?_⟩
      simp only [List.mem_append, List.mem_singleton] at ha
      rcases ha with ha | rfl
      · exact Or.inl ha
      · exact Or.inr hm
    · exact hold (by simpa [vote, write, Function.update_of_ne hi] using hq)
  | cancel id p hp hx' =>
    by_cases hi : i = id
    · subst hi
      simp only [cancel, write, Function.update_self, Option.some.injEq] at hq
      subst hq
      exact Or.inl ⟨p, hp, hx', fun a ha => Or.inl ha⟩
    · exact hold (by simpa [cancel, write, Function.update_of_ne hi] using hq)
  | execute ids hp =>
    by_cases hi : i ∈ ids
    · simp only [setExecuted, hi, if_true, Option.map_eq_some_iff] at hq
      obtain ⟨p, -, rfl⟩ := hq
      simp at hx
    · exact hold (by simpa [setExecuted, hi] using hq)

/-- A new unlock time dates from a vote that met the threshold. -/
theorem step_timelock {u : ℕ} (h : Step env pool threshold f g) (hu : g.timelock i = some u) :
    f.timelock i = some u ∨
      (u = saturatingU64 (env.ledger.timestamp + timelockDelaySecs) ∧
        ∃ p, g.proposal i = some p ∧ threshold ≤ p.approvals.length) := by
  cases h with
  | keep => exact Or.inl hu
  | create creator description ha hm =>
    rcases startTimelock_timelock hu with h | ⟨rfl, hu, hq⟩
    · exact Or.inl h
    · exact Or.inr ⟨hu, newProposal env.ledger creator description, by simp [create, write], hq⟩
  | createRole creator description action ha hm =>
    rcases startTimelock_timelock hu with h | ⟨rfl, hu, hq⟩
    · exact Or.inl h
    · exact Or.inr ⟨hu, newProposal env.ledger creator description, by simp [create, write, bind],
        hq⟩
  | vote id p voter hp hx hc hv ha hm =>
    rcases startTimelock_timelock hu with h | ⟨rfl, hu, hq⟩
    · exact Or.inl h
    · exact Or.inr ⟨hu, { p with approvals := p.approvals ++ [voter] }, by simp [vote, write], hq⟩
  | cancel id p hp hx => exact Or.inl hu
  | execute ids hp => exact Or.inl hu

end Flow

end BcForge.Admin
