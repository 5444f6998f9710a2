import BcForge.Admin.Invariant
import Mathlib.Data.List.Dedup
import Mathlib.Data.List.Perm.Subperm

/-! Whose votes an execution rests on: approvals are counted by number, while the pool may have
been replaced since they were given. -/
namespace BcForge.Admin

open Soroban

/-- The legacy proposals a call executes against the threshold. -/
def Op.regular : Op → List ℕ
  | .markExecuted id => [id]
  | .executeRoleProposal _ id => [id]
  | .executeUpgrade _ id _ => [id]
  | .executeUpgradeBatch _ ids _ => ids
  | _ => []

/-- The legacy proposals a call executes by unanimity. -/
def Op.emergency : Op → List ℕ
  | .emergencyExecuteUpgrade _ id _ => [id]
  | _ => []

/-- The distinct approvers that are pool members now. -/
def currentApprovers (pool approvals : List Address) : List Address :=
  (approvals.filter (· ∈ pool)).dedup

/-- The approvers that have left the pool since they voted. -/
def departed (pool approvals : List Address) : List Address :=
  approvals.filter (· ∉ pool)

def ByCurrentMembers (s : Store) (op : Op) : Prop :=
  (∀ id ∈ op.regular, ∃ p, s.proposal id = some p ∧
    getThreshold s ≤ (currentApprovers (getAdminPool s) p.approvals).length) ∧
  (∀ id ∈ op.emergency, ∃ p, s.proposal id = some p ∧
    ∀ m ∈ getAdminPool s, m ∈ currentApprovers (getAdminPool s) p.approvals)

/-- Departed approvers are made up for by votes beyond the threshold or, where the pool lists a
member twice, by its repeated entries. -/
def DeparturesCovered (s : Store) (op : Op) : Prop :=
  (∀ id ∈ op.regular, ∃ p, s.proposal id = some p ∧
    (departed (getAdminPool s) p.approvals).length ≤ p.approvals.length - getThreshold s) ∧
  (∀ id ∈ op.emergency, ∃ p, s.proposal id = some p ∧
    (departed (getAdminPool s) p.approvals).length ≤
      (getAdminPool s).length - (getAdminPool s).dedup.length)

def OnSuccess (C : Store → Op → Prop) : World Store → Label Op → Prop :=
  World.OnSuccess exec fun w op => C w.store op

/-- Nobody who approved a proposal that is still unexecuted is dropped from the pool. -/
def KeepsApprovers (w : World Store) : Label Op → Prop
  | .call _ _ (.setAdminPool pool _) =>
    ∀ id p, w.store.proposal id = some p → p.executed = false → p.approvals ⊆ pool
  | .call _ _ (.setAdmin admin) =>
    w.store.adminPool = none →
      ∀ id p, w.store.proposal id = some p → p.executed = false → p.approvals ⊆ [admin]
  | _ => True

section Counting

variable {pool approvals : List Address}

theorem currentApprovers_add_departed (pool : List Address) (h : approvals.Nodup) :
    (currentApprovers pool approvals).length + (departed pool approvals).length =
      approvals.length := by
  have hn : (approvals.filter (· ∈ pool)).Nodup := h.filter _
  have hsplit := List.length_eq_length_filter_add (l := approvals) (fun a => decide (a ∈ pool))
  rw [currentApprovers, departed, hn.dedup, hsplit]
  congr 2
  apply List.filter_congr
  intro a _
  simp

theorem currentApprovers_subset : currentApprovers pool approvals ⊆ pool.dedup := by
  intro a ha
  simp only [currentApprovers, List.mem_dedup, List.mem_filter, decide_eq_true_eq] at ha
  exact List.mem_dedup.mpr ha.2

/-- Every member approved exactly when the current approvers are as many as the members. -/
theorem unanimous_iff : (∀ m ∈ pool, m ∈ currentApprovers pool approvals) ↔
    pool.dedup.length ≤ (currentApprovers pool approvals).length := by
  have hn : (currentApprovers pool approvals).Nodup := List.nodup_dedup _
  constructor
  · intro h
    apply List.Nodup.length_le_of_subset (List.nodup_dedup pool)
    intro m hm
    exact h m (List.mem_dedup.mp hm)
  · intro h m hm
    have hp := (hn.subperm currentApprovers_subset).perm_of_length_le h
    exact hp.mem_iff.mpr (List.mem_dedup.mpr hm)

end Counting

variable {w : World Store} {ls : List (Label Op)} {env : Env} {s s' : Store} {op : Op}

theorem regular_executable (h : Runs (exec op) env s () s') {id : ℕ} (hid : id ∈ op.regular) :
    ∃ p, s.proposal id = some p ∧ Executable env.ledger (getThreshold s) p := by
  cases op with
  | markExecuted i =>
    obtain ⟨-, -, -, p, hp, hl, -⟩ := runs_markExecuted.mp h
    rw [List.mem_singleton.mp hid]
    exact ⟨p, hp, hl⟩
  | executeRoleProposal x i =>
    obtain ⟨-, -, -, -, p, hp, hl, -⟩ := runs_executeRoleProposal.mp h
    rw [List.mem_singleton.mp hid]
    exact ⟨p, hp, hl⟩
  | executeUpgrade x i hash =>
    obtain ⟨-, -, -, -, p, hp, hl, -⟩ := runs_executeUpgrade.mp h
    rw [List.mem_singleton.mp hid]
    exact ⟨p, hp, hl⟩
  | executeUpgradeBatch x ids hashes =>
    obtain ⟨p, hp, hl, -⟩ := (runs_executeUpgradeBatch h).1 id hid
    exact ⟨p, hp, hl⟩
  | _ => cases hid

theorem emergency_unanimous (h : Runs (exec op) env s () s') {id : ℕ} (hid : id ∈ op.emergency) :
    ∃ p, s.proposal id = some p ∧ p.executed = false ∧
      p.approvals.length = (getAdminPool s).length ∧
      ∃ m ∈ getAdminPool s, env.Authorized m := by
  cases op with
  | emergencyExecuteUpgrade x i hash =>
    obtain ⟨-, ha, hm, -, p, hp, hx, hl, -⟩ := runs_emergencyExecuteUpgrade.mp h
    rw [List.mem_singleton.mp hid]
    exact ⟨p, hp, hx, hl, x, hm, ha⟩
  | _ => cases hid

/-- On success the two conditions agree, because no approver is counted twice. -/
theorem byCurrentMembers_iff (hw : s.flow.Wellformed env.self) (h : Runs (exec op) env s () s') :
    ByCurrentMembers s op ↔ DeparturesCovered s op := by
  refine and_congr (forall₂_congr fun id hid => ?_) (forall₂_congr fun id hid => ?_)
  · obtain ⟨p, hp, hl⟩ := regular_executable h hid
    have hcount := currentApprovers_add_departed (getAdminPool s) (hw.signed id p hp).nodup
    have hq := hl.quorate
    constructor
    · rintro ⟨q, hq', hc⟩
      cases hp.symm.trans hq'
      exact ⟨p, hp, by omega⟩
    · rintro ⟨q, hq', hc⟩
      cases hp.symm.trans hq'
      exact ⟨p, hp, by omega⟩
  · obtain ⟨p, hp, -, hl, -⟩ := emergency_unanimous h hid
    have hcount := currentApprovers_add_departed (getAdminPool s) (hw.signed id p hp).nodup
    have hle := (List.dedup_sublist (getAdminPool s)).length_le
    constructor
    · rintro ⟨q, hq', hc⟩
      cases hp.symm.trans hq'
      have hu := unanimous_iff.mp hc
      exact ⟨p, hp, by omega⟩
    · rintro ⟨q, hq', hc⟩
      cases hp.symm.trans hq'
      exact ⟨p, hp, unanimous_iff.mpr (by omega)⟩

/-- The approvers of every unexecuted proposal are in the pool. -/
def ApproversCurrent (s : Store) : Prop :=
  ∀ id p, s.proposal id = some p → p.executed = false → p.approvals ⊆ getAdminPool s

theorem departed_eq_nil {pool approvals : List Address} (h : approvals ⊆ pool) :
    departed pool approvals = [] := by
  simp only [departed, List.filter_eq_nil_iff, decide_eq_true_eq, not_not]
  exact fun a ha => h ha

theorem approversCurrent_covers (hc : ApproversCurrent s) (h : Runs (exec op) env s () s') :
    DeparturesCovered s op := by
  refine ⟨fun id hid => ?_, fun id hid => ?_⟩
  · obtain ⟨p, hp, hl⟩ := regular_executable h hid
    refine ⟨p, hp, ?_⟩
    rw [departed_eq_nil (hc id p hp hl.executed)]
    exact Nat.zero_le _
  · obtain ⟨p, hp, hx, -⟩ := emergency_unanimous h hid
    refine ⟨p, hp, ?_⟩
    rw [departed_eq_nil (hc id p hp hx)]
    exact Nat.zero_le _

theorem approversCurrent_next {l : Label Op} (hc : ApproversCurrent w.store)
    (hk : KeepsApprovers w l) : ApproversCurrent (w.next exec l).store := by
  intro id q hq hx
  rcases next_moves w l with hs | ⟨signers, uploaded, op, rfl, hm | hr⟩
  · rw [hs] at hq ⊢
    exact hc id q hq hx
  · rw [hm.rules.getAdminPool_eq]
    rcases Flow.step_approvals hm.step hq hx with ⟨p, hp, hpx, ha⟩ | ha
    · intro a hmem
      rcases ha a hmem with h | h
      · exact hc id p hp hpx h
      · exact h
    · exact ha
  · have hq' : w.store.proposal id = some q := by
      have hf : (w.next exec _).store.proposal = w.store.proposal := congrArg Flow.proposal hr.flow
      rw [← hf]
      exact hq
    cases hr with
    | pool pool n hop hs =>
      subst hop
      rw [hs]
      exact hk id q hq' hx
    | admin c hop hs =>
      subst hop
      cases hpool : w.store.adminPool with
      | none =>
        have hp :
            getAdminPool (w.next exec (.call signers uploaded (.setAdmin c))).store = [c] := by
          simp [getAdminPool, hs.rules.pool, hs.rules.admin, hpool]
        rw [hp]
        exact hk hpool id q hq' hx
      | some pool =>
        have hp : getAdminPool (w.next exec (.call signers uploaded (.setAdmin c))).store =
            getAdminPool w.store := by
          simp [getAdminPool, hs.rules.pool, hpool]
        rw [hp]
        exact hc id q hq' hx

/-- Executions rest on the current members exactly when departed approvers are covered each time,
so always when the pool never drops an approver of an unexecuted proposal. -/
theorem executions_by_current_members (h : w.store = Store.empty) :
    (w.EveryStep exec (OnSuccess ByCurrentMembers) ls ↔
      w.EveryStep exec (OnSuccess DeparturesCovered) ls) ∧
    (w.EveryStep exec KeepsApprovers ls → w.EveryStep exec (OnSuccess ByCurrentMembers) ls) := by
  have hiff : ∀ (w : World Store) l, Sound w →
      (OnSuccess ByCurrentMembers w l ↔ OnSuccess DeparturesCovered w l) := by
    intro w l hs
    cases l with
    | close l => exact Iff.rfl
    | call signers uploaded op =>
      exact forall₂_congr fun s' hr => byCurrentMembers_iff hs.flow hr
  refine ⟨⟨?_, ?_⟩, ?_⟩
  · exact World.everyStep_mono (sound_empty h) (fun _ _ hs _ => sound_next hs)
      fun w l hs hc => (hiff w l hs).mp hc
  · exact World.everyStep_mono (sound_empty h) (fun _ _ hs _ => sound_next hs)
      fun w l hs hc => (hiff w l hs).mpr hc
  · refine World.everyStep_mono (I := fun w => Sound w ∧ ApproversCurrent w.store)
      ⟨sound_empty h, ?_⟩ ?_ ?_
    · intro id p hp
      rw [h] at hp
      cases hp
    · intro w l hw hk
      exact ⟨sound_next hw.1, approversCurrent_next hw.2 hk⟩
    · intro w l hw _
      refine (hiff w l hw.1).mpr ?_
      cases l with
      | close l => trivial
      | call signers uploaded op => exact fun s' hr => approversCurrent_covers hw.2 hr

/-- A contract at address 100, just deployed. -/
def deployed : World Store where
  ledger := .ofNat 1000 1700000000
  self := ⟨100⟩
  store := Store.empty

/-- A pool change that leaves both approvers in, before the execution. -/
def extendedPool : List (Label Op) :=
  [.call [⟨1⟩] [] (.setAdmin ⟨1⟩),
   .call [⟨1⟩] [] (.setAdminPool [⟨1⟩, ⟨2⟩, ⟨3⟩] 2),
   .call [⟨1⟩] [] (.createProposal ⟨1⟩ "upgrade"),
   .call [⟨2⟩] [] (.approveProposal ⟨2⟩ 0),
   .call [⟨1⟩] [] (.setAdminPool [⟨1⟩, ⟨2⟩, ⟨4⟩] 2),
   .call [⟨1⟩] [] (.markExecuted 0)]

theorem extendedPool_keepsApprovers : deployed.EveryStep exec KeepsApprovers extendedPool := by
  refine ⟨?_, ?_, trivial, trivial, ?_, trivial, trivial⟩
  · rintro - id p ⟨⟩
  · rintro id p ⟨⟩
  · intro id p hp hx
    have hs : Sound (deployed.run exec (extendedPool.take 4)) := sound_run rfl _
    have hlt := hs.flow.lt_nextId hp
    have hn : (deployed.run exec (extendedPool.take 4)).store.flow.nextId = 1 := by decide
    have hid : id = 0 := by omega
    subst hid
    cases hp
    decide

theorem executions_by_current_members_extendedPool :
    deployed.EveryStep exec (OnSuccess ByCurrentMembers) extendedPool ∧
      ((deployed.run exec extendedPool).store.proposal 0).any (·.executed) = true :=
  ⟨(executions_by_current_members rfl).2 extendedPool_keepsApprovers, by decide⟩

/-- Two members approve, both are replaced, and one of the replacements executes. -/
def replacedPool : List (Label Op) :=
  [.call [⟨1⟩] [] (.setAdmin ⟨1⟩),
   .call [⟨1⟩] [] (.setAdminPool [⟨1⟩, ⟨2⟩] 2),
   .call [⟨1⟩] [] (.createProposal ⟨1⟩ "upgrade"),
   .call [⟨2⟩] [] (.approveProposal ⟨2⟩ 0),
   .call [⟨1⟩] [] (.setAdminPool [⟨3⟩, ⟨4⟩] 2),
   .call [⟨3⟩] [7] (.emergencyExecuteUpgrade ⟨3⟩ 0 7)]

theorem replacedPool_unapproved :
    ¬ deployed.EveryStep exec (OnSuccess ByCurrentMembers) replacedPool := by
  rintro ⟨-, -, -, -, -, h, -⟩
  obtain ⟨p, hp, hm⟩ := (h _ (runs_invoke (by decide))).2 0 (by decide)
  cases hp
  have hm3 := hm ⟨3⟩ (by decide)
  revert hm3
  decide

end BcForge.Admin
