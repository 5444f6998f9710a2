import BcForge.Token.Conservation
import Mathlib.Order.Bounds.Basic

/-! Lockups: what is locked is what was locked since the last withdrawal, until the latest of the
times given. -/
namespace BcForge.BcForgeToken

open Soroban Call Admin

variable {w : World Store} {l : Label Op} {ls : List (Label Op)} {u : Address} {op : Op}
  {signers : List Address} {uploaded : List BytesN32} {s s' : Store}

/-- Amounts and unlock times, in the order they were locked. -/
abbrev Locks := List (ℤ × ℕ)

/-- A successful `lock_tokens` for `u` adds to the record, a successful `withdraw_locked` clears
it. -/
def recordLock (u : Address) (w : World Store) (h : Locks) : Label Op → Locks
  | .call signers uploaded (.lockTokens caller user amount unlock) =>
    if user = u ∧ (exec (.lockTokens caller user amount unlock) (w.env signers uploaded)
        w.store).isOk = true then h ++ [(amount, unlock)]
    else h
  | .call signers uploaded (.withdrawLocked user) =>
    if user = u ∧ (exec (.withdrawLocked user) (w.env signers uploaded) w.store).isOk = true then []
    else h
  | _ => h

/-- The locks of `u` since its last withdrawal in the run, or since the start. -/
def locksSince (u : Address) (w : World Store) (ls : List (Label Op)) : Locks :=
  w.foldSteps exec (recordLock u) [] ls

/-- The stored lock is the record's: the sum of its amounts, until the latest of its times. -/
structure Recorded (u : Address) (s : Store) (h : Locks) : Prop where
  amount : getLockedAmount s u = (h.map Prod.fst).sum
  empty : s.lockup u = none ↔ h = []
  unlock : ∀ lock, s.lockup u = some lock → IsGreatest {t | ∃ x, (x, t) ∈ h} lock.unlockTimestamp

theorem recorded_of_lockup {h : Locks} (hr : Recorded u s h) (hl : s'.lockup u = s.lockup u) :
    Recorded u s' h := by
  refine ⟨?_, ?_, ?_⟩
  · rw [getLockedAmount, hl]
    exact hr.amount
  · rw [hl]
    exact hr.empty
  · rw [hl]
    exact hr.unlock

/-- A further time beside the latest one so far. -/
theorem isGreatest_append {h : Locks} {t : ℕ} (x : ℤ) (unlock : ℕ)
    (hg : IsGreatest {t | ∃ x, (x, t) ∈ h} t) :
    IsGreatest {t | ∃ y, (y, t) ∈ h ++ [(x, unlock)]} (max t unlock) := by
  have hset : {t | ∃ y, (y, t) ∈ h ++ [(x, unlock)]} = {t | ∃ y, (y, t) ∈ h} ∪ {unlock} := by
    ext t'
    simpa [exists_or] using or_comm
  rw [hset]
  exact hg.union isGreatest_singleton

theorem recorded_lock {h : Locks} {x : ℤ} {unlock : ℕ} (hr : Recorded u s h) :
    Recorded u (writeLockup u (some ⟨getLockedAmount s u + x,
      (s.lockup u).elim unlock fun l => max l.unlockTimestamp unlock⟩) s) (h ++ [(x, unlock)]) := by
  have hself : ∀ v, (writeLockup u v s).lockup u = v := fun v => Function.update_self ..
  refine ⟨?_, ?_, ?_⟩
  · rw [getLockedAmount, hself]
    simp [hr.amount]
  · rw [hself]
    simp
  · rw [hself]
    rintro _ ⟨⟩
    cases hl : s.lockup u with
    | none =>
      rw [hr.empty.mp hl]
      simp [isGreatest_singleton]
    | some lock => exact isGreatest_append x unlock (hr.unlock lock hl)

theorem recorded_clear : Recorded u (writeLockup u none s) [] := by
  have hself : (writeLockup u none s).lockup u = none := Function.update_self ..
  refine ⟨?_, ?_, ?_⟩
  · rw [getLockedAmount, hself]
    rfl
  · exact ⟨fun _ => rfl, fun _ => hself⟩
  · intro lock hl
    rw [hself] at hl
    cases hl

theorem lockup_writeLockup_of_ne {user : Address} (v : Option LockupState) (h : u ≠ user) :
    (writeLockup user v s).lockup u = s.lockup u :=
  Function.update_of_ne h ..

theorem recordLock_of_not_locks {h : Locks} (hop : op.locks = false) :
    recordLock u w h (.call signers uploaded op) = h := by
  cases op with
  | lockTokens caller user amount unlock => cases hop
  | withdrawLocked user => cases hop
  | _ => rfl

/-- A call that fails is not recorded. -/
theorem recordLock_of_failed {h : Locks}
    (hfail : ¬ (exec op (w.env signers uploaded) w.store).isOk = true) :
    recordLock u w h (.call signers uploaded op) = h := by
  cases op with
  | lockTokens caller user amount unlock => simp [recordLock, hfail]
  | withdrawLocked user => simp [recordLock, hfail]
  | _ => rfl

theorem recorded_call {h : Locks} (hr : Recorded u w.store h)
    (hrun : Runs (exec op) (w.env signers uploaded) w.store () s') :
    Recorded u s' (recordLock u w h (.call signers uploaded op)) := by
  have hok : (exec op (w.env signers uploaded) w.store).isOk = true := isOk_of_runs hrun
  by_cases hop : op.locks = false
  · rw [recordLock_of_not_locks hop]
    have hkeeps := exec_keeps op hop _ _ _ _ hrun
    exact recorded_of_lockup hr (congrFun hkeeps.lockup u)
  · cases op with
    | lockTokens caller user amount unlock =>
      obtain ⟨-, -, rfl⟩ := runs_lockTokens hrun
      by_cases hu : user = u
      · subst hu
        have hrec : recordLock user w h
            (.call signers uploaded (.lockTokens caller user amount unlock)) =
            h ++ [(amount, unlock)] := if_pos ⟨rfl, hok⟩
        rw [hrec]
        exact recorded_lock hr
      · have hrec : recordLock u w h
            (.call signers uploaded (.lockTokens caller user amount unlock)) = h :=
          if_neg fun hc => hu hc.1
        rw [hrec]
        exact recorded_of_lockup hr (lockup_writeLockup_of_ne _ (Ne.symm hu))
    | withdrawLocked user =>
      obtain ⟨-, -, lock, -, -, rfl⟩ := runs_withdrawLocked.mp hrun
      by_cases hu : user = u
      · subst hu
        have hrec : recordLock user w h (.call signers uploaded (.withdrawLocked user)) = [] :=
          if_pos ⟨rfl, hok⟩
        rw [hrec]
        exact recorded_clear
      · have hrec : recordLock u w h (.call signers uploaded (.withdrawLocked user)) = h :=
          if_neg fun hc => hu hc.1
        rw [hrec]
        exact recorded_of_lockup hr (lockup_writeLockup_of_ne _ (Ne.symm hu))
    | initializeToken a d n m => exact absurd hrun not_runs_initializeToken
    | _ => exact absurd rfl hop

theorem recorded_next {h : Locks} (hr : Recorded u w.store h) :
    Recorded u (w.next exec l).store (recordLock u w h l) := by
  cases l with
  | close l =>
    rw [World.next_close_store]
    exact hr
  | call signers uploaded op =>
    rcases World.call_cases exec w signers uploaded op with hrun | ⟨hfail, hs⟩
    · exact recorded_call hr hrun
    · rw [recordLock_of_failed hfail, hs]
      exact hr

theorem initialized_next (h : hasAdmin w.store.access = true) :
    hasAdmin (w.next exec l).store.access = true := by
  refine World.next_store (P := fun s : Store => hasAdmin s.access = true) h ?_
  intro signers uploaded op s' hrun
  by_cases hop : op.locks = false
  · exact (exec_keeps op hop _ _ _ _ hrun).stays h
  · cases op with
    | lockTokens caller user amount unlock =>
      obtain ⟨-, -, rfl⟩ := runs_lockTokens hrun
      exact h
    | withdrawLocked user =>
      obtain ⟨-, -, lock, -, -, rfl⟩ := runs_withdrawLocked.mp hrun
      exact h
    | initializeToken a d n m => exact absurd hrun not_runs_initializeToken
    | _ => exact absurd rfl hop

theorem Deployed.initialized (h : Deployed w) :
    hasAdmin w.store.access = true ∧ ∀ u, w.store.lockup u = none := by
  obtain ⟨env, adminAddress, decimal, name, symbol, foreign, -, h⟩ := h
  simp only [initializeToken, runs_self_bind, runs_requireAuth_bind, runs_gets_bind,
    runs_failIf_bind] at h
  obtain ⟨-, -, h⟩ := h
  obtain ⟨_, s, hadmin, h⟩ := runs_bind.mp h
  obtain ⟨access, hset, rfl⟩ := runs_within.mp hadmin
  rw [runs_modify.mp h]
  refine ⟨?_, fun _ => rfl⟩
  change hasAdmin access = true
  rw [hasAdmin, (runs_setAdmin hset).rules.admin]
  rfl

/-- A lock accounts for what was locked since the last withdrawal; its holder can withdraw it
exactly from its time on, and until then has at least that much. -/
structure LockLaw (u : Address) (w : World Store) (h : Locks) : Prop where
  recorded : Recorded u w.store h
  withdraw : ∀ lock signers uploaded, w.store.lockup u = some lock →
    (w.env signers uploaded).Authorized u →
      ((∃ s', Runs (exec (.withdrawLocked u)) (w.env signers uploaded) w.store () s') ↔
        lock.unlockTimestamp ≤ w.ledger.timestamp)
  covered : getLockedAmount w.store u ≤ w.store.balance u

theorem withdrawLocked_iff {lock : LockupState} (hi : hasAdmin w.store.access = true)
    (hl : w.store.lockup u = some lock) (ha : (w.env signers uploaded).Authorized u) :
    (∃ s', Runs (exec (.withdrawLocked u)) (w.env signers uploaded) w.store () s') ↔
      lock.unlockTimestamp ≤ w.ledger.timestamp := by
  constructor
  · rintro ⟨s', hrun⟩
    obtain ⟨-, -, lock', hl', hle, -⟩ := runs_withdrawLocked.mp hrun
    obtain rfl : lock = lock' := Option.some.inj (hl.symm.trans hl')
    exact hle
  · intro hle
    exact ⟨_, runs_withdrawLocked.mpr ⟨hi, ha, lock, hl, hle, rfl⟩⟩

/-- The law holds at every moment of every run, for every holder. -/
theorem lockup_law (h : Deployed w) (u : Address) (ls : List (Label Op)) :
    LockLaw u (w.run exec ls) (locksSince u w ls) := by
  have hstart : Recorded u w.store [] := by
    have hnone := h.initialized.2 u
    refine ⟨by simp [getLockedAmount, hnone], by simp [hnone], ?_⟩
    intro lock hl
    rw [hnone] at hl
    cases hl
  have hrecorded : Recorded u (w.run exec ls).store (locksSince u w ls) :=
    World.run_induction_fold (J := fun w h => Recorded u w.store h) hstart
      fun _ _ _ hr => recorded_next hr
  have hsound : (w.run exec ls).store.ledger.Sound :=
    World.run_induction (P := fun w : World Store => w.store.ledger.Sound) (sound_deployed h)
      fun _ _ hs => sound_next hs
  have hinit : hasAdmin (w.run exec ls).store.access = true :=
    World.run_induction (P := fun w : World Store => hasAdmin w.store.access = true) h.initialized.1
      fun _ _ hi => initialized_next hi
  exact ⟨hrecorded, fun lock signers uploaded hl ha => withdrawLocked_iff hinit hl ha,
    hsound.locked_le u⟩

/-- Two locks of account 2, an attempt to spend what they hold, and a transfer of the rest. -/
def lockedRun : List (Label Op) :=
  [.call [⟨1⟩] [] (.mint ⟨1⟩ ⟨2⟩ 1000),
   .call [⟨1⟩] [] (.lockTokens ⟨1⟩ ⟨2⟩ 300 1700000100),
   .call [⟨1⟩] [] (.lockTokens ⟨1⟩ ⟨2⟩ 200 1700000050),
   .call [⟨2⟩] [] (.transfer ⟨2⟩ ⟨3⟩ 501),
   .call [⟨2⟩] [] (.transfer ⟨2⟩ ⟨3⟩ 500)]

theorem lockup_law_lockedRun :
    LockLaw ⟨2⟩ (genesis.run exec lockedRun) (locksSince ⟨2⟩ genesis lockedRun) ∧
      locksSince ⟨2⟩ genesis lockedRun = [(300, 1700000100), (200, 1700000050)] ∧
      (genesis.run exec lockedRun).store.balance ⟨2⟩ = 500 :=
  ⟨lockup_law genesis_deployed ⟨2⟩ lockedRun, by decide +kernel, by decide +kernel⟩

end BcForge.BcForgeToken
