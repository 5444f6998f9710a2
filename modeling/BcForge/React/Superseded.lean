import BcForge.Concurrent.Isolation
import BcForge.React.Wallet

/-! The attempts to connect that a later command has superseded: what is left of them, and when
nothing is. -/
namespace BcForge.React.WalletMachine

open Concurrent

variable {p : String} {s t : WalletMachine} {n k : ℕ} {e : WalletEvent} {answers : List WalletEvent}

/-- The provider as one attempt sees it: no other attempt is there, and no adapter but the one in
use. -/
def only (n : ℕ) (s : WalletMachine) : WalletMachine :=
  { s with
    adapters := fun adapter =>
      if s.activeAdapter = some adapter then s.adapters adapter else ⟨false, none, none, none⟩
    attempts := Function.update (fun _ => none) n (s.attempts n) }

/-- The answers to one attempt, and what is nobody's. -/
def ownedBy (n : ℕ) : WalletEvent → Bool
  | .resolved k | .rejected k _ | .probed k _ => k = n
  | .render | .adapterChanges _ _ | .scriptFailed => true
  | .connect _ _ | .connectWallet _ _ _ | .restore | .disconnect | .scriptLoaded _
  | .restored _ _ => false

/-- No call is still to start another attempt, and the superseded ones wait for other adapters than
the one in use and not for a hardware probe. -/
structure Undisturbed (s : WalletMachine) : Prop where
  unawaited : s.scriptWaits = 0
  unrestored : s.restoring = none
  apart : ∀ k, k ≠ s.connectAttempt → ∀ task, s.attempts k = some task →
    s.activeAdapter ≠ some task.adapter
  unprobed : ∀ k, k ≠ s.connectAttempt → ∀ wallet adapter,
    s.attempts k ≠ some (.probing wallet adapter)

/-- The same of the attempt `n`, which is the last one. -/
structure Current (n : ℕ) (s : WalletMachine) : Prop where
  latest : s.connectAttempt = n
  unawaited : s.scriptWaits = 0
  unrestored : s.restoring = none
  active : ∀ task, s.attempts n = some task → s.activeAdapter = some task.adapter
  apart : ∀ k, k ≠ n → ∀ task, s.attempts k = some task → s.activeAdapter ≠ some task.adapter
  unprobed : ∀ k, k ≠ n → ∀ wallet adapter, s.attempts k ≠ some (.probing wallet adapter)

section View

/-- The view shows everything but the other attempts and the other adapters. -/
theorem only_congr (hrest : { s with adapters := t.adapters, attempts := t.attempts } = t)
    (hattempt : s.attempts n = t.attempts n)
    (hadapters : ∀ adapter, s.activeAdapter = some adapter →
      s.adapters adapter = t.adapters adapter) : s.only n = t.only n := by
  have hactive : t.activeAdapter = s.activeAdapter := by rw [← hrest]
  have hfields : (s.only n).adapters = (t.only n).adapters := by
    funext adapter
    simp only [only, hactive]
    split
    · rename_i hused
      exact hadapters adapter hused
    · rfl
  have htasks : (s.only n).attempts = (t.only n).attempts := by simp only [only, hattempt]
  calc s.only n
    _ = { t.only n with adapters := (s.only n).adapters, attempts := (s.only n).attempts } := by
        rw [← hrest]
        rfl
    _ = t.only n := by rw [hfields, htasks]

theorem only_attempts (s : WalletMachine) (n : ℕ) : (s.only n).attempts n = s.attempts n := by
  simp [only]

theorem only_adapters (s : WalletMachine) (n adapter : ℕ) (h : s.activeAdapter = some adapter) :
    (s.only n).adapters adapter = s.adapters adapter :=
  if_pos h

theorem only_idem (s : WalletMachine) (n : ℕ) : (s.only n).only n = s.only n :=
  only_congr rfl (only_attempts s n) (only_adapters s n)

theorem only_wait_self (s : WalletMachine) (n : ℕ) (task : Option Attempt) :
    (s.only n).wait n task = (s.wait n task).only n := by
  unfold only wait
  simp only [Function.update_self, Function.update_idem]

theorem only_wait_other (h : k ≠ n) (task : Option Attempt) :
    (s.wait k task).only n = s.only n := by
  unfold only wait
  simp only [Function.update_of_ne (Ne.symm h)]

theorem only_disconnectAdapter {adapter : ℕ} (h : s.activeAdapter ≠ some adapter) :
    (s.disconnectAdapter adapter).only n = s.only n := by
  refine only_congr rfl rfl ?_
  intro used hused
  have hother : used ≠ adapter := by
    rintro rfl
    exact h hused
  exact Function.update_of_ne hother _ _

/-- The catch clause looks at no adapter, and keeps the one in use. -/
theorem only_fail {adapter : ℕ} (h : s.activeAdapter = some adapter) (attempt : ℕ)
    (wallet : WalletName) (message : String) :
    ((s.only n).fail attempt wallet (some adapter) message).only n =
      (s.fail attempt wallet (some adapter) message).only n := by
  have hattempt : (s.only n).connectAttempt = s.connectAttempt := rfl
  unfold fail
  rw [hattempt]
  split
  · exact only_idem s n
  · refine only_congr rfl (only_attempts s n) ?_
    intro used hused
    exact only_adapters s n used (h.trans hused)

theorem only_conclude {adapter : ℕ} (h : s.activeAdapter = some adapter) (wallet : WalletName)
    (isHardwareWallet : Bool) :
    (conclude p (s.only n) wallet adapter isHardwareWallet).only n =
      (conclude p s wallet adapter isHardwareWallet).only n := by
  unfold conclude
  have hkey : ((s.only n).adapters adapter).publicKey = (s.adapters adapter).publicKey :=
    congrArg WalletAdapter.publicKey (only_adapters s n adapter h)
  rw [hkey]
  exact only_congr rfl (only_attempts s n) (only_adapters s n)

theorem only_resolved (h : Current n s) :
    ((s.only n).resolved p n).only n = (s.resolved p n).only n := by
  unfold resolved
  rw [only_attempts]
  cases htask : s.attempts n with
  | none => exact only_idem s n
  | some task =>
    cases task with
    | probing wallet adapter => exact only_idem s n
    | connecting wallet adapter =>
      have hactive : (s.wait n none).activeAdapter = some adapter := h.active _ htask
      have hlatest : (s.wait n none).connectAttempt = n := h.latest
      dsimp only
      rw [only_wait_self]
      generalize s.wait n none = t at hactive hlatest
      have hfields := only_adapters t n adapter hactive
      have hcurrent : ¬ n ≠ (t.only n).connectAttempt := not_not.mpr hlatest.symm
      have hcurrent' : ¬ n ≠ t.connectAttempt := not_not.mpr hlatest.symm
      rw [if_neg hcurrent, if_neg hcurrent', hfields]
      split
      · exact only_fail hactive _ _ _
      · split
        · exact only_congr rfl (only_attempts t n) (only_adapters t n)
        · split
          · exact only_conclude hactive _ _
          · rw [only_wait_self]
            exact only_idem _ n

theorem only_step (h : Current n s) (hown : ownedBy n e = true) :
    ((s.only n).step p e).only n = (s.step p e).only n := by
  cases e with
  | connect | connectWallet | restore | disconnect | scriptLoaded | restored => cases hown
  | resolved k =>
    cases of_decide_eq_true hown
    exact only_resolved h
  | rejected k message =>
    cases of_decide_eq_true hown
    simp only [step, rejected, only_attempts]
    cases htask : s.attempts n with
    | none => exact only_idem s n
    | some task =>
      cases task with
      | probing wallet adapter => exact only_idem s n
      | connecting wallet adapter =>
        have hactive : (s.wait n none).activeAdapter = some adapter := h.active _ htask
        dsimp only
        rw [only_wait_self]
        exact only_fail hactive _ _ _
  | probed k isHardwareWallet =>
    cases of_decide_eq_true hown
    simp only [step, probed, only_attempts]
    cases htask : s.attempts n with
    | none => exact only_idem s n
    | some task =>
      cases task with
      | connecting wallet adapter => exact only_idem s n
      | probing wallet adapter =>
        have hactive : (s.wait n none).activeAdapter = some adapter := h.active _ htask
        dsimp only
        rw [only_wait_self]
        exact only_conclude hactive _ _
  | render => exact only_congr rfl (only_attempts s n) (only_adapters s n)
  | scriptFailed =>
    have hstate : (s.only n).stateRef = s.stateRef := rfl
    simp only [step, hstate]
    split
    · exact only_congr rfl (only_attempts s n) (only_adapters s n)
    · exact only_idem s n
  | adapterChanges adapter fields =>
    refine only_congr rfl (only_attempts s n) ?_
    intro used hused
    change Function.update (s.only n).adapters adapter fields used =
      Function.update s.adapters adapter fields used
    by_cases hchanged : used = adapter
    · rw [hchanged, Function.update_self, Function.update_self]
    · rw [Function.update_of_ne hchanged, Function.update_of_ne hchanged]
      exact only_adapters s n used hused

end View

section Answers

/-- A superseded attempt whose adapter connects after all disconnects it again. -/
theorem superseded_resolved (h : k ≠ s.connectAttempt) :
    s.resolved p k = s ∨ ∃ wallet adapter, s.attempts k = some (.connecting wallet adapter) ∧
      s.resolved p k = (s.wait k none).disconnectAdapter adapter := by
  unfold resolved
  cases s.attempts k with
  | none => exact .inl rfl
  | some task =>
    cases task with
    | probing wallet adapter => exact .inl rfl
    | connecting wallet adapter => exact .inr ⟨wallet, adapter, rfl, if_pos h⟩

theorem superseded_rejected (h : k ≠ s.connectAttempt) (message : String) :
    s.rejected k message = s ∨ s.rejected k message = s.wait k none := by
  unfold rejected
  cases s.attempts k with
  | none => exact .inl rfl
  | some task =>
    cases task with
    | probing wallet adapter => exact .inl rfl
    | connecting wallet adapter =>
      right
      unfold fail
      exact if_pos h

theorem current_wait (h : Current n s) (k : ℕ) : Current n (s.wait k none) where
  latest := h.latest
  unawaited := h.unawaited
  unrestored := h.unrestored
  active := fun task htask => h.active task (attempt_of_wait htask)
  apart := fun j hj task htask => h.apart j hj task (attempt_of_wait htask)
  unprobed := fun j hj wallet adapter htask =>
    h.unprobed j hj wallet adapter (attempt_of_wait htask)

theorem current_retask (h : Current n s) {task : Attempt}
    (hactive : s.activeAdapter = some task.adapter) : Current n (s.wait n (some task)) := by
  have hothers : ∀ j, j ≠ n → (s.wait n (some task)).attempts j = s.attempts j := by
    intro j hj
    exact Function.update_of_ne hj _ _
  refine ⟨h.latest, h.unawaited, h.unrestored, ?_, ?_, ?_⟩
  · intro other hother
    have hsame : task = other := by simpa [wait] using hother
    exact hsame ▸ hactive
  · intro j hj other hother
    rw [hothers j hj] at hother
    exact h.apart j hj other hother
  · intro j hj wallet adapter
    rw [hothers j hj]
    exact h.unprobed j hj wallet adapter

theorem current_disconnectAdapter (h : Current n s) (adapter : ℕ) :
    Current n (s.disconnectAdapter adapter) :=
  ⟨h.latest, h.unawaited, h.unrestored, h.active, h.apart, h.unprobed⟩

theorem current_fail (h : Current n s) {adapter : ℕ} (hactive : s.activeAdapter = some adapter)
    (attempt : ℕ) (wallet : WalletName) (message : String) :
    Current n (s.fail attempt wallet (some adapter) message) := by
  unfold fail
  split
  · exact h
  · refine ⟨h.latest, h.unawaited, h.unrestored, ?_, ?_, h.unprobed⟩
    · intro task htask
      exact hactive.symm.trans (h.active task htask)
    · intro j hj task htask hused
      exact h.apart j hj task htask (hactive.trans hused)

theorem current_conclude (h : Current n s) (wallet : WalletName) (adapter : ℕ)
    (isHardwareWallet : Bool) : Current n (conclude p s wallet adapter isHardwareWallet) :=
  ⟨h.latest, h.unawaited, h.unrestored, h.active, h.apart, h.unprobed⟩

theorem current_resolved (h : Current n s) (k : ℕ) : Current n (s.resolved p k) := by
  by_cases hk : k = n
  · subst hk
    unfold resolved
    cases htask : s.attempts k with
    | none => exact h
    | some task =>
      cases task with
      | probing wallet adapter => exact h
      | connecting wallet adapter =>
        have hwait := current_wait h k
        have hactive : (s.wait k none).activeAdapter = some adapter := h.active _ htask
        dsimp only
        split
        · exact current_disconnectAdapter hwait _
        · split
          · exact current_fail hwait hactive _ _ _
          · split
            · exact ⟨hwait.latest, hwait.unawaited, hwait.unrestored, hwait.active, hwait.apart,
                hwait.unprobed⟩
            · split
              · exact current_conclude hwait _ _ _
              · exact current_retask hwait hactive
  · rcases superseded_resolved (p := p) (h.latest ▸ hk) with hs | ⟨wallet, adapter, -, hs⟩
    · rw [hs]
      exact h
    · rw [hs]
      exact current_disconnectAdapter (current_wait h k) adapter

theorem current_rejected (h : Current n s) (k : ℕ) (message : String) :
    Current n (s.rejected k message) := by
  by_cases hk : k = n
  · subst hk
    unfold rejected
    cases htask : s.attempts k with
    | none => exact h
    | some task =>
      cases task with
      | probing wallet adapter => exact h
      | connecting wallet adapter =>
        exact current_fail (current_wait h k) (h.active _ htask) _ _ _
  · rcases superseded_rejected (h.latest ▸ hk) message with hs | hs
    · rw [hs]
      exact h
    · rw [hs]
      exact current_wait h k

theorem current_step (h : Current n s) (hcommand : e.isCommand = false) :
    Current n (s.step p e) := by
  cases e with
  | connect | connectWallet | restore | disconnect => cases hcommand
  | scriptLoaded adapter =>
    simp only [step, h.unawaited]
    exact h
  | restored usable created =>
    simp only [step, h.unrestored]
    exact h
  | scriptFailed =>
    simp only [step]
    split
    · exact ⟨h.latest, h.unawaited, h.unrestored, h.active, h.apart, h.unprobed⟩
    · exact h
  | resolved k => exact current_resolved h k
  | rejected k message => exact current_rejected h k message
  | probed k isHardwareWallet =>
    simp only [step, probed]
    split
    · exact current_conclude (current_wait h k) _ _ _
    · exact h
    · exact h
  | render => exact ⟨h.latest, h.unawaited, h.unrestored, h.active, h.apart, h.unprobed⟩
  | adapterChanges adapter fields =>
    exact ⟨h.latest, h.unawaited, h.unrestored, h.active, h.apart, h.unprobed⟩

theorem quiet_step (h : Current n s) (hown : ownedBy n e = false) (hcommand : e.isCommand = false) :
    (s.step p e).only n = s.only n := by
  cases e with
  | connect | connectWallet | restore | disconnect => cases hcommand
  | scriptLoaded adapter => simp only [step, h.unawaited]
  | restored usable created => simp only [step, h.unrestored]
  | resolved k =>
    have hk : k ≠ n := of_decide_eq_false hown
    rcases superseded_resolved (p := p) (h.latest ▸ hk) with hs | ⟨wallet, adapter, htask, hs⟩
    · exact congrArg (only n) hs
    · have hapart : (s.wait k none).activeAdapter ≠ some adapter := h.apart k hk _ htask
      calc (s.resolved p k).only n
        _ = ((s.wait k none).disconnectAdapter adapter).only n := congrArg (only n) hs
        _ = (s.wait k none).only n := only_disconnectAdapter hapart
        _ = s.only n := only_wait_other hk none
  | rejected k message =>
    have hk : k ≠ n := of_decide_eq_false hown
    rcases superseded_rejected (h.latest ▸ hk) message with hs | hs
    · exact congrArg (only n) hs
    · exact (congrArg (only n) hs).trans (only_wait_other hk none)
  | probed k isHardwareWallet =>
    have hk : k ≠ n := of_decide_eq_false hown
    simp only [step, probed]
    split
    · rename_i wallet adapter hprobing
      exact absurd hprobing (h.unprobed k hk wallet adapter)
    · rfl
    · rfl
  | render | adapterChanges | scriptFailed => cases hown

theorem isolated (p : String) (n : ℕ) :
    Isolated (step p) (only n) (Current n) (fun e => e.isCommand = false) (ownedBy n) where
  keeps := fun _ _ hs he => current_step hs he
  quiet := fun _ _ hs he hown => quiet_step hs hown he
  same := by
    intro s t e hs ht _ hview hown
    calc (s.step p e).only n
      _ = ((s.only n).step p e).only n := (only_step hs hown).symm
      _ = ((t.only n).step p e).only n := by rw [hview]
      _ = (t.step p e).only n := only_step ht hown

end Answers

theorem current_of_undisturbed (h : Sound s) (hs : Undisturbed s) : Current s.connectAttempt s :=
  ⟨rfl, hs.unawaited, hs.unrestored, h.active, hs.apart, hs.unprobed⟩

/-- In every state the provider can come to, what the answers to the attempts before the last one
did can be taken out of what follows, unless one of them waits for its hardware probe or for the
adapter in use, or a call is still to start an attempt. -/
theorem superseded_forgotten {vault : Bool} {session : Option WalletSession}
    {adapters : ℕ → WalletAdapter} {events : List WalletEvent}
    (hs : s = (mounted vault session adapters).run p events) (hundisturbed : Undisturbed s)
    (hanswers : ∀ e ∈ answers, e.isCommand = false) :
    (s.run p answers).only s.connectAttempt =
      (s.run p (answers.filter (ownedBy s.connectAttempt))).only s.connectAttempt := by
  have hsound : Sound s := by
    rw [hs]
    exact sound_run (mounted_sound vault session adapters) events
  exact (isolated p s.connectAttempt).run (current_of_undisturbed hsound hundisturbed) hanswers

/-- A second wallet, asked for before the first one answers. -/
def askedTwice : WalletMachine :=
  (mounted false none fun _ => ⟨true, some "GA", some "Testnet", some false⟩).run "Testnet"
    [.connect .freighter (.ok 0), .connect .albedo (.ok 1)]

theorem superseded_forgotten_askedTwice : Undisturbed askedTwice ∧
    (askedTwice.run "Testnet" [.resolved 1, .resolved 2]).only 2 =
      (askedTwice.run "Testnet" [.resolved 2]).only 2 := by
  have hothers : ∀ k, k ≠ 2 → ∀ task, askedTwice.attempts k = some task →
      task = .connecting .freighter 0 := by
    intro k hk task htask
    have htasks : askedTwice.attempts k =
        Function.update (Function.update (fun _ => none) 1 (some (.connecting .freighter 0))) 2
          (some (.connecting .albedo 1)) k := rfl
    rw [htasks, Function.update_of_ne hk] at htask
    by_cases hfirst : k = 1
    · subst hfirst
      exact (Option.some.inj htask).symm
    · simp [hfirst] at htask
  have hundisturbed : Undisturbed askedTwice := by
    refine ⟨rfl, rfl, ?_, ?_⟩
    · intro k hk task htask
      rw [hothers k hk task htask]
      decide
    · intro k hk wallet adapter htask
      cases hothers k hk _ htask
  have hanswers : ∀ e ∈ [WalletEvent.resolved 1, WalletEvent.resolved 2],
      e.isCommand = false := by decide
  exact ⟨hundisturbed, superseded_forgotten (s := askedTwice) rfl hundisturbed hanswers⟩

/-- With one adapter for both, the superseded attempt takes it from the current one. -/
example : ((mounted false none fun _ => ⟨true, some "GA", some "Testnet", some false⟩).run "Testnet"
    [.connect .freighter (.ok 0), .connect .freighter (.ok 0), .resolved 1, .resolved 2]).state =
      .error .freighter (some 0)
        "freighter did not return a connected account and public key" := by
  decide

end BcForge.React.WalletMachine
