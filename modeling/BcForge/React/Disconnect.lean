import BcForge.React.Superseded

/-! Disconnecting: when the user's last word is kept, whatever was under way. -/
namespace BcForge.React.WalletMachine

variable {p : String} {s : WalletMachine} {k : ℕ} {e : WalletEvent}
  {events answers : List WalletEvent}

/-- Nobody can sign, the reducer's state says so, and no session is left to restore. -/
structure Disconnected (s : WalletMachine) : Prop where
  client : s.client = none
  vaultClient : ∀ adapter, s.vaultClient = some adapter → adapter = none
  state : s.state = .disconnected
  session : s.session = none

/-- Nothing is under way that would not look at the attempt again: no hardware probe, no call of
`connectWallet` that waits for the Albedo script, and no effect in its await. -/
structure Unattended (s : WalletMachine) : Prop where
  unprobed : ∀ k wallet adapter, s.attempts k ≠ some (.probing wallet adapter)
  unawaited : s.scriptWaits = 0
  unrestored : s.restoring = none

section Final

/-- Disconnected, and it stays so: the attempts that remain are superseded. -/
structure Gone (s : WalletMachine) : Prop extends Disconnected s, Unattended s where
  superseded : s.attempts s.connectAttempt = none

theorem gone_wait (h : Gone s) (k : ℕ) : Gone (s.wait k none) where
  toDisconnected := ⟨h.client, h.vaultClient, h.state, h.session⟩
  toUnattended := by
    refine ⟨?_, h.unawaited, h.unrestored⟩
    intro j wallet adapter htask
    exact h.unprobed j wallet adapter (attempt_of_wait htask)
  superseded := by
    change Function.update s.attempts k none s.connectAttempt = none
    by_cases hk : s.connectAttempt = k
    · rw [hk, Function.update_self]
    · rw [Function.update_of_ne hk, h.superseded]

theorem gone_disconnectAdapter (h : Gone s) (adapter : ℕ) : Gone (s.disconnectAdapter adapter) :=
  ⟨⟨h.client, h.vaultClient, h.state, h.session⟩, ⟨h.unprobed, h.unawaited, h.unrestored⟩,
    h.superseded⟩

/-- The current number is nobody's, so an answer finds nobody or a superseded attempt. -/
theorem gone_superseded (h : Gone s) (k : ℕ) : s.attempts k = none ∨ k ≠ s.connectAttempt := by
  by_cases hk : k = s.connectAttempt
  · exact .inl (hk ▸ h.superseded)
  · exact .inr hk

theorem gone_resolved (h : Gone s) (k : ℕ) : Gone (s.resolved p k) := by
  rcases gone_superseded h k with hk | hk
  · have hstill : s.resolved p k = s := by simp only [resolved, hk]
    rw [hstill]
    exact h
  · rcases superseded_resolved (p := p) hk with hs | ⟨wallet, adapter, -, hs⟩
    · rw [hs]
      exact h
    · rw [hs]
      exact gone_disconnectAdapter (gone_wait h k) adapter

theorem gone_rejected (h : Gone s) (k : ℕ) (message : String) : Gone (s.rejected k message) := by
  rcases gone_superseded h k with hk | hk
  · have hstill : s.rejected k message = s := by simp only [rejected, hk]
    rw [hstill]
    exact h
  · rcases superseded_rejected hk message with hs | hs
    · rw [hs]
      exact h
    · rw [hs]
      exact gone_wait h k

theorem gone_step (h : Gone s) (hcommand : e.isCommand = false) : Gone (s.step p e) := by
  cases e with
  | connect | connectWallet | restore | disconnect => cases hcommand
  | scriptLoaded adapter =>
    simp only [step, h.unawaited]
    exact h
  | restored usable created =>
    simp only [step, h.unrestored]
    exact h
  | scriptFailed =>
    simp only [step]
    split
    · exact ⟨⟨h.client, h.vaultClient, h.state, rfl⟩, ⟨h.unprobed, h.unawaited, h.unrestored⟩,
        h.superseded⟩
    · exact h
  | resolved k => exact gone_resolved h k
  | rejected k message => exact gone_rejected h k message
  | probed k isHardwareWallet =>
    simp only [step, probed]
    split
    · rename_i wallet adapter hprobing
      exact absurd hprobing (h.unprobed k wallet adapter)
    · exact h
    · exact h
  | render | adapterChanges =>
    exact ⟨⟨h.client, h.vaultClient, h.state, h.session⟩,
      ⟨h.unprobed, h.unawaited, h.unrestored⟩, h.superseded⟩

theorem gone_run (h : Gone s) (hanswers : ∀ e ∈ answers, e.isCommand = false) :
    Gone (s.run p answers) := by
  induction answers generalizing s with
  | nil => exact h
  | cons e answers ih =>
    have he := hanswers e List.mem_cons_self
    exact ih (gone_step h he) fun b hb => hanswers b (List.mem_cons_of_mem e hb)

/-- `disconnect` leaves alone the calls that are still to start an attempt. -/
theorem disconnect_starting (s : WalletMachine) :
    s.disconnect.scriptWaits = s.scriptWaits ∧ s.disconnect.restoring = s.restoring := by
  unfold disconnect
  cases s.currentAdapter <;> exact ⟨rfl, rfl⟩

theorem gone_disconnect (h : Sound s) (hnone : Unattended s) : Gone s.disconnect := by
  obtain ⟨hwaits, hrestoring⟩ := disconnect_starting s
  refine ⟨⟨rfl, fun _ => vaultClient_set, rfl, rfl⟩, ⟨?_, ?_, ?_⟩, ?_⟩
  · rw [disconnect_attempts]
    exact hnone.unprobed
  · exact hwaits.trans hnone.unawaited
  · exact hrestoring.trans hnone.unrestored
  · rw [disconnect_attempts]
    exact h.numbered _ (Nat.lt_succ_self _)

end Final

section Late

/-- A probe that ends late brings its adapter back. -/
theorem probed_late {k adapter : ℕ} {wallet : WalletName} (isHardwareWallet : Bool)
    (h : s.attempts k = some (.probing wallet adapter)) :
    (s.disconnect.run p [.probed k isHardwareWallet]).client = some adapter := by
  have hprobing : s.disconnect.attempts k = some (.probing wallet adapter) := by
    rw [disconnect_attempts, h]
  simp only [run, List.foldl_cons, List.foldl_nil, step, probed, hprobing]
  rfl

/-- So does a script that is loaded late: `connect` starts anew. -/
theorem scriptLoaded_late (adapter : ℕ) (h : s.scriptWaits ≠ 0) :
    (s.disconnect.run p [.scriptLoaded adapter]).state = .connecting .albedo := by
  obtain ⟨waits, hwaits⟩ := Nat.exists_eq_succ_of_ne_zero h
  have hleft : s.disconnect.scriptWaits = waits + 1 := (disconnect_starting s).1.trans hwaits
  simp only [run, List.foldl_cons, List.foldl_nil, step, hleft]
  rfl

theorem restored_late {wallet : WalletName} (adapter : ℕ) (h : s.restoring = some wallet) :
    (s.disconnect.run p [.restored true (.ok adapter)]).state = .connecting wallet := by
  have hleft : s.disconnect.restoring = some wallet := (disconnect_starting s).2.trans h
  simp only [run, List.foldl_cons, List.foldl_nil, step, hleft]
  rfl

end Late

/-- In every run, a disconnect is final until the next command exactly when nothing is under way
that would not look at the attempt again. -/
theorem disconnect_final_iff (p : String) (vault : Bool) (session : Option WalletSession)
    (adapters : ℕ → WalletAdapter) (events : List WalletEvent) :
    (∀ answers : List WalletEvent, (∀ e ∈ answers, e.isCommand = false) →
      Disconnected (((mounted vault session adapters).run p events).disconnect.run p answers)) ↔
    Unattended ((mounted vault session adapters).run p events) := by
  have hsound := sound_run (p := p) (mounted_sound vault session adapters) events
  generalize (mounted vault session adapters).run p events = s at hsound
  constructor
  · intro hfinal
    have hone : ∀ e : WalletEvent, e.isCommand = false → Disconnected (s.disconnect.run p [e]) := by
      intro e he
      refine hfinal [e] ?_
      intro a ha
      rwa [List.mem_singleton.mp ha]
    refine ⟨?_, ?_, ?_⟩
    · intro k wallet adapter hprobing
      have hgone := (hone (.probed k false) rfl).client
      rw [probed_late false hprobing] at hgone
      cases hgone
    · by_contra hwaits
      have hgone := (hone (.scriptLoaded 0) rfl).state
      rw [scriptLoaded_late 0 hwaits] at hgone
      cases hgone
    · cases hrestoring : s.restoring with
      | none => rfl
      | some wallet =>
        have hgone := (hone (.restored true (.ok 0)) rfl).state
        rw [restored_late 0 hrestoring] at hgone
        cases hgone
  · intro hnone answers hanswers
    exact (gone_run (gone_disconnect hsound hnone) hanswers).toDisconnected

/-- A wallet that has to be asked whether it is a hardware one. -/
example : ((mounted false none fun _ => ⟨true, some "GA", none, none⟩).run "Testnet"
    [.connect .freighter (.ok 0), .resolved 1]).attempts 1 = some (.probing .freighter 0) := by
  decide

section Telling

/-- A wallet that says itself whether it is a hardware one keeps saying so, and one that is picked
can be used at once. -/
def Tells : WalletEvent → Prop
  | .adapterChanges _ fields => fields.isHardwareWallet.isSome = true
  | .connectWallet wallet scriptMissing _ => ¬ (wallet = .albedo ∧ scriptMissing = true)
  | .connect _ _ | .restore | .disconnect | .scriptLoaded _ | .restored _ _ | .scriptFailed
  | .resolved _ | .rejected _ _ | .probed _ _ | .render => True

/-- Nobody has to be asked or waited for, and nobody is. -/
structure Telling (s : WalletMachine) : Prop where
  known : ∀ adapter, (s.adapters adapter).isHardwareWallet.isSome = true
  unprobed : ∀ k wallet adapter, s.attempts k ≠ some (.probing wallet adapter)
  unawaited : s.scriptWaits = 0

theorem telling_wait (h : Telling s) (k : ℕ) {task : Option Attempt}
    (htask : ∀ wallet adapter, task ≠ some (.probing wallet adapter)) :
    Telling (s.wait k task) where
  known := h.known
  unawaited := h.unawaited
  unprobed := by
    intro j
    by_cases hk : j = k
    · subst hk
      simpa [wait] using htask
    · simpa [wait, hk] using h.unprobed j

theorem telling_changed (h : Telling s) (adapter : ℕ) {fields : WalletAdapter}
    (hfields : fields.isHardwareWallet.isSome = true) :
    Telling { s with adapters := Function.update s.adapters adapter fields } where
  known := by
    intro other
    by_cases hother : other = adapter
    · subst hother
      simpa using hfields
    · simpa [hother] using h.known other
  unawaited := h.unawaited
  unprobed := h.unprobed

theorem telling_disconnectAdapter (h : Telling s) (adapter : ℕ) :
    Telling (s.disconnectAdapter adapter) := by
  have hsame : (s.adapters adapter).disconnect.isHardwareWallet.isSome = true := h.known adapter
  exact telling_changed h adapter hsame

theorem telling_fail (h : Telling s) (attempt : ℕ) (wallet : WalletName) (adapter : Option ℕ)
    (message : String) : Telling (s.fail attempt wallet adapter message) := by
  unfold fail
  split
  · exact h
  · exact ⟨h.known, h.unprobed, h.unawaited⟩

theorem telling_started (h : Telling s) (wallet : WalletName) : Telling (s.started wallet) := by
  unfold started
  split
  · exact ⟨h.known, h.unprobed, h.unawaited⟩
  · exact ⟨h.known, h.unprobed, h.unawaited⟩

theorem telling_connect (h : Telling s) (wallet : WalletName) (created : Except String ℕ) :
    Telling (s.connect wallet created) := by
  have hstarted := telling_started h wallet
  cases created with
  | error message =>
    rw [connect_error]
    exact telling_fail hstarted _ _ _ _
  | ok adapter =>
    rw [connect_ok]
    have hactive : Telling { s.started wallet with activeAdapter := some adapter } :=
      ⟨hstarted.known, hstarted.unprobed, hstarted.unawaited⟩
    exact telling_wait hactive _ (by simp)

theorem telling_resolved (h : Telling s) (k : ℕ) : Telling (s.resolved p k) := by
  unfold resolved
  split
  · have hwait : Telling (s.wait k none) := telling_wait h k (by simp)
    dsimp only
    split
    · exact telling_disconnectAdapter hwait _
    · split
      · exact telling_fail hwait _ _ _ _
      · split
        · exact ⟨hwait.known, hwait.unprobed, hwait.unawaited⟩
        · split
          · exact ⟨hwait.known, hwait.unprobed, hwait.unawaited⟩
          · rename_i adapter _ _ _ _ _ _ hunknown
            have hknown := hwait.known adapter
            rw [hunknown] at hknown
            cases hknown
  · exact h
  · exact h

theorem telling_disconnect (h : Telling s) : Telling s.disconnect := by
  unfold disconnect
  cases s.currentAdapter with
  | none => exact ⟨h.known, h.unprobed, h.unawaited⟩
  | some adapter =>
    have hleft := telling_disconnectAdapter h adapter
    exact ⟨hleft.known, hleft.unprobed, hleft.unawaited⟩

theorem telling_step (h : Telling s) (htells : Tells e) : Telling (s.step p e) := by
  cases e with
  | connect wallet created => exact telling_connect h wallet created
  | connectWallet wallet scriptMissing created =>
    have hfound : ¬ (wallet = .albedo ∧ scriptMissing = true) := htells
    simp only [step]
    split
    · exact h
    · rw [if_neg hfound]
      exact telling_connect h wallet created
  | restore => exact ⟨h.known, h.unprobed, h.unawaited⟩
  | disconnect => exact telling_disconnect h
  | scriptLoaded adapter =>
    simp only [step, h.unawaited]
    exact h
  | restored usable created =>
    simp only [step]
    split
    · exact h
    · split
      · have hnext : Telling { s with restoring := none } := ⟨h.known, h.unprobed, h.unawaited⟩
        exact telling_connect hnext _ created
      · exact ⟨h.known, h.unprobed, h.unawaited⟩
  | scriptFailed =>
    simp only [step]
    split
    · exact ⟨h.known, h.unprobed, h.unawaited⟩
    · exact h
  | resolved k => exact telling_resolved h k
  | rejected k message =>
    simp only [step, rejected]
    split
    · exact telling_fail (telling_wait h k (by simp)) _ _ _ _
    · exact h
    · exact h
  | probed k isHardwareWallet =>
    simp only [step, probed]
    split
    · rename_i wallet adapter hprobing
      exact absurd hprobing (h.unprobed k wallet adapter)
    · exact h
    · exact h
  | render => exact ⟨h.known, h.unprobed, h.unawaited⟩
  | adapterChanges adapter fields => exact telling_changed h adapter htells

theorem telling_run (h : Telling s) (htells : ∀ e ∈ events, Tells e) :
    Telling (s.run p events) := by
  induction events generalizing s with
  | nil => exact h
  | cons e events ih =>
    have he := htells e List.mem_cons_self
    exact ih (telling_step h he) fun b hb => htells b (List.mem_cons_of_mem e hb)

end Telling

/-- With wallets that say themselves whether they are hardware ones and can be used when picked,
every disconnect is final until the next command, unless a session is just being restored. -/
theorem disconnects_final {vault : Bool} {session : Option WalletSession}
    {adapters : ℕ → WalletAdapter}
    (hadapters : ∀ adapter, (adapters adapter).isHardwareWallet.isSome = true)
    (hevents : ∀ e ∈ events, Tells e)
    (hrestoring : ((mounted vault session adapters).run p events).restoring = none)
    (hanswers : ∀ e ∈ answers, e.isCommand = false) :
    Disconnected (((mounted vault session adapters).run p events).disconnect.run p answers) := by
  have hmounted : Telling (mounted vault session adapters) :=
    ⟨hadapters, by simp [mounted], rfl⟩
  have htelling : Telling ((mounted vault session adapters).run p events) :=
    telling_run hmounted hevents
  have hsound := sound_run (p := p) (mounted_sound vault session adapters) events
  have hnone : Unattended ((mounted vault session adapters).run p events) :=
    ⟨htelling.unprobed, htelling.unawaited, hrestoring⟩
  exact (gone_run (gone_disconnect hsound hnone) hanswers).toDisconnected

theorem disconnects_final_pending :
    Disconnected (((mounted true none fun _ => ⟨true, some "GA", none, some true⟩).run "Testnet"
      [.connectWallet .freighter true (.ok 0)]).disconnect.run "Testnet" [.resolved 1]) := by
  have hanswers : ∀ e ∈ [WalletEvent.resolved 1], e.isCommand = false := by decide
  refine disconnects_final (fun _ => rfl) ?_ rfl hanswers
  intro e he
  rw [List.mem_singleton.mp he]
  rintro ⟨hwallet, -⟩
  cases hwallet

end BcForge.React.WalletMachine
