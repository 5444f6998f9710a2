import Mathlib.Data.Nat.Notation
import Mathlib.Logic.Function.Basic

/-! The wallet connection of the React provider: attempts to connect, each waiting for its adapter
and then for the hardware probe, while the user connects again or disconnects. One page, and the
two clients it was mounted with. -/
namespace BcForge.React

inductive WalletName where
  | freighter
  | albedo
  deriving DecidableEq, Repr

def WalletName.text : WalletName → String
  | .freighter => "freighter"
  | .albedo => "albedo"

/-- The fields of an adapter object, which the wallet may change at any time. -/
structure WalletAdapter where
  connected : Bool
  publicKey : Option String
  networkPassphrase : Option String
  /-- Known at once, or to be asked for. -/
  isHardwareWallet : Option Bool
  deriving DecidableEq, Repr

/-- `disconnect` of the SDK's adapters for both wallets. An adapter that does something else changes
its fields next. -/
def WalletAdapter.disconnect (adapter : WalletAdapter) : WalletAdapter :=
  { adapter with connected := false, publicKey := none, networkPassphrase := none }

/-- JavaScript's truthiness of an optional string. -/
def truthy (text : Option String) : Option String := text.filter (· ≠ "")

/-- Adapters are named by numbers. -/
inductive WalletMachineState where
  | disconnected
  | connecting (wallet : WalletName)
  | connected (wallet : WalletName) (adapter : ℕ) (publicKey : Option String)
      (isHardwareWallet : Bool)
  | wrongNetwork (wallet : WalletName) (adapter : ℕ) (expected actual error : String)
  | error (wallet : WalletName) (adapter : Option ℕ) (error : String)
  deriving DecidableEq, Repr

def WalletMachineState.adapter : WalletMachineState → Option ℕ
  | .disconnected | .connecting _ => none
  | .connected _ adapter _ _ | .wrongNetwork _ adapter _ _ _ => some adapter
  | .error _ adapter _ => adapter

/-- Who signs while the page shows this state. -/
def WalletMachineState.signer : WalletMachineState → Option ℕ
  | .connected _ adapter _ _ => some adapter
  | .disconnected | .connecting _ | .wrongNetwork _ _ _ _ _ | .error _ _ _ => none

inductive WalletMachineAction where
  | connecting (wallet : WalletName)
  | connected (wallet : WalletName) (adapter : ℕ) (publicKey : Option String)
      (isHardwareWallet : Bool)
  | wrongNetwork (wallet : WalletName) (adapter : ℕ) (expected actual : String)
  | error (wallet : WalletName) (adapter : Option ℕ) (error : String)
  | disconnected

def walletReducer : WalletMachineAction → WalletMachineState
  | .connecting wallet => .connecting wallet
  | .connected wallet adapter publicKey isHardwareWallet =>
    .connected wallet adapter publicKey isHardwareWallet
  | .wrongNetwork wallet adapter expected actual =>
    .wrongNetwork wallet adapter expected actual
      ("Wallet is connected to a different Stellar network. Expected \"" ++ expected ++
        "\" but received \"" ++ actual ++ "\".")
  | .error wallet adapter error => .error wallet adapter error
  | .disconnected => .disconnected

structure WalletSession where
  wallet : WalletName
  networkPassphrase : String
  deriving DecidableEq, Repr

/-- Where an attempt to connect waits. -/
inductive Attempt where
  | connecting (wallet : WalletName) (adapter : ℕ)
  | probing (wallet : WalletName) (adapter : ℕ)
  deriving DecidableEq, Repr

def Attempt.adapter : Attempt → ℕ
  | .connecting _ adapter | .probing _ adapter => adapter

/-- The provider: its refs, the reducer's state and the one last rendered, the adapters set on the
two clients (there may be no vault client), the stored session, the attempts under way, and the
calls that have yet to start theirs: of `connectWallet`, waiting for the Albedo script, and of the
effect that restores the wallet of a session. -/
structure WalletMachine where
  connectAttempt : ℕ
  activeAdapter : Option ℕ
  state : WalletMachineState
  stateRef : WalletMachineState
  adapters : ℕ → WalletAdapter
  client : Option ℕ
  vaultClient : Option (Option ℕ)
  session : Option WalletSession
  attempts : ℕ → Option Attempt
  scriptWaits : ℕ
  restoring : Option WalletName

inductive WalletEvent where
  /-- `connect`; the factory hands out an adapter or throws. -/
  | connect (wallet : WalletName) (created : Except String ℕ)
  /-- `connectWallet`; the Albedo script is missing when neither a factory nor the page has it. -/
  | connectWallet (wallet : WalletName) (scriptMissing : Bool) (created : Except String ℕ)
  /-- The effect that reconnects the wallet of the stored session, up to its await. -/
  | restore
  | disconnect
  /-- `loadAlbedoScript` is over for a call of `connectWallet`, whether it found the wallet or not;
  what is connected next is a new adapter of the SDK. -/
  | scriptLoaded (adapter : ℕ)
  /-- The effect goes on. -/
  | restored (usable : Bool) (created : Except String ℕ)
  /-- The script that a restored session is in need of could not be loaded. -/
  | scriptFailed
  /-- `adapter.connect()` of an attempt is fulfilled. -/
  | resolved (attempt : ℕ)
  | rejected (attempt : ℕ) (message : String)
  /-- The hardware probe of an attempt ends. -/
  | probed (attempt : ℕ) (isHardwareWallet : Bool)
  | render
  | adapterChanges (adapter : ℕ) (fields : WalletAdapter)

/-- What the user or the application asks for; everything else is an answer. -/
def WalletEvent.isCommand : WalletEvent → Bool
  | .connect _ _ | .connectWallet _ _ _ | .restore | .disconnect => true
  | .scriptLoaded _ | .restored _ _ | .scriptFailed | .resolved _ | .rejected _ _ | .probed _ _
  | .render | .adapterChanges _ _ => false

namespace WalletMachine

def dispatch (s : WalletMachine) (action : WalletMachineAction) : WalletMachine :=
  { s with state := walletReducer action }

/-- `setWalletAdapter` on both clients. -/
def setWalletAdapter (s : WalletMachine) (adapter : Option ℕ) : WalletMachine :=
  { s with client := adapter, vaultClient := s.vaultClient.map fun _ => adapter }

def wait (s : WalletMachine) (attempt : ℕ) (task : Option Attempt) : WalletMachine :=
  { s with attempts := Function.update s.attempts attempt task }

def disconnectAdapter (s : WalletMachine) (adapter : ℕ) : WalletMachine :=
  { s with adapters := Function.update s.adapters adapter (s.adapters adapter).disconnect }

/-- The adapter in use, wherever it is known from. -/
def currentAdapter (s : WalletMachine) : Option ℕ :=
  s.activeAdapter <|> s.stateRef.adapter <|> s.client <|> s.vaultClient.join

/-- The catch clause of `connect`. -/
def fail (s : WalletMachine) (attempt : ℕ) (wallet : WalletName) (adapter : Option ℕ)
    (message : String) : WalletMachine :=
  if attempt ≠ s.connectAttempt then s
  else
    { s.setWalletAdapter none with activeAdapter := adapter, session := none }.dispatch
      (.error wallet adapter message)

/-- `connect`, up to its first await. -/
def connect (s : WalletMachine) (wallet : WalletName) (created : Except String ℕ) :
    WalletMachine :=
  let attempt := s.connectAttempt + 1
  let released := if s.currentAdapter.isSome then s.setWalletAdapter none else s
  let started := { released with connectAttempt := attempt, activeAdapter := none }.dispatch
    (.connecting wallet)
  match created with
  | .error message => started.fail attempt wallet none message
  | .ok adapter =>
    { started with activeAdapter := some adapter }.wait attempt (some (.connecting wallet adapter))

/-- The end of `connect`. Nothing here looks at the attempt again. -/
def conclude (networkPassphrase : String) (s : WalletMachine) (wallet : WalletName) (adapter : ℕ)
    (isHardwareWallet : Bool) : WalletMachine :=
  { s.setWalletAdapter (some adapter) with session := some ⟨wallet, networkPassphrase⟩ }.dispatch
    (.connected wallet adapter (s.adapters adapter).publicKey isHardwareWallet)

/-- `connect`, once its adapter is connected, up to the hardware probe. -/
def resolved (networkPassphrase : String) (s : WalletMachine) (attempt : ℕ) : WalletMachine :=
  match s.attempts attempt with
  | some (.connecting wallet adapter) =>
    let s := s.wait attempt none
    let fields := s.adapters adapter
    -- a superseded attempt disconnects its adapter, which may be the current one's as well
    if attempt ≠ s.connectAttempt then s.disconnectAdapter adapter
    else if fields.connected = false ∨ truthy fields.publicKey = none then
      s.fail attempt wallet (some adapter)
        (wallet.text ++ " did not return a connected account and public key")
    else
      match (truthy fields.networkPassphrase).filter (· ≠ networkPassphrase) with
      | some actual =>
        { s.setWalletAdapter none with session := some ⟨wallet, networkPassphrase⟩ }.dispatch
          (.wrongNetwork wallet adapter networkPassphrase actual)
      | none =>
        match fields.isHardwareWallet with
        | some isHardwareWallet => conclude networkPassphrase s wallet adapter isHardwareWallet
        | none => s.wait attempt (some (.probing wallet adapter))
  | some (.probing _ _) | none => s

def rejected (s : WalletMachine) (attempt : ℕ) (message : String) : WalletMachine :=
  match s.attempts attempt with
  | some (.connecting wallet adapter) =>
    (s.wait attempt none).fail attempt wallet (some adapter) message
  | some (.probing _ _) | none => s

def probed (networkPassphrase : String) (s : WalletMachine) (attempt : ℕ)
    (isHardwareWallet : Bool) : WalletMachine :=
  match s.attempts attempt with
  | some (.probing wallet adapter) =>
    conclude networkPassphrase (s.wait attempt none) wallet adapter isHardwareWallet
  | some (.connecting _ _) | none => s

/-- `disconnect`. Its own await comes after everything. -/
def disconnect (s : WalletMachine) : WalletMachine :=
  let left :=
    match s.currentAdapter with
    | some adapter => s.disconnectAdapter adapter
    | none => s
  { left.setWalletAdapter none with
    connectAttempt := s.connectAttempt + 1
    activeAdapter := none
    session := none }.dispatch .disconnected

def step (networkPassphrase : String) (s : WalletMachine) : WalletEvent → WalletMachine
  | .connect wallet created => s.connect wallet created
  | .connectWallet wallet scriptMissing created =>
    match s.stateRef with
    | .connecting _ => s
    | _ =>
      if wallet = .albedo ∧ scriptMissing = true then { s with scriptWaits := s.scriptWaits + 1 }
      else s.connect wallet created
  | .restore => { s with restoring := s.session.map WalletSession.wallet }
  | .disconnect => s.disconnect
  | .scriptLoaded adapter =>
    match s.scriptWaits with
    | 0 => s
    | waits + 1 => { s with scriptWaits := waits }.connect .albedo (.ok adapter)
  | .restored usable created =>
    match s.restoring with
    | none => s
    | some wallet =>
      if usable then { s with restoring := none }.connect wallet created
      else { s with restoring := none, session := none }
  | .scriptFailed => if s.stateRef = .disconnected then { s with session := none } else s
  | .resolved attempt => s.resolved networkPassphrase attempt
  | .rejected attempt message => s.rejected attempt message
  | .probed attempt isHardwareWallet => s.probed networkPassphrase attempt isHardwareWallet
  | .render => { s with stateRef := s.state }
  | .adapterChanges adapter fields =>
    { s with adapters := Function.update s.adapters adapter fields }

def run (networkPassphrase : String) (s : WalletMachine) (events : List WalletEvent) :
    WalletMachine :=
  events.foldl (step networkPassphrase) s

/-- A provider that has just been mounted, over clients without an adapter. -/
def mounted (vault : Bool) (session : Option WalletSession) (adapters : ℕ → WalletAdapter) :
    WalletMachine where
  connectAttempt := 0
  activeAdapter := none
  state := .disconnected
  stateRef := .disconnected
  adapters := adapters
  client := none
  vaultClient := if vault then some none else none
  session := session
  attempts := fun _ => none
  scriptWaits := 0
  restoring := none

variable {p : String} {s : WalletMachine} {k : ℕ} {e : WalletEvent} {events : List WalletEvent}

section Runs

theorem attempt_of_wait {j : ℕ} {task : Attempt} (h : (s.wait k none).attempts j = some task) :
    s.attempts j = some task := by
  by_cases hj : j = k
  · subst hj
    simp [wait] at h
  · simpa [wait, hj] using h

/-- Both clients sign with the adapter that is shown as connected and with no other one. No attempt
has a number still to be given, and the last one works on the adapter in use. -/
structure Sound (s : WalletMachine) : Prop where
  client : s.client = s.state.signer
  vaultClient : ∀ adapter, s.vaultClient = some adapter → adapter = s.state.signer
  numbered : ∀ k, s.connectAttempt < k → s.attempts k = none
  active : ∀ task, s.attempts s.connectAttempt = some task → s.activeAdapter = some task.adapter

/-- An attempt that is over works on nothing. -/
theorem active_of_over {adapter : Option ℕ} (h : s.attempts k = none) :
    ∀ task, s.attempts k = some task → adapter = some task.adapter := by
  intro task htask
  rw [h] at htask
  cases htask

theorem mounted_sound (vault : Bool) (session : Option WalletSession)
    (adapters : ℕ → WalletAdapter) : Sound (mounted vault session adapters) where
  client := rfl
  vaultClient := by
    intro adapter h
    cases vault with
    | false => cases h
    | true =>
      cases h
      rfl
  numbered := fun _ _ => rfl
  active := active_of_over rfl

theorem vaultClient_set {adapter other : Option ℕ}
    (h : (s.setWalletAdapter adapter).vaultClient = some other) : other = adapter := by
  obtain ⟨_, _, rfl⟩ := Option.map_eq_some_iff.mp h
  rfl

theorem sound_wait (h : Sound s) (k : ℕ) : Sound (s.wait k none) where
  client := h.client
  vaultClient := h.vaultClient
  numbered := by
    intro j hj
    by_cases hk : j = k
    · subst hk
      simp [wait]
    · simpa [wait, hk] using h.numbered j hj
  active := fun task htask => h.active task (attempt_of_wait htask)

/-- The last attempt may come to wait for something else. -/
theorem sound_retask (h : Sound s) {task : Attempt}
    (hactive : s.activeAdapter = some task.adapter) :
    Sound (s.wait s.connectAttempt (some task)) where
  client := h.client
  vaultClient := h.vaultClient
  numbered := by
    intro j hj
    have hne : j ≠ s.connectAttempt := Nat.ne_of_gt hj
    simpa [wait, hne] using h.numbered j hj
  active := by
    intro other hother
    have hsame : task = other := by simpa [wait] using hother
    exact hsame ▸ hactive

/-- An attempt that fails is over. -/
theorem sound_fail (h : Sound s) {attempt : ℕ}
    (hover : attempt = s.connectAttempt → s.attempts attempt = none) (wallet : WalletName)
    (adapter : Option ℕ) (message : String) : Sound (s.fail attempt wallet adapter message) := by
  unfold fail
  split
  · exact h
  · rename_i hlast
    have hlast := not_not.mp hlast
    have hnone : s.attempts s.connectAttempt = none := hlast ▸ hover hlast
    exact ⟨rfl, fun _ => vaultClient_set, h.numbered, active_of_over hnone⟩

theorem sound_disconnectAdapter (h : Sound s) (adapter : ℕ) : Sound (s.disconnectAdapter adapter) :=
  ⟨h.client, h.vaultClient, h.numbered, h.active⟩

theorem sound_conclude (h : Sound s) (wallet : WalletName) (adapter : ℕ) (hardware : Bool) :
    Sound (conclude p s wallet adapter hardware) :=
  ⟨rfl, fun _ => vaultClient_set, h.numbered, h.active⟩

/-- Where no adapter is in use, the clients have none either. -/
theorem currentAdapter_none (h : s.currentAdapter = none) :
    s.client = none ∧ ∀ adapter, s.vaultClient = some adapter → adapter = none := by
  simp only [currentAdapter, Option.orElse_eq_orElse, Option.orElse_eq_or, Option.or_eq_none_iff]
    at h
  refine ⟨h.2.2.1, ?_⟩
  intro adapter hvault
  have hjoin := h.2.2.2
  rwa [hvault] at hjoin

/-- `connect` before it has an adapter. -/
def started (s : WalletMachine) (wallet : WalletName) : WalletMachine :=
  { if s.currentAdapter.isSome then s.setWalletAdapter none else s with
    connectAttempt := s.connectAttempt + 1
    activeAdapter := none }.dispatch (.connecting wallet)

theorem connect_error (wallet : WalletName) (message : String) :
    s.connect wallet (.error message) =
      (s.started wallet).fail (s.connectAttempt + 1) wallet none message := rfl

theorem connect_ok (wallet : WalletName) (adapter : ℕ) :
    s.connect wallet (.ok adapter) =
      { s.started wallet with activeAdapter := some adapter }.wait (s.connectAttempt + 1)
        (some (.connecting wallet adapter)) := rfl

/-- The number that `connect` gives is nobody's yet. -/
theorem started_unused (h : Sound s) (wallet : WalletName) :
    (s.started wallet).attempts (s.connectAttempt + 1) = none := by
  have hunused : s.attempts (s.connectAttempt + 1) = none := h.numbered _ (Nat.lt_succ_self _)
  unfold started
  split <;> exact hunused

theorem sound_started (h : Sound s) (wallet : WalletName) : Sound (s.started wallet) := by
  have hnumbered : ∀ k, s.connectAttempt + 1 < k → s.attempts k = none :=
    fun k hk => h.numbered k (by omega)
  have hunused : s.attempts (s.connectAttempt + 1) = none := h.numbered _ (Nat.lt_succ_self _)
  unfold started
  split
  · exact ⟨rfl, fun _ => vaultClient_set, hnumbered, active_of_over hunused⟩
  · rename_i hcurrent
    obtain ⟨hclient, hvault⟩ := currentAdapter_none (Option.not_isSome_iff_eq_none.mp hcurrent)
    exact ⟨hclient, hvault, hnumbered, active_of_over hunused⟩

theorem sound_connect (h : Sound s) (wallet : WalletName) (created : Except String ℕ) :
    Sound (s.connect wallet created) := by
  have hstarted := sound_started h wallet
  have hunused := started_unused h wallet
  cases created with
  | error message =>
    rw [connect_error]
    exact sound_fail hstarted (fun _ => hunused) _ _ _
  | ok adapter =>
    rw [connect_ok]
    have hactive : Sound { s.started wallet with activeAdapter := some adapter } :=
      ⟨hstarted.client, hstarted.vaultClient, hstarted.numbered, active_of_over hunused⟩
    exact sound_retask hactive rfl

theorem sound_resolved (h : Sound s) (k : ℕ) : Sound (s.resolved p k) := by
  unfold resolved
  split
  · rename_i wallet adapter htask
    have hwait := sound_wait h k
    have hover : (s.wait k none).attempts k = none := by simp [wait]
    dsimp only
    split
    · exact sound_disconnectAdapter hwait _
    · rename_i hcurrent
      have hcurrent : k = s.connectAttempt := not_not.mp hcurrent
      subst hcurrent
      have hactive : (s.wait s.connectAttempt none).activeAdapter = some adapter :=
        h.active _ htask
      split
      · exact sound_fail hwait (fun _ => hover) _ _ _
      · split
        · exact ⟨rfl, fun _ => vaultClient_set, hwait.numbered, hwait.active⟩
        · split
          · exact sound_conclude hwait _ _ _
          · exact sound_retask hwait hactive
  · exact h
  · exact h

theorem disconnect_attempts (s : WalletMachine) : s.disconnect.attempts = s.attempts := by
  unfold disconnect
  cases s.currentAdapter <;> rfl

theorem sound_disconnect (h : Sound s) : Sound s.disconnect where
  client := rfl
  vaultClient := fun _ => vaultClient_set
  numbered := by
    intro k hk
    rw [disconnect_attempts]
    exact h.numbered k (Nat.lt_of_succ_lt hk)
  active := by
    have hunused : s.attempts (s.connectAttempt + 1) = none := h.numbered _ (Nat.lt_succ_self _)
    rw [disconnect_attempts]
    exact active_of_over hunused

theorem sound_step (h : Sound s) (e : WalletEvent) : Sound (s.step p e) := by
  cases e with
  | connect wallet created => exact sound_connect h wallet created
  | connectWallet wallet scriptMissing created =>
    simp only [step]
    split
    · exact h
    · split
      · exact ⟨h.client, h.vaultClient, h.numbered, h.active⟩
      · exact sound_connect h wallet created
  | restore => exact ⟨h.client, h.vaultClient, h.numbered, h.active⟩
  | disconnect => exact sound_disconnect h
  | scriptLoaded adapter =>
    simp only [step]
    split
    · exact h
    · rename_i waits _
      have hnext : Sound { s with scriptWaits := waits } :=
        ⟨h.client, h.vaultClient, h.numbered, h.active⟩
      exact sound_connect hnext _ _
  | restored usable created =>
    simp only [step]
    split
    · exact h
    · split
      · have hnext : Sound { s with restoring := none } :=
          ⟨h.client, h.vaultClient, h.numbered, h.active⟩
        exact sound_connect hnext _ created
      · exact ⟨h.client, h.vaultClient, h.numbered, h.active⟩
  | scriptFailed =>
    simp only [step]
    split
    · exact ⟨h.client, h.vaultClient, h.numbered, h.active⟩
    · exact h
  | resolved k => exact sound_resolved h k
  | rejected k message =>
    simp only [step, rejected]
    split
    · have hover : (s.wait k none).attempts k = none := by simp [wait]
      exact sound_fail (sound_wait h k) (fun _ => hover) _ _ _
    · exact h
    · exact h
  | probed k isHardwareWallet =>
    simp only [step, probed]
    split
    · exact sound_conclude (sound_wait h k) _ _ _
    · exact h
    · exact h
  | render => exact ⟨h.client, h.vaultClient, h.numbered, h.active⟩
  | adapterChanges adapter fields => exact ⟨h.client, h.vaultClient, h.numbered, h.active⟩

theorem sound_run (h : Sound s) (events : List WalletEvent) : Sound (s.run p events) := by
  induction events generalizing s with
  | nil => exact h
  | cons e events ih => exact ih (sound_step h e)

/-- Whatever happens, both clients sign with the adapter that is shown as connected. -/
theorem signers_shown (p : String) (vault : Bool) (session : Option WalletSession)
    (adapters : ℕ → WalletAdapter) (events : List WalletEvent) :
    ((mounted vault session adapters).run p events).client =
        ((mounted vault session adapters).run p events).state.signer ∧
      ∀ adapter, ((mounted vault session adapters).run p events).vaultClient = some adapter →
        adapter = ((mounted vault session adapters).run p events).state.signer := by
  have hsound := sound_run (p := p) (mounted_sound vault session adapters) events
  exact ⟨hsound.client, hsound.vaultClient⟩

end Runs

end WalletMachine

end BcForge.React
