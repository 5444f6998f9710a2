import BcForge.Sdk.LostReply
import BcForge.Sdk.Sends

/-! How often an invocation executes that the SDK was asked to submit once. A transaction that is
built anew has a sequence number of its own, so the network cannot tell it from a second request. -/
namespace BcForge.Sdk

open Remote Talk

/-- Whatever the server answers and whenever the network closes a ledger, during the call and
after it, the invocation executes at most once. -/
def AtMostOnce {α : Type} (x : Client α) (i : Invocation) : Prop :=
  ∀ passphrase sequence script later,
    ((x script ⟨0, Network.fresh passphrase sequence⟩).2.world.recordAll later).executions i ≤ 1

section Safe
variable {α : Type} {A : Envelope → Prop} {x : Client α} {i : Invocation} {tx : Envelope}
  {options : SubmitTransactionOptions}

/-- The envelopes that reached the network are so few that the invocation cannot execute twice. -/
def Network.Safe (i : Invocation) (n : Network) : Prop := ∃ A, n.Within A ∧ OnlyOne A i

theorem atMostOnce_of_leads (h : Leads (Network.Within A) (Network.Safe i) x) :
    AtMostOnce x i := by
  intro passphrase sequence script later
  obtain ⟨B, hw, hone⟩ := h script ⟨0, _⟩ (within_fresh passphrase sequence)
  exact executions_le_one (within_recordAll hw later) hone

theorem onlyOne_eq (tx : Envelope) : OnlyOne (fun e => e = tx) i := by
  rintro e e' rfl rfl _ _ _
  rfl

/-- The options have everything that a second transaction for the same invocation takes, and the
attempts for two that the same network accepts. -/
def Resubmits (tx : Envelope) (options : SubmitTransactionOptions) : Prop :=
  ∃ context, options.context = some context ∧ context.2 = tx.invocation ∧
    (3 ≤ options.attempts ∨ options.attempts = 2 ∧ options.network = tx.network)

/-- Every transaction but the given one asks for something else. -/
theorem leads_of_foreign
    (h : 2 ≤ options.attempts → ∀ context, options.context = some context →
      context.2 ≠ tx.invocation) :
    Leads (Network.Within fun e => e = tx ∨ e.invocation ≠ tx.invocation)
      (Network.Safe tx.invocation) (submitTransaction tx options) := by
  have hk : Keeps (Network.Within fun e => e = tx ∨ e.invocation ≠ tx.invocation)
      (fun _ => True) (submitTransaction tx options) := by
    refine keeps_submitLoop (Or.inl rfl) ?_
    intro hl context hc e _ he
    exact Or.inr (he ▸ h hl context hc)
  refine hk.leads fun n hn => ⟨_, hn, ?_⟩
  rintro e e' (rfl | he) (rfl | he') _ hi hi'
  · rfl
  · exact absurd hi' he'
  · exact absurd hi he
  · exact absurd hi he

/-- Of two transactions for two networks only one is accepted. -/
theorem leads_of_two_networks (hl : options.attempts = 2) (hn : options.network ≠ tx.network) :
    Leads (Network.Within fun e => e = tx) (Network.Safe tx.invocation)
      (submitTransaction tx options) := by
  have hsafe : ∀ n : Network, n.Within (fun e => e = tx) → n.Safe tx.invocation :=
    fun n h => ⟨_, h, onlyOne_eq tx⟩
  unfold submitTransaction
  rw [hl]
  refine leads_bind (keeps_attempt rfl) hsafe fun r hr => ?_
  cases r with
  | confirmed response => exact (keeps_pure trivial).leads (V := fun _ => True) hsafe
  | remembered error fee =>
    have hk : Keeps (Network.Within fun e => e = tx) (fun _ => True)
        (submitLoop options 1 tx fee (some error)) := keeps_submitLoop rfl (by omega)
    exact hk.leads hsafe
  | rebuilt e fee =>
    obtain ⟨_, _, _, hnet, _⟩ := hr
    have hk : Keeps (Network.Within fun e' => e' = tx ∨ e' = e) (fun _ => True)
        (submitLoop options 1 e fee none) := keeps_submitLoop (Or.inr rfl) (by omega)
    refine (hk.leads (P := Network.Safe tx.invocation) ?_).of_imp
      fun n h => h.mono fun _ => Or.inl
    intro n h
    refine ⟨_, h, ?_⟩
    rintro e₁ e₂ (rfl | rfl) (rfl | rfl) hsame _ _
    · rfl
    · exact absurd (hsame.trans hnet).symm hn
    · exact absurd (hnet.symm.trans hsame) hn
    · rfl

theorem atMostOnce_submitTransaction (h : ¬ Resubmits tx options) :
    AtMostOnce (submitTransaction tx options) tx.invocation := by
  by_cases hf : 2 ≤ options.attempts → ∀ context, options.context = some context →
      context.2 ≠ tx.invocation
  · exact atMostOnce_of_leads (leads_of_foreign hf)
  · push Not at hf
    obtain ⟨hl, context, hc, hi⟩ := hf
    have hfew : ¬ 3 ≤ options.attempts := fun hl => h ⟨context, hc, hi, Or.inl hl⟩
    have htwo : options.attempts = 2 := by omega
    exact atMostOnce_of_leads (leads_of_two_networks htwo
      fun hn => h ⟨context, hc, hi, Or.inr ⟨htwo, hn⟩⟩)

end Safe

section Twice
variable {options : SubmitTransactionOptions} {context : String × Invocation} {tx : Envelope}
  {script : ℕ → Turn} {i : Invocation}

/-- Two executions are one too many, also when no ledger closes afterwards. -/
theorem not_atMostOnce {α : Type} {x : Client α} {passphrase : String} {sequence : String → ℤ}
    (h : (x script ⟨0, Network.fresh passphrase sequence⟩).2.world.executions i = 2) :
    ¬ AtMostOnce x i := by
  intro ha
  have := ha passphrase sequence script []
  rw [Network.recordAll, List.foldl_nil, h] at this
  omega

/-- The given transaction executes, and so does the one built in its place. -/
theorem twice_same_network (hc : options.context = some context)
    (hi : context.2 = tx.invocation) (hl : 2 ≤ options.attempts)
    (hn : options.network = tx.network) :
    ¬ AtMostOnce (submitTransaction tx options) tx.invocation := by
  obtain ⟨k, hk⟩ := Nat.exists_eq_add_of_le' hl
  let e := assemble context.1 tx.sequence (feeOr100 (some tx.fee)) 0 options.network context.2
  let script := scriptOf [.lost tx, .badSequence, .account tx.sequence, .simulated,
    .accepted e, .found]
  let start := Network.fresh tx.network
    fun a => if a = tx.source then tx.sequence - 1 else tx.sequence
  have hrun : (submitTransaction tx options script ⟨0, start⟩).2 =
      ⟨6, (start.execute tx).execute e⟩ := by
    unfold submitTransaction
    rw [hk, submitLoop_rebuilt (attempt_lost hc rfl rfl rfl rfl),
      submitLoop_confirmed fun more => attempt_accepted more rfl rfl]
  apply not_atMostOnce
  rw [hrun]
  refine executions_execute_execute rfl (by simp) rfl hn ?_ hi
  by_cases ha : context.1 = tx.source <;> simp [e, assemble, ha]

/-- The given transaction is rejected; the one built in its place executes, and so does the one
built in that one's place. -/
theorem twice_rebuilt (hc : options.context = some context)
    (hi : context.2 = tx.invocation) (hl : 3 ≤ options.attempts) :
    ¬ AtMostOnce (submitTransaction tx options) tx.invocation := by
  obtain ⟨k, hk⟩ := Nat.exists_eq_add_of_le' hl
  let e (n : ℤ) := assemble context.1 n (feeOr100 (some tx.fee)) 0 options.network context.2
  let script := scriptOf [.badSequence, .account 0, .simulated, .lost (e 0), .badSequence,
    .account 1, .simulated, .accepted (e 1), .found]
  let start := Network.fresh options.network fun _ => 0
  have hrun : (submitTransaction tx options script ⟨0, start⟩).2 =
      ⟨9, (start.execute (e 0)).execute (e 1)⟩ := by
    unfold submitTransaction
    rw [hk, submitLoop_rebuilt (attempt_rejected hc rfl rfl rfl),
      submitLoop_rebuilt (attempt_lost hc rfl rfl rfl rfl),
      submitLoop_confirmed fun more => attempt_accepted more rfl rfl]
  apply not_atMostOnce
  rw [hrun]
  exact executions_execute_execute rfl rfl hi rfl (by simp [e, assemble]) hi

theorem not_atMostOnce_of_resubmits (h : Resubmits tx options) :
    ¬ AtMostOnce (submitTransaction tx options) tx.invocation := by
  obtain ⟨context, hc, hi, hl | ⟨hl, hn⟩⟩ := h
  · exact twice_rebuilt hc hi hl
  · exact twice_same_network hc hi (by omega) hn

theorem twice_withRetry (scValToNative : ScVal → Option Native) {client : VaultClient}
    {authority : Authority} :
    ¬ AtMostOnce (withRetry (client.invokeOnce scValToNative i authority)) i := by
  cases authority with
  | keypair account =>
    let e (n : ℤ) := assemble account n 100 0 client.networkPassphrase i
    let script := scriptOf [.account 0, .simulated, .lost (e 0), .badSequence,
      .account 1, .simulated, .accepted (e 1), .found]
    let start := Network.fresh client.networkPassphrase fun _ => 0
    have hs : client.signed i (.keypair account) script ⟨0, start⟩ = (.ok (e 0), ⟨2, start⟩) :=
      signed_keypair rfl rfl
    have hs' : client.signed i (.keypair account) script ⟨4, start.execute (e 0)⟩ =
        (.ok (e 1), ⟨6, start.execute (e 0)⟩) := signed_keypair rfl rfl
    apply not_atMostOnce
    rw [withRetry_lost scValToNative hs rfl rfl hs' rfl rfl]
    exact executions_execute_execute rfl rfl rfl rfl (by simp [e, assemble]) rfl
  | wallet account =>
    let e (n : ℤ) := assemble account n 100 0 client.networkPassphrase i
    let script := scriptOf [.account 0, .simulated, .silent, .lost (e 0), .badSequence,
      .account 1, .simulated, .silent, .accepted (e 1), .found]
    let start := Network.fresh client.networkPassphrase fun _ => 0
    have hs : client.signed i (.wallet account) script ⟨0, start⟩ = (.ok (e 0), ⟨3, start⟩) :=
      signed_wallet rfl rfl rfl
    have hs' : client.signed i (.wallet account) script ⟨5, start.execute (e 0)⟩ =
        (.ok (e 1), ⟨8, start.execute (e 0)⟩) := signed_wallet rfl rfl rfl
    apply not_atMostOnce
    rw [withRetry_lost scValToNative hs rfl rfl hs' rfl rfl]
    exact executions_execute_execute rfl rfl rfl rfl (by simp [e, assemble]) rfl

end Twice

/-- A connected wallet with a key. -/
def WalletAdapter.Usable (wallet : WalletAdapter) : Prop :=
  wallet.connected = true ∧ ∃ key, wallet.publicKey = some key ∧ key ≠ ""

/-- A signer the client can use: a keypair, or a wallet that is connected and has a key. -/
def VaultClient.CanSign (client : VaultClient) (source : Option Signer) : Prop :=
  match source with
  | some (.keypair _) => True
  | some (.adapter wallet) => wallet.Usable
  | none => ∃ wallet, client.walletAdapter = some wallet ∧ wallet.Usable

theorem authority_wallet (wallet : WalletAdapter) :
    (∃ a, wallet.authority = .ok a) ↔ wallet.Usable := by
  unfold WalletAdapter.authority WalletAdapter.Usable
  cases wallet.publicKey with
  | none => simp
  | some key =>
    by_cases hu : wallet.connected = true ∧ key ≠ ""
    · simp [hu]
    · simp only [Option.some.injEq, exists_eq_left', hu]
      simp

theorem authority_ok_iff (client : VaultClient) (source : Option Signer) :
    (∃ a, client.authority source = .ok a) ↔ client.CanSign source := by
  match source with
  | some (.keypair account) => exact ⟨fun _ => trivial, fun _ => ⟨_, rfl⟩⟩
  | some (.adapter wallet) => exact authority_wallet wallet
  | none =>
    simp only [VaultClient.authority, VaultClient.CanSign]
    cases client.walletAdapter with
    | none => simp
    | some wallet => simpa using authority_wallet wallet

theorem atMostOnce_invokeContract_iff (scValToNative : ScVal → Option Native)
    (client : VaultClient) (method : String) (args : List String) (source : Option Signer) :
    AtMostOnce (client.invokeContract scValToNative method args source)
      ⟨client.contractId, method, args⟩ ↔ ¬ client.CanSign source := by
  rw [← authority_ok_iff]
  unfold VaultClient.invokeContract
  cases client.authority source with
  | error e =>
    have hk : Keeps (Network.Within fun _ => False) (fun _ : TransactionResult => True)
        (fail e : Client TransactionResult) := keeps_fail
    refine ⟨fun _ => by simp, fun _ => ?_⟩
    exact atMostOnce_of_leads (hk.leads fun n h => ⟨_, h, fun _ _ hf => hf.elim⟩)
  | ok authority =>
    refine ⟨fun h => absurd h (twice_withRetry scValToNative), fun h => ?_⟩
    exact absurd ⟨authority, rfl⟩ h

/-- `submitTransaction` and the vault client submit an invocation at most once exactly when they
have nothing to build a second transaction with. -/
theorem at_most_once_iff (tx : Envelope) (options : SubmitTransactionOptions)
    (scValToNative : ScVal → Option Native) (client : VaultClient) (method : String)
    (args : List String) (source : Option Signer) :
    (AtMostOnce (submitTransaction tx options) tx.invocation ↔ ¬ Resubmits tx options) ∧
    (AtMostOnce (client.invokeContract scValToNative method args source)
      ⟨client.contractId, method, args⟩ ↔ ¬ client.CanSign source) := by
  refine ⟨⟨fun ha hr => ?_, atMostOnce_submitTransaction⟩, ?_⟩
  · exact not_atMostOnce_of_resubmits hr ha
  · exact atMostOnce_invokeContract_iff scValToNative client method args source

def depositCall : Invocation := ⟨"CVAULT", "deposit", ["alice", "100"]⟩

/-- Alice's transaction with sequence number `n`. -/
def depositTx (n : ℤ) : Envelope := ⟨"GALICE", n, 100, "testnet", depositCall⟩

def depositOptions : SubmitTransactionOptions where
  maxAttempts := none
  maxFeeCap := none
  sourceKeypair := some "GALICE"
  networkPassphrase := some "testnet"
  contractId := some "CVAULT"
  method := some "deposit"
  args := some ["alice", "100"]

/-- One lost answer and a deposit is made twice, by `submitTransaction` and by the vault client. -/
theorem deposit_twice :
    ¬ AtMostOnce (submitTransaction (depositTx 8) depositOptions) depositCall ∧
    ¬ AtMostOnce (VaultClient.invokeContract (fun _ => none) ⟨"CVAULT", "testnet", none⟩ "deposit"
      ["alice", "100"] (some (.keypair "GALICE"))) depositCall := by
  constructor
  · have htwo : (submitTransaction (depositTx 8) depositOptions
        (scriptOf [.lost (depositTx 8), .badSequence, .account 8, .simulated,
          .accepted (depositTx 9), .found])
        ⟨0, .fresh "testnet" fun _ => 7⟩).2.world.executions depositCall = 2 := by
      decide +kernel
    exact not_atMostOnce htwo
  · have htwo : (VaultClient.invokeContract (fun _ => none) ⟨"CVAULT", "testnet", none⟩ "deposit"
        ["alice", "100"] (some (.keypair "GALICE"))
        (scriptOf [.account 7, .simulated, .lost (depositTx 8), .badSequence, .account 8,
          .simulated, .accepted (depositTx 9), .found])
        ⟨0, .fresh "testnet" fun _ => 7⟩).2.world.executions depositCall = 2 := by
      decide +kernel
    exact not_atMostOnce htwo

end BcForge.Sdk
