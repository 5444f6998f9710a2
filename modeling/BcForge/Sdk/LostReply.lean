import BcForge.Sdk.Submit

/-! What the retries do after an answer got lost, of a transaction that the network executed. -/
namespace BcForge.Sdk

open Remote Talk

section LostReply
variable {options : SubmitTransactionOptions} {context : String × Invocation} {xdr tx : Envelope}
  {fee : ℕ} {n : ℤ} {script : ℕ → Turn} {s : Session Network} {i : Invocation} {net : Network}

/-- A turn in which nothing happens and no answer arrives. -/
def Turn.silent : Turn where
  arrives := false
  closed := []
  getAccount := .error "socket hang up"
  simulateTransaction := .error "socket hang up"
  sendTransaction := .error "socket hang up"
  getTransaction := .error "socket hang up"
  signTransaction := .ok ()

/-- The transaction is sent and executes; the answer is lost. -/
def Turn.lost (e : Envelope) : Turn :=
  { Turn.silent with arrives := true, closed := [.submitted e true] }

/-- The transaction is sent and executes, and the answer says that it is pending. -/
def Turn.accepted (e : Envelope) : Turn :=
  { Turn.silent with
    arrives := true
    closed := [.submitted e true]
    sendTransaction := .ok ⟨.pending, "", none, none⟩ }

/-- The sequence number of the transaction is not the next one. -/
def Turn.badSequence : Turn :=
  { Turn.silent with sendTransaction := .ok ⟨.error, "", some "txBAD_SEQ", none⟩ }

def Turn.account (n : ℤ) : Turn := { Turn.silent with getAccount := .ok n }

def Turn.simulated : Turn := { Turn.silent with simulateTransaction := .ok (.ok 0) }

def Turn.found : Turn :=
  { Turn.silent with getTransaction := .ok ⟨.success, none, "", none, none⟩ }

/-- The turns of the list, and silence. -/
def scriptOf (turns : List Turn) (k : ℕ) : Turn := turns.getD k .silent

theorem send_lost (h0 : script s.clock = .lost xdr) (h1 : script (s.clock + 1) = .badSequence) :
    send xdr script s =
      (.ok ⟨.error, "", some "txBAD_SEQ", none⟩, ⟨s.clock + 2, s.world.execute xdr⟩) := by
  simp [send, run_bind, sendTransaction, h0, h1, Turn.lost, Turn.badSequence, Turn.silent,
    Except.mapError, Network.execute, Network.recordAll]

theorem send_badSequence (h0 : script s.clock = .badSequence) :
    send xdr script s =
      (.ok ⟨.error, "", some "txBAD_SEQ", none⟩, ⟨s.clock + 1, s.world⟩) := by
  simp [send, run_bind, sendTransaction, h0, Turn.badSequence, Turn.silent,
    Except.mapError, Network.recordAll]

theorem build_answered (h0 : script s.clock = .account n) (h1 : script (s.clock + 1) = .simulated)
    (passphrase source : String) (fee : Option ℕ) :
    buildInvokeTransaction passphrase i source fee script s =
      (.ok (assemble source n (feeOr100 fee) 0 passphrase i), ⟨s.clock + 2, s.world⟩) := by
  simp [buildInvokeTransaction, run_bind, ask, h0, h1, Turn.account, Turn.simulated, Turn.silent,
    Except.mapError, Network.recordAll]

/-- The text is recognised as a sequence error and as nothing else. -/
theorem react_eq_sequence (more : Bool) :
    react options more fee ⟨.error, "", some "txBAD_SEQ", none⟩ =
      (options.sequenceRetry more).elim
        (.raise (submissionError "Transaction submission failed (sequence error): "
          ⟨.error, "", some "txBAD_SEQ", none⟩))
        (fun context => .rebuild context fee) := by
  have hcontract : includesAny "txBAD_SEQ "
      ["txFAILED", "txfailed", "ContractError", "Error(Contract"] = false := by decide +kernel
  have hseq : includesAny "txBAD_SEQ " ["txBAD_SEQ", "txbad_seq", "BAD_SEQ", "bad_seq"] = true := by
    decide +kernel
  have hstr : SendTransactionResponse.errorStr ⟨.error, "", some "txBAD_SEQ", none⟩ =
    "txBAD_SEQ " := by decide +kernel
  cases hr : options.sequenceRetry more <;> simp [react, hstr, hcontract, hseq, hr]

theorem react_badSequence (hc : options.context = some context) :
    react options true fee ⟨.error, "", some "txBAD_SEQ", none⟩ = .rebuild context fee := by
  simp [react_eq_sequence, SubmitTransactionOptions.sequenceRetry, hc]

/-- The answer to a transaction that executed is lost; sent again, it has a used sequence number,
and the loop builds another one. -/
theorem attempt_lost (hc : options.context = some context) (h0 : script s.clock = .lost xdr)
    (h1 : script (s.clock + 1) = .badSequence) (h2 : script (s.clock + 2) = .account n)
    (h3 : script (s.clock + 3) = .simulated) :
    attempt options true xdr fee script s =
      (.ok (.rebuilt (assemble context.1 n (feeOr100 (some fee)) 0 options.network context.2) fee),
        ⟨s.clock + 4, s.world.execute xdr⟩) := by
  have hb : ∀ w, buildInvokeTransaction options.network context.2 context.1 (some fee) script
      ⟨s.clock + 2, w⟩ = _ := fun w => build_answered h2 h3 _ _ _
  simp [attempt, run_bind, send_lost h0 h1, react_badSequence hc, rebuild, hb]

theorem attempt_rejected (hc : options.context = some context)
    (h0 : script s.clock = .badSequence) (h1 : script (s.clock + 1) = .account n)
    (h2 : script (s.clock + 2) = .simulated) :
    attempt options true xdr fee script s =
      (.ok (.rebuilt (assemble context.1 n (feeOr100 (some fee)) 0 options.network context.2) fee),
        ⟨s.clock + 3, s.world⟩) := by
  have hb : ∀ w, buildInvokeTransaction options.network context.2 context.1 (some fee) script
      ⟨s.clock + 1, w⟩ = _ := fun w => build_answered h1 h2 _ _ _
  simp [attempt, run_bind, send_badSequence h0, react_badSequence hc, rebuild, hb]

theorem attempt_accepted (more : Bool) (h0 : script s.clock = .accepted xdr)
    (h1 : script (s.clock + 1) = .found) :
    attempt options more xdr fee script s =
      (.ok (.confirmed ⟨.success, none, "", none, none⟩),
        ⟨s.clock + 2, s.world.execute xdr⟩) := by
  simp [attempt, run_bind, send, sendTransaction, h0, h1, Turn.accepted, Turn.found, Turn.silent,
    Except.mapError, Network.execute, Network.recordAll, react, confirm, poll, ask]

/-- Without a context the same answers make the loop give up. -/
theorem attempt_default_lost (more : Bool) (h0 : script s.clock = .lost xdr)
    (h1 : script (s.clock + 1) = .badSequence) :
    ∃ e, attempt .default more xdr fee script s =
      (.error e, ⟨s.clock + 2, s.world.execute xdr⟩) := by
  have hnone : SubmitTransactionOptions.default.sequenceRetry more = none := by
    cases more <;> rfl
  have hraise : react .default more fee ⟨.error, "", some "txBAD_SEQ", none⟩ =
      .raise (.submission "Transaction submission failed (sequence error): txBAD_SEQ" (some "")) :=
    by simp [react_eq_sequence, hnone, submissionError, truthyOr]
  have hrecover : ∀ error, recoverText .default more fee
      "Transaction submission failed (sequence error): txBAD_SEQ" error = .rethrow error := by
    have hcontract : includesAny "Transaction submission failed (sequence error): txBAD_SEQ"
        ["txFAILED", "ContractError", "Error(Contract"] = false := by decide +kernel
    have hseq : includesAny "Transaction submission failed (sequence error): txBAD_SEQ"
        ["txBAD_SEQ", "BAD_SEQ", "bad sequence"] = true := by decide +kernel
    simp [recoverText, hcontract, hseq, hnone]
  exact ⟨_, by simp [attempt, run_bind, send_lost h0 h1, hraise, caught, recover, hrecover]; rfl⟩

theorem submitLoop_rebuilt {k fee' : ℕ} {lastError : Option Failure} {s' : Session Network}
    {e : Envelope} (h : attempt options true xdr fee script s = (.ok (.rebuilt e fee'), s')) :
    submitLoop options (k + 2) xdr fee lastError script s =
      submitLoop options (k + 1) e fee' lastError script s' := by
  rw [submitLoop, run_bind]
  simp [h]

theorem submitLoop_thrown {k : ℕ} {lastError : Option Failure} {s' : Session Network}
    {e : Failure} (h : attempt options true xdr fee script s = (.error e, s')) :
    submitLoop options (k + 2) xdr fee lastError script s = (.error e, s') := by
  rw [submitLoop, run_bind]
  simp [h]

theorem submitLoop_confirmed {k : ℕ} {lastError : Option Failure} {s' : Session Network}
    {r : GetTransactionResponse}
    (h : ∀ more, attempt options more xdr fee script s = (.ok (.confirmed r), s')) :
    submitLoop options (k + 1) xdr fee lastError script s = (.ok r, s') := by
  rw [submitLoop, run_bind]
  simp [h]

section Invoke
variable (scValToNative : ScVal → Option Native) {client : VaultClient} {authority : Authority}
  {account : String} {s' : Session Network}

theorem signed_keypair (h0 : script s.clock = .account n)
    (h1 : script (s.clock + 1) = .simulated) :
    client.signed i (.keypair account) script s =
      (.ok (assemble account n 100 0 client.networkPassphrase i), ⟨s.clock + 2, s.world⟩) :=
  build_answered h0 h1 _ _ none

theorem signed_wallet (h0 : script s.clock = .account n)
    (h1 : script (s.clock + 1) = .simulated) (h2 : script (s.clock + 2) = .silent) :
    client.signed i (.wallet account) script s =
      (.ok (assemble account n 100 0 client.networkPassphrase i), ⟨s.clock + 3, s.world⟩) := by
  simp [VaultClient.signed, buildUnsignedTransaction, signTransaction, run_bind, ask, h0, h1, h2,
    Turn.account, Turn.simulated, Turn.silent, Except.mapError, Network.recordAll]

theorem invokeOnce_lost (hs : client.signed i authority script s = (.ok xdr, s'))
    (h0 : script s'.clock = .lost xdr) (h1 : script (s'.clock + 1) = .badSequence) :
    ∃ e, client.invokeOnce scValToNative i authority script s =
      (.error e, ⟨s'.clock + 2, s'.world.execute xdr⟩) := by
  obtain ⟨e, he⟩ := attempt_default_lost true h0 h1
  have hsubmit : submitTransaction xdr .default script s' =
      (.error e, ⟨s'.clock + 2, s'.world.execute xdr⟩) := submitLoop_thrown he
  refine ⟨e, ?_⟩
  simp [VaultClient.invokeOnce, run_bind, hs, hsubmit]

theorem invokeOnce_accepted (hs : client.signed i authority script s = (.ok xdr, s'))
    (h0 : script s'.clock = .accepted xdr) (h1 : script (s'.clock + 1) = .found) :
    client.invokeOnce scValToNative i authority script s =
      (.ok ⟨true, "", none⟩, ⟨s'.clock + 2, s'.world.execute xdr⟩) := by
  have hsubmit : submitTransaction xdr .default script s' =
      (.ok ⟨.success, none, "", none, none⟩, ⟨s'.clock + 2, s'.world.execute xdr⟩) :=
    submitLoop_confirmed fun more => attempt_accepted more h0 h1
  simp [VaultClient.invokeOnce, run_bind, hs, hsubmit, nativeValue]

/-- The first transaction executes and its answer is lost, so `withRetry` signs a second one. -/
theorem withRetry_lost {e e' : Envelope} {c c' : ℕ}
    (hs : client.signed i authority script s = (.ok e, ⟨c, net⟩)) (h0 : script c = .lost e)
    (h1 : script (c + 1) = .badSequence)
    (hs' : client.signed i authority script ⟨c + 2, net.execute e⟩ =
      (.ok e', ⟨c', net.execute e⟩))
    (h0' : script c' = .accepted e') (h1' : script (c' + 1) = .found) :
    (withRetry (client.invokeOnce scValToNative i authority) script s).2.world =
      (net.execute e).execute e' := by
  obtain ⟨error, hlost⟩ := invokeOnce_lost scValToNative hs h0 h1
  have hagain := invokeOnce_accepted scValToNative hs' h0' h1'
  simp [withRetry, retryAfter, run_bind, hlost, hagain]

end Invoke

end LostReply

end BcForge.Sdk
