import BcForge.Sdk.Submit

/-! Which transactions a call of `submitTransaction` can bring to the network: the one it was given
and, with attempts to spare and a complete context, those it builds anew. -/
namespace BcForge.Sdk

open Remote Talk

section Keeps
variable {A : Envelope → Prop} {options : SubmitTransactionOptions} {more : Bool} {fee fee' : ℕ}
  {xdr : Envelope} {context : String × Invocation}

theorem keeps_ask {α : Type} (answer : Turn → Except String α) :
    Keeps (Network.Within A) (fun _ => True) (ask answer) :=
  keeps_request fun t _ hw => within_recordAll hw t.closed

theorem keeps_sendTransaction (h : A xdr) :
    Keeps (Network.Within A) (fun _ => True) (sendTransaction xdr) := by
  refine keeps_request fun t n hw => within_recordAll ?_ t.closed
  split
  · exact within_receive hw h
  · exact hw

theorem keeps_send (h : A xdr) : Keeps (Network.Within A) (fun _ => True) (send xdr) := by
  refine keeps_bind (keeps_capture (keeps_sendTransaction h)) fun r _ => ?_
  cases r with
  | ok response => exact keeps_pure trivial
  | error _ => exact keeps_sendTransaction h

theorem keeps_buildInvokeTransaction (networkPassphrase : String) (i : Invocation)
    (sourceKeypair : String) (fee : Option ℕ) :
    Keeps (Network.Within A) (fun e => e.network = networkPassphrase ∧ e.invocation = i)
      (buildInvokeTransaction networkPassphrase i sourceKeypair fee) := by
  refine keeps_bind (keeps_ask _) fun sequence _ => ?_
  refine keeps_bind (keeps_ask _) fun simulated _ => ?_
  cases simulated with
  | ok resourceFee => exact keeps_pure ⟨rfl, rfl⟩
  | error error =>
    dsimp only
    split
    · exact keeps_fail
    · exact keeps_fail

theorem keeps_poll (k : ℕ) : Keeps (Network.Within A) (fun _ => True) (poll k) := by
  induction k with
  | zero => exact keeps_ask _
  | succ k ih =>
    refine keeps_bind (keeps_ask _) fun response _ => ?_
    split
    · exact ih
    · exact keeps_pure trivial

theorem keeps_confirm (hash : String) :
    Keeps (Network.Within A) (fun _ => True) (confirm options hash) := by
  refine keeps_bind (keeps_poll 29) fun response _ => ?_
  split
  · exact keeps_fail
  · dsimp only
    split
    · exact keeps_fail
    · exact keeps_fail
  · exact keeps_pure trivial

/-- What a pass through the loop can hand to the next one: a transaction that it built anew, and
only when the options say how and attempts are left. -/
def Attempted.Admitted (options : SubmitTransactionOptions) (more : Bool) : Attempted → Prop
  | .rebuilt e _ => more = true ∧
    ∃ context, options.context = some context ∧ e.network = options.network ∧
      e.invocation = context.2
  | _ => True

/-- A branch that builds the transaction anew may be taken: the sequence branch with the fee as it
is, or the fee branch with a higher one. -/
def Retries (options : SubmitTransactionOptions) (more : Bool) (fee : ℕ)
    (context : String × Invocation) (fee' : ℕ) : Prop :=
  options.sequenceRetry more = some context ∧ fee' = fee ∨
    options.feeRetry more fee = some context ∧ fee' = options.bumpedFee fee

theorem context_of_retries (h : Retries options more fee context fee') :
    more = true ∧ options.context = some context := by
  rcases h with ⟨h, -⟩ | ⟨h, -⟩
  · unfold SubmitTransactionOptions.sequenceRetry at h
    split at h
    case isTrue hm => exact ⟨hm, h⟩
    case isFalse => cases h
  · unfold SubmitTransactionOptions.feeRetry at h
    split at h
    case isTrue hm => exact ⟨hm.1, h⟩
    case isFalse => cases h

theorem retries_of_react {r : SendTransactionResponse}
    (h : react options more fee r = .rebuild context fee') :
    Retries options more fee context fee' := by
  unfold react at h
  split at h
  · cases h
  split at h
  · split at h <;> cases h
  split at h
  · split at h
    case h_1 hs =>
      cases h
      exact Or.inl ⟨hs, rfl⟩
    case h_2 => cases h
  split at h
  · split at h
    case h_1 hf =>
      cases h
      exact Or.inr ⟨hf, rfl⟩
    case h_2 => cases h
  · cases h

theorem retries_of_recoverText {errStr : String} {error : Failure}
    (h : recoverText options more fee errStr error = .rebuild context fee') :
    Retries options more fee context fee' := by
  unfold recoverText at h
  split at h
  · split at h <;> cases h
  split at h
  · split at h
    case h_1 hs =>
      cases h
      exact Or.inl ⟨hs, rfl⟩
    case h_2 => cases h
  split at h
  · split at h
    case h_1 hf =>
      cases h
      exact Or.inr ⟨hf, rfl⟩
    case h_2 => cases h
  · cases h

theorem retries_of_recover {error : Failure}
    (h : recover options more fee error = .rebuild context fee') :
    Retries options more fee context fee' := by
  cases error with
  | contract e => cases h
  | timeout hash => cases h
  | submission message hash => exact retries_of_recoverText h
  | simulation message => exact retries_of_recoverText h
  | signerRequired message => exact retries_of_recoverText h
  | thrown message => exact retries_of_recoverText h

theorem keeps_rebuild (hm : more = true) (hc : options.context = some context) :
    Keeps (Network.Within A) (Attempted.Admitted options more) (rebuild options context fee) :=
  keeps_bind (keeps_buildInvokeTransaction _ _ _ _) fun _ he =>
    keeps_pure ⟨hm, context, hc, he.1, he.2⟩

theorem keeps_caught (error : Failure) :
    Keeps (Network.Within A) (Attempted.Admitted options more)
      (caught options more fee error) := by
  unfold caught
  split
  case h_1 => exact keeps_fail
  case h_2 context fee' h =>
    obtain ⟨hm, hc⟩ := context_of_retries (retries_of_recover h)
    exact keeps_rebuild hm hc
  case h_3 => exact keeps_pure trivial

theorem keeps_attempt (h : A xdr) :
    Keeps (Network.Within A) (Attempted.Admitted options more)
      (attempt options more xdr fee) := by
  refine keeps_bind (keeps_capture (keeps_send h)) fun sent _ => ?_
  cases sent with
  | error error => exact keeps_caught error
  | ok response =>
    dsimp only
    split
    case h_1 error _ => exact keeps_caught error
    case h_2 context fee' hr =>
      obtain ⟨hm, hc⟩ := context_of_retries (retries_of_react hr)
      refine keeps_bind (keeps_capture (keeps_rebuild hm hc)) fun built hb => ?_
      cases built with
      | ok done => exact keeps_pure (hb done rfl)
      | error error => exact keeps_caught error
    case h_3 =>
      refine keeps_bind (keeps_capture (keeps_confirm response.hash)) fun confirmed _ => ?_
      cases confirmed with
      | ok getResponse => exact keeps_pure trivial
      | error error => exact keeps_caught error

/-- The loop sends the transaction it was given and, with attempts to spare, those it builds. -/
theorem keeps_submitLoop {left : ℕ} {lastError : Option Failure} (h : A xdr)
    (hb : 2 ≤ left → ∀ context, options.context = some context →
      ∀ e : Envelope, e.network = options.network → e.invocation = context.2 → A e) :
    Keeps (Network.Within A) (fun _ => True) (submitLoop options left xdr fee lastError) := by
  induction left generalizing xdr fee lastError with
  | zero => exact keeps_fail
  | succ left ih =>
    have hb' : 2 ≤ left → ∀ context, options.context = some context →
        ∀ e : Envelope, e.network = options.network → e.invocation = context.2 → A e :=
      fun hl => hb (by omega)
    refine keeps_bind (keeps_attempt h) fun r hr => ?_
    cases r with
    | confirmed response => exact keeps_pure trivial
    | rebuilt e fee' =>
      obtain ⟨hm, context, hc, hn, hi⟩ := hr
      have hl : left ≠ 0 := of_decide_eq_true hm
      exact ih (hb (by omega) context hc e hn hi) hb'
    | remembered error fee' => exact ih h hb'

end Keeps

end BcForge.Sdk
