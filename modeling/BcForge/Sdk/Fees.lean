import Mathlib.Data.List.Dedup
import BcForge.Remote.Trace
import BcForge.Sdk.Sends

/-! What a call of `submitTransaction` uses up: the requests it makes, the envelopes it sends and
the fees it offers. The calls are written down by a copy of the program that does the same. -/
namespace BcForge.Sdk

open Remote Talk

inductive Mark where
  /-- `server.sendTransaction` is called. -/
  | sent (xdr : Envelope)
  /-- `buildInvokeTransaction` is called with this fee. -/
  | offered (fee : ℕ)
  /-- It has returned this envelope. -/
  | built (xdr : Envelope)

namespace Traced

def sendTransaction (xdr : Envelope) : Talk Turn (Network × List Mark) Failure
    SendTransactionResponse := do
  mark (.sent xdr)
  silent (Sdk.sendTransaction xdr)

def send (xdr : Envelope) : Talk Turn (Network × List Mark) Failure
    SendTransactionResponse := do
  match ← capture (sendTransaction xdr) with
  | .ok response => return response
  | .error _ => sendTransaction xdr

def rebuild (options : SubmitTransactionOptions) (context : String × Invocation) (fee : ℕ) :
    Talk Turn (Network × List Mark) Failure Attempted := do
  mark (.offered fee)
  let xdr ← silent (buildInvokeTransaction options.network context.2 context.1 (some fee))
  mark (.built xdr)
  return .rebuilt xdr fee

def caught (options : SubmitTransactionOptions) (more : Bool) (currentFee : ℕ)
    (error : Failure) : Talk Turn (Network × List Mark) Failure Attempted :=
  match recover options more currentFee error with
  | .rethrow e => fail e
  | .rebuild context fee => rebuild options context fee
  | .remember => return .remembered error currentFee

def attempt (options : SubmitTransactionOptions) (more : Bool) (currentXdr : Envelope)
    (currentFee : ℕ) : Talk Turn (Network × List Mark) Failure Attempted := do
  match ← capture (send currentXdr) with
  | .error error => caught options more currentFee error
  | .ok response =>
    match react options more currentFee response with
    | .raise error => caught options more currentFee error
    | .rebuild context fee =>
      match ← capture (rebuild options context fee) with
      | .ok done => return done
      | .error error => caught options more fee error
    | .poll =>
      match ← capture (silent (confirm options response.hash)) with
      | .ok getResponse => return .confirmed getResponse
      | .error error => caught options more currentFee error

def submitLoop (options : SubmitTransactionOptions) : ℕ → Envelope → ℕ → Option Failure →
    Talk Turn (Network × List Mark) Failure GetTransactionResponse
  | 0, _, _, lastError => fail (lastError.getD
      (.submission "Transaction submission failed after maximum retry attempts" none))
  | left + 1, currentXdr, currentFee, lastError => do
    match ← attempt options (left ≠ 0) currentXdr currentFee with
    | .confirmed response => return response
    | .rebuilt xdr fee => submitLoop options left xdr fee lastError
    | .remembered error fee => submitLoop options left currentXdr fee (some error)

def submitTransaction (txXdr : Envelope) (options : SubmitTransactionOptions) :
    Talk Turn (Network × List Mark) Failure GetTransactionResponse :=
  submitLoop options options.attempts txXdr txXdr.fee none

end Traced

section Erasure

variable {options : SubmitTransactionOptions} {more : Bool} {fee left : ℕ} {xdr : Envelope}
  {context : String × Invocation} {lastError : Option Failure}

theorem erases_send : Erases (Traced.send xdr) (send xdr) := by
  have hsend : Erases (Traced.sendTransaction xdr) (sendTransaction xdr) :=
    erases_mark erases_silent
  refine erases_bind (erases_capture hsend) fun r => ?_
  cases r with
  | ok response => exact erases_pure response
  | error _ => exact hsend

theorem erases_rebuild :
    Erases (Traced.rebuild options context fee) (rebuild options context fee) :=
  erases_mark (erases_bind erases_silent fun _ => erases_mark (erases_pure _))

theorem erases_caught (error : Failure) :
    Erases (Traced.caught options more fee error) (caught options more fee error) := by
  unfold Traced.caught caught
  cases recover options more fee error with
  | rethrow e => exact erases_fail e
  | rebuild context fee' => exact erases_rebuild
  | remember => exact erases_pure _

theorem erases_attempt :
    Erases (Traced.attempt options more xdr fee) (attempt options more xdr fee) := by
  refine erases_bind (erases_capture erases_send) fun sent => ?_
  cases sent with
  | error error => exact erases_caught error
  | ok response =>
    dsimp only
    cases react options more fee response with
    | raise error => exact erases_caught error
    | rebuild context fee' =>
      refine erases_bind (erases_capture erases_rebuild) fun built => ?_
      cases built with
      | ok done => exact erases_pure done
      | error error => exact erases_caught error
    | poll =>
      refine erases_bind (erases_capture erases_silent) fun confirmed => ?_
      cases confirmed with
      | ok getResponse => exact erases_pure _
      | error error => exact erases_caught error

theorem erases_submitLoop : Erases (Traced.submitLoop options left xdr fee lastError)
    (submitLoop options left xdr fee lastError) := by
  induction left generalizing xdr fee lastError with
  | zero => exact erases_fail _
  | succ left ih =>
    refine erases_bind erases_attempt fun r => ?_
    cases r with
    | confirmed response => exact erases_pure response
    | rebuilt e fee' => exact ih
    | remembered error fee' => exact ih

end Erasure

section Requests

variable {options : SubmitTransactionOptions} {more : Bool} {fee left : ℕ} {xdr : Envelope}
  {context : String × Invocation} {lastError : Option Failure}

theorem atMost_ask {α : Type} (answer : Turn → Except String α) : AtMost 1 (ask answer) :=
  atMost_request _

theorem atMost_send : AtMost 2 (send xdr) := by
  have hsend : AtMost 1 (sendTransaction xdr) := atMost_request _
  refine atMost_bind (m := 1) (n := 1) (atMost_capture hsend) fun r => ?_
  cases r with
  | ok response => exact atMost_pure response
  | error _ => exact hsend

theorem atMost_poll (k : ℕ) : AtMost (1 + k) (poll k) := by
  induction k with
  | zero => exact atMost_ask _
  | succ k ih =>
    refine atMost_bind (atMost_ask _) fun response => ?_
    split
    · exact ih.le (by omega)
    · exact atMost_pure response

theorem atMost_confirm (hash : String) : AtMost 30 (confirm options hash) := by
  refine atMost_bind (n := 0) (atMost_poll 29) fun response => ?_
  split
  · exact atMost_fail _
  · dsimp only
    split
    · exact atMost_fail _
    · exact atMost_fail _
  · exact atMost_pure response

theorem atMost_rebuild : AtMost 2 (rebuild options context fee) := by
  have hbuild : AtMost 2
      (buildInvokeTransaction options.network context.2 context.1 (some fee)) := by
    refine atMost_bind (m := 1) (n := 1) (atMost_ask _) fun sequence => ?_
    refine atMost_bind (m := 1) (n := 0) (atMost_ask _) fun simulated => ?_
    cases simulated with
    | ok resourceFee => exact atMost_pure _
    | error error =>
      dsimp only
      split
      · exact atMost_fail _
      · exact atMost_fail _
  exact atMost_bind (n := 0) hbuild fun e => atMost_pure _

theorem atMost_caught (error : Failure) : AtMost 2 (caught options more fee error) := by
  unfold caught
  cases recover options more fee error with
  | rethrow e => exact atMost_fail e
  | rebuild context fee' => exact atMost_rebuild
  | remember => exact atMost_pure _

/-- Two to send, thirty to poll and two in the catch clause. -/
theorem atMost_attempt : AtMost 34 (attempt options more xdr fee) := by
  refine atMost_bind (m := 2) (n := 32) (atMost_capture atMost_send) fun sent => ?_
  cases sent with
  | error error => exact (atMost_caught error).le (by omega)
  | ok response =>
    dsimp only
    cases react options more fee response with
    | raise error => exact (atMost_caught error).le (by omega)
    | rebuild context fee' =>
      refine atMost_bind (m := 2) (n := 30) (atMost_capture atMost_rebuild) fun built => ?_
      cases built with
      | ok done => exact atMost_pure done
      | error error => exact (atMost_caught error).le (by omega)
    | poll =>
      refine atMost_bind (m := 30) (n := 2) (atMost_capture (atMost_confirm _)) fun confirmed => ?_
      cases confirmed with
      | ok getResponse => exact atMost_pure _
      | error error => exact atMost_caught error

theorem atMost_submitLoop : AtMost (34 * left) (submitLoop options left xdr fee lastError) := by
  induction left generalizing xdr fee lastError with
  | zero => exact atMost_fail _
  | succ left ih =>
    rw [Nat.mul_succ, Nat.add_comm]
    refine atMost_bind atMost_attempt fun r => ?_
    cases r with
    | confirmed response => exact atMost_pure response
    | rebuilt e fee' => exact ih
    | remembered error fee' => exact ih

end Requests

section Marks

def sentIn (log : List Mark) : List Envelope :=
  log.filterMap fun
    | .sent xdr => some xdr
    | _ => none

def offeredIn (log : List Mark) : List ℕ :=
  log.filterMap fun
    | .offered fee => some fee
    | _ => none

def builtIn (log : List Mark) : List Envelope :=
  log.filterMap fun
    | .built xdr => some xdr
    | _ => none

variable {l l' : List Mark}

@[simp] theorem sentIn_append : sentIn (l ++ l') = sentIn l ++ sentIn l' :=
  List.filterMap_append

@[simp] theorem offeredIn_append : offeredIn (l ++ l') = offeredIn l ++ offeredIn l' :=
  List.filterMap_append

@[simp] theorem builtIn_append : builtIn (l ++ l') = builtIn l ++ builtIn l' :=
  List.filterMap_append

/-- Fees that never fall, from `lo` to `hi`. -/
structure Climbs (lo hi : ℕ) (fees : List ℕ) : Prop where
  le : lo ≤ hi
  sorted : fees.Pairwise (· ≤ ·)
  between : ∀ fee ∈ fees, lo ≤ fee ∧ fee ≤ hi

variable {lo mid hi : ℕ} {fees fees' : List ℕ}

theorem climbs_nil : Climbs lo lo [] :=
  ⟨le_rfl, List.Pairwise.nil, fun _ h => nomatch h⟩

theorem climbs_to (h : lo ≤ hi) : Climbs lo hi [hi] where
  le := h
  sorted := List.pairwise_singleton _ _
  between := by
    intro fee hfee
    rw [List.mem_singleton.mp hfee]
    exact ⟨h, le_rfl⟩

theorem Climbs.append (h : Climbs lo mid fees) (h' : Climbs mid hi fees') :
    Climbs lo hi (fees ++ fees') where
  le := h.le.trans h'.le
  sorted := List.pairwise_append.mpr ⟨h.sorted, h'.sorted, fun a ha b hb =>
    (h.between a ha).2.trans (h'.between b hb).1⟩
  between := by
    intro fee hfee
    rcases List.mem_append.mp hfee with hfee | hfee
    · exact ⟨(h.between fee hfee).1, (h.between fee hfee).2.trans h'.le⟩
    · exact ⟨h.le.trans (h'.between fee hfee).1, (h'.between fee hfee).2⟩

end Marks

section Escalation

variable {options : SubmitTransactionOptions} {more : Bool} {fee fee' left : ℕ} {xdr : Envelope}
  {context : String × Invocation} {lastError : Option Failure} {l l' : List Mark}
  {r : Except Failure Attempted}

theorem bumpedFee_le : options.bumpedFee fee ≤ options.feeCap := by
  unfold SubmitTransactionOptions.bumpedFee
  split <;> omega

theorem fee_of_retries (h : Retries options more fee context fee') (hfee : fee ≤ options.feeCap) :
    fee ≤ fee' ∧ fee' ≤ options.feeCap := by
  rcases h with ⟨-, rfl⟩ | ⟨h, rfl⟩
  · exact ⟨le_rfl, hfee⟩
  · unfold SubmitTransactionOptions.feeRetry at h
    split at h
    case isTrue hcondition => exact ⟨hcondition.2.2.le, bumpedFee_le⟩
    case isFalse => cases h

/-- The fee with which the next pass starts. -/
def Attempted.LeavesFee (fee : ℕ) : Attempted → Prop
  | .confirmed _ => True
  | .rebuilt _ fee' => fee' = fee
  | .remembered _ fee' => fee' = fee

def builtBy : Except Failure Attempted → List Envelope
  | .ok (.rebuilt xdr _) => [xdr]
  | _ => []

/-- What one pass writes down that starts with `xdr` and `fee` and has the outcome `r`. -/
structure PassLog (options : SubmitTransactionOptions) (more : Bool) (xdr : Envelope) (fee : ℕ)
    (r : Except Failure Attempted) (l : List Mark) : Prop where
  sends : ∀ e ∈ sentIn l, e = xdr
  builds : builtIn l = builtBy r
  more : builtBy r ≠ [] → more = true
  fees : ∃ fee', fee' ≤ options.feeCap ∧ Climbs fee fee' (offeredIn l) ∧
    ∀ done, r = .ok done → done.LeavesFee fee'

/-- The pass goes on after it has written `l`. -/
theorem PassLog.after (h : PassLog options more xdr fee' r l')
    (hsends : ∀ e ∈ sentIn l, e = xdr) (hbuilds : builtIn l = [])
    (hfees : Climbs fee fee' (offeredIn l)) : PassLog options more xdr fee r (l ++ l') where
  sends := by
    intro e he
    rw [sentIn_append] at he
    exact (List.mem_append.mp he).elim (hsends e) (h.sends e)
  builds := by rw [builtIn_append, hbuilds, h.builds, List.nil_append]
  more := h.more
  fees := by
    obtain ⟨fee₁, hcap, hclimbs, hleaves⟩ := h.fees
    exact ⟨fee₁, hcap, by rw [offeredIn_append]; exact hfees.append hclimbs, hleaves⟩

theorem passLog_nil (hfee : fee ≤ options.feeCap) (hbuilt : builtBy r = [])
    (hleaves : ∀ done, r = .ok done → done.LeavesFee fee) : PassLog options more xdr fee r [] where
  sends := fun _ h => nomatch h
  builds := hbuilt.symm
  more := fun h => (h hbuilt).elim
  fees := ⟨fee, hfee, climbs_nil, hleaves⟩

theorem writes_send : Writes
    (fun _ l => (∀ e ∈ sentIn l, e = xdr) ∧ builtIn l = [] ∧ offeredIn l = [])
    (Traced.send xdr) := by
  have hsend : Writes (fun _ l => l = [.sent xdr]) (Traced.sendTransaction xdr) :=
    writes_mark (writes_silent fun _ => rfl)
  refine writes_try hsend ?_
  rintro r _ rfl
  cases r with
  | ok response => exact writes_pure ⟨by simp [sentIn], rfl, rfl⟩
  | error _ =>
    refine hsend.imp ?_
    rintro _ _ rfl
    exact ⟨by simp [sentIn], rfl, rfl⟩

theorem writes_rebuild : Writes
    (fun r l => l = .offered fee :: (builtBy r).map .built ∧
      ∀ done, r = .ok done → done.LeavesFee fee)
    (Traced.rebuild options context fee) := by
  have hbuild : Writes (fun (_ : Except Failure Envelope) l => l = ([] : List Mark))
      (silent (buildInvokeTransaction options.network context.2 context.1 (some fee))) :=
    writes_silent fun _ => rfl
  refine writes_mark (writes_bind hbuild ?_ ?_)
  · rintro e _ rfl
    exact writes_mark (writes_pure ⟨rfl, fun done h => by cases h; rfl⟩)
  · rintro e _ rfl
    exact ⟨rfl, fun done h => nomatch h⟩

/-- The marks of a call of `rebuild` are those of a pass that makes no other. -/
theorem passLog_rebuild (hretries : Retries options more fee context fee')
    (hfee : fee ≤ options.feeCap) (hleaves : ∀ done, r = .ok done → done.LeavesFee fee') :
    PassLog options more xdr fee r (.offered fee' :: (builtBy r).map .built) := by
  obtain ⟨hle, hcap⟩ := fee_of_retries hretries hfee
  have hlists : sentIn (.offered fee' :: (builtBy r).map .built) = [] ∧
      builtIn (.offered fee' :: (builtBy r).map .built) = builtBy r ∧
      offeredIn (.offered fee' :: (builtBy r).map .built) = [fee'] := by
    unfold builtBy
    split
    · exact ⟨rfl, rfl, rfl⟩
    · exact ⟨rfl, rfl, rfl⟩
  refine ⟨?_, hlists.2.1, fun _ => (context_of_retries hretries).1, fee', hcap, ?_, hleaves⟩
  · rw [hlists.1]
    exact fun _ h => nomatch h
  · rw [hlists.2.2]
    exact climbs_to hle

theorem writes_caught (hfee : fee ≤ options.feeCap) (error : Failure) :
    Writes (PassLog options more xdr fee) (Traced.caught options more fee error) := by
  unfold Traced.caught
  cases hrecover : recover options more fee error with
  | rethrow e => exact writes_fail (passLog_nil hfee rfl fun _ h => nomatch h)
  | rebuild context fee' =>
    refine writes_rebuild.imp ?_
    rintro r _ ⟨rfl, hleaves⟩
    exact passLog_rebuild (retries_of_recover hrecover) hfee hleaves
  | remember =>
    refine writes_pure (passLog_nil hfee rfl fun done h => ?_)
    cases h
    rfl

theorem writes_attempt (hfee : fee ≤ options.feeCap) :
    Writes (PassLog options more xdr fee) (Traced.attempt options more xdr fee) := by
  refine writes_try writes_send ?_
  rintro sent l ⟨hsends, hbuilds, hoffered⟩
  have hfees : Climbs fee fee (offeredIn l) := by
    rw [hoffered]
    exact climbs_nil
  have hcaught : ∀ error, Writes (fun r l' => PassLog options more xdr fee r (l ++ l'))
      (Traced.caught options more fee error) :=
    fun error => (writes_caught hfee error).imp fun r l' h => h.after hsends hbuilds hfees
  cases sent with
  | error error => exact hcaught error
  | ok response =>
    dsimp only
    cases hreact : react options more fee response with
    | raise error => exact hcaught error
    | rebuild context fee' =>
      have hretries := retries_of_react hreact
      refine writes_try writes_rebuild ?_
      rintro built l' ⟨rfl, hleaves⟩
      have hpass : PassLog options more xdr fee built _ := passLog_rebuild hretries hfee hleaves
      cases built with
      | ok done =>
        refine writes_pure ?_
        rw [List.append_nil]
        exact hpass.after hsends hbuilds hfees
      | error error =>
        obtain ⟨hle, hcap⟩ := fee_of_retries hretries hfee
        have hagain : Writes (PassLog options more xdr fee')
            (Traced.caught options more fee' error) := writes_caught hcap error
        refine hagain.imp fun r l'' h => ?_
        have hlater := h.after hpass.sends hpass.builds (climbs_to hle)
        exact hlater.after hsends hbuilds hfees
    | poll =>
      have hconfirm : Writes (fun (_ : Except Failure GetTransactionResponse) l =>
          l = ([] : List Mark)) (silent (confirm options response.hash)) :=
        writes_silent fun _ => rfl
      refine writes_try hconfirm ?_
      rintro confirmed _ rfl
      cases confirmed with
      | ok getResponse =>
        have hnil : PassLog options more xdr fee (.ok (.confirmed getResponse)) [] :=
          passLog_nil hfee rfl fun done h => by cases h; trivial
        exact writes_pure (hnil.after hsends hbuilds hfees)
      | error error => exact hcaught error

/-- What the loop writes down with `left` attempts to go. -/
structure LoopLog (options : SubmitTransactionOptions) (left : ℕ) (xdr : Envelope) (fee : ℕ)
    (l : List Mark) : Prop where
  sends : ∀ e ∈ sentIn l, e = xdr ∨ e ∈ builtIn l
  spent : left = 0 → sentIn l = []
  builds : (builtIn l).length ≤ left - 1
  fees : ∃ fee', fee' ≤ options.feeCap ∧ Climbs fee fee' (offeredIn l)

theorem loopLog_nil (hfee : fee ≤ options.feeCap) : LoopLog options left xdr fee [] where
  sends := fun _ h => nomatch h
  spent := fun _ => rfl
  builds := Nat.zero_le _
  fees := ⟨fee, hfee, climbs_nil⟩

/-- A pass, and the loop after it: with the same envelope, or with one that the pass has built. -/
theorem LoopLog.after_pass {next : Envelope} (h : LoopLog options left next fee' l')
    (hpass : PassLog options (left ≠ 0) xdr fee r l)
    (hnext : next = xdr ∧ builtBy r = [] ∨ builtBy r = [next])
    (hfees : Climbs fee fee' (offeredIn l)) : LoopLog options (left + 1) xdr fee (l ++ l') where
  sends := by
    intro e he
    rw [sentIn_append] at he
    rw [builtIn_append, hpass.builds]
    rcases List.mem_append.mp he with he | he
    · exact Or.inl (hpass.sends e he)
    · rcases h.sends e he with rfl | hbuilt
      · exact hnext.imp And.left fun hnew => by simp [hnew]
      · exact Or.inr (List.mem_append_right _ hbuilt)
  spent := fun h => nomatch h
  builds := by
    have hlater := h.builds
    rw [builtIn_append, hpass.builds, List.length_append]
    rcases hnext with ⟨-, hnone⟩ | hnew
    · rw [hnone, List.length_nil]
      omega
    · have hleft : left ≠ 0 := of_decide_eq_true (hpass.more (by simp [hnew]))
      rw [hnew, List.length_singleton]
      omega
  fees := by
    obtain ⟨last, hcap, hclimbs⟩ := h.fees
    exact ⟨last, hcap, by rw [offeredIn_append]; exact hfees.append hclimbs⟩

theorem writes_submitLoop (hfee : fee ≤ options.feeCap) :
    Writes (fun _ l => LoopLog options left xdr fee l)
      (Traced.submitLoop options left xdr fee lastError) := by
  induction left generalizing xdr fee lastError with
  | zero => exact writes_fail (loopLog_nil hfee)
  | succ left ih =>
    refine writes_bind (writes_attempt hfee) (fun done l hpass => ?_) (fun e l hpass => ?_)
    · obtain ⟨fee', hcap, hclimbs, hleaves⟩ := hpass.fees
      cases done with
      | confirmed response =>
        exact writes_pure ((loopLog_nil hcap).after_pass hpass (Or.inl ⟨rfl, rfl⟩) hclimbs)
      | rebuilt built next =>
        obtain rfl : next = fee' := hleaves _ rfl
        exact (ih hcap).imp fun _ l' h => h.after_pass hpass (Or.inr rfl) hclimbs
      | remembered error next =>
        obtain rfl : next = fee' := hleaves _ rfl
        exact (ih hcap).imp fun _ l' h => h.after_pass hpass (Or.inl ⟨rfl, rfl⟩) hclimbs
    · obtain ⟨fee', hcap, hclimbs, -⟩ := hpass.fees
      have hlast : LoopLog options (left + 1) xdr fee (l ++ []) :=
        (loopLog_nil hcap).after_pass hpass (Or.inl ⟨rfl, rfl⟩) hclimbs
      rwa [List.append_nil] at hlast

/-- A call uses one envelope an attempt at most: the given one and those it builds. The fees it
offers do not fall, and stay between the given one and the cap. -/
structure Bounded (options : SubmitTransactionOptions) (txXdr : Envelope) (log : List Mark) :
    Prop where
  used : ∀ e ∈ sentIn log, e = txXdr ∨ e ∈ builtIn log
  envelopes : (sentIn log).dedup.length ≤ options.attempts
  rebuilds : (builtIn log).length ≤ options.attempts - 1
  rising : (offeredIn log).Pairwise (· ≤ ·)
  between : ∀ fee ∈ offeredIn log, txXdr.fee ≤ fee ∧ fee ≤ options.feeCap

theorem LoopLog.bounded {txXdr : Envelope}
    (h : LoopLog options options.attempts txXdr txXdr.fee l) : Bounded options txXdr l := by
  obtain ⟨last, hcap, hclimbs⟩ := h.fees
  refine ⟨h.sends, ?_, h.builds, hclimbs.sorted, fun fee hfee => ?_⟩
  · by_cases hnone : options.attempts = 0
    · rw [h.spent hnone]
      exact Nat.zero_le _
    · have hsub : (sentIn l).dedup ⊆ txXdr :: builtIn l := by
        intro e he
        exact List.mem_cons.mpr (h.sends e (List.mem_dedup.mp he))
      have hlength := ((List.nodup_dedup (sentIn l)).subperm hsub).length_le
      have hbuilds := h.builds
      rw [List.length_cons] at hlength
      omega
  · exact ⟨(hclimbs.between fee hfee).1, (hclimbs.between fee hfee).2.trans hcap⟩

/-- Whatever the server and the network do. -/
theorem submission_bounded {txXdr : Envelope} (hfee : txXdr.fee ≤ options.feeCap)
    (script : ℕ → Turn) (s : Session Network) :
    (submitTransaction txXdr options script s).2.clock ≤ s.clock + 34 * options.attempts ∧
      ∃ log, Traced.submitTransaction txXdr options script ⟨s.clock, s.world, []⟩ =
          ((submitTransaction txXdr options script s).1,
            ⟨(submitTransaction txXdr options script s).2.clock,
              (submitTransaction txXdr options script s).2.world, log⟩) ∧
        Bounded options txXdr log := by
  refine ⟨atMost_submitLoop script s, ?_⟩
  obtain ⟨log, hlog, hloop⟩ := exists_trace erases_submitLoop (writes_submitLoop hfee) script s
  exact ⟨log, hlog, hloop.bounded⟩

end Escalation

/-- A transaction for 100 that may be built anew for up to 300. -/
def underpaid : Envelope := ⟨"A", 5, 100, "Test", ⟨"C", "mint", []⟩⟩

def upTo300 : SubmitTransactionOptions :=
  ⟨some 4, some 300, some "A", some "Test", some "C", some "mint", some []⟩

/-- The server finds every fee too low. -/
def feeRejected : Turn where
  arrives := true
  closed := []
  getAccount := .ok 4
  simulateTransaction := .ok (.ok 50)
  sendTransaction := .ok ⟨.error, "h", some "txINSUFFICIENT_FEE", none⟩
  getTransaction := .error "unavailable"
  signTransaction := .ok ()

theorem underpaid_bounded :
    (submitTransaction underpaid upTo300 (fun _ => feeRejected)
        ⟨0, Network.fresh "Test" fun _ => 4⟩).2.clock ≤ 136 ∧
      ∃ log, Traced.submitTransaction underpaid upTo300 (fun _ => feeRejected)
          ⟨0, Network.fresh "Test" fun _ => 4, []⟩ =
          ((submitTransaction underpaid upTo300 (fun _ => feeRejected)
              ⟨0, Network.fresh "Test" fun _ => 4⟩).1,
            ⟨(submitTransaction underpaid upTo300 (fun _ => feeRejected)
                ⟨0, Network.fresh "Test" fun _ => 4⟩).2.clock,
              (submitTransaction underpaid upTo300 (fun _ => feeRejected)
                ⟨0, Network.fresh "Test" fun _ => 4⟩).2.world, log⟩) ∧
        Bounded upTo300 underpaid log :=
  submission_bounded (by decide) (fun _ => feeRejected) ⟨0, Network.fresh "Test" fun _ => 4⟩

/-- It is built anew twice, and given up at the cap. -/
example : offeredIn (Traced.submitTransaction underpaid upTo300 (fun _ => feeRejected)
    ⟨0, Network.fresh "Test" fun _ => 4, []⟩).2.world.2 = [200, 300] := by
  decide +kernel

end BcForge.Sdk
