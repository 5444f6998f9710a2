import BcForge.Split.Payouts

/-! How often a failed payout is retried. A retry that fails returns an error, and the host takes
its count back with everything else it wrote. -/
namespace BcForge.Split

open Soroban Call Admin

variable {w : World Store} {l : Label Op} {ls : List (Label Op)} {id : ℕ} {dst c : Address}
  {signers : List Address} {uploaded : List BytesN32} {n k : ℕ}

/-- The retry is let through to the transfer: by its caller, the guard, and a record that was not
tried too often. -/
def LetThrough (w : World Store) (signers : List Address) (uploaded : List BytesN32) (id : ℕ)
    (dst c : Address) : Prop :=
  w.store.guard .retryFailedPayout = false ∧
    (hasRole w.store.access .superAdmin c = true ∧ (w.env signers uploaded).Authorized c) ∧
    (w.store.invoice id).isSome = true ∧
    (w.store.failedPayout id dst).any (·.retryCount < 3) = true ∧ w.store.token.isSome = true

instance : Decidable (LetThrough w signers uploaded id dst c) :=
  inferInstanceAs (Decidable (_ ∧ _ ∧ _ ∧ _ ∧ _))

/-- The step is a retry of the record that attempts the transfer. -/
def attempts (id : ℕ) (dst : Address) (w : World Store) : Label Op → Bool
  | .call signers uploaded (.retryFailedPayout i a c) =>
    decide (i = id ∧ a = dst ∧ LetThrough w signers uploaded i a c)
  | _ => false

def failedAttempt (id : ℕ) (dst : Address) (w : World Store) : Label Op → Bool
  | .call signers uploaded op => attempts id dst w (.call signers uploaded op) &&
    !(exec op (w.env signers uploaded) w.store).isOk
  | .close _ => false

/-- The failed attempts on a record so far. Without a record the count starts anew. -/
def countFailure (id : ℕ) (dst : Address) (w : World Store) (n : ℕ) (l : Label Op) : ℕ :=
  if ((w.next exec l).store.failedPayout id dst).isNone then 0
  else if failedAttempt id dst w l then n + 1 else n

def failures (id : ℕ) (dst : Address) (w : World Store) (ls : List (Label Op)) : ℕ :=
  w.foldSteps exec (countFailure id dst) 0 ls

/-- No record has seen more than three failed attempts, and one that has seen three sees no more
attempts at all. -/
def WithinBudget (w : World Store) (ls : List (Label Op)) : Prop :=
  ∀ id dst, failures id dst w ls ≤ 3 ∧
    (failures id dst w ls = 3 → ∀ l, attempts id dst (w.run exec ls) l = false)

/-- A retry that attempts the transfer finds the funds for it, and a token that makes it. -/
def Payable (w : World Store) : Label Op → Prop
  | .call signers uploaded (.retryFailedPayout id dst c) =>
    LetThrough w signers uploaded id dst c → ∃ token fp n, w.store.token = some token ∧
      w.store.failedPayout id dst = some fp ∧ 0 < fp.amount ∧
      w.store.tokens.Covers token w.self fp.amount ∧
      w.store.tokens.transfer ⟨token, w.self, dst, fp.amount⟩ = some n
  | _ => True

/-- A retry goes through exactly if it is let through and can be paid. -/
theorem retry_succeeds_iff :
    (∃ s', Runs (retryFailedPayout id dst c) (w.env signers uploaded) w.store () s') ↔
      LetThrough w signers uploaded id dst c ∧
        Payable w (.call signers uploaded (.retryFailedPayout id dst c)) := by
  constructor
  · rintro ⟨s', hr⟩
    obtain ⟨hfree, hcaller, token, inv, fp, n, htoken, hinv, hfp, hlive, hpos, hfunds, hn, -⟩ :=
      runs_retryFailedPayout_iff.mp hr
    have hthrough : LetThrough w signers uploaded id dst c :=
      ⟨hfree, hcaller, by rw [hinv]; rfl, by rw [hfp]; simpa using hlive, by rw [htoken]; rfl⟩
    exact ⟨hthrough, fun _ => ⟨token, fp, n, htoken, hfp, hpos, hfunds, hn⟩⟩
  · rintro ⟨hthrough, hpay⟩
    obtain ⟨token, fp, n, htoken, hfp, hpos, hfunds, hn⟩ := hpay hthrough
    obtain ⟨hfree, hcaller, hinvoice, hlive, -⟩ := hthrough
    obtain ⟨inv, hinv⟩ := Option.isSome_iff_exists.mp hinvoice
    rw [hfp] at hlive
    exact ⟨_, runs_retryFailedPayout_iff.mpr ⟨hfree, hcaller, token, inv, fp, n, htoken, hinv, hfp,
      by simpa using hlive, hpos, hfunds, hn, rfl⟩⟩

theorem failedAttempt_of_payable (h : Payable w l) : failedAttempt id dst w l = false := by
  cases l with
  | close l => rfl
  | call signers uploaded op =>
    cases op with
    | retryFailedPayout i a c =>
      by_cases hthrough : LetThrough w signers uploaded i a c
      · obtain ⟨s', hr⟩ := retry_succeeds_iff.mpr ⟨hthrough, h⟩
        have hok : (exec (.retryFailedPayout i a c) (w.env signers uploaded) w.store).isOk = true :=
          isOk_of_runs hr
        simp [failedAttempt, hok]
      · simp [failedAttempt, attempts, hthrough]
    | _ => rfl

/-- Where every attempt is paid, none fails. -/
theorem failures_of_payable (h : w.EveryStep exec Payable ls) : failures id dst w ls = 0 := by
  unfold failures
  induction ls generalizing w with
  | nil => rfl
  | cons l ls ih =>
    have hzero : countFailure id dst w 0 l = 0 := by
      simp [countFailure, failedAttempt_of_payable h.1]
    rw [World.foldSteps, hzero]
    exact ih h.2

/-- A call that fails leaves the world as it is. -/
theorem next_of_fails {op : Op}
    (h : ¬ ∃ s', Runs (exec op) (w.env signers uploaded) w.store () s') :
    w.next exec (.call signers uploaded op) = w := by
  rcases World.call_cases exec w signers uploaded op with hr | ⟨-, hs⟩
  · exact absurd ⟨_, hr⟩ h
  · exact hs

/-- Once it was paid, a record is gone: the same retry is refused. -/
theorem payable_next (h : Payable w l) : Payable (w.next exec l) l := by
  cases l with
  | close l => trivial
  | call signers uploaded op =>
    cases op with
    | retryFailedPayout id dst c =>
      by_cases hr : ∃ s', Runs (exec (.retryFailedPayout id dst c)) (w.env signers uploaded)
          w.store () s'
      · obtain ⟨s', hr⟩ := hr
        obtain ⟨token, inv, fp, n, guard, -, -, -, -, -, -, -, rfl⟩ := runs_retryFailedPayout hr
        have hgone : (w.next exec (.call signers uploaded
            (.retryFailedPayout id dst c))).store.failedPayout id dst = none := by
          simp only [World.next, invoke_of_runs hr]
          simp [removeFailedPayout, setFailedPayout]
        intro hthrough
        have hlive := hthrough.2.2.2.1
        rw [hgone] at hlive
        cases hlive
      · rw [next_of_fails hr]
        exact h
    | _ => trivial

/-- An attempt that cannot be paid fails, changes nothing, and so can be made again. -/
theorem stuck_of_not_payable (h : ¬ Payable w l) : w.next exec l = w ∧
    ∃ id dst, ∀ n, countFailure id dst w n l = n + 1 := by
  cases l with
  | close l => exact absurd trivial h
  | call signers uploaded op =>
    cases op with
    | retryFailedPayout id dst c =>
      have hthrough : LetThrough w signers uploaded id dst c := by
        by_contra hn
        exact h fun hthrough => absurd hthrough hn
      have hfails : ¬ ∃ s', Runs (exec (.retryFailedPayout id dst c)) (w.env signers uploaded)
          w.store () s' := fun hr => h (retry_succeeds_iff.mp hr).2
      have hsame := next_of_fails hfails
      refine ⟨hsame, id, dst, fun n => ?_⟩
      have hok : (exec (.retryFailedPayout id dst c) (w.env signers uploaded) w.store).isOk =
          false := by
        rw [← Bool.not_eq_true]
        exact fun hok => hfails ⟨_, runs_invoke hok⟩
      have hrecord : (w.store.failedPayout id dst).isNone = false := by
        have hlive := hthrough.2.2.2.1
        cases hfp : w.store.failedPayout id dst with
        | none =>
          rw [hfp] at hlive
          cases hlive
        | some fp => rfl
      simp [countFailure, hsame, hrecord, failedAttempt, attempts, hthrough, hok]
    | _ => exact absurd trivial h

theorem foldSteps_stuck (hsame : w.next exec l = w)
    (hcount : ∀ n, countFailure id dst w n l = n + 1) :
    w.foldSteps exec (countFailure id dst) n (List.replicate k l) = n + k := by
  induction k generalizing n with
  | zero => rfl
  | succ k ih =>
    rw [List.replicate_succ, World.foldSteps, hsame, hcount, ih]
    omega

/-- A run stays within the budget, however often each of its calls is repeated on the spot, exactly
if every retry in it that attempts the transfer can be paid. -/
theorem retry_budget_iff (w : World Store) (ls : List (Label Op)) :
    (∀ done l, done ++ [l] <+: ls → ∀ k, WithinBudget w (done ++ List.replicate k l)) ↔
      w.EveryStep exec Payable ls := by
  rw [World.everyStep_iff_prefix]
  constructor
  · intro h done l hdone
    by_contra hstuck
    obtain ⟨hsame, id, dst, hcount⟩ := stuck_of_not_payable hstuck
    have hbudget := (h done l hdone 4 id dst).1
    rw [failures, World.foldSteps_append, foldSteps_stuck hsame hcount] at hbudget
    omega
  · intro h done l hdone k id dst
    have hpayable : w.EveryStep exec Payable (done ++ List.replicate k l) := by
      rw [World.everyStep_append]
      refine ⟨?_, World.everyStep_replicate k (fun _ => payable_next) (h done l hdone)⟩
      obtain ⟨rest, rfl⟩ := hdone
      have hall := World.everyStep_iff_prefix.mpr h
      rw [List.append_assoc, World.everyStep_append] at hall
      exact hall.1
    have hzero : failures id dst w (done ++ List.replicate k l) = 0 := failures_of_payable hpayable
    rw [hzero]
    exact ⟨by omega, fun hthree => by omega⟩

/-- A share without funds, and a retry of it that fails, over and over. -/
def retriedForever (k : ℕ) : List (Label Op) :=
  [.call [⟨1⟩] [] (.createInvoice ⟨1⟩ 1 100 [⟨⟨2⟩, 100⟩] ⟨50⟩),
   .call [⟨1⟩] [] (.releasePayment 1 ⟨1⟩)] ++
    List.replicate k (.call [⟨1⟩] [] (.retryFailedPayout 1 ⟨2⟩ ⟨1⟩))

theorem retriedForever_over_budget : Blank genesis ∧
    failures 1 ⟨2⟩ genesis (retriedForever 4) = 4 ∧ ¬ WithinBudget genesis (retriedForever 4) ∧
    attempts 1 ⟨2⟩ (genesis.run exec (retriedForever 4))
      (.call [⟨1⟩] [] (.retryFailedPayout 1 ⟨2⟩ ⟨1⟩)) = true := by
  have hfour : failures 1 ⟨2⟩ genesis (retriedForever 4) = 4 := by decide +kernel
  refine ⟨genesis_blank, hfour, ?_, by decide +kernel⟩
  intro h
  have hle := (h 1 ⟨2⟩).1
  omega

end BcForge.Split
