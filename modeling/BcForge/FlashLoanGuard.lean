import BcForge.Soroban.Run
import Mathlib.Order.Basic

/-! The guard against flash loans: what was deposited in a ledger cannot be withdrawn in it. -/
namespace BcForge.FlashLoanGuard

open Soroban Call

/-- The ledger of each user's last deposit that is not withdrawn yet. -/
structure Store where
  depositBlock : Address → Option ℕ

def Store.empty : Store := ⟨fun _ => none⟩

/-- The contract returns no errors; it only panics. -/
abbrev GuardCall := Call Store Empty

def deposit (user : Address) : GuardCall Unit := do
  requireAuth user
  let ledger ← Call.ledger
  modify fun s => ⟨Function.update s.depositBlock user (some ledger.sequence)⟩

def withdraw (user : Address) : GuardCall Unit := do
  requireAuth user
  let ledger ← Call.ledger
  let depositBlock ← gets (·.depositBlock user)
  trapIf (ledger.sequence ≤ depositBlock.getD 0)
    (.panic "FlashLoanReentrancy: withdrawal prohibited in the same ledger block as deposit")
  modify fun s => ⟨Function.update s.depositBlock user none⟩

inductive Op where
  | deposit (user : Address)
  | withdraw (user : Address)

def exec : Op → GuardCall Unit
  | .deposit user => FlashLoanGuard.deposit user
  | .withdraw user => FlashLoanGuard.withdraw user

/-- Who has deposited, and in which ledger. -/
structure Deposit where
  user : Address
  block : ℕ
deriving DecidableEq

def depositsBy (w : World Store) : Label Op → List Deposit
  | .call signers uploaded (.deposit user) =>
    if (exec (.deposit user) (w.env signers uploaded) w.store).isOk = true then
      [⟨user, w.ledger.sequence⟩]
    else []
  | _ => []

/-- The deposits of a run. -/
def deposits (w : World Store) (ls : List (Label Op)) : List Deposit :=
  w.collectSteps exec depositsBy ls

variable {env : Env} {s s' : Store} {u : Unit} {user : Address} {w : World Store}
  {log : List Deposit} {l : Label Op} {signers : List Address} {uploaded : List BytesN32}

theorem runs_deposit : Runs (deposit user) env s u s' ↔ env.Authorized user ∧
    s' = ⟨Function.update s.depositBlock user (some env.ledger.sequence)⟩ := by
  simp only [deposit, runs_requireAuth_bind, runs_ledger_bind, runs_modify]

theorem runs_withdraw : Runs (withdraw user) env s u s' ↔ env.Authorized user ∧
    (s.depositBlock user).getD 0 < env.ledger.sequence ∧
      s' = ⟨Function.update s.depositBlock user none⟩ := by
  simp only [withdraw, runs_requireAuth_bind, runs_ledger_bind, runs_gets_bind, runs_trapIf_bind,
    runs_modify, not_le]

/-- The store knows of a deposit in the current ledger exactly if there was one. -/
structure Records (w : World Store) (log : List Deposit) : Prop where
  past : ∀ d ∈ log, d.block ≤ w.ledger.sequence
  stored : ∀ user n, w.store.depositBlock user = some n → n ≤ w.ledger.sequence
  current : ∀ user, ⟨user, w.ledger.sequence⟩ ∈ log ↔
    w.store.depositBlock user = some w.ledger.sequence

theorem records_close (h : Records w log) (ledger : Ledger) :
    Records (w.next exec (.close ledger)) log := by
  rw [World.next]
  split
  case isFalse => exact h
  case isTrue hle =>
    have hlater : w.ledger.sequence ≤ ledger.sequence := hle.1
    refine ⟨fun d hd => (h.past d hd).trans hlater,
      fun user n hn => (h.stored user n hn).trans hlater, ?_⟩
    intro user
    change ⟨user, ledger.sequence⟩ ∈ log ↔ w.store.depositBlock user = some ledger.sequence
    rcases hlater.lt_or_eq with hlt | heq
    · constructor
      · intro hd
        have hold : ledger.sequence ≤ w.ledger.sequence := h.past _ hd
        omega
      · intro hn
        have hold := h.stored user _ hn
        omega
    · rw [← heq]
      exact h.current user

theorem records_deposit (h : Records w log) (user : Address) :
    Records { w with store :=
      ⟨Function.update w.store.depositBlock user (some w.ledger.sequence)⟩ }
      (log ++ [⟨user, w.ledger.sequence⟩]) := by
  refine ⟨?_, ?_, ?_⟩
  · intro d hd
    rcases List.mem_append.mp hd with hd | hd
    · exact h.past d hd
    · obtain rfl := List.mem_singleton.mp hd
      exact le_rfl
  · intro x n hn
    change Function.update w.store.depositBlock user (some w.ledger.sequence) x = some n at hn
    change n ≤ w.ledger.sequence
    by_cases hx : x = user
    · subst hx
      rw [Function.update_self] at hn
      exact (Option.some.inj hn).ge
    · rw [Function.update_of_ne hx] at hn
      exact h.stored x n hn
  · intro x
    change _ ↔ Function.update w.store.depositBlock user (some w.ledger.sequence) x =
      some w.ledger.sequence
    by_cases hx : x = user
    · subst hx
      simp
    · rw [Function.update_of_ne hx, ← h.current x]
      simp [hx]

/-- A withdrawal forgets a deposit of an earlier ledger. -/
theorem records_withdraw (h : Records w log)
    (hlt : (w.store.depositBlock user).getD 0 < w.ledger.sequence) :
    Records { w with store := ⟨Function.update w.store.depositBlock user none⟩ } log := by
  refine ⟨h.past, ?_, ?_⟩
  · intro x n hn
    change Function.update w.store.depositBlock user none x = some n at hn
    by_cases hx : x = user
    · subst hx
      rw [Function.update_self] at hn
      cases hn
    · rw [Function.update_of_ne hx] at hn
      exact h.stored x n hn
  · intro x
    change ⟨x, w.ledger.sequence⟩ ∈ log ↔
      Function.update w.store.depositBlock user none x = some w.ledger.sequence
    rw [h.current x]
    by_cases hx : x = user
    · subst hx
      rw [Function.update_self]
      refine ⟨fun hn => ?_, nofun⟩
      rw [hn, Option.getD_some] at hlt
      omega
    · rw [Function.update_of_ne hx]

theorem records_next (h : Records w log) : Records (w.next exec l) (log ++ depositsBy w l) := by
  cases l with
  | close ledger =>
    rw [depositsBy, List.append_nil]
    · exact records_close h ledger
    · nofun
  | call signers uploaded op =>
    rcases World.call_cases exec w signers uploaded op with hr | ⟨hfail, hs⟩
    · have hnext : w.next exec (.call signers uploaded op) =
        { w with store := (w.next exec (.call signers uploaded op)).store } := rfl
      rw [hnext]
      cases op with
      | deposit user =>
        rw [depositsBy, if_pos (isOk_of_runs hr), (runs_deposit.mp hr).2]
        exact records_deposit h user
      | withdraw user =>
        obtain ⟨-, hlt, hstore⟩ := runs_withdraw.mp hr
        rw [hstore, depositsBy, List.append_nil]
        · exact records_withdraw h hlt
        · nofun
    · have hnone : depositsBy w (.call signers uploaded op) = [] := by
        cases op with
        | deposit user => exact if_neg hfail
        | withdraw user => rfl
      rw [hs, hnone, List.append_nil]
      exact h

/-- After any run of a new contract a withdrawal goes through exactly when its user signs and has
made no deposit in the ledger it is called in (and that is not the very first one, numbered zero):
nobody can withdraw within the ledger of a deposit, and nobody who has waited is kept from it. -/
theorem withdraw_goes_through_iff (ledger : Ledger) (self : Address) (ls : List (Label Op))
    (user : Address) (signers : List Address) (uploaded : List BytesN32) :
    let start : World Store := ⟨ledger, self, Store.empty⟩
    let w := start.run exec ls
    (∃ s', Runs (withdraw user) (w.env signers uploaded) w.store () s') ↔
      (w.env signers uploaded).Authorized user ∧ 0 < w.ledger.sequence ∧
        ⟨user, w.ledger.sequence⟩ ∉ deposits start ls := by
  intro start w
  have hstart : Records start [] := by
    refine ⟨by simp, nofun, fun user => ?_⟩
    exact ⟨nofun, nofun⟩
  have hrun : Records w ([] ++ deposits start ls) :=
    World.run_induction_collect (C := fun _ _ => True) (J := Records) hstart
      (fun _ _ _ h _ => records_next h) (World.everyStep_of_forall fun _ _ => trivial)
  rw [List.nil_append] at hrun
  have hfree : (w.store.depositBlock user).getD 0 < w.ledger.sequence ↔
      0 < w.ledger.sequence ∧ ⟨user, w.ledger.sequence⟩ ∉ deposits start ls := by
    rw [hrun.current user]
    cases hn : w.store.depositBlock user with
    | none => simp
    | some n =>
      have hle := hrun.stored user n hn
      rw [Option.getD_some, Option.some.injEq]
      omega
  simp only [runs_withdraw, exists_and_left, exists_eq, and_true]
  exact and_congr_right fun _ => hfree

end BcForge.FlashLoanGuard
