import BcForge.Soroban.Standard
import BcForge.Token.Allowance

/-! What each entry point does to balances, supply and allowances. -/
namespace BcForge.BcForgeToken

open Soroban Call Admin

variable {env : Env} {s s' : Store} {src dst spender owner minter : Address} {x : ℤ} {u : Unit}
  {exp : ℕ}

theorem runs_moveBalance (h : Runs (moveBalance src dst x) env s u s') :
    x ≤ getSpendableBalance s src ∧ s' = { s with balance := moved s.balance src dst x } := by
  simp only [moveBalance, writeBalance, runs_gets_bind, runs_failIf_bind, runs_ite, runs_pure,
    runs_i128_bind, runs_modify_bind, runs_modify, not_lt] at h
  obtain ⟨hf, ⟨heq, -, rfl⟩ | ⟨hne, -, -, rfl⟩⟩ := h
  · refine ⟨hf, ?_⟩
    rw [moved, if_pos heq]
  · refine ⟨hf, ?_⟩
    rw [moved, if_neg hne]

theorem runs_internalMint (h : Runs (internalMint dst x) env s u s') :
    0 < x ∧ s.supply + x ≤ s.maxSupply ∧ I128.InRange (s.supply + x) ∧
      s' = { s with
        balance := Function.update s.balance dst (s.balance dst + x)
        supply := s.supply + x } := by
  simp only [internalMint, writeBalance, writeSupply, runs_gets_bind, runs_failIf_bind,
    runs_i128_bind, runs_modify_bind, runs_modify, not_lt, not_le] at h
  obtain ⟨hx, hr, hs, -, rfl⟩ := h
  exact ⟨hx, hs, hr, rfl⟩

/-- The rate limiter's counters are all a check changes. -/
theorem runs_checkRateLimit {operation : String} {a : Address}
    (h : Runs (checkRateLimit operation a) env s u s') :
    ∃ r, s' = { s with rateLimit := r } := by
  obtain ⟨_, s₁, hw, h⟩ := runs_bind.mp h
  obtain ⟨r, -, rfl⟩ := runs_within.mp hw
  exact ⟨r, (runs_failIf.mp h).2⟩

/-- The balance and supply a success leaves, and the allowances. -/
structure Leaves (s' : Store) (balance : Address → ℤ) (supply : ℤ)
    (allowance : Address → Address → AllowanceData) : Prop where
  balance : s'.balance = balance
  supply : s'.supply = supply
  allowance : effective s' = allowance

theorem leaves_mint (h : Runs (mint minter dst x) env s u s') :
    (hasRole s.access .minter minter = true ∧ env.Authorized minter) ∧ 0 < x ∧
      s.supply + x ≤ I128.MAX ∧
      Leaves s' (Function.update s.balance dst (s.balance dst + x)) (s.supply + x)
        (effective s) := by
  have hframe : effective s' = effective s :=
    effective_of_writes (writes_mint minter) (by decide) h
  simp only [mint, runs_failIf_bind] at h
  obtain ⟨-, h⟩ := h
  obtain ⟨-, t, hbody, rfl⟩ := runs_reentrancyGuard.mp h
  simp only [admin, runs_ensureInitialized_bind, runs_ensureNotPaused_bind,
    runs_requireRole_bind] at hbody
  obtain ⟨-, -, hrole, hsigned, hbody⟩ := hbody
  obtain ⟨_, s₁, hrate, hbody⟩ := runs_bind.mp hbody
  obtain ⟨r, rfl⟩ := runs_checkRateLimit hrate
  obtain ⟨hx, -, hrange, rfl⟩ := runs_internalMint hbody
  exact ⟨⟨hrole, hsigned⟩, hx, hrange.2, rfl, rfl, hframe⟩

theorem leaves_transfer (h : Runs (transfer src dst x) env s u s') :
    env.Authorized src ∧ 0 < x ∧ x ≤ getSpendableBalance s src ∧
      Leaves s' (moved s.balance src dst x) s.supply (effective s) := by
  have hframe : effective s' = effective s := effective_of_writes writes_transfer (by decide) h
  obtain ⟨-, t, hbody, rfl⟩ := runs_reentrancyGuard.mp h
  simp only [runs_ensureInitialized_bind, runs_ensureNotPaused_bind, runs_requireAuth_bind,
    runs_failIf_bind, not_le] at hbody
  obtain ⟨-, -, hsigned, hx, hbody⟩ := hbody
  obtain ⟨_, s₁, hrate, hbody⟩ := runs_bind.mp hbody
  obtain ⟨r, rfl⟩ := runs_checkRateLimit hrate
  obtain ⟨hf, rfl⟩ := runs_moveBalance hbody
  exact ⟨hsigned, hx, hf, rfl, rfl, hframe⟩

/-- Reading an allowance touches nothing but allowances. -/
theorem migrate_books (owner spender : Address) (s : Store) :
    (migrate owner spender s).balance = s.balance ∧
    (migrate owner spender s).supply = s.supply ∧
    getSpendableBalance (migrate owner spender s) = getSpendableBalance s := by
  unfold migrate
  split <;> exact ⟨rfl, rfl, rfl⟩

/-- What `transfer_from` and `burn_from` have checked when they come to the books, in a store whose
books and allowances are still those of `s`. -/
theorem runs_opening {operation : String} {k : ℤ → AllowanceData → TokenCall Unit}
    (h : Runs (do
      ensureInitialized
      ensureNotPaused
      requireAuth spender
      failIf (x ≤ 0) TokenError.invalidAmount
      checkRateLimit operation spender
      let allowance ← allowanceAmount src spender
      failIf (allowance < x) TokenError.insufficientAllowance
      let d ← readAllowanceData src spender
      k allowance d) env s u s') :
    env.Authorized spender ∧ ∃ t, (t.balance = s.balance ∧ t.supply = s.supply ∧
      getSpendableBalance t = getSpendableBalance s) ∧
      Runs (k ((effective s src spender).available env.ledger.sequence)
        (effective s src spender)) env t u s' := by
  simp only [runs_ensureInitialized_bind, runs_ensureNotPaused_bind, runs_requireAuth_bind,
    runs_failIf_bind] at h
  obtain ⟨-, -, hsigned, -, h⟩ := h
  obtain ⟨_, s₁, hrate, h⟩ := runs_bind.mp h
  obtain ⟨r, rfl⟩ := runs_checkRateLimit hrate
  obtain ⟨_, s₂, hamount, h⟩ := runs_bind.mp h
  obtain ⟨rfl, rfl⟩ := runs_allowanceAmount.mp hamount
  obtain ⟨-, h⟩ := runs_failIf_bind.mp h
  obtain ⟨_, s₃, hread, h⟩ := runs_bind.mp h
  obtain ⟨rfl, rfl⟩ := runs_readAllowanceData.mp hread
  rw [effective_migrate] at h
  refine ⟨hsigned, _, ?_, h⟩
  obtain ⟨hb, hs, hf⟩ := migrate_books src spender { s with rateLimit := r }
  obtain ⟨hb', hs', hf'⟩ :=
    migrate_books src spender (migrate src spender { s with rateLimit := r })
  exact ⟨hb'.trans hb, hs'.trans hs, hf'.trans hf⟩

/-- What is left of an allowance, which keeps its expiration. -/
def spentFrom (f : Address → Address → AllowanceData) (owner spender : Address) (x : ℤ) :
    Address → Address → AllowanceData :=
  update₂ f owner spender ⟨(f owner spender).amount - x, (f owner spender).expirationLedger⟩

theorem leaves_transferFrom (h : Runs (transferFrom spender src dst x) env s u s') :
    (env.Authorized spender ∧ ¬ (effective s src spender).Expired env.ledger.sequence) ∧
      (0 < x ∧ x ≤ (effective s src spender).amount) ∧ x ≤ getSpendableBalance s src ∧
      Leaves s' (moved s.balance src dst x) s.supply (spentFrom (effective s) src spender x) := by
  obtain ⟨hx, hle, hlive, hafter⟩ := spends_transferFrom h
  obtain ⟨hsigned, t, ⟨hb, hs, hf⟩, h⟩ := runs_opening h
  obtain ⟨_, t₁, hmove, h⟩ := runs_bind.mp h
  obtain ⟨hspend, rfl⟩ := runs_moveBalance hmove
  obtain ⟨-, h⟩ := runs_i128_bind.mp h
  have hs' := runs_modify.mp h
  refine ⟨⟨hsigned, hlive⟩, ⟨hx, hle⟩, ?_, ?_, ?_, hafter⟩
  · rwa [hf] at hspend
  · rw [hs', ← hb]
    rfl
  · rw [hs', ← hs]
    rfl

theorem leaves_burn (h : Runs (burn src x) env s u s') :
    env.Authorized src ∧ 0 < x ∧ x ≤ getSpendableBalance s src ∧
      Leaves s' (Function.update s.balance src (s.balance src - x)) (s.supply - x)
        (effective s) := by
  have hframe : effective s' = effective s := effective_of_writes writes_burn (by decide) h
  simp only [burn, runs_ensureInitialized_bind, runs_ensureNotPaused_bind, runs_requireAuth_bind,
    runs_failIf_bind, not_le] at h
  obtain ⟨-, -, hsigned, hx, h⟩ := h
  obtain ⟨_, s₁, hrate, h⟩ := runs_bind.mp h
  obtain ⟨r, rfl⟩ := runs_checkRateLimit hrate
  simp only [writeBalance, writeSupply, runs_gets_bind, runs_failIf_bind, runs_i128_bind,
    runs_modify_bind, runs_modify, not_lt] at h
  obtain ⟨hf, -, -, rfl⟩ := h
  exact ⟨hsigned, hx, hf, rfl, rfl, hframe⟩

theorem leaves_burnFrom (h : Runs (burnFrom spender src x) env s u s') :
    (env.Authorized spender ∧ ¬ (effective s src spender).Expired env.ledger.sequence) ∧
      (0 < x ∧ x ≤ (effective s src spender).amount) ∧ x ≤ getSpendableBalance s src ∧
      Leaves s' (Function.update s.balance src (s.balance src - x)) (s.supply - x)
        (spentFrom (effective s) src spender x) := by
  obtain ⟨hx, hle, hlive, hafter⟩ := spends_burnFrom h
  obtain ⟨hsigned, t, ⟨hb, hs, hf⟩, h⟩ := runs_opening h
  simp only [writeAllowance, writeBalance, writeSupply, runs_gets_bind, runs_failIf_bind,
    runs_i128_bind, runs_modify_bind, runs_modify, not_lt] at h
  obtain ⟨hspend, -, -, -, hs'⟩ := h
  refine ⟨⟨hsigned, hlive⟩, ⟨hx, hle⟩, ?_, ?_, ?_, hafter⟩
  · rwa [hf] at hspend
  · rw [hs', ← hb]
    rfl
  · rw [hs', ← hs]

section Honoured
variable {w : World Store} {l : Label Op} {o sp : Address}

/-- What a call of the spender spends of the grant leaves the owner's balance, unless it goes to the
owner. -/
def SpendLeaves (o sp : Address) (w : World Store) : Label Op → Prop
  | .call signers uploaded (.transferFrom spender src dst amount) => ∀ s', src = o ∧ spender = sp →
    Runs (transferFrom spender src dst amount) (w.env signers uploaded) w.store () s' →
      s'.balance o = w.store.balance o - if dst = o then 0 else amount
  | .call signers uploaded (.burnFrom spender src amount) => ∀ s', src = o ∧ spender = sp →
    Runs (burnFrom spender src amount) (w.env signers uploaded) w.store () s' →
      s'.balance o = w.store.balance o - amount
  | _ => True

theorem spendLeaves_step (w : World Store) (l : Label Op) : SpendLeaves o sp w l := by
  cases l with
  | close l => trivial
  | call signers uploaded op =>
    cases op with
    | transferFrom spender src dst amount =>
      rintro s' ⟨rfl, -⟩ hr
      obtain ⟨-, -, -, hleaves⟩ := leaves_transferFrom hr
      rw [hleaves.balance, moved]
      by_cases hdst : dst = src
      · rw [if_pos hdst.symm, if_pos hdst, sub_zero]
      · rw [if_neg (Ne.symm hdst), if_neg hdst]
        simp [Ne.symm hdst]
    | burnFrom spender src amount =>
      rintro s' ⟨rfl, -⟩ hr
      obtain ⟨-, -, -, hleaves⟩ := leaves_burnFrom hr
      rw [hleaves.balance, Function.update_self]
    | _ => trivial

/-- From any stored allowance on: at most the granted amount is spent of a grant, if it is not
negative, and none of it after it expired; what is spent is what leaves the owner's balance; a read
reports what is left, and changes no allowance. -/
theorem allowance_honoured (o sp : Address) (w : World Store) (ls : List (Label Op)) :
    (grantAfter o sp w ls).spent ≤ max 0 (grantAfter o sp w ls).amount ∧
      (∀ p ∈ (grantAfter o sp w ls).spends, (grantAfter o sp w ls).expiration = 0 ∨
        p.1 ≤ (grantAfter o sp w ls).expiration) ∧
      w.EveryStep exec (SpendLeaves o sp) ls ∧
      (∀ signers uploaded v s', Runs (allowance o sp) ((w.run exec ls).env signers uploaded)
          (w.run exec ls).store v s' ↔ hasAdmin (w.run exec ls).store.access = true ∧
        v = (if 0 < (grantAfter o sp w ls).expiration ∧
            (grantAfter o sp w ls).expiration < (w.run exec ls).ledger.sequence then 0
          else (grantAfter o sp w ls).amount - (grantAfter o sp w ls).spent) ∧
        s' = migrate o sp (w.run exec ls).store) ∧
      ∀ owner spender, effective (migrate owner spender (w.run exec ls).store) =
        effective (w.run exec ls).store := by
  have h := honoured_run o sp w ls
  refine ⟨h.within, h.inTime, World.everyStep_of_forall spendLeaves_step, ?_,
    fun _ _ => effective_migrate⟩
  intro signers uploaded v s'
  rw [allowance, runs_ensureInitialized_bind, runs_allowanceAmount, available_eq, h.amount,
    h.expiration]
  rfl

/-- A negative amount in the old layout, as no `approve` writes it. -/
def negativeLegacy : World Store :=
  { genesis with store := { genesis.store with allowance := fun _ _ => some (.legacy (-1)) } }

theorem negativeLegacy_exceeded :
    ¬ (grantAfter ⟨2⟩ ⟨3⟩ negativeLegacy []).spent ≤
      (grantAfter ⟨2⟩ ⟨3⟩ negativeLegacy []).amount := by
  decide +kernel

end Honoured

end BcForge.BcForgeToken
