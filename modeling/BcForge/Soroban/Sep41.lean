import BcForge.Soroban.Arith
import BcForge.Soroban.Total

/-! A standard SEP-41 token: it moves exactly the amount asked, or fails. -/
namespace Soroban

/-- The ledger of a token. Balances never go negative and always add up to the supply. -/
structure Token where
  balance : Address → ℤ
  allowance : Address → Address → ℤ
  supply : ℤ
  decimals : ℕ
  balance_nonneg : ∀ a, 0 ≤ balance a
  balance_total : HasTotal balance supply
  supply_le : supply ≤ I128.MAX

namespace Token

variable {t t' : Token} {a src dst spender : Address} {x : ℤ}

/-- A token nobody holds yet. -/
def empty (decimals : ℕ) : Token where
  balance _ := 0
  allowance _ _ := 0
  supply := 0
  decimals := decimals
  balance_nonneg _ := le_rfl
  balance_total := hasTotal_zero
  supply_le := by decide

theorem balance_le (t : Token) (a : Address) : t.balance a ≤ I128.MAX :=
  (t.balance_total.le t.balance_nonneg a).trans t.supply_le

def move (t : Token) (src dst : Address) (x : ℤ) (h : 0 ≤ x ∧ x ≤ t.balance src)
    (hne : src ≠ dst) : Token :=
  { t with
    balance := Function.update (Function.update t.balance src (t.balance src - x)) dst
      (t.balance dst + x)
    balance_nonneg := by
      intro a
      by_cases hd : a = dst
      · subst hd
        simpa using add_nonneg (t.balance_nonneg a) h.1
      · by_cases hs : a = src
        · subst hs
          simpa [hd] using h.2
        · simpa [hd, hs] using t.balance_nonneg a
    balance_total := t.balance_total.move hne x }

def transfer (t : Token) (src dst : Address) (x : ℤ) : Option Token :=
  if h : 0 ≤ x ∧ x ≤ t.balance src then
    if hne : src = dst then some t else some (t.move src dst x h hne)
  else none

def transferFrom (t : Token) (spender src dst : Address) (x : ℤ) : Option Token :=
  if x ≤ t.allowance src spender then
    (t.transfer src dst x).map fun t' =>
      { t' with allowance := fun owner => if owner = src then
          Function.update (t'.allowance src) spender (t'.allowance src spender - x)
        else t'.allowance owner }
  else none

def approve (t : Token) (owner spender : Address) (x : ℤ) : Token :=
  { t with allowance := fun o => if o = owner then Function.update (t.allowance owner) spender x
      else t.allowance o }

/-- Issuance by the token's own administrator. -/
def mint (t : Token) (dst : Address) (x : ℤ) : Option Token :=
  if h : 0 ≤ x ∧ t.supply + x ≤ I128.MAX then
    some { t with
      balance := Function.update t.balance dst (t.balance dst + x)
      supply := t.supply + x
      balance_nonneg := by
        intro a
        by_cases hd : a = dst
        · subst hd
          simpa using add_nonneg (t.balance_nonneg a) h.1
        · simpa [hd] using t.balance_nonneg a
      balance_total := by simpa using t.balance_total.update dst (t.balance dst + x)
      supply_le := h.2 }
  else none

theorem transfer_isSome : (t.transfer src dst x).isSome ↔ 0 ≤ x ∧ x ≤ t.balance src := by
  unfold transfer
  split
  · split <;> simp_all
  · simp_all

theorem transfer_spec (h : t.transfer src dst x = some t') (hne : src ≠ dst) :
    (0 ≤ x ∧ x ≤ t.balance src) ∧ t'.decimals = t.decimals ∧
      t'.balance = Function.update (Function.update t.balance src (t.balance src - x)) dst
        (t.balance dst + x) := by
  unfold transfer at h
  split at h
  · rename_i hx
    obtain rfl := Option.some.inj h
    exact ⟨hx, rfl, rfl⟩
  · cases h

theorem transferFrom_spec (h : t.transferFrom spender src dst x = some t') (hne : src ≠ dst) :
    (0 ≤ x ∧ x ≤ t.balance src) ∧ t'.decimals = t.decimals ∧
      t'.balance = Function.update (Function.update t.balance src (t.balance src - x)) dst
        (t.balance dst + x) := by
  unfold transferFrom at h
  split at h
  · obtain ⟨u, hu, rfl⟩ := Option.map_eq_some_iff.mp h
    obtain ⟨hx, hd, hb⟩ := transfer_spec hu hne
    exact ⟨hx, hd, hb⟩
  · cases h

theorem mint_spec (h : t.mint dst x = some t') :
    0 ≤ x ∧ t'.decimals = t.decimals ∧
      t'.balance = Function.update t.balance dst (t.balance dst + x) := by
  unfold mint at h
  split at h
  · rename_i hx
    obtain rfl := Option.some.inj h
    exact ⟨hx.1, rfl, rfl⟩
  · cases h

theorem mint_le_max (h : t.mint dst x = some t') : x ≤ I128.MAX := by
  have hsupply : 0 ≤ t.supply := t.balance_total.nonneg t.balance_nonneg
  unfold mint at h
  split at h
  · rename_i hx
    omega
  · cases h

/-- Issuance lowers no balance. -/
theorem mint_le (h : t.mint dst x = some t') (a : Address) : t.balance a ≤ t'.balance a := by
  obtain ⟨hx, -, hb⟩ := mint_spec h
  rw [hb]
  by_cases had : a = dst
  · subst had
    simpa using hx
  · rw [Function.update_of_ne had]

theorem transfer_self (h : t.transfer src src x = some t') : 0 ≤ x ∧ t' = t := by
  unfold transfer at h
  split at h
  · rename_i hx
    rw [dif_pos rfl] at h
    exact ⟨hx.1, (Option.some.inj h).symm⟩
  · cases h

/-- Only the sender's balance can fall. -/
theorem transfer_le (h : t.transfer src dst x = some t') (ha : a ≠ src) :
    t.balance a ≤ t'.balance a ∧ t'.decimals = t.decimals := by
  by_cases hne : src = dst
  · subst hne
    obtain ⟨-, rfl⟩ := transfer_self h
    exact ⟨le_rfl, rfl⟩
  · obtain ⟨⟨hx, -⟩, hd, hb⟩ := transfer_spec h hne
    refine ⟨?_, hd⟩
    rw [hb]
    by_cases had : a = dst
    · subst had
      simpa using hx
    · simp [Function.update_of_ne had, Function.update_of_ne ha]

@[simp] theorem approve_balance (t : Token) (owner spender : Address) (x : ℤ) :
    (t.approve owner spender x).balance = t.balance := rfl

@[simp] theorem approve_decimals (t : Token) (owner spender : Address) (x : ℤ) :
    (t.approve owner spender x).decimals = t.decimals := rfl

end Token

namespace TokenClient

variable {σ ε α : Type}

/-! Cross-contract calls on a token held in the store; a failing one traps the caller. -/

def balance (l : Call.Lens σ Token) (a : Address) : Call σ ε ℤ :=
  Call.gets fun s => (l.get s).balance a

def decimals (l : Call.Lens σ Token) : Call σ ε ℕ := Call.gets fun s => (l.get s).decimals

def commit (l : Call.Lens σ Token) (f : Token → Option Token) : Call σ ε Unit := do
  let t ← Call.gets l.get
  let t' ← Call.expect (f t) .host
  Call.modify (l.set t')

def transfer (l : Call.Lens σ Token) (src dst : Address) (x : ℤ) : Call σ ε Unit :=
  commit l (·.transfer src dst x)

def transferFrom (l : Call.Lens σ Token) (spender src dst : Address) (x : ℤ) : Call σ ε Unit :=
  commit l (·.transferFrom spender src dst x)

variable {l : Call.Lens σ Token} {f : Token → Option Token} {k : Unit → Call σ ε α}
  {env : Env} {s s' : σ} {a : α} {u : Unit}

@[simp] theorem runs_commit : Runs (commit l f : Call σ ε Unit) env s u s' ↔
    ∃ t, f (l.get s) = some t ∧ s' = l.set t s := by
  simp [commit]

@[simp] theorem runs_commit_bind : Runs (commit l f >>= k) env s a s' ↔
    ∃ t, f (l.get s) = some t ∧ Runs (k ()) env (l.set t s) a s' := by
  simp [commit]

end TokenClient

end Soroban
