import BcForge.Soroban.Sep41

/-! Token contracts as others call them: by address, and free to refuse a transfer. -/
namespace Soroban

structure TokenContract where
  ledger : Token
  /-- Transfers the contract traps on for reasons of its own, whatever the balances. -/
  refuses : Address → Address → ℤ → Bool

/-- The ledger after a transfer, unless the token refuses it. -/
def TokenContract.transfer (c : TokenContract) (src dst : Address) (x : ℤ) : Option Token :=
  if c.refuses src dst x = true then none else c.ledger.transfer src dst x

structure Transfer where
  token : Address
  src : Address
  dst : Address
  amount : ℤ
deriving DecidableEq

/-- The deployed tokens, and the transfers they have carried out so far, the oldest first. -/
structure Tokens where
  contract : Address → Option TokenContract
  transfers : List Transfer

namespace Tokens

variable {n n' : Tokens} {t : Transfer} {token dst a : Address} {x : ℤ}

/-- Calls on an address without a contract fail. -/
def balance (n : Tokens) (token a : Address) : Option ℤ :=
  (n.contract token).map (·.ledger.balance a)

def transfer (n : Tokens) (t : Transfer) : Option Tokens := do
  let c ← n.contract t.token
  let ledger ← c.transfer t.src t.dst t.amount
  some
    { contract := Function.update n.contract t.token (some { c with ledger := ledger })
      transfers := n.transfers ++ [t] }

def mint (n : Tokens) (token dst : Address) (x : ℤ) : Option Tokens := do
  let c ← n.contract token
  let ledger ← c.ledger.mint dst x
  some { n with contract := Function.update n.contract token (some { c with ledger := ledger }) }

/-- From now on the token refuses other transfers. -/
def setRefusals (n : Tokens) (token : Address) (refuses : Address → Address → ℤ → Bool) :
    Option Tokens := do
  let c ← n.contract token
  some { n with contract := Function.update n.contract token (some { c with refuses := refuses }) }

/-- The account could pay the amount. -/
def Covers (n : Tokens) (token a : Address) (x : ℤ) : Prop :=
  ∃ b, n.balance token a = some b ∧ x ≤ b

theorem transfer_eq_some (h : n.transfer t = some n') :
    ∃ c ledger, n.contract t.token = some c ∧ c.refuses t.src t.dst t.amount = false ∧
      c.ledger.transfer t.src t.dst t.amount = some ledger ∧
      n' = ⟨Function.update n.contract t.token (some { c with ledger := ledger }),
        n.transfers ++ [t]⟩ := by
  simp only [transfer, Option.bind_eq_bind, Option.bind_eq_some_iff, Option.some.injEq] at h
  obtain ⟨c, hc, ledger, hl, rfl⟩ := h
  unfold TokenContract.transfer at hl
  split at hl
  · cases hl
  · rename_i hr
    exact ⟨c, ledger, hc, by simpa using hr, hl, rfl⟩

theorem transfers_transfer (h : n.transfer t = some n') : n'.transfers = n.transfers ++ [t] := by
  obtain ⟨c, ledger, -, -, -, rfl⟩ := transfer_eq_some h
  rfl

/-- What is left to the payer, who may be paying itself. -/
theorem balance_transfer {src : Address} (h : n.transfer ⟨token, src, dst, x⟩ = some n') :
    n'.balance token src =
      (n.balance token src).map fun b => if dst = src then b else b - x := by
  obtain ⟨c, ledger, hn, -, hl, rfl⟩ := transfer_eq_some h
  simp only at hn hl
  simp only [balance, Function.update_self, hn, Option.map_some, Option.some.injEq]
  by_cases hs : src = dst
  · subst hs
    obtain ⟨-, rfl⟩ := Token.transfer_self hl
    simp
  · obtain ⟨-, -, hbal⟩ := Token.transfer_spec hl hs
    rw [hbal, Function.update_of_ne hs, Function.update_self, if_neg (Ne.symm hs)]

end Tokens

end Soroban
