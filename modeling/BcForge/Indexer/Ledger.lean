import Mathlib.Algebra.BigOperators.Group.List.Basic
import Mathlib.Algebra.Order.Ring.Int
import Mathlib.Data.Int.Basic

/-! The pure ledger arithmetic of the indexer. An amount is stored as a decimal string and computed
with as a BigInt; here it is the integer itself. -/
namespace BcForge.Indexer

inductive LedgerEvent where
  | mint (dst : String) (amount : ℤ)
  | transfer (src dst : String) (amount : ℤ)
  | burn (src : String) (amount : ℤ)
  deriving DecidableEq, Repr

structure Delta where
  address : String
  delta : ℤ
  deriving DecidableEq, Repr

/-- The signed balance changes of one event, in the order they are applied. -/
def deltasFor : LedgerEvent → List Delta
  | .mint dst amount => [⟨dst, amount⟩]
  | .burn src amount => [⟨src, -amount⟩]
  | .transfer src dst amount => [⟨src, -amount⟩, ⟨dst, amount⟩]

def supplyDeltaFor : LedgerEvent → ℤ
  | .mint _ amount => amount
  | .burn _ amount => -amount
  | .transfer _ _ _ => 0

/-- A map from addresses, in which only non-zero balances are present. -/
abbrev Balances := String → Option ℤ

structure LedgerState where
  balances : Balances
  supply : ℤ

def emptyLedgerState : LedgerState where
  balances := fun _ => none
  supply := 0

/-- One pass of the loop: a balance that reaches zero is deleted. -/
def applyDelta (balances : Balances) (d : Delta) : Balances :=
  let next := (balances d.address).getD 0 + d.delta
  Function.update balances d.address (if next = 0 then none else some next)

def applyLedgerEvent (state : LedgerState) (event : LedgerEvent) : LedgerState where
  balances := (deltasFor event).foldl applyDelta state.balances
  supply := state.supply + supplyDeltaFor event

def foldLedgerEvents (events : List LedgerEvent) : LedgerState :=
  events.foldl applyLedgerEvent emptyLedgerState

variable {balances : Balances} {ds : List Delta} {events : List LedgerEvent} {a : String}

/-- What a list of deltas adds to one balance. -/
def net (ds : List Delta) (a : String) : ℤ :=
  (ds.map fun d => if d.address = a then d.delta else 0).sum

@[simp]
theorem net_nil : net [] a = 0 := rfl

@[simp]
theorem net_cons (d : Delta) :
    net (d :: ds) a = (if d.address = a then d.delta else 0) + net ds a :=
  rfl

@[simp]
theorem net_append (ds' : List Delta) : net (ds ++ ds') a = net ds a + net ds' a := by
  simp [net]

/-- The balance of an address, as the map holds it: absent stands for zero, and zero is absent. -/
def sparse (n : ℤ) : Option ℤ := if n = 0 then none else some n

@[simp]
theorem getD_sparse (n : ℤ) : (sparse n).getD 0 = n := by
  unfold sparse
  split
  · rename_i h
    exact h.symm
  · rfl

theorem sparse_injective : Function.Injective sparse := by
  intro m n h
  have := congrArg (fun o => Option.getD o 0) h
  simpa using this

/-- Folding deltas over a map adds their net sum to every balance. -/
theorem foldl_applyDelta {start : String → ℤ} (h : ∀ a, balances a = sparse (start a)) :
    ds.foldl applyDelta balances a = sparse (start a + net ds a) := by
  induction ds generalizing balances start with
  | nil => simpa using h a
  | cons d ds ih =>
    have hstep : ∀ b, applyDelta balances d b =
        sparse (start b + if d.address = b then d.delta else 0) := by
      intro b
      by_cases hb : d.address = b
      · subst hb
        simp only [applyDelta, Function.update_self, h, getD_sparse, if_pos]
        rfl
      · simp [applyDelta, Function.update_of_ne (Ne.symm hb), h, hb]
    rw [List.foldl_cons, ih hstep, net_cons, add_assoc]

theorem balances_foldl (state : LedgerState) : (events.foldl applyLedgerEvent state).balances =
    (events.flatMap deltasFor).foldl applyDelta state.balances := by
  induction events generalizing state with
  | nil => rfl
  | cons e events ih =>
    rw [List.foldl_cons, ih, List.flatMap_cons, List.foldl_append]
    rfl

/-- The fold holds, for every address, the net sum of its deltas. -/
theorem foldLedgerEvents_balances :
    (foldLedgerEvents events).balances a = sparse (net (events.flatMap deltasFor) a) := by
  have hstart : ∀ b, emptyLedgerState.balances b = sparse ((fun _ => 0 : String → ℤ) b) := by
    intro b
    rfl
  rw [foldLedgerEvents, balances_foldl, foldl_applyDelta hstart, zero_add]

end BcForge.Indexer
