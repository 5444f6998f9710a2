import BcForge.Soroban.Call
import Mathlib.Tactic.Linarith
import Mathlib.Tactic.Ring

/-! Fixed-width arithmetic: checked operations, and unchecked ones that trap on overflow. -/
namespace Soroban

namespace I128

def MAX : ℤ := 2 ^ 127 - 1

def MIN : ℤ := -2 ^ 127

def InRange (x : ℤ) : Prop := MIN ≤ x ∧ x ≤ MAX

instance (x : ℤ) : Decidable (InRange x) := inferInstanceAs (Decidable (_ ∧ _))

theorem inRange_of_le {x y : ℤ} (hx : 0 ≤ x) (hxy : x ≤ y) (hy : InRange y) : InRange x := by
  have hmin : MIN ≤ 0 := by decide
  exact ⟨hmin.trans hx, hxy.trans hy.2⟩

/-- The value of an exact result, if it fits. -/
def checked (x : ℤ) : Option ℤ := if InRange x then some x else none

def checkedAdd (a b : ℤ) : Option ℤ := checked (a + b)

def checkedSub (a b : ℤ) : Option ℤ := checked (a - b)

def checkedMul (a b : ℤ) : Option ℤ := checked (a * b)

def checkedPow (a : ℤ) (n : ℕ) : Option ℤ := checked (a ^ n)

@[simp] theorem checked_eq_some {x y : ℤ} : checked x = some y ↔ InRange x ∧ y = x := by
  unfold checked
  split <;> simp_all [eq_comm]

end I128

namespace Call

variable {σ ε : Type}

/-- Release builds keep overflow checks on, so plain arithmetic panics instead of wrapping. -/
def i128 (x : ℤ) : Call σ ε ℤ := expect (I128.checked x) .overflow

def u32 (x : ℕ) : Call σ ε ℕ := expect (if x < 2 ^ 32 then some x else none) .overflow

def u64 (x : ℕ) : Call σ ε ℕ := expect (if x < 2 ^ 64 then some x else none) .overflow

/-- Unsigned subtraction traps below zero. -/
def unsignedSub (a b : ℕ) : Call σ ε ℕ := expect (if b ≤ a then some (a - b) else none) .overflow

end Call

variable {σ ε α : Type} {env : Env} {s s' : σ} {a : α}

@[simp] theorem runs_i128 {x y : ℤ} :
    Runs (Call.i128 x : Call σ ε ℤ) env s y s' ↔ I128.InRange x ∧ y = x ∧ s' = s := by
  simp [Call.i128, and_assoc]

@[simp] theorem runs_i128_bind {x : ℤ} {k : ℤ → Call σ ε α} :
    Runs (Call.i128 x >>= k) env s a s' ↔ I128.InRange x ∧ Runs (k x) env s a s' := by
  simp [Call.i128, and_assoc]

@[simp] theorem runs_u32_bind {x : ℕ} {k : ℕ → Call σ ε α} :
    Runs (Call.u32 x >>= k) env s a s' ↔ x < 2 ^ 32 ∧ Runs (k x) env s a s' := by
  simp [Call.u32]

@[simp] theorem runs_u64_bind {x : ℕ} {k : ℕ → Call σ ε α} :
    Runs (Call.u64 x >>= k) env s a s' ↔ x < 2 ^ 64 ∧ Runs (k x) env s a s' := by
  simp [Call.u64]

@[simp] theorem runs_unsignedSub_bind {x y : ℕ} {k : ℕ → Call σ ε α} :
    Runs (Call.unsignedSub x y >>= k) env s a s' ↔ y ≤ x ∧ Runs (k (x - y)) env s a s' := by
  simp [Call.unsignedSub]

def saturatingU32 (x : ℕ) : ℕ := min x (2 ^ 32 - 1)

def saturatingU64 (x : ℕ) : ℕ := min x (2 ^ 64 - 1)

end Soroban
