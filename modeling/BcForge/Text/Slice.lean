import Mathlib.Data.List.DropRight
import Mathlib.Tactic.Common

/-! Slices of a text by offsets that count from its start or, below zero, from its end. -/
namespace Text

variable {α : Type}

/-- Where an offset points in a text of length `n`. -/
def offset (n : ℕ) (i : ℤ) : ℕ := (if i < 0 then max (n + i) 0 else min i n).toNat

def slice (l : List α) (start stop : ℤ) : List α :=
  (l.take (offset l.length stop)).drop (offset l.length start)

def sliceFrom (l : List α) (start : ℤ) : List α := l.drop (offset l.length start)

def padStart (l : List α) (n : ℤ) (a : α) : List α := l.leftpad n.toNat a

variable {l : List α} {a : α} {i : ℤ} {n k : ℕ}

theorem offset_natCast (h : k ≤ n) : offset n k = k := by
  unfold offset
  split <;> omega

theorem offset_neg (hk : 0 < k) (h : k ≤ n) : offset n (-k) = n - k := by
  unfold offset
  split <;> omega

theorem slice_zero (h : offset l.length i = k) : slice l 0 i = l.take k := by
  have hzero : offset l.length 0 = 0 := offset_natCast (Nat.zero_le _)
  rw [slice, hzero, h, List.drop_zero]

theorem sliceFrom_eq (h : offset l.length i = k) : sliceFrom l i = l.drop k := by
  rw [sliceFrom, h]

theorem length_padStart (n : ℕ) : (padStart l n a).length = max n l.length := by
  rw [padStart, Int.toNat_natCast, List.length_leftpad]

theorem padStart_eq (n : ℕ) : padStart l n a = List.replicate (n - l.length) a ++ l := by
  rw [padStart, Int.toNat_natCast, List.leftpad]

end Text
