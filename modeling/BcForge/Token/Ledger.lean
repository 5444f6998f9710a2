import BcForge.Token.Contract
import Mathlib.Logic.Relation

/-! What a token's books are: balances, their sum, and the part of each balance that is locked. -/
namespace BcForge.BcForgeToken

open Soroban

structure Ledger where
  balance : Address → ℤ
  supply : ℤ
  locked : Address → ℤ

namespace Ledger

def free (b : Ledger) (u : Address) : ℤ := b.balance u - b.locked u

inductive Step (b : Ledger) : Ledger → Prop
  | mint (u : Address) (x : ℤ) (hx : 0 < x) (hs : b.supply + x ≤ I128.MAX) :
      Step b { b with
        balance := Function.update b.balance u (b.balance u + x)
        supply := b.supply + x }
  | move (src dst : Address) (x : ℤ) (hne : src ≠ dst) (hx : 0 < x) (hf : x ≤ b.free src) :
      Step b { b with
        balance := Function.update (Function.update b.balance src (b.balance src - x)) dst
          (b.balance dst + x) }
  | burn (u : Address) (x : ℤ) (hx : 0 < x) (hf : x ≤ b.free u) :
      Step b { b with
        balance := Function.update b.balance u (b.balance u - x)
        supply := b.supply - x }
  | lock (u : Address) (x : ℤ) (hx : 0 < x) (hf : x ≤ b.free u) :
      Step b { b with locked := Function.update b.locked u (b.locked u + x) }
  | unlock (u : Address) : Step b { b with locked := Function.update b.locked u 0 }

def Steps : Ledger → Ledger → Prop := Relation.ReflTransGen Step

/-- The balances add up to the supply, and every lock is covered by its holder's balance. -/
structure Sound (b : Ledger) : Prop where
  total : HasTotal b.balance b.supply
  locked_nonneg : ∀ u, 0 ≤ b.locked u
  locked_le : ∀ u, b.locked u ≤ b.balance u
  supply_le : b.supply ≤ I128.MAX

variable {b b' : Ledger} {u v : Address} {x : ℤ}

theorem Sound.balance_nonneg (h : Sound b) (u : Address) : 0 ≤ b.balance u :=
  (h.locked_nonneg u).trans (h.locked_le u)

theorem Sound.balance_le (h : Sound b) (u : Address) : b.balance u ≤ b.supply :=
  h.total.le h.balance_nonneg u

theorem Sound.add_le (h : Sound b) (hne : u ≠ v) : b.balance u + b.balance v ≤ b.supply :=
  h.total.add_le h.balance_nonneg hne

theorem sound_step (h : Sound b) (hs : Step b b') : Sound b' := by
  cases hs with
  | mint u x hx hs =>
    refine ⟨?_, h.locked_nonneg, ?_, hs⟩
    · simpa using h.total.update u (b.balance u + x)
    · refine (Function.forall_update_iff _ fun v y => b.locked v ≤ y).mpr ⟨?_, ?_⟩
      · have hu := h.locked_le u
        omega
      · exact fun v _ => h.locked_le v
  | move src dst x hne hx hf =>
    unfold free at hf
    refine ⟨h.total.move hne x, h.locked_nonneg, ?_, h.supply_le⟩
    refine (Function.forall_update_iff _ fun v y => b.locked v ≤ y).mpr ⟨?_, fun v _ => ?_⟩
    · have hd := h.locked_le dst
      omega
    · refine (Function.forall_update_iff _ fun v y => b.locked v ≤ y).mpr ⟨?_, ?_⟩ v
      · omega
      · exact fun v _ => h.locked_le v
  | burn u x hx hf =>
    unfold free at hf
    refine ⟨?_, h.locked_nonneg, ?_, ?_⟩
    · simpa [sub_eq_add_neg] using h.total.update u (b.balance u - x)
    · refine (Function.forall_update_iff _ fun v y => b.locked v ≤ y).mpr ⟨?_, ?_⟩
      · omega
      · exact fun v _ => h.locked_le v
    · have hle := h.supply_le
      dsimp only
      omega
  | lock u x hx hf =>
    unfold free at hf
    refine ⟨h.total, ?_, ?_, h.supply_le⟩
    · refine (Function.forall_update_iff _ fun _ y => 0 ≤ y).mpr ⟨?_, ?_⟩
      · have hu := h.locked_nonneg u
        omega
      · exact fun v _ => h.locked_nonneg v
    · refine (Function.forall_update_iff _ fun v y => y ≤ b.balance v).mpr ⟨?_, ?_⟩
      · omega
      · exact fun v _ => h.locked_le v
  | unlock u =>
    refine ⟨h.total, ?_, ?_, h.supply_le⟩
    · refine (Function.forall_update_iff _ fun _ y => 0 ≤ y).mpr ⟨le_rfl, ?_⟩
      exact fun v _ => h.locked_nonneg v
    · refine (Function.forall_update_iff _ fun v y => y ≤ b.balance v).mpr ⟨?_, ?_⟩
      · exact h.balance_nonneg u
      · exact fun v _ => h.locked_le v

theorem sound_steps (h : Sound b) (hs : Steps b b') : Sound b' := by
  induction hs with
  | refl => exact h
  | tail _ hstep ih => exact sound_step ih hstep

/-- Taking a free amount from `u`, and giving it to another account, stays in the `i128` range. -/
theorem Sound.inRange (h : Sound b) (hx : 0 < x) (hf : x ≤ b.free u) :
    I128.InRange (b.balance u - x) ∧ I128.InRange (b.supply - x) ∧
      (u ≠ v → I128.InRange (b.balance v + x)) := by
  have hu := h.balance_nonneg u
  have hl := h.locked_nonneg u
  have hle := h.balance_le u
  have hmax := h.supply_le
  have hv := h.balance_nonneg v
  unfold free at hf
  have hmin : I128.MIN ≤ 0 := by decide
  refine ⟨⟨?_, ?_⟩, ⟨?_, ?_⟩, fun hne => ⟨?_, ?_⟩⟩
  · omega
  · omega
  · omega
  · omega
  · omega
  · have hsum := h.add_le hne
    omega

end Ledger

end BcForge.BcForgeToken
