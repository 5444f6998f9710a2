import BcForge.Soroban.Arith
import Mathlib.Order.Defs.Unbundled

/-! Calls that move the store along a preorder, shown piece by piece. -/
namespace Soroban

open Call

variable {σ τ ε δ α β : Type} {R : σ → σ → Prop}

/-- Every success of the call leads along `R`. -/
def Respects (R : σ → σ → Prop) (x : Call σ ε α) : Prop :=
  ∀ env s a s', Runs x env s a s' → R s s'

variable {x y : Call σ ε α} {f : α → Call σ ε β}

/-- What a guard lets through can be used by the rest of the call. -/
theorem respects_failIf_bind {c : Prop} {_ : Decidable c} {e : ε} {k : Unit → Call σ ε α}
    (h : ¬ c → Respects R (k ())) : Respects R (failIf c e >>= k) := by
  intro env s a s' hr
  obtain ⟨hc, hr⟩ := runs_failIf_bind.mp hr
  exact h hc env s a s' hr

theorem respects_modify {f : σ → σ} (h : ∀ s, R s (f s)) :
    Respects R (modify f : Call σ ε Unit) := by
  intro env s a s' hr
  rw [runs_modify.mp hr]
  exact h s

theorem respects_within {l : Lens σ τ} {wrap : δ → ε} {x : Call τ δ α}
    (h : ∀ t s, R s (l.set t s)) : Respects R (within l wrap x) := by
  intro env s a s' hr
  obtain ⟨t, -, rfl⟩ := runs_within.mp hr
  exact h t s

variable [IsPreorder σ R]

theorem respects_of_unchanged (h : ∀ env s a s', Runs x env s a s' → s' = s) : Respects R x := by
  intro env s a s' hr
  rw [h env s a s' hr]
  exact refl_of R s

theorem Respects.bind (hx : Respects R x) (hf : ∀ a, Respects R (f a)) : Respects R (x >>= f) := by
  intro env s b s'' h
  obtain ⟨a, s', hr, hr'⟩ := runs_bind.mp h
  exact trans_of R (hx env s a s' hr) (hf a env s' b s'' hr')

theorem respects_pure (a : α) : Respects R (pure a : Call σ ε α) :=
  respects_of_unchanged fun _ _ _ _ h => (runs_pure.mp h).2

theorem respects_gets (f : σ → α) : Respects R (gets f : Call σ ε α) :=
  respects_of_unchanged fun _ _ _ _ h => (runs_gets.mp h).2

theorem respects_ledger : Respects R (ledger : Call σ ε Ledger) :=
  respects_of_unchanged fun _ _ _ _ h => (runs_ledger.mp h).2

theorem respects_self : Respects R (self : Call σ ε Address) :=
  respects_of_unchanged fun _ _ _ _ h => (runs_self.mp h).2

theorem respects_requireAuth (a : Address) : Respects R (requireAuth a : Call σ ε Unit) :=
  respects_of_unchanged fun _ _ _ _ h => (runs_requireAuth.mp h).2

theorem respects_okOr (o : Option α) (e : ε) : Respects R (okOr o e : Call σ ε α) :=
  respects_of_unchanged fun _ _ _ _ h => (runs_okOr.mp h).2

theorem respects_i128 (x : ℤ) : Respects R (i128 x : Call σ ε ℤ) :=
  respects_of_unchanged fun _ _ _ _ h => (runs_i128.mp h).2.2

theorem respects_u64 (x : ℕ) : Respects R (u64 x : Call σ ε ℕ) := by
  refine respects_of_unchanged fun env s a s' h => ?_
  rw [u64, runs_expect] at h
  exact h.2

theorem respects_failIf (c : Prop) [Decidable c] (e : ε) :
    Respects R (failIf c e : Call σ ε Unit) :=
  respects_of_unchanged fun _ _ _ _ h => (runs_failIf.mp h).2

theorem respects_trapIf (c : Prop) [Decidable c] (t : Trap) :
    Respects R (trapIf c t : Call σ ε Unit) :=
  respects_of_unchanged fun _ _ _ _ h => (runs_trapIf.mp h).2

theorem respects_guarded {flag : Lens σ Bool} {message : String}
    (h : ∀ b s, R s (flag.set b s)) (hx : Respects R x) :
    Respects R (guarded flag message x) :=
  (respects_gets _).bind fun _ => (respects_trapIf _ _).bind fun _ =>
    (respects_modify (h true)).bind fun _ => hx.bind fun _ =>
      (respects_modify (h false)).bind fun _ => respects_pure _

end Soroban
