import BcForge.Soroban.Arith
import BcForge.Soroban.Run

/-! Calls that neither read nor write some part of the store, and so work the same whatever it
holds. -/
namespace Soroban

open Call

variable {σ τ ε δ α β : Type} {f : σ → σ} {env : Env} {s t : σ} {a : α}

/-- The same outcome, in a store changed by `f`. -/
def Done.carry (f : σ → σ) (d : Done σ α) : Done σ α := { d with store := f d.store }

/-- From `s` on, the call has the same outcome as from `f s`, and carries the change along. -/
def IgnoresAt (f : σ → σ) (x : Call σ ε α) (env : Env) (s : σ) : Prop :=
  x env (f s) = (x env s).map (Done.carry f)

/-- The change makes no difference to the call, wherever it starts. -/
def Ignores (f : σ → σ) (x : Call σ ε α) : Prop := ∀ env s, IgnoresAt f x env s

variable {x y : Call σ ε α} {k : α → Call σ ε β}

/-- The successes in a changed store are those of the store itself. -/
theorem IgnoresAt.runs (h : IgnoresAt f x env s) :
    Runs x env (f s) a t ↔ ∃ t', Runs x env s a t' ∧ t = f t' := by
  unfold IgnoresAt at h
  unfold Runs
  rw [h]
  cases x env s with
  | error e => simp [Except.map]
  | ok d =>
    simp only [Except.map, Except.ok.injEq]
    constructor
    · rintro ⟨log, hd⟩
      cases hd
      exact ⟨d.store, ⟨d.requested, rfl⟩, rfl⟩
    · rintro ⟨t', ⟨log, rfl⟩, rfl⟩
      exact ⟨log, rfl⟩

/-- The rest of the call may use what its beginning has established. -/
theorem IgnoresAt.bind (hx : IgnoresAt f x env s)
    (hk : ∀ a t, Runs x env s a t → IgnoresAt f (k a) env t) : IgnoresAt f (x >>= k) env s := by
  change Call.bind x k env (f s) = (Call.bind x k env s).map _
  unfold IgnoresAt at hx
  unfold Call.bind
  rw [hx]
  cases hd : x env s with
  | error e => rfl
  | ok d =>
    have hrest := hk d.value d.store ⟨d.requested, hd⟩
    unfold IgnoresAt at hrest
    simp only [Except.map, Done.carry]
    rw [hrest]
    cases k d.value env d.store <;> rfl

theorem Ignores.bind (hx : Ignores f x) (hk : ∀ a, Ignores f (k a)) : Ignores f (x >>= k) :=
  fun env s => (hx env s).bind fun a t _ => hk a env t

theorem ignoresAt_gets {g : σ → β} (h : g (f s) = g s) :
    IgnoresAt f (gets g : Call σ ε β) env s := by
  simp only [IgnoresAt, gets, h]
  rfl

theorem ignoresAt_ite {c : Prop} [Decidable c] (hx : IgnoresAt f x env s)
    (hy : IgnoresAt f y env s) : IgnoresAt f (if c then x else y) env s := by
  split
  · exact hx
  · exact hy

theorem ignores_pure (a : α) : Ignores f (pure a : Call σ ε α) := fun _ _ => rfl

theorem ignores_fail (e : ε) : Ignores f (fail e : Call σ ε α) := fun _ _ => rfl

theorem ignores_trap (e : Trap) : Ignores f (trap e : Call σ ε α) := fun _ _ => rfl

theorem ignores_self : Ignores f (self : Call σ ε Address) := fun _ _ => rfl

theorem ignores_gets {g : σ → β} (h : ∀ s, g (f s) = g s) : Ignores f (gets g : Call σ ε β) :=
  fun _ s => ignoresAt_gets (h s)

theorem ignores_modify {g : σ → σ} (h : ∀ s, g (f s) = f (g s)) :
    Ignores f (modify g : Call σ ε Unit) := by
  intro env s
  simp only [IgnoresAt, Call.modify, h s]
  rfl

theorem ignores_failIf (c : Prop) [Decidable c] (e : ε) :
    Ignores f (failIf c e : Call σ ε Unit) := by
  unfold failIf
  split
  · exact ignores_fail e
  · exact ignores_pure ()

theorem ignores_trapIf (c : Prop) [Decidable c] (e : Trap) :
    Ignores f (trapIf c e : Call σ ε Unit) := by
  unfold trapIf
  split
  · exact ignores_trap e
  · exact ignores_pure ()

theorem ignores_okOr (o : Option α) (e : ε) : Ignores f (okOr o e : Call σ ε α) := by
  cases o with
  | none => exact ignores_fail e
  | some a => exact ignores_pure a

theorem ignores_expect (o : Option α) (e : Trap) : Ignores f (expect o e : Call σ ε α) := by
  cases o with
  | none => exact ignores_trap e
  | some a => exact ignores_pure a

theorem ignores_i128 (x : ℤ) : Ignores f (i128 x : Call σ ε ℤ) := ignores_expect _ _

theorem ignores_u32 (x : ℕ) : Ignores f (u32 x : Call σ ε ℕ) := ignores_expect _ _

theorem ignores_requireAuth (b : Address) : Ignores f (requireAuth b : Call σ ε Unit) := by
  intro env s
  unfold IgnoresAt requireAuth
  split <;> rfl

theorem ignores_ite {c : Prop} [Decidable c] (hx : Ignores f x) (hy : Ignores f y) :
    Ignores f (if c then x else y) :=
  fun env s => ignoresAt_ite (hx env s) (hy env s)

/-- A library call on a part of the store that `f` leaves alone. -/
theorem ignores_within {l : Lens σ τ} {wrap : δ → ε} {z : Call τ δ α}
    (hget : ∀ s, l.get (f s) = l.get s) (hset : ∀ v s, l.set v (f s) = f (l.set v s)) :
    Ignores f (within l wrap z) := by
  intro env s
  unfold IgnoresAt within
  rw [hget s]
  cases z env (l.get s) with
  | ok d =>
    simp only [hset d.store s]
    rfl
  | error e => cases e <;> rfl

theorem ignoresAt_guarded {flag : Lens σ Bool} {message : String}
    (hget : ∀ s, flag.get (f s) = flag.get s) (hset : ∀ b s, flag.set b (f s) = f (flag.set b s))
    (hx : IgnoresAt f x env (flag.set true s)) : IgnoresAt f (guarded flag message x) env s := by
  refine IgnoresAt.bind (ignoresAt_gets (hget s)) fun entered t hentered => ?_
  obtain ⟨-, rfl⟩ := runs_gets.mp hentered
  refine (ignores_trapIf _ _ env t).bind fun _ t' hfree => ?_
  obtain ⟨-, rfl⟩ := runs_trapIf.mp hfree
  refine IgnoresAt.bind (ignores_modify (hset true) env t') fun _ t'' hheld => ?_
  rw [runs_modify.mp hheld]
  exact hx.bind fun a t₃ _ => IgnoresAt.bind (ignores_modify (hset false) env t₃) fun _ t₄ _ =>
    ignores_pure a env t₄

theorem IgnoresAt.invoke_eq (h : IgnoresAt f x env s) : invoke x env (f s) = f (invoke x env s) := by
  unfold IgnoresAt at h
  unfold invoke
  rw [h]
  cases x env s <;> rfl

namespace World

variable {Op : Type} {exec : Op → Call σ ε Unit} {w : World σ} {l : Label Op} {ls : List (Label Op)}

def mapStore (f : σ → σ) (w : World σ) : World σ := { w with store := f w.store }

/-- How a call ends: with a failure, or with the authorizations it asked for. -/
def outcome (exec : Op → Call σ ε Unit) (w : World σ) :
    Label Op → List (Except (Failure ε) (List Address))
  | .call signers uploaded op =>
    [(exec op (w.env signers uploaded) w.store).map Done.requested]
  | .close _ => []

def outcomes (exec : Op → Call σ ε Unit) (w : World σ) (ls : List (Label Op)) :
    List (Except (Failure ε) (List Address)) :=
  w.collectSteps exec (outcome exec) ls

/-- The change makes no difference to the call this step makes, if it makes one. -/
def Ignored (exec : Op → Call σ ε Unit) (f : σ → σ) (w : World σ) : Label Op → Prop
  | .call signers uploaded op => IgnoresAt f (exec op) (w.env signers uploaded) w.store
  | .close _ => True

theorem next_mapStore (h : Ignored exec f w l) :
    next exec (w.mapStore f) l = (next exec w l).mapStore f := by
  cases l with
  | close l =>
    by_cases hl : w.ledger.sequence ≤ l.sequence ∧ w.ledger.timestamp ≤ l.timestamp
    · simp [next, mapStore, hl]
    · simp [next, mapStore, hl]
  | call signers uploaded op => exact congrArg (World.mk w.ledger w.self) h.invoke_eq

theorem outcome_mapStore (h : Ignored exec f w l) :
    outcome exec (w.mapStore f) l = outcome exec w l := by
  cases l with
  | close l => rfl
  | call signers uploaded op =>
    change [(exec op (w.env signers uploaded) (f w.store)).map Done.requested] = _
    rw [h]
    simp only [outcome]
    cases exec op (w.env signers uploaded) w.store <;> rfl

/-- A run all of whose calls ignore the change goes the same way with it. -/
theorem run_mapStore (h : EveryStep exec (Ignored exec f) w ls) :
    run exec (w.mapStore f) ls = (run exec w ls).mapStore f ∧
      outcomes exec (w.mapStore f) ls = outcomes exec w ls := by
  induction ls generalizing w with
  | nil => exact ⟨rfl, rfl⟩
  | cons l ls ih =>
    obtain ⟨hrun, hout⟩ := ih h.2
    simp only [outcomes] at hout
    simp only [run_cons, outcomes, collectSteps, next_mapStore h.1, outcome_mapStore h.1]
    exact ⟨hrun, by rw [hout]⟩

end World

end Soroban
