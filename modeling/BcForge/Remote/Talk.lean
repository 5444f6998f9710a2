import Mathlib.Data.Nat.Basic

/-! Programs that make requests over an unreliable connection. What happens during a request is
read off a script, one entry a request, and a program is judged over all scripts. -/
namespace Remote

structure Session (σ : Type) where
  /-- How many requests were made. -/
  clock : ℕ
  world : σ

/-- `τ` is what can happen during one request, `σ` the world behind the connection. What a
program did to the world stays done when it throws. -/
def Talk (τ σ ε α : Type) : Type := (ℕ → τ) → Session σ → Except ε α × Session σ

namespace Talk
variable {τ σ ε α β : Type}

def bind (x : Talk τ σ ε α) (f : α → Talk τ σ ε β) : Talk τ σ ε β := fun script s =>
  match x script s with
  | (.ok a, s') => f a script s'
  | (.error e, s') => (.error e, s')

instance : Monad (Talk τ σ ε) where
  pure a := fun _ s => (.ok a, s)
  bind := Talk.bind

def fail (e : ε) : Talk τ σ ε α := fun _ s => (.error e, s)

/-- What a `try` sees of its body. -/
def capture (x : Talk τ σ ε α) : Talk τ σ ε (Except ε α) := fun script s =>
  (.ok (x script s).1, (x script s).2)

def request (f : τ → σ → Except ε α × σ) : Talk τ σ ε α := fun script s =>
  ((f (script s.clock) s.world).1, ⟨s.clock + 1, (f (script s.clock) s.world).2⟩)

section Run
variable {script : ℕ → τ} {s : Session σ}

@[simp] theorem run_pure (a : α) : (pure a : Talk τ σ ε α) script s = (.ok a, s) := rfl

@[simp] theorem run_fail (e : ε) : (fail e : Talk τ σ ε α) script s = (.error e, s) := rfl

@[simp] theorem run_capture (x : Talk τ σ ε α) :
    capture x script s = (.ok (x script s).1, (x script s).2) := rfl

@[simp] theorem run_request (f : τ → σ → Except ε α × σ) :
    request f script s = ((f (script s.clock) s.world).1,
      ⟨s.clock + 1, (f (script s.clock) s.world).2⟩) := rfl

theorem run_bind (x : Talk τ σ ε α) (f : α → Talk τ σ ε β) :
    (x >>= f) script s = match x script s with
      | (.ok a, s') => f a script s'
      | (.error e, s') => (.error e, s') := rfl

end Run

/-- Under every script `x` keeps `I`, also when it throws, and returns only values in `V`. -/
def Keeps (I : σ → Prop) (V : α → Prop) (x : Talk τ σ ε α) : Prop :=
  ∀ script s, I s.world →
    I (x script s).2.world ∧ ∀ a, (x script s).1 = .ok a → V a

section Rules
variable {I : σ → Prop} {V : α → Prop} {x : Talk τ σ ε α}

theorem keeps_pure {a : α} (h : V a) : Keeps I V (pure a : Talk τ σ ε α) :=
  fun _ _ hi => ⟨hi, fun _ hb => Except.ok.inj hb ▸ h⟩

theorem keeps_fail {e : ε} : Keeps I V (fail e : Talk τ σ ε α) :=
  fun _ _ hi => ⟨hi, fun _ hb => nomatch hb⟩

theorem keeps_bind {U : β → Prop} {f : α → Talk τ σ ε β} (hx : Keeps I V x)
    (hf : ∀ a, V a → Keeps I U (f a)) : Keeps I U (x >>= f) := by
  intro script s hi
  have h := hx script s hi
  rw [run_bind]
  cases hr : x script s with
  | mk r s' =>
    rw [hr] at h
    cases r with
    | ok a => exact hf a (h.2 a rfl) script s' h.1
    | error e => exact ⟨h.1, fun _ hb => nomatch hb⟩

theorem keeps_capture (hx : Keeps I V x) :
    Keeps I (fun r : Except ε α => ∀ a, r = .ok a → V a) (capture x) := by
  intro script s hi
  have h := hx script s hi
  exact ⟨h.1, fun r hr => Except.ok.inj hr ▸ h.2⟩

theorem keeps_request {f : τ → σ → Except ε α × σ} (h : ∀ t w, I w → I (f t w).2) :
    Keeps I (fun _ => True) (request f) :=
  fun script s hi => ⟨h (script s.clock) s.world hi, fun _ _ => trivial⟩

/-- From `I`, `x` leads to `P`, whether it returns or throws. -/
def Leads (I P : σ → Prop) (x : Talk τ σ ε α) : Prop :=
  ∀ script s, I s.world → P (x script s).2.world

theorem Keeps.leads {P : σ → Prop} (hx : Keeps I V x) (h : ∀ w, I w → P w) : Leads I P x :=
  fun script s hi => h _ (hx script s hi).1

theorem Leads.of_imp {J P : σ → Prop} (hx : Leads J P x) (h : ∀ w, I w → J w) : Leads I P x :=
  fun script s hi => hx script s (h _ hi)

theorem leads_bind {P : σ → Prop} {f : α → Talk τ σ ε β} (hx : Keeps I V x)
    (h : ∀ w, I w → P w) (hf : ∀ a, V a → Leads I P (f a)) : Leads I P (x >>= f) := by
  intro script s hi
  have hk := hx script s hi
  rw [run_bind]
  cases hr : x script s with
  | mk r s' =>
    rw [hr] at hk
    cases r with
    | ok a => exact hf a (hk.2 a rfl) script s' hk.1
    | error e => exact h _ hk.1

end Rules

end Talk

end Remote
