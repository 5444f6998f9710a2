import BcForge.Remote.Talk

/-! Programs that write down what they do, beside a world that does not see it, and how many
requests a program makes at most. -/
namespace Remote

variable {τ σ ε α β μ : Type}

/-- What is left of a session without its trace. -/
def Session.untraced (s : Session (σ × List μ)) : Session σ := ⟨s.clock, s.world.1⟩

namespace Talk

/-- `x`, writing nothing. -/
def silent (x : Talk τ σ ε α) : Talk τ (σ × List μ) ε α := fun script s =>
  ((x script s.untraced).1,
    ⟨(x script s.untraced).2.clock, (x script s.untraced).2.world, s.world.2⟩)

def mark (m : μ) : Talk τ (σ × List μ) ε Unit := fun _ s =>
  (.ok (), ⟨s.clock, s.world.1, s.world.2 ++ [m]⟩)

section Erasure

/-- Without its trace `y` is `x`. -/
def Erases (y : Talk τ (σ × List μ) ε α) (x : Talk τ σ ε α) : Prop :=
  ∀ script s, x script s.untraced = ((y script s).1, (y script s).2.untraced)

variable {x : Talk τ σ ε α} {y : Talk τ (σ × List μ) ε α} {f : α → Talk τ σ ε β}
  {g : α → Talk τ (σ × List μ) ε β}

theorem erases_pure (a : α) : Erases (pure a : Talk τ (σ × List μ) ε α) (pure a) :=
  fun _ _ => rfl

theorem erases_fail (e : ε) : Erases (fail e : Talk τ (σ × List μ) ε α) (fail e) :=
  fun _ _ => rfl

theorem erases_silent : Erases (silent x : Talk τ (σ × List μ) ε α) x := fun _ _ => rfl

theorem erases_bind (hx : Erases y x) (hf : ∀ a, Erases (g a) (f a)) :
    Erases (y >>= g) (x >>= f) := by
  intro script s
  have h := hx script s
  rw [run_bind, run_bind, h]
  cases hr : y script s with
  | mk r s' =>
    cases r with
    | ok a => exact hf a script s'
    | error e => rfl

/-- A mark is not seen. -/
theorem erases_mark {m : μ} (hy : Erases y x) : Erases (mark m >>= fun _ => y) x :=
  fun script s => hy script ⟨s.clock, s.world.1, s.world.2 ++ [m]⟩

theorem erases_capture (hx : Erases y x) : Erases (capture y) (capture x) := by
  intro script s
  rw [run_capture, run_capture, hx script s]

end Erasure

section Traces

/-- Whatever happens, `y` writes something that `Q` allows with the outcome it has. -/
def Writes (Q : Except ε α → List μ → Prop) (y : Talk τ (σ × List μ) ε α) : Prop :=
  ∀ script s, ∃ l, (y script s).2.world.2 = s.world.2 ++ l ∧ Q (y script s).1 l

variable {P Q : Except ε α → List μ → Prop} {R : Except ε β → List μ → Prop}
  {y : Talk τ (σ × List μ) ε α} {g : α → Talk τ (σ × List μ) ε β}

theorem Writes.imp (hy : Writes P y) (h : ∀ r l, P r l → Q r l) : Writes Q y := by
  intro script s
  obtain ⟨l, htrace, hp⟩ := hy script s
  exact ⟨l, htrace, h _ l hp⟩

theorem writes_pure {a : α} (h : Q (.ok a) []) : Writes Q (pure a : Talk τ (σ × List μ) ε α) :=
  fun _ _ => ⟨[], (List.append_nil _).symm, h⟩

theorem writes_fail {e : ε} (h : Q (.error e) []) :
    Writes Q (fail e : Talk τ (σ × List μ) ε α) :=
  fun _ _ => ⟨[], (List.append_nil _).symm, h⟩

theorem writes_silent {x : Talk τ σ ε α} (h : ∀ r, Q r []) : Writes Q (silent x) :=
  fun _ _ => ⟨[], (List.append_nil _).symm, h _⟩

theorem writes_mark {m : μ} (hy : Writes (fun r l => Q r (m :: l)) y) :
    Writes Q (mark m >>= fun _ => y) := by
  intro script s
  obtain ⟨l, htrace, hq⟩ := hy script ⟨s.clock, s.world.1, s.world.2 ++ [m]⟩
  exact ⟨m :: l, by rw [List.append_cons]; exact htrace, hq⟩

theorem writes_bind (hy : Writes P y)
    (hok : ∀ a l, P (.ok a) l → Writes (fun r l' => R r (l ++ l')) (g a))
    (herror : ∀ e l, P (.error e) l → R (.error e) l) : Writes R (y >>= g) := by
  intro script s
  obtain ⟨l, htrace, hp⟩ := hy script s
  rw [run_bind]
  cases hr : y script s with
  | mk r s' =>
    rw [hr] at htrace hp
    cases r with
    | ok a =>
      obtain ⟨l', htrace', hq⟩ := hok a l hp script s'
      refine ⟨l ++ l', ?_, hq⟩
      rw [← List.append_assoc, ← htrace]
      exact htrace'
    | error e => exact ⟨l, htrace, herror e l hp⟩

/-- What a `try` goes on with, after its body has written `l`. -/
theorem writes_try {g : Except ε α → Talk τ (σ × List μ) ε β} (hy : Writes P y)
    (hg : ∀ r l, P r l → Writes (fun r' l' => R r' (l ++ l')) (g r)) :
    Writes R (capture y >>= g) := by
  intro script s
  obtain ⟨l, htrace, hp⟩ := hy script s
  obtain ⟨l', htrace', hq⟩ := hg _ l hp script (y script s).2
  refine ⟨l ++ l', ?_, hq⟩
  rw [← List.append_assoc, ← htrace]
  exact htrace'

/-- What the traced program shows about the one it is a copy of. -/
theorem exists_trace {x : Talk τ σ ε α} (hx : Erases y x) (hy : Writes Q y) (script : ℕ → τ)
    (s : Session σ) :
    ∃ l, y script ⟨s.clock, s.world, []⟩ =
        ((x script s).1, ⟨(x script s).2.clock, (x script s).2.world, l⟩) ∧
      Q (x script s).1 l := by
  obtain ⟨l, htrace, hq⟩ := hy script ⟨s.clock, s.world, []⟩
  have hsame : x script s = _ := hx script ⟨s.clock, s.world, []⟩
  refine ⟨l, ?_, by rw [hsame]; exact hq⟩
  rw [hsame, ← List.nil_append l, ← htrace]
  rfl

end Traces

section Requests

/-- Under every script `x` ends after at most `n` requests. -/
def AtMost (n : ℕ) (x : Talk τ σ ε α) : Prop :=
  ∀ script s, (x script s).2.clock ≤ s.clock + n

variable {m n : ℕ} {x : Talk τ σ ε α} {f : α → Talk τ σ ε β}

theorem AtMost.le (hx : AtMost m x) (h : m ≤ n) : AtMost n x :=
  fun script s => Nat.le_trans (hx script s) (Nat.add_le_add_left h s.clock)

theorem atMost_pure (a : α) : AtMost n (pure a : Talk τ σ ε α) :=
  fun _ s => Nat.le_add_right s.clock n

theorem atMost_fail (e : ε) : AtMost n (fail e : Talk τ σ ε α) :=
  fun _ s => Nat.le_add_right s.clock n

theorem atMost_request (h : τ → σ → Except ε α × σ) : AtMost 1 (request h) :=
  fun _ _ => le_rfl

theorem atMost_capture (hx : AtMost n x) : AtMost n (capture x) := hx

theorem atMost_bind (hx : AtMost m x) (hf : ∀ a, AtMost n (f a)) : AtMost (m + n) (x >>= f) := by
  intro script s
  have h := hx script s
  rw [run_bind]
  cases hr : x script s with
  | mk r s' =>
    rw [hr] at h
    cases r with
    | ok a =>
      have hlater := hf a script s'
      change s'.clock ≤ _ at h
      change (f a script s').2.clock ≤ _
      omega
    | error e =>
      change s'.clock ≤ _ at h
      change s'.clock ≤ _
      omega

end Requests

end Talk

end Remote
