import BcForge.Remote.Talk

/-! What a program makes of the world it starts from, under one script. -/
namespace Remote.Talk

variable {τ σ ε α β : Type} {script : ℕ → τ} {P Q R T : σ → Prop} {V : α → σ → Prop}
  {W : β → σ → Prop} {x : Talk τ σ ε α}

/-- From a world in `P`, `x` leaves one in `Q`, also when it throws, and what it returns is
right in that world. -/
def Ensures (script : ℕ → τ) (P Q : σ → Prop) (V : α → σ → Prop) (x : Talk τ σ ε α) : Prop :=
  ∀ s, P s.world → Q (x script s).2.world ∧
    ∀ a, (x script s).1 = .ok a → V a (x script s).2.world

theorem Ensures.of_imp (hx : Ensures script P Q V x) (h : ∀ w, R w → P w) :
    Ensures script R Q V x :=
  fun s hr => hx s (h s.world hr)

theorem Ensures.imp {U : α → σ → Prop} (hx : Ensures script P Q V x) (h : ∀ w, Q w → T w)
    (hv : ∀ a w, Q w → V a w → U a w) : Ensures script P T U x := by
  intro s hs
  obtain ⟨hp, hr⟩ := hx s hs
  exact ⟨h _ hp, fun a ha => hv a _ hp (hr a ha)⟩

theorem ensures_pure {a : α} (h : ∀ w, P w → V a w) :
    Ensures script P P V (pure a : Talk τ σ ε α) := by
  intro s hs
  refine ⟨hs, ?_⟩
  rintro b ⟨⟩
  exact h s.world hs

theorem ensures_fail {e : ε} : Ensures script P P V (fail e : Talk τ σ ε α) :=
  fun _ hs => ⟨hs, nofun⟩

theorem ensures_request {f : τ → σ → Except ε α × σ}
    (h : ∀ k w, P w → Q (f (script k) w).2)
    (hv : ∀ k w a, P w → (f (script k) w).1 = .ok a → V a (f (script k) w).2) :
    Ensures script P Q V (request f) :=
  fun s hs => ⟨h s.clock s.world hs, fun a ha => hv s.clock s.world a hs ha⟩

/-- The rest starts where `x` returned; what `x` throws is thrown. -/
theorem ensures_bind {f : α → Talk τ σ ε β} (hx : Ensures script P Q V x)
    (h : ∀ w, Q w → T w)
    (hf : ∀ a, Ensures script (fun w => Q w ∧ V a w) T W (f a)) :
    Ensures script P T W (x >>= f) := by
  intro s hs
  obtain ⟨hp, hv⟩ := hx s hs
  rw [run_bind]
  cases hr : x script s with
  | mk r s' =>
    rw [hr] at hp hv
    cases r with
    | ok a => exact hf a s' ⟨hp, hv a rfl⟩
    | error e => exact ⟨h _ hp, nofun⟩

/-- A `try` goes on with whatever came of its body. -/
theorem ensures_try {f : Except ε α → Talk τ σ ε β} (hx : Ensures script P Q V x)
    (hok : ∀ a, Ensures script (fun w => Q w ∧ V a w) T W (f (.ok a)))
    (herror : ∀ e, Ensures script Q T W (f (.error e))) :
    Ensures script P T W (capture x >>= f) := by
  intro s hs
  obtain ⟨hp, hv⟩ := hx s hs
  have hrun : (capture x >>= f) script s = f (x script s).1 script (x script s).2 := rfl
  rw [hrun]
  cases hr : (x script s).1 with
  | ok a => exact hok a (x script s).2 ⟨hp, hv a hr⟩
  | error e => exact herror e (x script s).2 hp

end Remote.Talk
