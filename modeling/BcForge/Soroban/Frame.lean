import BcForge.Soroban.Respects
import BcForge.Soroban.Run

/-! Frames: a store taken apart, and the parts a call leaves alone. -/
namespace Soroban

open Call

/-- A way to take a store apart. Writing one part leaves the others as they are. -/
structure Parts (σ ι : Type) where
  Value : ι → Type
  get : (p : ι) → σ → Value p
  set : (p : ι) → Value p → σ → σ
  get_set_of_ne : ∀ {p q : ι} (v : Value p) (s : σ), q ≠ p → get q (set p v s) = get q s

variable {σ ι ε α β : Type} {P : Parts σ ι} {ws vs : List ι} {p : ι} {s s' : σ}

/-- Every part outside `ws` is as before. -/
def SameBut (P : Parts σ ι) (ws : List ι) (s s' : σ) : Prop :=
  ∀ p, p ∉ ws → P.get p s' = P.get p s

instance : IsPreorder σ (SameBut P ws) where
  refl _ _ _ := rfl
  trans _ _ _ h h' p hp := (h' p hp).trans (h p hp)

theorem SameBut.mono (hsub : vs ⊆ ws) (h : SameBut P vs s s') : SameBut P ws s s' := by
  intro p hp
  exact h p fun hv => hp (hsub hv)

/-- The stores differ in one part, and that part may be written. -/
theorem sameBut_of_eq (p : ι) (hp : p ∈ ws) (h : s' = P.set p (P.get p s') s) :
    SameBut P ws s s' := by
  intro q hq
  have hne : q ≠ p := by
    rintro rfl
    exact hq hp
  rw [h]
  exact P.get_set_of_ne _ s hne

/-- Every success of the call changes at most the parts `ws`. -/
abbrev Writes (P : Parts σ ι) (ws : List ι) (x : Call σ ε α) : Prop := Respects (SameBut P ws) x

variable {x : Call σ ε α}

theorem Writes.mono (hsub : vs ⊆ ws) (h : Writes P vs x) : Writes P ws x := by
  intro env s a s' hr
  exact (h env s a s' hr).mono hsub

theorem writes_modify {f : σ → σ} (p : ι) (hp : p ∈ ws)
    (h : ∀ s, f s = P.set p (P.get p (f s)) s) : Writes P ws (modify f : Call σ ε Unit) :=
  respects_modify fun s => sameBut_of_eq p hp (h s)

/-- A reentrancy flag is back where it was when the guarded body is done. -/
theorem writes_guarded {flag : Lens σ Bool} {message : String} (g : ι)
    (hset : ∀ b s q, q ≠ g → P.get q (flag.set b s) = P.get q s)
    (hback : ∀ s t, flag.get s = false → P.get g t = P.get g (flag.set true s) →
      P.get g (flag.set false t) = P.get g s)
    (hg : g ∉ ws) (hx : Writes P ws x) : Writes P ws (guarded flag message x) := by
  intro env s a s' hr
  obtain ⟨hfree, t, hbody, rfl⟩ := runs_guarded.mp hr
  have ht := hx env _ a t hbody
  intro q hq
  by_cases hqg : q = g
  · subst hqg
    exact hback s t hfree (ht q hg)
  · rw [hset false t q hqg, ht q hq, hset true s q hqg]

/-- A step changes no more than its call may write, whether it succeeds or not. -/
theorem sameBut_next {Op : Type} {exec : Op → Call σ ε Unit} {op : Op} {signers : List Address}
    {uploaded : List BytesN32} (w : World σ) (h : Writes P ws (exec op)) :
    SameBut P ws w.store (w.next exec (.call signers uploaded op)).store := by
  rcases World.call_cases exec w signers uploaded op with hr | ⟨-, hs⟩
  · exact h _ _ _ _ hr
  · rw [hs]
    exact refl_of (SameBut P ws) w.store

end Soroban
