import BcForge.Soroban.Standard
import Mathlib.Algebra.Order.BigOperators.Group.Finset

/-! What an account of a standard token keeps while its holder does nothing. -/
namespace Soroban.Token

/-- Whose decision an operation is alone; drawing on an allowance was decided before. -/
def Op.holder : Op → Option Address
  | .transfer src _ _ => some src
  | .approve owner _ _ => some owner
  | .burn src _ => some src
  | _ => none

/-- What `sp` may still take from the account of `a`. -/
def drawable (t : Token) (a sp : Address) : ℤ := max 0 (t.allowance a sp)

/-- Whatever left the account of `a` was drawn on allowances it had, and none has grown. -/
structure Keeps (a : Address) (t t' : Token) : Prop where
  drawable_le : ∀ sp, t'.drawable a sp ≤ t.drawable a sp
  balance : ∀ S : Finset Address, (∀ sp, sp ∉ S → t.drawable a sp = 0) →
    t.balance a - t'.balance a ≤ ∑ sp ∈ S, (t.drawable a sp - t'.drawable a sp)

variable {t t' t₁ : Token} {a sp : Address} {x : ℤ} {op : Op} {ops : List Op}

theorem drawable_nonneg (t : Token) (a sp : Address) : 0 ≤ t.drawable a sp := le_max_left _ _

/-- The account was left alone or credited, its allowances left alone or ended. -/
theorem keeps_of_le (ha : ∀ sp, t'.drawable a sp ≤ t.drawable a sp)
    (hb : t.balance a ≤ t'.balance a) : Keeps a t t' := by
  refine ⟨ha, ?_⟩
  intro S _
  have hsum : 0 ≤ ∑ sp ∈ S, (t.drawable a sp - t'.drawable a sp) :=
    Finset.sum_nonneg fun sp _ => sub_nonneg.mpr (ha sp)
  omega

theorem keeps_of_eq (ha : t'.allowance a = t.allowance a) (hb : t.balance a ≤ t'.balance a) :
    Keeps a t t' := by
  refine keeps_of_le ?_ hb
  intro sp
  rw [drawable, drawable, ha]

theorem Keeps.refl (a : Address) (t : Token) : Keeps a t t := keeps_of_eq rfl le_rfl

theorem Keeps.trans (h : Keeps a t t₁) (h' : Keeps a t₁ t') : Keeps a t t' := by
  refine ⟨fun sp => (h'.drawable_le sp).trans (h.drawable_le sp), ?_⟩
  intro S hS
  have hS₁ : ∀ sp, sp ∉ S → t₁.drawable a sp = 0 := by
    intro sp hsp
    have hle := h.drawable_le sp
    rw [hS sp hsp] at hle
    exact le_antisymm hle (drawable_nonneg t₁ a sp)
  calc t.balance a - t'.balance a
      = (t.balance a - t₁.balance a) + (t₁.balance a - t'.balance a) := by omega
    _ ≤ ∑ sp ∈ S, (t.drawable a sp - t₁.drawable a sp) +
          ∑ sp ∈ S, (t₁.drawable a sp - t'.drawable a sp) :=
        add_le_add (h.balance S hS) (h'.balance S hS₁)
    _ = ∑ sp ∈ S, (t.drawable a sp - t'.drawable a sp) := by
        rw [← Finset.sum_add_distrib]
        refine Finset.sum_congr rfl fun sp _ => ?_
        omega

/-- One draw takes from the balance no more than it takes from the allowance. -/
theorem keeps_draw (hx : 0 ≤ x) (hle : x ≤ t.allowance a sp)
    (ha : t'.allowance = granted t.allowance a sp (t.allowance a sp - x))
    (hb : t.balance a - x ≤ t'.balance a) : Keeps a t t' := by
  have hself : t.drawable a sp - t'.drawable a sp = x := by
    simp only [drawable, ha, granted, and_self, if_true]
    omega
  have hother : ∀ o, o ≠ sp → t'.drawable a o = t.drawable a o := by
    intro o ho
    simp [drawable, ha, granted, ho]
  have hdrawable : ∀ o, t'.drawable a o ≤ t.drawable a o := by
    intro o
    by_cases ho : o = sp
    · subst ho
      omega
    · exact (hother o ho).le
  refine ⟨hdrawable, ?_⟩
  intro S hS
  by_cases hsp : sp ∈ S
  · have hsum : t.drawable a sp - t'.drawable a sp ≤
        ∑ o ∈ S, (t.drawable a o - t'.drawable a o) :=
      Finset.single_le_sum (fun o _ => sub_nonneg.mpr (hdrawable o)) hsp
    omega
  · have hnone : t.drawable a sp = 0 := hS sp hsp
    have hzero : x = 0 := by
      unfold drawable at hnone
      omega
    have hsum : 0 ≤ ∑ o ∈ S, (t.drawable a o - t'.drawable a o) :=
      Finset.sum_nonneg fun o _ => sub_nonneg.mpr (hdrawable o)
    omega

/-- The payer of a transfer is the only one it can cost anything. -/
theorem moved_ge {f : Address → ℤ} {src dst : Address} (hx : 0 ≤ x) :
    f a - x ≤ moved f src dst x a ∧ (a ≠ src → f a ≤ moved f src dst x a) := by
  unfold moved
  split
  · exact ⟨by omega, fun _ => le_rfl⟩
  · by_cases hd : a = dst
    · subst hd
      rw [Function.update_self]
      exact ⟨by omega, fun _ => by omega⟩
    · rw [Function.update_of_ne hd]
      by_cases hs : a = src
      · subst hs
        rw [Function.update_self]
        exact ⟨le_rfl, fun h => absurd rfl h⟩
      · rw [Function.update_of_ne hs]
        exact ⟨by omega, fun _ => le_rfl⟩

theorem keeps_transfer {src dst : Address} (h : t.transfer src dst x = some t') (hne : a ≠ src) :
    Keeps a t t' := by
  obtain ⟨⟨hx, -⟩, hshows⟩ := transfer_shows h
  refine keeps_of_eq (by rw [hshows.allowance]) ?_
  rw [hshows.balance]
  exact (moved_ge hx).2 hne

theorem keeps_transferFrom {spender src dst : Address}
    (h : t.transferFrom spender src dst x = some t') : Keeps a t t' := by
  obtain ⟨⟨hx, -⟩, hallowed, hshows⟩ := transferFrom_shows h
  have hmoved : t.balance a - x ≤ moved t.balance src dst x a ∧
      (a ≠ src → t.balance a ≤ moved t.balance src dst x a) := moved_ge hx
  rw [← hshows.balance] at hmoved
  by_cases hs : a = src
  · subst hs
    exact keeps_draw hx hallowed hshows.allowance hmoved.1
  · refine keeps_of_eq ?_ (hmoved.2 hs)
    rw [hshows.allowance]
    funext o
    simp [granted, hs]

theorem keeps_burn {src : Address} (h : t.burn src x = some t') (hne : a ≠ src) :
    Keeps a t t' := by
  obtain ⟨-, hshows⟩ := burn_shows h
  refine keeps_of_eq (by rw [hshows.allowance]) ?_
  rw [hshows.balance, Function.update_of_ne hne]

theorem keeps_burnFrom {spender src : Address} (h : t.burnFrom spender src x = some t') :
    Keeps a t t' := by
  obtain ⟨⟨hx, -⟩, hallowed, hshows⟩ := burnFrom_shows h
  by_cases hs : a = src
  · subst hs
    refine keeps_draw hx hallowed hshows.allowance ?_
    rw [hshows.balance, Function.update_self]
  · refine keeps_of_eq ?_ ?_
    · rw [hshows.allowance]
      funext o
      simp [granted, hs]
    · rw [hshows.balance, Function.update_of_ne hs]

/-- An operation that was not the holder's to decide costs it only what it had allowed. -/
theorem keeps_apply (h : t.apply op = some t') (hop : op.holder ≠ some a) : Keeps a t t' := by
  cases op with
  | transfer src dst x => exact keeps_transfer h fun he => hop (by rw [he]; rfl)
  | transferFrom spender src dst x => exact keeps_transferFrom h
  | approve owner spender x =>
    obtain rfl := Option.some.inj h
    have hne : a ≠ owner := fun he => hop (by rw [he]; rfl)
    refine keeps_of_eq ?_ le_rfl
    simp [approve, hne]
  | mint dst x =>
    obtain ⟨-, hshows⟩ := mint_shows h
    exact keeps_of_eq (by rw [hshows.allowance]) (mint_le h a)
  | burn src x => exact keeps_burn h fun he => hop (by rw [he]; rfl)
  | burnFrom spender src x => exact keeps_burnFrom h
  | lapse out =>
    obtain rfl := Option.some.inj h
    refine keeps_of_le ?_ le_rfl
    intro sp
    simp only [drawable, lapse]
    split
    · exact max_le (le_max_left _ _) (le_max_left _ _)
    · exact le_rfl

theorem keeps_replay (h : t.replay ops = some t') (hops : ∀ op ∈ ops, op.holder ≠ some a) :
    Keeps a t t' := by
  induction ops generalizing t with
  | nil =>
    obtain rfl := Option.some.inj h
    exact Keeps.refl a t
  | cons op ops ih =>
    obtain ⟨u, hu, hrest⟩ := Option.bind_eq_some_iff.mp h
    have hkept : Keeps a u t' := ih hrest fun op' hop' => hops op' (List.mem_cons_of_mem _ hop')
    exact (keeps_apply hu (hops op List.mem_cons_self)).trans hkept

/-- In a contract that a standard token explains, an account that has not signed for any step keeps
what it had but for its allowances. -/
theorem Explains.keeps {σ ε Op : Type} {exec : Op → Call σ ε Unit} {I : World σ → Prop}
    {Seen : World σ → Token → Prop} {steps : World σ → Label Op → List Token.Op}
    (h : Explains exec I Seen steps)
    (hsigned : ∀ w l, ∀ o ∈ steps w l, o.holder = some a → l.SignedBy a) {w : World σ} (hI : I w)
    (ht : Seen w t) {ls : List (Label Op)}
    (hls : w.EveryStep exec (fun _ l => ¬ l.SignedBy a) ls) :
    ∃ t', Seen (w.run exec ls) t' ∧ Keeps a t t' := by
  obtain ⟨t', hr, ht'⟩ := h.run hI ht ls
  refine ⟨t', ht', keeps_replay hr ?_⟩
  refine World.forall_mem_collectSteps (fun v l hl o ho => ?_) hls
  intro hholder
  exact hl (hsigned v l o ho hholder)

end Soroban.Token
