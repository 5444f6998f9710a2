import BcForge.Soroban.Run
import BcForge.Soroban.Sep41

/-! The operations of a SEP-41 token on its ledger, each carried out or refused, and histories of
them. -/
namespace Soroban

/-- A transfer to oneself moves nothing. -/
def moved (f : Address → ℤ) (src dst : Address) (x : ℤ) : Address → ℤ :=
  if src = dst then f else Function.update (Function.update f src (f src - x)) dst (f dst + x)

/-- What a transfer by another shows an account. -/
theorem moved_other (f : Address → ℤ) {src a : Address} (ha : a ≠ src) (dst : Address) (x : ℤ) :
    moved f src dst x a = if dst = a then f a + x else f a := by
  unfold moved
  by_cases hdst : dst = a
  · subst hdst
    simp [Ne.symm ha]
  · by_cases hsrc : src = dst
    · simp [hsrc, hdst]
    · simp [hsrc, hdst, ha, Ne.symm hdst]

/-- One allowance set, the others as they were. -/
def granted (f : Address → Address → ℤ) (owner spender : Address) (x : ℤ) :
    Address → Address → ℤ :=
  fun o sp => if o = owner ∧ sp = spender then x else f o sp

namespace Token

def burn (t : Token) (src : Address) (x : ℤ) : Option Token :=
  if h : 0 ≤ x ∧ x ≤ t.balance src then
    some { t with
      balance := Function.update t.balance src (t.balance src - x)
      supply := t.supply - x
      balance_nonneg := by
        intro a
        by_cases ha : a = src
        · subst ha
          simpa using h.2
        · simpa [ha] using t.balance_nonneg a
      balance_total := by
        simpa [sub_eq_add_neg] using t.balance_total.update src (t.balance src - x)
      supply_le := (sub_le_self _ h.1).trans t.supply_le }
  else none

def burnFrom (t : Token) (spender src : Address) (x : ℤ) : Option Token :=
  if x ≤ t.allowance src spender then
    (t.burn src x).map fun t' => t'.approve src spender (t.allowance src spender - x)
  else none

/-- The allowances that have run out are gone. -/
def lapse (t : Token) (out : Address → Address → Bool) : Token :=
  { t with allowance := fun o sp => if out o sp = true then 0 else t.allowance o sp }

inductive Op where
  | transfer (src dst : Address) (x : ℤ)
  | transferFrom (spender src dst : Address) (x : ℤ)
  | approve (owner spender : Address) (x : ℤ)
  | mint (dst : Address) (x : ℤ)
  | burn (src : Address) (x : ℤ)
  | burnFrom (spender src : Address) (x : ℤ)
  | lapse (out : Address → Address → Bool)

def apply (t : Token) : Op → Option Token
  | .transfer src dst x => t.transfer src dst x
  | .transferFrom spender src dst x => t.transferFrom spender src dst x
  | .approve owner spender x => some (t.approve owner spender x)
  | .mint dst x => t.mint dst x
  | .burn src x => t.burn src x
  | .burnFrom spender src x => t.burnFrom spender src x
  | .lapse out => some (t.lapse out)

/-- A history is replayed only if none of it is refused. -/
def replay : Token → List Op → Option Token
  | t, [] => some t
  | t, op :: ops => (t.apply op).bind (replay · ops)

/-- What a ledger shows. -/
structure Shows (t : Token) (balance : Address → ℤ) (supply : ℤ)
    (allowance : Address → Address → ℤ) (decimals : ℕ) : Prop where
  balance : t.balance = balance
  supply : t.supply = supply
  allowance : t.allowance = allowance
  decimals : t.decimals = decimals

variable {t t' : Token} {b : Address → ℤ} {s : ℤ} {a : Address → Address → ℤ} {d : ℕ}
  {src dst spender : Address} {x : ℤ} {ops ops' : List Op}

theorem replay_append (h : t.replay ops = some t') : t.replay (ops ++ ops') = t'.replay ops' := by
  induction ops generalizing t with
  | nil =>
    obtain rfl := Option.some.inj h
    rfl
  | cons op ops ih =>
    obtain ⟨u, hu, hrest⟩ := Option.bind_eq_some_iff.mp h
    rw [List.cons_append, replay, hu]
    exact ih hrest

theorem replay_singleton {op : Op} : t.replay [op] = t.apply op := by
  rw [replay]
  cases t.apply op <;> rfl

theorem shows_transfer (dst : Address) (h : t.Shows b s a d) (hx : 0 ≤ x) (hle : x ≤ b src) :
    ∃ t', t.transfer src dst x = some t' ∧ t'.Shows (moved b src dst x) s a d := by
  obtain ⟨rfl, rfl, rfl, rfl⟩ := h
  unfold transfer moved
  rw [dif_pos ⟨hx, hle⟩]
  split
  · exact ⟨t, rfl, rfl, rfl, rfl, rfl⟩
  · exact ⟨_, rfl, rfl, rfl, rfl, rfl⟩

theorem shows_approve (h : t.Shows b s a d) (owner spender : Address) (x : ℤ) :
    (t.approve owner spender x).Shows b s (granted a owner spender x) d := by
  obtain ⟨rfl, rfl, rfl, rfl⟩ := h
  refine ⟨rfl, rfl, ?_, rfl⟩
  funext o sp
  by_cases ho : o = owner
  · subst ho
    by_cases hs : sp = spender
    · subst hs
      simp [approve, granted]
    · simp [approve, granted, hs]
  · simp [approve, granted, ho]

theorem shows_transferFrom (dst : Address) (h : t.Shows b s a d) (hx : 0 ≤ x) (hle : x ≤ b src)
    (hallowed : x ≤ a src spender) : ∃ t', t.transferFrom spender src dst x = some t' ∧
      t'.Shows (moved b src dst x) s (granted a src spender (a src spender - x)) d := by
  obtain ⟨u, hu, hshows⟩ := shows_transfer dst h hx hle
  have ha : t.allowance = a := h.allowance
  rw [← ha] at hallowed
  unfold transferFrom
  rw [if_pos hallowed, hu]
  refine ⟨_, rfl, hshows.balance, hshows.supply, ?_, hshows.decimals⟩
  funext o sp
  by_cases ho : o = src
  · subst ho
    by_cases hs : sp = spender
    · subst hs
      simp [granted, hshows.allowance]
    · simp [granted, hshows.allowance, hs]
  · simp [granted, hshows.allowance, ho]

theorem shows_mint (dst : Address) (h : t.Shows b s a d) (hx : 0 ≤ x) (hmax : s + x ≤ I128.MAX) :
    ∃ t', t.mint dst x = some t' ∧
      t'.Shows (Function.update b dst (b dst + x)) (s + x) a d := by
  obtain ⟨rfl, rfl, rfl, rfl⟩ := h
  unfold mint
  rw [dif_pos ⟨hx, hmax⟩]
  exact ⟨_, rfl, rfl, rfl, rfl, rfl⟩

theorem shows_burn (h : t.Shows b s a d) (hx : 0 ≤ x) (hle : x ≤ b src) :
    ∃ t', t.burn src x = some t' ∧
      t'.Shows (Function.update b src (b src - x)) (s - x) a d := by
  obtain ⟨rfl, rfl, rfl, rfl⟩ := h
  unfold burn
  rw [dif_pos ⟨hx, hle⟩]
  exact ⟨_, rfl, rfl, rfl, rfl, rfl⟩

theorem shows_burnFrom (h : t.Shows b s a d) (hx : 0 ≤ x) (hle : x ≤ b src)
    (hallowed : x ≤ a src spender) : ∃ t', t.burnFrom spender src x = some t' ∧
      t'.Shows (Function.update b src (b src - x)) (s - x)
        (granted a src spender (a src spender - x)) d := by
  obtain ⟨u, hu, hshows⟩ := shows_burn h hx hle
  have ha : t.allowance = a := h.allowance
  rw [← ha] at hallowed
  unfold burnFrom
  rw [if_pos hallowed, hu, ha]
  exact ⟨_, rfl, shows_approve hshows src spender _⟩

theorem shows_lapse (h : t.Shows b s a d) (out : Address → Address → Bool) :
    (t.lapse out).Shows b s (fun o sp => if out o sp = true then 0 else a o sp) d := by
  obtain ⟨rfl, rfl, rfl, rfl⟩ := h
  exact ⟨rfl, rfl, rfl, rfl⟩

/-! What an operation that went through says about the ledger before it. -/

theorem transfer_shows (h : t.transfer src dst x = some t') : (0 ≤ x ∧ x ≤ t.balance src) ∧
    t'.Shows (moved t.balance src dst x) t.supply t.allowance t.decimals := by
  have hx := transfer_isSome.mp (Option.isSome_of_mem h)
  obtain ⟨u, hu, hshows⟩ := shows_transfer dst ⟨rfl, rfl, rfl, rfl⟩ hx.1 hx.2
  obtain rfl : u = t' := Option.some.inj (hu.symm.trans h)
  exact ⟨hx, hshows⟩

theorem transferFrom_shows (h : t.transferFrom spender src dst x = some t') :
    (0 ≤ x ∧ x ≤ t.balance src) ∧ x ≤ t.allowance src spender ∧
      t'.Shows (moved t.balance src dst x) t.supply
        (granted t.allowance src spender (t.allowance src spender - x)) t.decimals := by
  have hallowed : x ≤ t.allowance src spender := by
    by_contra hn
    rw [transferFrom, if_neg hn] at h
    cases h
  have hmap := h
  rw [transferFrom, if_pos hallowed] at hmap
  obtain ⟨v, hv, -⟩ := Option.map_eq_some_iff.mp hmap
  have hx := transfer_isSome.mp (Option.isSome_of_mem hv)
  obtain ⟨u, hu, hshows⟩ := shows_transferFrom dst ⟨rfl, rfl, rfl, rfl⟩ hx.1 hx.2 hallowed
  obtain rfl : u = t' := Option.some.inj (hu.symm.trans h)
  exact ⟨hx, hallowed, hshows⟩

theorem mint_shows (h : t.mint dst x = some t') : (0 ≤ x ∧ t.supply + x ≤ I128.MAX) ∧
    t'.Shows (Function.update t.balance dst (t.balance dst + x)) (t.supply + x) t.allowance
      t.decimals := by
  have hx : 0 ≤ x ∧ t.supply + x ≤ I128.MAX := by
    by_contra hn
    rw [mint, dif_neg hn] at h
    cases h
  obtain ⟨u, hu, hshows⟩ := shows_mint dst ⟨rfl, rfl, rfl, rfl⟩ hx.1 hx.2
  obtain rfl : u = t' := Option.some.inj (hu.symm.trans h)
  exact ⟨hx, hshows⟩

theorem burn_shows (h : t.burn src x = some t') : (0 ≤ x ∧ x ≤ t.balance src) ∧
    t'.Shows (Function.update t.balance src (t.balance src - x)) (t.supply - x) t.allowance
      t.decimals := by
  have hx : 0 ≤ x ∧ x ≤ t.balance src := by
    by_contra hn
    rw [burn, dif_neg hn] at h
    cases h
  obtain ⟨u, hu, hshows⟩ := shows_burn ⟨rfl, rfl, rfl, rfl⟩ hx.1 hx.2
  obtain rfl : u = t' := Option.some.inj (hu.symm.trans h)
  exact ⟨hx, hshows⟩

theorem burnFrom_shows (h : t.burnFrom spender src x = some t') :
    (0 ≤ x ∧ x ≤ t.balance src) ∧ x ≤ t.allowance src spender ∧
      t'.Shows (Function.update t.balance src (t.balance src - x)) (t.supply - x)
        (granted t.allowance src spender (t.allowance src spender - x)) t.decimals := by
  have hallowed : x ≤ t.allowance src spender := by
    by_contra hn
    rw [burnFrom, if_neg hn] at h
    cases h
  have hmap := h
  rw [burnFrom, if_pos hallowed] at hmap
  obtain ⟨v, hv, -⟩ := Option.map_eq_some_iff.mp hmap
  have hx := (burn_shows hv).1
  obtain ⟨u, hu, hshows⟩ := shows_burnFrom ⟨rfl, rfl, rfl, rfl⟩ hx.1 hx.2 hallowed
  obtain rfl : u = t' := Option.some.inj (hu.symm.trans h)
  exact ⟨hx, hallowed, hshows⟩

section Contracts

variable {σ ε Op : Type} {exec : Op → Call σ ε Unit} {I : World σ → Prop}
  {Seen : World σ → Token → Prop} {steps : World σ → Label Op → List Token.Op}

/-- A contract is explained by a standard token: in worlds with `I`, what its steps do to the ledger
it shows is what the listed operations do. -/
structure Explains (exec : Op → Call σ ε Unit) (I : World σ → Prop)
    (Seen : World σ → Token → Prop) (steps : World σ → Label Op → List Token.Op) : Prop where
  keep : ∀ w l, I w → I (w.next exec l)
  step : ∀ w l t, I w → Seen w t →
    ∃ t', t.replay (steps w l) = some t' ∧ Seen (w.next exec l) t'

/-- A whole run is explained by the operations of its steps. -/
theorem Explains.run (h : Explains exec I Seen steps) {w : World σ} (hI : I w) (ht : Seen w t)
    (ls : List (Label Op)) :
    ∃ t', t.replay (w.collectSteps exec steps ls) = some t' ∧ Seen (w.run exec ls) t' := by
  refine And.right (World.run_induction_collect (b := []) (C := fun _ _ => True)
    (J := fun v ops => I v ∧ ∃ t', t.replay ops = some t' ∧ Seen v t')
    ⟨hI, t, rfl, ht⟩ ?_ (World.everyStep_of_forall fun _ _ => trivial))
  rintro v l ops ⟨hv, t₁, hr, ht₁⟩ -
  obtain ⟨t', hr', ht'⟩ := h.step v l t₁ hv ht₁
  exact ⟨h.keep v l hv, t', by rw [replay_append hr, hr'], ht'⟩

end Contracts

end Token

end Soroban
