import BcForge.Soroban.Call
import Mathlib.Algebra.Group.Basic
import Mathlib.Tactic.Abel

/-! Runs of a contract: calls by any signers, interleaved with ledger closes. -/
namespace Soroban

variable {σ ε α Op : Type}

/-- A failing call leaves the store unchanged. -/
def invoke (x : Call σ ε α) (env : Env) (s : σ) : σ :=
  match x env s with
  | .ok d => d.store
  | .error _ => s

theorem invoke_of_runs {x : Call σ ε α} {env : Env} {s s' : σ} {a : α}
    (h : Runs x env s a s') : invoke x env s = s' := by
  obtain ⟨log, h⟩ := h
  simp [invoke, h]

theorem invoke_cases (x : Call σ ε α) (env : Env) (s : σ) :
    (∃ a, Runs x env s a (invoke x env s)) ∨
      ((∀ a s', ¬ Runs x env s a s') ∧ invoke x env s = s) := by
  cases h : x env s with
  | ok d => exact Or.inl ⟨d.value, d.requested, by simp [invoke, h]⟩
  | error e => exact Or.inr ⟨fun a s' => runs_error h, by simp [invoke, h]⟩

theorem runs_invoke {x : Call σ ε Unit} {env : Env} {s : σ} (h : (x env s).isOk = true) :
    Runs x env s () (invoke x env s) := by
  rcases invoke_cases x env s with ⟨u, hr⟩ | ⟨hn, -⟩
  · exact hr
  · cases he : x env s with
    | ok d => exact absurd ⟨d.requested, he⟩ (hn d.value d.store)
    | error e => simp [he, Except.isOk, Except.toBool] at h

theorem isOk_of_runs {x : Call σ ε α} {env : Env} {s s' : σ} {a : α} (h : Runs x env s a s') :
    (x env s).isOk = true := by
  obtain ⟨log, hx⟩ := h
  rw [hx]
  rfl

theorem runs_of_value {x : Call σ ε α} {env : Env} {s : σ} {a : α}
    (h : (x env s).toOption.map Done.value = some a) : ∃ s', Runs x env s a s' := by
  cases he : x env s with
  | ok d =>
    simp only [he, Except.toOption, Option.map_some, Option.some.injEq] at h
    exact ⟨d.store, d.requested, by rw [he, ← h]⟩
  | error e => simp [he, Except.toOption] at h

structure World (σ : Type) where
  ledger : Ledger
  self : Address
  store : σ

inductive Label (Op : Type) where
  | call (signers : List Address) (uploaded : List BytesN32) (op : Op)
  | close (next : Ledger)

/-- The account is among those that signed for the step. -/
def Label.SignedBy (a : Address) : Label Op → Prop
  | .call signers _ _ => a ∈ signers
  | .close _ => False

instance (a : Address) : (l : Label Op) → Decidable (l.SignedBy a)
  | .call signers _ _ => inferInstanceAs (Decidable (a ∈ signers))
  | .close _ => inferInstanceAs (Decidable False)

namespace World

/-- After deployment the contract's own address authorizes nothing. -/
def env (w : World σ) (signers : List Address) (uploaded : List BytesN32) : Env :=
  ⟨w.ledger, w.self, signers, false, uploaded⟩

@[simp] theorem env_ledger (w : World σ) (signers : List Address) (uploaded : List BytesN32) :
    (w.env signers uploaded).ledger = w.ledger := rfl

@[simp] theorem env_self (w : World σ) (signers : List Address) (uploaded : List BytesN32) :
    (w.env signers uploaded).self = w.self := rfl

@[simp] theorem env_uploaded (w : World σ) (signers : List Address) (uploaded : List BytesN32) :
    (w.env signers uploaded).uploaded = uploaded := rfl

@[simp] theorem env_authorized (w : World σ) (signers : List Address) (uploaded : List BytesN32)
    (a : Address) : (w.env signers uploaded).Authorized a ↔ a ≠ w.self ∧ a ∈ signers := by
  unfold Env.Authorized env
  by_cases h : a = w.self <;> simp [h]

theorem authorized_ne_self {w : World σ} {signers : List Address} {uploaded : List BytesN32} :
    ∀ a, (w.env signers uploaded).Authorized a → a ≠ w.self := by
  intro a ha
  rw [env_authorized] at ha
  exact ha.1

/-- Ledgers close in order; a stale close is ignored. -/
def next (exec : Op → Call σ ε Unit) (w : World σ) : Label Op → World σ
  | .call signers uploaded op =>
    { w with store := invoke (exec op) (w.env signers uploaded) w.store }
  | .close l =>
    if w.ledger.sequence ≤ l.sequence ∧ w.ledger.timestamp ≤ l.timestamp then
      { w with ledger := l }
    else w

def run (exec : Op → Call σ ε Unit) (w : World σ) (ls : List (Label Op)) : World σ :=
  ls.foldl (next exec) w

/-- The property holds before the run and after each of its steps. -/
def EveryState (exec : Op → Call σ ε Unit) (P : World σ → Prop) :
    World σ → List (Label Op) → Prop
  | w, [] => P w
  | w, l :: ls => P w ∧ EveryState exec P (next exec w l) ls

instance decidableEveryState (exec : Op → Call σ ε Unit) (P : World σ → Prop) [DecidablePred P] :
    ∀ w ls, Decidable (EveryState exec P w ls)
  | w, [] => inferInstanceAs (Decidable (P w))
  | w, l :: ls =>
    @instDecidableAnd (P w) _ _ (decidableEveryState exec P (next exec w l) ls)

/-- Each step of the run, taken in its own source state, has the property. -/
def EveryStep (exec : Op → Call σ ε Unit) (C : World σ → Label Op → Prop) :
    World σ → List (Label Op) → Prop
  | _, [] => True
  | w, l :: ls => C w l ∧ EveryStep exec C (next exec w l) ls

/-- `C` holds in the source state of the call, if the call succeeds. -/
def OnSuccess (exec : Op → Call σ ε Unit) (C : World σ → Op → Prop) (w : World σ) :
    Label Op → Prop
  | .call signers uploaded op =>
    ∀ s', Runs (exec op) (w.env signers uploaded) w.store () s' → C w op
  | .close _ => True

/-- The sum over the steps of a run of an amount each step has. -/
def sumSteps {M : Type} [AddCommMonoid M] (exec : Op → Call σ ε Unit)
    (f : World σ → Label Op → M) : World σ → List (Label Op) → M
  | _, [] => 0
  | w, l :: ls => f w l + sumSteps exec f (next exec w l) ls

/-- What the steps of a run have to report, in order. -/
def collectSteps {β : Type} (exec : Op → Call σ ε Unit) (f : World σ → Label Op → List β) :
    World σ → List (Label Op) → List β
  | _, [] => []
  | w, l :: ls => f w l ++ collectSteps exec f (next exec w l) ls

/-- A record kept along a run, each step writing into it from its own source state. -/
def foldSteps {β : Type} (exec : Op → Call σ ε Unit) (f : World σ → β → Label Op → β) :
    World σ → β → List (Label Op) → β
  | _, b, [] => b
  | w, b, l :: ls => foldSteps exec f (next exec w l) (f w b l) ls

variable {exec : Op → Call σ ε Unit} {w : World σ} {l : Label Op} {ls : List (Label Op)}
  {P I : World σ → Prop} {C D : World σ → Label Op → Prop}

@[simp] theorem run_nil : run exec w [] = w := rfl

@[simp] theorem run_cons : run exec w (l :: ls) = run exec (next exec w l) ls := rfl

theorem run_append (ls ls' : List (Label Op)) :
    run exec w (ls ++ ls') = run exec (run exec w ls) ls' := by
  simp [run]

@[simp] theorem next_self : (next exec w l).self = w.self := by
  cases l with
  | call signers uploaded op => rfl
  | close l =>
    simp only [next]
    split <;> rfl

@[simp] theorem next_close_store (exec : Op → Call σ ε Unit) (w : World σ) (l : Ledger) :
    (next exec w (.close l)).store = w.store := by
  simp only [next]
  split <;> rfl

theorem run_self : (run exec w ls).self = w.self := by
  induction ls generalizing w with
  | nil => rfl
  | cons l ls ih => exact ih.trans next_self

theorem next_ledger_mono (exec : Op → Call σ ε Unit) (w : World σ) (l : Label Op) :
    w.ledger.sequence ≤ (next exec w l).ledger.sequence ∧
      w.ledger.timestamp ≤ (next exec w l).ledger.timestamp := by
  cases l with
  | call signers uploaded op => exact ⟨le_rfl, le_rfl⟩
  | close l =>
    simp only [next]
    split
    · assumption
    · exact ⟨le_rfl, le_rfl⟩

theorem run_ledger_mono (exec : Op → Call σ ε Unit) (w : World σ) (ls : List (Label Op)) :
    w.ledger.sequence ≤ (run exec w ls).ledger.sequence ∧
      w.ledger.timestamp ≤ (run exec w ls).ledger.timestamp := by
  induction ls generalizing w with
  | nil => exact ⟨le_rfl, le_rfl⟩
  | cons l ls ih =>
    have h := next_ledger_mono exec w l
    have ht := ih (next exec w l)
    exact ⟨Nat.le_trans h.1 ht.1, Nat.le_trans h.2 ht.2⟩

/-- Changes add up to the difference between the ends. -/
theorem sumSteps_sub {M : Type} [AddCommGroup M] (g : World σ → M) :
    sumSteps exec (fun w l => g (next exec w l) - g w) w ls = g (run exec w ls) - g w := by
  induction ls generalizing w with
  | nil => simp [sumSteps]
  | cons l ls ih =>
    rw [sumSteps, ih, run_cons]
    abel

theorem sumSteps_append {M : Type} [AddCommMonoid M] {f : World σ → Label Op → M}
    {ls' : List (Label Op)} : sumSteps exec f w (ls ++ ls') =
      sumSteps exec f w ls + sumSteps exec f (run exec w ls) ls' := by
  induction ls generalizing w with
  | nil => simp [sumSteps]
  | cons l ls ih => simp [sumSteps, ih, add_assoc]

theorem collectSteps_append {β : Type} {f : World σ → Label Op → List β}
    {ls' : List (Label Op)} : collectSteps exec f w (ls ++ ls') =
      collectSteps exec f w ls ++ collectSteps exec f (run exec w ls) ls' := by
  induction ls generalizing w with
  | nil => rfl
  | cons l ls ih => simp [collectSteps, ih]

/-- What every step reports has a property, if steps that meet `C` report nothing else. -/
theorem forall_mem_collectSteps {β : Type} {f : World σ → Label Op → List β} {P : β → Prop}
    (hs : ∀ w l, C w l → ∀ b ∈ f w l, P b) (hc : EveryStep exec C w ls) :
    ∀ b ∈ collectSteps exec f w ls, P b := by
  induction ls generalizing w with
  | nil =>
    intro b hb
    cases hb
  | cons l ls ih =>
    intro b hb
    rcases List.mem_append.mp hb with hb | hb
    · exact hs w l hc.1 b hb
    · exact ih hc.2 b hb

theorem foldSteps_append {β : Type} {f : World σ → β → Label Op → β} {b : β}
    {ls' : List (Label Op)} : foldSteps exec f w b (ls ++ ls') =
      foldSteps exec f (run exec w ls) (foldSteps exec f w b ls) ls' := by
  induction ls generalizing w b with
  | nil => rfl
  | cons l ls ih => exact ih

/-- An invariant about the state and what the steps have added up to. -/
theorem run_induction_sum {M : Type} [AddCommMonoid M] {f : World σ → Label Op → M}
    {J : World σ → M → Prop} {x : M} (h : J w x)
    (hs : ∀ w l x, J w x → C w l → J (next exec w l) (x + f w l)) (hc : EveryStep exec C w ls) :
    J (run exec w ls) (x + sumSteps exec f w ls) := by
  induction ls generalizing w x with
  | nil => simpa [sumSteps] using h
  | cons l ls ih =>
    have hn := ih (hs w l x h hc.1) hc.2
    rwa [add_assoc] at hn

/-- An invariant about the state and the record kept of the way to it. -/
theorem run_induction_fold {β : Type} {f : World σ → β → Label Op → β} {J : World σ → β → Prop}
    {b : β} (h : J w b) (hs : ∀ w b l, J w b → J (next exec w l) (f w b l)) :
    J (run exec w ls) (foldSteps exec f w b ls) := by
  induction ls generalizing w b with
  | nil => exact h
  | cons l ls ih => exact ih (hs w b l h)

/-- An invariant about the state and what the steps have reported. -/
theorem run_induction_collect {β : Type} {f : World σ → Label Op → List β}
    {J : World σ → List β → Prop} {b : List β} (h : J w b)
    (hs : ∀ w l b, J w b → C w l → J (next exec w l) (b ++ f w l))
    (hc : EveryStep exec C w ls) : J (run exec w ls) (b ++ collectSteps exec f w ls) := by
  induction ls generalizing w b with
  | nil => simpa [collectSteps] using h
  | cons l ls ih =>
    have hn := ih (hs w l b h hc.1) hc.2
    rwa [List.append_assoc] at hn

/-- A step is a successful call, or leaves the store as it is. -/
theorem next_cases (exec : Op → Call σ ε Unit) (w : World σ) (l : Label Op) :
    ((next exec w l).store = w.store ∧ ∀ C, OnSuccess exec C w l) ∨
      ∃ signers uploaded op, l = .call signers uploaded op ∧
        Runs (exec op) (w.env signers uploaded) w.store () (next exec w l).store := by
  cases l with
  | close l => exact Or.inl ⟨next_close_store exec w l, fun _ => trivial⟩
  | call signers uploaded op =>
    rcases invoke_cases (exec op) (w.env signers uploaded) w.store with ⟨_, hr⟩ | ⟨hn, hs⟩
    · exact Or.inr ⟨signers, uploaded, op, rfl, hr⟩
    · exact Or.inl ⟨hs, fun _ s' hr => absurd hr (hn () s')⟩

/-- A call succeeds, or fails and leaves the world as it is. -/
theorem call_cases (exec : Op → Call σ ε Unit) (w : World σ) (signers : List Address)
    (uploaded : List BytesN32) (op : Op) :
    Runs (exec op) (w.env signers uploaded) w.store ()
        (next exec w (.call signers uploaded op)).store ∨
      (¬ (exec op (w.env signers uploaded) w.store).isOk = true ∧
        next exec w (.call signers uploaded op) = w) := by
  rcases invoke_cases (exec op) (w.env signers uploaded) w.store with ⟨_, hr⟩ | ⟨hn, hs⟩
  · exact Or.inl hr
  · exact Or.inr ⟨fun hok => hn () _ (runs_invoke hok), congrArg (World.mk w.ledger w.self) hs⟩

/-- A store property kept by every successful call is kept by every step. -/
theorem next_store {P : σ → Prop} (h : P w.store)
    (hc : ∀ signers uploaded op s', Runs (exec op) (w.env signers uploaded) w.store () s' → P s') :
    P (next exec w l).store := by
  rcases next_cases exec w l with ⟨hs, -⟩ | ⟨signers, uploaded, op, -, hr⟩
  · rw [hs]
    exact h
  · exact hc _ _ _ _ hr

/-- The same for a property that only the calls meeting `C` have to keep. -/
theorem next_store_of_onSuccess {P : σ → Prop} {C : World σ → Op → Prop} (h : P w.store)
    (hl : OnSuccess exec C w l)
    (hc : ∀ signers uploaded op s', Runs (exec op) (w.env signers uploaded) w.store () s' →
      C w op → P s') : P (next exec w l).store := by
  rcases next_cases exec w l with ⟨hs, -⟩ | ⟨signers, uploaded, op, rfl, hr⟩
  · rw [hs]
    exact h
  · exact hc _ _ _ _ hr (hl _ hr)

/-- If a successful call keeps a store property exactly when it meets `C`, so does a step. -/
theorem next_store_iff {P : σ → Prop} {C : World σ → Op → Prop} (h : P w.store)
    (hc : ∀ signers uploaded op s', Runs (exec op) (w.env signers uploaded) w.store () s' →
      (P s' ↔ C w op)) : P (next exec w l).store ↔ OnSuccess exec C w l := by
  rcases next_cases exec w l with ⟨hs, hall⟩ | ⟨signers, uploaded, op, rfl, hr⟩
  · rw [hs]
    exact iff_of_true h (hall C)
  · exact (hc _ _ _ _ hr).trans ⟨fun hk _ _ => hk, fun hk => hk _ hr⟩

theorem run_induction (h : P w) (hs : ∀ w l, P w → P (next exec w l)) :
    P (run exec w ls) := by
  induction ls generalizing w with
  | nil => exact h
  | cons l ls ih => exact ih (hs w l h)

theorem everyState_of_invariant (h : P w) (hs : ∀ w l, P w → P (next exec w l)) :
    EveryState exec P w ls := by
  induction ls generalizing w with
  | nil => exact h
  | cons l ls ih => exact ⟨h, ih (hs w l h)⟩

theorem EveryState.run (h : EveryState exec P w ls) : P (run exec w ls) := by
  induction ls generalizing w with
  | nil => exact h
  | cons l ls ih => exact ih h.2

theorem EveryState.head (h : EveryState exec P w ls) : P w := by
  cases ls with
  | nil => exact h
  | cons l ls => exact h.1

theorem everyState_mono {Q : World σ → Prop} (hpq : ∀ w, P w → Q w)
    (h : EveryState exec P w ls) : EveryState exec Q w ls := by
  induction ls generalizing w with
  | nil => exact hpq w h
  | cons l ls ih => exact ⟨hpq w h.1, ih h.2⟩

theorem everyState_append {ls' : List (Label Op)} : EveryState exec P w (ls ++ ls') ↔
    EveryState exec P w ls ∧ EveryState exec P (run exec w ls) ls' := by
  induction ls generalizing w with
  | nil => exact ⟨fun h => ⟨h.head, h⟩, And.right⟩
  | cons l ls ih => simp [EveryState, ih, and_assoc]

/-- The states of a run, each with the run that leads to it. -/
theorem everyState_iff_prefix : EveryState exec P w ls ↔
    ∀ done, done <+: ls → P (run exec w done) := by
  constructor
  · rintro h done ⟨rest, rfl⟩
    exact (everyState_append.mp h).1.run
  · intro h
    induction ls generalizing w with
    | nil => exact h [] (List.prefix_refl [])
    | cons l ls ih =>
      refine ⟨h [] List.nil_prefix, ih fun done hdone => ?_⟩
      exact h (l :: done) (List.cons_prefix_cons.mpr ⟨rfl, hdone⟩)

theorem everyStep_append {ls' : List (Label Op)} : EveryStep exec C w (ls ++ ls') ↔
    EveryStep exec C w ls ∧ EveryStep exec C (run exec w ls) ls' := by
  induction ls generalizing w with
  | nil => simp [EveryStep]
  | cons l ls ih => simp [EveryStep, ih, and_assoc]

/-- The steps of a run, each with the run that leads to it. -/
theorem everyStep_iff_prefix : EveryStep exec C w ls ↔
    ∀ done l, done ++ [l] <+: ls → C (run exec w done) l := by
  constructor
  · rintro h done l ⟨rest, rfl⟩
    rw [List.append_assoc, everyStep_append] at h
    exact h.2.1
  · intro h
    induction ls generalizing w with
    | nil => trivial
    | cons l ls ih =>
      refine ⟨h [] l (List.prefix_append [l] ls), ih fun done l' hdone => ?_⟩
      exact h (l :: done) l' (List.cons_prefix_cons.mpr ⟨rfl, hdone⟩)

theorem everyStep_of_forall (h : ∀ w l, C w l) : EveryStep exec C w ls := by
  induction ls generalizing w with
  | nil => trivial
  | cons l ls ih => exact ⟨h w l, ih⟩

/-- A step that can be repeated once can be repeated any number of times. -/
theorem everyStep_replicate (n : ℕ) (hs : ∀ w, C w l → C (next exec w l) l) (h : C w l) :
    EveryStep exec C w (List.replicate n l) := by
  induction n generalizing w with
  | zero => trivial
  | succ n ih => exact ⟨h, ih (hs w h)⟩

/-- A condition on the steps that keeps `I` going turns into any other one `I` gives. -/
theorem everyStep_mono (hI : I w) (hs : ∀ w l, I w → C w l → I (next exec w l))
    (hcd : ∀ w l, I w → C w l → D w l) (h : EveryStep exec C w ls) : EveryStep exec D w ls := by
  induction ls generalizing w with
  | nil => trivial
  | cons l ls ih => exact ⟨hcd w l hI h.1, ih (hs w l hI h.1) h.2⟩

/-- What an invariant gives in every state holds of every step. -/
theorem everyStep_of_invariant (hI : I w) (hs : ∀ w l, I w → I (next exec w l))
    (hd : ∀ w l, I w → D w l) : EveryStep exec D w ls := by
  induction ls generalizing w with
  | nil => trivial
  | cons l ls ih => exact ⟨hd w l hI, ih (hs w l hI)⟩

/-- Two conditions that agree wherever `I` holds and `C` is met agree on the runs that meet `C`. -/
theorem everyStep_congr {E : World σ → Label Op → Prop} (hI : I w)
    (hs : ∀ w l, I w → C w l → I (next exec w l)) (hde : ∀ w l, I w → C w l → (D w l ↔ E w l))
    (h : EveryStep exec C w ls) : EveryStep exec D w ls ↔ EveryStep exec E w ls := by
  induction ls generalizing w with
  | nil => exact Iff.rfl
  | cons l ls ih => exact and_congr (hde w l hI h.1) (ih (hs w l hI h.1) h.2)

theorem everyStep_and_forall {D : Label Op → Prop} (h : EveryStep exec C w ls)
    (hd : ∀ l ∈ ls, D l) : EveryStep exec (fun w l => C w l ∧ D l) w ls := by
  induction ls generalizing w with
  | nil => trivial
  | cons l ls ih =>
    have hl := hd l (by simp)
    exact ⟨⟨h.1, hl⟩, ih h.2 fun l' hl' => hd l' (by simp [hl'])⟩

/-- Runs whose steps all meet `C` stay inside a property that `C` preserves. -/
theorem everyState_of_everyStep (h : P w) (hs : ∀ w l, P w → C w l → P (next exec w l))
    (hc : EveryStep exec C w ls) : EveryState exec P w ls := by
  induction ls generalizing w with
  | nil => exact h
  | cons l ls ih => exact ⟨h, ih (hs w l h hc.1) hc.2⟩

/-- If a step keeps `P` exactly when it meets `C`, a run keeps `P` exactly when all its steps do. -/
theorem everyState_iff_everyStep (hI : I w) (hs : ∀ w l, I w → I (next exec w l)) (h : P w)
    (hc : ∀ w l, I w → P w → (P (next exec w l) ↔ C w l)) :
    EveryState exec P w ls ↔ EveryStep exec C w ls := by
  induction ls generalizing w with
  | nil => exact ⟨fun _ => trivial, fun _ => h⟩
  | cons l ls ih =>
    constructor
    · intro hp
      have hn : P (next exec w l) := hp.2.head
      exact ⟨(hc w l hI h).mp hn, (ih (hs w l hI) hn).mp hp.2⟩
    · intro hp
      have hn := (hc w l hI h).mpr hp.1
      exact ⟨h, (ih (hs w l hI) hn).mpr hp.2⟩

/-- The same for a property of the state and what the steps so far have added up to: it holds along
the whole run exactly when every step meets `C`. -/
theorem along_iff_everyStep {M : Type} [AddCommMonoid M] {f : World σ → Label Op → M}
    {J K : World σ → M → Prop} {x : M} (hK : K w x)
    (hs : ∀ w l x, K w x → D w l → K (next exec w l) (x + f w l)) (h : J w x)
    (hc : ∀ w l x, K w x → D w l → J w x → (J (next exec w l) (x + f w l) ↔ C w l))
    (hd : EveryStep exec D w ls) :
    (∀ done, done <+: ls → J (run exec w done) (x + sumSteps exec f w done)) ↔
      EveryStep exec C w ls := by
  induction ls generalizing w x with
  | nil =>
    refine ⟨fun _ => trivial, ?_⟩
    intro _ done hdone
    rw [List.prefix_nil.mp hdone]
    simpa [sumSteps] using h
  | cons l ls ih =>
    have hstep := hc w l x hK hd.1 h
    constructor
    · intro hall
      have hfirst := hall [l] (List.prefix_append [l] ls)
      have hn : J (next exec w l) (x + f w l) := by simpa [sumSteps] using hfirst
      refine ⟨hstep.mp hn, (ih (hs w l x hK hd.1) hn hd.2).mp ?_⟩
      intro done hdone
      have hmore := hall (l :: done) (List.cons_prefix_cons.mpr ⟨rfl, hdone⟩)
      simpa [sumSteps, add_assoc] using hmore
    · intro hall done hdone
      have hn := hstep.mpr hall.1
      rcases done with _ | ⟨l', done⟩
      · simpa [sumSteps] using h
      · obtain ⟨rfl, hrest⟩ := List.cons_prefix_cons.mp hdone
        have hmore := (ih (hs w l' x hK hd.1) hn hd.2).mpr hall.2 done hrest
        simpa [sumSteps, add_assoc] using hmore

end World

end Soroban
