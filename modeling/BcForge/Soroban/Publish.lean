import BcForge.Soroban.Respects
import BcForge.Soroban.Run

/-! Calls that publish events, and the same calls with their events dropped. -/
namespace Soroban

open Call

/-- A store with what has been published so far. -/
structure Logged (σ ν : Type) where
  store : σ
  events : List ν

variable {σ τ ν ε α β Op : Type}

def loggedLens : Lens (Logged σ ν) σ where
  get s := s.store
  set t s := { s with store := t }

/-- A call that publishes nothing. -/
def silently (x : Call σ ε α) : Call (Logged σ ν) ε α := within loggedLens id x

/-- Publishes events made out of the store as it is now. -/
def emits (f : σ → List ν) : Call (Logged σ ν) ε Unit :=
  modify fun s => { s with events := s.events ++ f s.store }

/-- A flag inside a logged store. -/
def loggedFlag (flag : Lens σ Bool) : Lens (Logged σ ν) Bool where
  get s := flag.get s.store
  set b s := { s with store := flag.set b s.store }

def Done.unlogged (d : Done (Logged σ ν) α) : Done σ α := ⟨d.value, d.store.store, d.requested⟩

/-- With its events dropped, `y` is `x`: the same values, requests and failures. -/
def Erases (y : Call (Logged σ ν) ε α) (x : Call σ ε α) : Prop :=
  ∀ env s, (y env s).map Done.unlogged = x env s.store

variable {y : Call (Logged σ ν) ε α} {x : Call σ ε α} {env : Env} {s s' : Logged σ ν} {a : α}

theorem runs_silently {t : Logged σ ν} : Runs (silently x) env s a t ↔
    ∃ u, Runs x env s.store a u ∧ t = ⟨u, s.events⟩ :=
  runs_within

theorem runs_emits {f : σ → List ν} {u : Unit} :
    Runs (emits f : Call (Logged σ ν) ε Unit) env s u s' ↔
      s' = ⟨s.store, s.events ++ f s.store⟩ :=
  runs_modify

theorem runs_silently_emits {f : σ → List ν} {u : Unit} :
    Runs (silently x >>= fun _ => emits f) env s u s' ↔
      ∃ a t, Runs x env s.store a t ∧ s' = ⟨t, s.events ++ f t⟩ := by
  simp only [runs_bind, runs_silently, runs_emits]
  constructor
  · rintro ⟨a, _, ⟨t, hx, rfl⟩, hs⟩
    exact ⟨a, t, hx, hs⟩
  · rintro ⟨a, t, hx, hs⟩
    exact ⟨a, _, ⟨t, hx, rfl⟩, hs⟩

theorem Erases.runs (h : Erases y x) (hr : Runs y env s a s') : Runs x env s.store a s'.store := by
  obtain ⟨log, hy⟩ := hr
  have hx := h env s
  rw [hy] at hx
  exact ⟨log, hx.symm⟩

theorem Erases.isOk (h : Erases y x) : (y env s).isOk = (x env s.store).isOk := by
  rw [← h env s]
  cases y env s <;> rfl

theorem erases_silently : Erases (silently x : Call (Logged σ ν) ε α) x := by
  intro env s
  simp only [silently, within, loggedLens]
  cases x env s.store with
  | ok d => rfl
  | error e => cases e <;> rfl

theorem erases_pure (a : α) : Erases (pure a : Call (Logged σ ν) ε α) (pure a) := by
  intro env s
  rfl

theorem erases_emits (f : σ → List ν) : Erases (emits f : Call (Logged σ ν) ε Unit) (pure ()) := by
  intro env s
  rfl

theorem Erases.bind {g : α → Call (Logged σ ν) ε β} {f : α → Call σ ε β} (h : Erases y x)
    (hf : ∀ a, Erases (g a) (f a)) : Erases (y >>= g) (x >>= f) := by
  intro env s
  have hx := h env s
  change Except.map Done.unlogged (Call.bind y g env s) = Call.bind x f env s.store
  unfold Call.bind
  cases hy : y env s with
  | error e =>
    rw [hy] at hx
    simp only [← hx]
    rfl
  | ok d =>
    rw [hy] at hx
    have hd := hf d.value env d.store
    simp only [← hx, Except.map, Done.unlogged] at hd ⊢
    rw [← hd]
    cases g d.value env d.store <;> rfl

/-- Events published at the end leave the call itself as it was. -/
theorem Erases.emits {y : Call (Logged σ ν) ε Unit} {x : Call σ ε Unit} (h : Erases y x)
    (f : σ → List ν) : Erases (y >>= fun _ => Soroban.emits f) x := by
  have hx : x = x >>= fun _ => pure () := by
    funext env s
    change x env s = Call.bind x (fun _ => pure ()) env s
    unfold Call.bind
    cases x env s with
    | error e => rfl
    | ok d => simp [pure]
  rw [hx]
  exact h.bind fun _ => erases_emits f

/-- What is read for an event only is no part of the call. -/
theorem erases_silently_gets {f : σ → β} {g : β → Call (Logged σ ν) ε α}
    (h : ∀ b, Erases (g b) x) : Erases (silently (gets f) >>= g) x := by
  intro env s
  have hx := h (f s.store) env s
  change Except.map Done.unlogged (Call.bind (silently (gets f)) g env s) = x env s.store
  rw [← hx]
  simp only [Call.bind, silently, within, gets, loggedLens]
  cases g (f s.store) env s <;> rfl

theorem erases_guarded {flag : Lens σ Bool} {message : String} (h : Erases y x) :
    Erases (guarded (loggedFlag flag) message y) (guarded flag message x) := by
  have hgets : Erases (gets (loggedFlag flag).get : Call (Logged σ ν) ε Bool)
      (gets flag.get) := by
    intro env s
    rfl
  have hset : ∀ b, Erases (modify ((loggedFlag flag).set b) : Call (Logged σ ν) ε Unit)
      (modify (flag.set b)) := by
    intro b env s
    rfl
  have htrap : ∀ c : Bool, Erases (trapIf (c = true) (.panic message) : Call (Logged σ ν) ε Unit)
      (trapIf (c = true) (.panic message)) := by
    intro c env s
    cases c <;> rfl
  exact hgets.bind fun entered => (htrap entered).bind fun _ => (hset true).bind fun _ =>
    h.bind fun a => (hset false).bind fun _ => erases_pure a

/-- What one step of a run publishes: a failing call nothing. -/
def published (loud : Op → Call (Logged σ ν) ε Unit) (w : World σ) : Label Op → List ν
  | .call signers uploaded op =>
    match loud op (w.env signers uploaded) ⟨w.store, []⟩ with
    | .ok d => d.store.events
    | .error _ => []
  | .close _ => []

/-- A step is a successful call that publishes its events, or changes and publishes nothing. -/
theorem published_cases {loud : Op → Call (Logged σ ν) ε Unit} {exec : Op → Call σ ε Unit}
    (h : ∀ op, Erases (loud op) (exec op)) (w : World σ) (l : Label Op) :
    ((w.next exec l).store = w.store ∧ published loud w l = []) ∨
      ∃ signers uploaded op, l = .call signers uploaded op ∧
        Runs (loud op) (w.env signers uploaded) ⟨w.store, []⟩ ()
          ⟨(w.next exec l).store, published loud w l⟩ := by
  cases l with
  | close l => exact Or.inl ⟨World.next_close_store exec w l, rfl⟩
  | call signers uploaded op =>
    have herase := h op (w.env signers uploaded) ⟨w.store, []⟩
    cases hl : loud op (w.env signers uploaded) ⟨w.store, []⟩ with
    | error e =>
      rw [hl] at herase
      refine Or.inl ⟨?_, by simp only [published, hl]⟩
      simp only [World.next, invoke, ← herase, Except.map]
    | ok d =>
      rw [hl] at herase
      refine Or.inr ⟨signers, uploaded, op, rfl, d.requested, ?_⟩
      simp only [published, World.next, invoke, hl, ← herase, Except.map, Done.unlogged]

end Soroban
