import Mathlib.Data.Nat.Basic

/-! Methods of an object. What a method did before it throws stays done. -/
namespace Js

def Method (σ α : Type) : Type := σ → Except String α × σ

namespace Method
variable {σ α β : Type}

def bind (m : Method σ α) (f : α → Method σ β) : Method σ β := fun s =>
  match m s with
  | (.ok a, s') => f a s'
  | (.error e, s') => (.error e, s')

instance : Monad (Method σ) where
  pure a := fun s => (.ok a, s)
  bind := Method.bind

def throw (message : String) : Method σ α := fun s => (.error message, s)

def get : Method σ σ := fun s => (.ok s, s)

def modify (f : σ → σ) : Method σ Unit := fun s => (.ok (), f s)

/-- The method does not throw: it returns `a` and leaves `s'`. -/
def Returns (m : Method σ α) (s : σ) (a : α) (s' : σ) : Prop := m s = (.ok a, s')

variable {m : Method σ α} {f : α → Method σ β} {s s' s'' : σ} {a : α} {b : β}

theorem returns_pure (a : α) (s : σ) : Returns (pure a : Method σ α) s a s := rfl

theorem returns_bind (h : Returns m s a s') (hf : Returns (f a) s' b s'') :
    Returns (m >>= f) s b s'' := by
  have hrun : (m >>= f) s = f a s' := by
    change Method.bind m f s = f a s'
    unfold Method.bind
    rw [h]
  exact hrun.trans hf

theorem returns_get_bind {f : σ → Method σ β} (h : Returns (f s) s b s') :
    Returns (get >>= f) s b s' :=
  returns_bind rfl h

theorem returns_modify_bind {g : σ → σ} {f : Unit → Method σ β} (h : Returns (f ()) (g s) b s') :
    Returns (modify g >>= f) s b s' :=
  returns_bind rfl h

/-- An object, and what its methods returned or threw so far. -/
structure Transcript (σ α : Type) where
  object : σ
  results : List (Except String α)

def Transcript.call (r : Transcript σ α) (m : Method σ α) : Transcript σ α :=
  ⟨(m r.object).2, r.results ++ [(m r.object).1]⟩

/-- The call of a method that returns. -/
theorem Returns.transcript {r : Transcript σ α} (h : m.Returns r.object a s') :
    r.call m = ⟨s', r.results ++ [.ok a]⟩ := by
  unfold Transcript.call
  rw [h]

end Method

end Js
