import Mathlib.Data.Nat.Notation
import Mathlib.Logic.Function.Basic

/-! An event emitter: listeners come and go, and each is called with the events emitted while it is
registered. -/
namespace Messaging

/-- The registered listeners in their order, the ones that ignore what they are called with, and
what each has taken in. -/
structure Bus (κ ε : Type) where
  listeners : List κ
  deaf : κ → Bool
  inbox : κ → List ε

inductive BusAction (κ ε : Type) where
  | on (c : κ)
  | off (c : κ)
  | deafen (c : κ)
  | emit (e : ε)

variable {κ ε : Type} [DecidableEq κ] {b : Bus κ ε} {c d : κ} {e : ε}

def Bus.empty : Bus κ ε := ⟨[], fun _ => false, fun _ => []⟩

/-- A listener is called with an event. -/
def Bus.hear (deaf : κ → Bool) (e : ε) (inbox : κ → List ε) (c : κ) : κ → List ε :=
  if deaf c then inbox else Function.update inbox c (inbox c ++ [e])

/-- Listeners registered twice are called twice; one call of `off` takes one registration away. -/
def Bus.act (b : Bus κ ε) : BusAction κ ε → Bus κ ε
  | .on c => { b with listeners := b.listeners ++ [c] }
  | .off c => { b with listeners := b.listeners.erase c }
  | .deafen c => { b with deaf := Function.update b.deaf c true }
  | .emit e => { b with inbox := b.listeners.foldl (Bus.hear b.deaf e) b.inbox }

def Bus.run (b : Bus κ ε) (actions : List (BusAction κ ε)) : Bus κ ε := actions.foldl Bus.act b

/-- What a listener registered `n` times takes in from the actions to come. -/
def heard (c : κ) (deaf : Bool) (n : ℕ) : List (BusAction κ ε) → List ε
  | [] => []
  | .on d :: actions => heard c deaf (if d = c then n + 1 else n) actions
  | .off d :: actions => heard c deaf (if d = c then n - 1 else n) actions
  | .deafen d :: actions => heard c (deaf || d = c) n actions
  | .emit e :: actions => (if deaf then [] else List.replicate n e) ++ heard c deaf n actions

theorem hear_self (deaf : κ → Bool) (inbox : κ → List ε) (c : κ) :
    Bus.hear deaf e inbox c c = inbox c ++ if deaf c then [] else [e] := by
  unfold Bus.hear
  split
  · rw [List.append_nil]
  · rw [Function.update_self]

theorem hear_other (deaf : κ → Bool) (inbox : κ → List ε) (h : c ≠ d) :
    Bus.hear deaf e inbox d c = inbox c := by
  unfold Bus.hear
  split
  · rfl
  · rw [Function.update_of_ne h]

/-- An emission reaches a listener once for each of its registrations. -/
theorem inbox_emit (deaf : κ → Bool) (inbox : κ → List ε) (listeners : List κ) (c : κ) :
    listeners.foldl (Bus.hear deaf e) inbox c =
      inbox c ++ if deaf c then [] else List.replicate (listeners.count c) e := by
  induction listeners generalizing inbox with
  | nil => simp
  | cons d listeners ih =>
    rw [List.foldl_cons, ih]
    by_cases hd : d = c
    · subst hd
      rw [hear_self, List.count_cons_self]
      split
      · simp
      · rw [List.append_assoc, List.replicate_succ, List.singleton_append]
    · rw [hear_other deaf inbox (Ne.symm hd), List.count_cons_of_ne hd]

/-- After any run a listener has taken in exactly what was emitted while it was registered and
attentive, in order. -/
theorem inbox_run (b : Bus κ ε) (actions : List (BusAction κ ε)) (c : κ) :
    (b.run actions).inbox c =
      b.inbox c ++ heard c (b.deaf c) (b.listeners.count c) actions := by
  induction actions generalizing b with
  | nil => exact (List.append_nil _).symm
  | cons a actions ih =>
    refine (ih (b.act a)).trans ?_
    cases a with
    | on d =>
      by_cases hd : d = c
      · subst hd
        simp [Bus.act, heard]
      · simp [Bus.act, heard, hd]
    | off d =>
      by_cases hd : d = c
      · subst hd
        simp [Bus.act, heard]
      · have hcount : (b.listeners.erase d).count c = b.listeners.count c :=
          List.count_erase_of_ne (Ne.symm hd)
        simp [Bus.act, heard, hd, hcount]
    | deafen d =>
      by_cases hd : d = c
      · subst hd
        simp [Bus.act, heard]
      · simp [Bus.act, heard, hd, Function.update_of_ne (Ne.symm hd)]
    | emit e =>
      have hinbox := inbox_emit (e := e) b.deaf b.inbox b.listeners c
      simp [Bus.act, heard, hinbox]

end Messaging
