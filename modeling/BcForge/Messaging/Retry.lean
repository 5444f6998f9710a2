import Mathlib.Data.Nat.Notation

/-! Messages that are sent again until an attempt succeeds or the attempts are used up, any number
of them at a time. -/
namespace Messaging

inductive Outcome where
  | delivered
  | failed
  deriving DecidableEq, Repr

/-- One message on its way to one target. Until it is settled its last request is unanswered. -/
structure Effort (τ : Type) where
  target : τ
  requests : ℕ
  outcome : Option Outcome
  deriving DecidableEq, Repr

variable {τ : Type} {limit i : ℕ} {f : Effort τ} {efforts : List (Effort τ)}

/-- The first request is made at once. -/
def Effort.start (target : τ) : Effort τ := ⟨target, 1, none⟩

/-- The answer to the open request: a failed one is repeated while attempts are left. -/
def Effort.answer (limit : ℕ) (f : Effort τ) (ok : Bool) : Effort τ :=
  match f.outcome with
  | some _ => f
  | none =>
    if ok then { f with outcome := some .delivered }
    else if f.requests < limit then { f with requests := f.requests + 1 }
    else { f with outcome := some .failed }

/-- The efforts run side by side; an answer belongs to one of them. -/
def answerAt (limit : ℕ) (efforts : List (Effort τ)) (answer : ℕ × Bool) : List (Effort τ) :=
  efforts.modify answer.1 fun f => f.answer limit answer.2

/-- The answers to the effort at position `i`. -/
def answersTo (i : ℕ) (answers : List (ℕ × Bool)) : List Bool :=
  answers.filterMap fun answer => if answer.1 = i then some answer.2 else none

theorem answer_settled {o : Outcome} (h : f.outcome = some o) (ok : Bool) :
    f.answer limit ok = f := by
  unfold Effort.answer
  rw [h]

theorem answers_settled {o : Outcome} (h : f.outcome = some o) (answers : List Bool) :
    answers.foldl (Effort.answer limit) f = f := by
  induction answers with
  | nil => rfl
  | cons ok answers ih => rw [List.foldl_cons, answer_settled h, ih]

/-- What becomes of an open effort, read off the answers it gets. -/
theorem answers_open {n : ℕ} (hn : n ≤ limit) (target : τ) (answers : List Bool) :
    answers.foldl (Effort.answer limit) ⟨target, n, none⟩ =
      ⟨target, min limit (n + (answers.takeWhile not).length),
        if true ∈ answers.take (limit - n + 1) then some .delivered
        else if limit < n + answers.length then some .failed else none⟩ := by
  induction answers generalizing n with
  | nil => simp [Nat.min_eq_right hn, Nat.not_lt.mpr hn]
  | cons ok answers ih =>
    rw [List.foldl_cons]
    cases ok with
    | true =>
      rw [show Effort.answer limit ⟨target, n, none⟩ true = ⟨target, n, some .delivered⟩ from rfl,
        answers_settled rfl]
      simp [Nat.min_eq_right hn]
    | false =>
      by_cases hlt : n < limit
      · have hstep : Effort.answer limit ⟨target, n, none⟩ false = ⟨target, n + 1, none⟩ :=
          if_pos hlt
        have hleft : limit - n = limit - (n + 1) + 1 := by omega
        rw [hstep, ih hlt, hleft]
        simp [Nat.add_assoc, Nat.add_comm 1]
      · have hend : Effort.answer limit ⟨target, n, none⟩ false = ⟨target, n, some .failed⟩ :=
          if_neg hlt
        have hn' : n = limit := by omega
        subst hn'
        rw [hend, answers_settled rfl]
        simp

/-- An effort from its start. -/
theorem answers_start (hlimit : 0 < limit) (target : τ) (answers : List Bool) :
    answers.foldl (Effort.answer limit) (Effort.start target) =
      ⟨target, min limit (1 + (answers.takeWhile not).length),
        if true ∈ answers.take limit then some .delivered
        else if limit ≤ answers.length then some .failed else none⟩ := by
  have hleft : limit - 1 + 1 = limit := Nat.sub_add_cancel hlimit
  have hlength : limit < 1 + answers.length ↔ limit ≤ answers.length := by omega
  rw [Effort.start, answers_open hlimit, hleft]
  simp only [hlength]

/-- Efforts side by side go their own ways: each sees its own answers and nothing else. -/
theorem answers_apart (answers : List (ℕ × Bool)) (efforts : List (Effort τ)) :
    answers.foldl (answerAt limit) efforts =
      efforts.mapIdx fun i f => (answersTo i answers).foldl (Effort.answer limit) f := by
  apply List.ext_getElem?
  intro i
  rw [List.getElem?_mapIdx]
  induction answers generalizing efforts with
  | nil => simp [answersTo]
  | cons answer answers ih =>
    rw [List.foldl_cons, ih, answerAt, List.getElem?_modify]
    by_cases hi : answer.1 = i
    · subst hi
      simp [answersTo, Option.map_map, Function.comp_def]
    · simp [answersTo, hi]

end Messaging
