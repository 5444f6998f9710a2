import Mathlib.Data.List.Induction

/-! What holds at every position of a list, given what comes before it there. -/
namespace Relational

variable {β : Type} {P Q : List β → β → Prop} {x : β} {l : List β}

def AtEach (P : List β → β → Prop) (l : List β) : Prop :=
  ∀ before x after, l = before ++ x :: after → P before x

theorem atEach_nil : AtEach P [] := by
  intro before x after h
  simp at h

theorem atEach_cons : AtEach P (x :: l) ↔ P [] x ∧ AtEach (fun before => P (x :: before)) l := by
  constructor
  · intro h
    refine ⟨h [] x l rfl, fun before y after hl => h (x :: before) y after ?_⟩
    rw [hl, List.cons_append]
  · rintro ⟨hx, hl⟩ before y after heq
    cases before with
    | nil =>
      obtain ⟨rfl, -⟩ := List.cons.inj heq
      exact hx
    | cons z before =>
      obtain ⟨rfl, htail⟩ := List.cons.inj heq
      exact hl before y after htail

theorem atEach_concat : AtEach P (l ++ [x]) ↔ AtEach P l ∧ P l x := by
  constructor
  · intro h
    refine ⟨fun before y after heq => h before y (after ++ [x]) ?_, h l x [] rfl⟩
    rw [heq]
    simp
  · rintro ⟨hinit, hlast⟩ before y after heq
    rcases List.eq_nil_or_concat after with rfl | ⟨after, z, rfl⟩
    · obtain ⟨rfl, heq⟩ := List.append_inj' heq rfl
      obtain rfl : x = y := by simpa using heq
      exact hlast
    · rw [List.concat_eq_append, ← List.cons_append, ← List.append_assoc] at heq
      obtain ⟨rfl, -⟩ := List.append_inj' heq rfl
      exact hinit before y after rfl

theorem AtEach.append_left {l' : List β} (h : AtEach P (l ++ l')) : AtEach P l := by
  intro before x after hl
  refine h before x (after ++ l') ?_
  rw [hl]
  simp

end Relational
