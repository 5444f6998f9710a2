import Mathlib.Data.List.Nodup

/-! Insertion under a unique index: of several rows with one key only the first gets in. -/
namespace Relational

variable {α β κ : Type} [DecidableEq κ] {key : α → κ} {taken : κ → Bool} {a : α} {l l' : List α}

/-- The rows that get in, when some keys are taken already. -/
def admitted (key : α → κ) (taken : κ → Bool) : List α → List α
  | [] => []
  | a :: l =>
    if taken (key a) then admitted key taken l
    else a :: admitted key (fun k => taken k || decide (k = key a)) l

/-- The rows that get into an empty table. -/
def keepFirst (key : α → κ) (l : List α) : List α := admitted key (fun _ => false) l

/-- One attempt to insert: a row whose key the database holds is refused. -/
def attempt (key : α → κ) (holds : β → κ → Bool) (write : β → α → β) (b : β) (a : α) : β :=
  if holds b (key a) then b else write b a

/-- Attempting every row writes exactly the admitted ones, when a write takes its own key and no
other. -/
theorem foldl_attempt {holds : β → κ → Bool} {write : β → α → β}
    (hwrite : ∀ b a k, holds (write b a) k = (holds b k || decide (k = key a))) (b : β) :
    l.foldl (attempt key holds write) b = (admitted key (holds b) l).foldl write b := by
  induction l generalizing b with
  | nil => rfl
  | cons a l ih =>
    by_cases ha : holds b (key a) = true
    · simpa [admitted, attempt, ha] using ih b
    · have htaken : holds (write b a) = fun k => holds b k || decide (k = key a) :=
        funext (hwrite b a)
      simpa [admitted, attempt, ha, htaken] using ih (write b a)

/-- No attempt frees a key, and every attempted key is taken afterwards. -/
theorem taken_foldl_attempt {holds : β → κ → Bool} {write : β → α → β}
    (hwrite : ∀ b a k, holds (write b a) k = (holds b k || decide (k = key a))) {b : β} {k : κ}
    (h : holds b k = true ∨ ∃ a ∈ l, key a = k) :
    holds (l.foldl (attempt key holds write) b) k = true := by
  induction l generalizing b with
  | nil =>
    rcases h with h | ⟨a, ha, -⟩
    · exact h
    · cases ha
  | cons a l ih =>
    refine ih ?_
    unfold attempt
    rcases h with h | ⟨a', ha', rfl⟩
    · left
      split
      · exact h
      · rw [hwrite, h, Bool.true_or]
    · rcases List.mem_cons.mp ha' with rfl | ha'
      · left
        split
        · assumption
        · simp [hwrite]
      · exact .inr ⟨a', ha', rfl⟩

omit [DecidableEq κ] in
/-- Rows whose keys are all taken leave no trace. -/
theorem foldl_attempt_of_taken {holds : β → κ → Bool} {write : β → α → β} {b : β}
    (h : ∀ a ∈ l, holds b (key a) = true) : l.foldl (attempt key holds write) b = b := by
  induction l with
  | nil => rfl
  | cons a l ih =>
    have ha : attempt key holds write b a = b := if_pos (h a List.mem_cons_self)
    rw [List.foldl_cons, ha]
    exact ih fun a' ha' => h a' (List.mem_cons_of_mem a ha')

theorem admitted_sublist : (admitted key taken l).Sublist l := by
  induction l generalizing taken with
  | nil => exact List.Sublist.refl _
  | cons a l ih =>
    unfold admitted
    split
    · exact ih.cons a
    · exact ih.cons_cons a

theorem not_taken_of_admitted (h : a ∈ admitted key taken l) : taken (key a) = false := by
  induction l generalizing taken with
  | nil => cases h
  | cons b l ih =>
    unfold admitted at h
    split at h
    · exact ih h
    · rename_i hb
      rcases List.mem_cons.mp h with rfl | h
      · simpa using hb
      · have hrest := ih h
        simp only [Bool.or_eq_false_iff] at hrest
        exact hrest.1

theorem nodup_admitted : ((admitted key taken l).map key).Nodup := by
  induction l generalizing taken with
  | nil => exact List.nodup_nil
  | cons a l ih =>
    unfold admitted
    split
    · exact ih
    · refine List.nodup_cons.mpr ⟨?_, ih⟩
      intro hmem
      obtain ⟨b, hb, hkey⟩ := List.mem_map.mp hmem
      have := not_taken_of_admitted hb
      simp [hkey] at this

theorem admitted_append : admitted key taken (l ++ l') = admitted key taken l ++
    admitted key (fun k => taken k || k ∈ (admitted key taken l).map key) l' := by
  induction l generalizing taken with
  | nil => simp [admitted]
  | cons a l ih =>
    by_cases ha : taken (key a) = true
    · simpa [admitted, ha] using ih
    · simp [admitted, ha, ih, Bool.or_assoc]

/-- Fresh rows with distinct keys get in as a whole. -/
theorem admitted_eq_self (hfresh : ∀ a ∈ l, taken (key a) = false)
    (hnodup : (l.map key).Nodup) : admitted key taken l = l := by
  induction l generalizing taken with
  | nil => rfl
  | cons a l ih =>
    obtain ⟨ha, hl⟩ := List.nodup_cons.mp hnodup
    have hrest : admitted key (fun k => taken k || decide (k = key a)) l = l := by
      refine ih (fun b hb => ?_) hl
      have hne : key b ≠ key a := fun he => ha (List.mem_map.mpr ⟨b, hb, he⟩)
      simp [hfresh b (List.mem_cons_of_mem _ hb), hne]
    simp [admitted, hfresh a List.mem_cons_self, hrest]

end Relational
