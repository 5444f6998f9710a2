import Mathlib.Data.List.Basic

/-! Lists that are read page by page, each page handing back a cursor to the next one. -/
namespace Relational

variable {κ π α : Type}

/-- The pages met on the way from `k` to the last one, the `n`-th of them fetched by `fetch n`;
`none` when the fuel does not reach that far. -/
def follow (next : π → Option κ) : ℕ → (ℕ → κ → π) → κ → Option (List π)
  | 0, _, _ => none
  | fuel + 1, fetch, k =>
    match next (fetch 0 k) with
    | none => some [fetch 0 k]
    | some k' => (follow next fuel (fun n => fetch (n + 1)) k').map (fetch 0 k :: ·)

/-- What lies behind a cursor is accounted for: a page takes a first part of it, and its cursor
stands before the rest. -/
structure Accounts (next : π → Option κ) (items : π → List α) (valid : κ → Prop)
    (behind : κ → List α) (size : κ → ℕ) (page : κ → π → Prop) : Prop where
  split : ∀ k p, valid k → page k p → behind k = items p ++ (next p).elim [] behind
  smaller : ∀ k p k', valid k → page k p → next p = some k' → valid k' ∧ size k' < size k

variable {next : π → Option κ} {items : π → List α} {valid : κ → Prop} {behind : κ → List α}
  {size : κ → ℕ} {page : κ → π → Prop} {fetch : ℕ → κ → π} {fuel : ℕ} {k : κ}

theorem follow_last (hnext : next (fetch 0 k) = none) :
    follow next (fuel + 1) fetch k = some [fetch 0 k] := by
  rw [follow, hnext]

theorem follow_next {k' : κ} {pages : List π} (hnext : next (fetch 0 k) = some k')
    (hpages : follow next fuel (fun n => fetch (n + 1)) k' = some pages) :
    follow next (fuel + 1) fetch k = some (fetch 0 k :: pages) := by
  rw [follow, hnext]
  exact congrArg (Option.map (fetch 0 k :: ·)) hpages

/-- Following the cursors ends, and yields what lay behind the first one. -/
theorem follow_accounts (h : Accounts next items valid behind size page)
    (hfetch : ∀ n k, valid k → page k (fetch n k)) (hk : valid k) (hfuel : size k < fuel) :
    ∃ pages, follow next fuel fetch k = some pages ∧ pages.flatMap items = behind k := by
  induction fuel generalizing k fetch with
  | zero => omega
  | succ fuel ih =>
    have hpage := hfetch 0 k hk
    have hsplit := h.split k _ hk hpage
    cases hnext : next (fetch 0 k) with
    | none =>
      rw [hnext] at hsplit
      exact ⟨[fetch 0 k], follow_last hnext, by simpa using hsplit.symm⟩
    | some k' =>
      obtain ⟨hk', hsize⟩ := h.smaller k _ k' hk hpage hnext
      have hlater : ∀ n k, valid k → page k (fetch (n + 1) k) := fun n k hk => hfetch (n + 1) k hk
      obtain ⟨pages, hpages, hitems⟩ := ih hlater hk' (by omega)
      refine ⟨fetch 0 k :: pages, follow_next hnext hpages, ?_⟩
      rw [List.flatMap_cons, hitems, hsplit, hnext]
      rfl

/-- Every page met is one that its cursor can have. -/
theorem mem_follow {pages : List π} (h : Accounts next items valid behind size page)
    (hfetch : ∀ n k, valid k → page k (fetch n k)) (hk : valid k)
    (hpages : follow next fuel fetch k = some pages) : ∀ p ∈ pages, ∃ k, page k p := by
  induction fuel generalizing k fetch pages with
  | zero => cases hpages
  | succ fuel ih =>
    have hpage := hfetch 0 k hk
    cases hnext : next (fetch 0 k) with
    | none =>
      rw [follow_last hnext, Option.some.injEq] at hpages
      intro p hp
      rw [← hpages, List.mem_singleton] at hp
      exact ⟨k, hp ▸ hpage⟩
    | some k' =>
      have hk' := (h.smaller k _ k' hk hpage hnext).1
      simp only [follow, hnext, Option.map_eq_some_iff] at hpages
      obtain ⟨later, hlater, rfl⟩ := hpages
      rintro p (_ | ⟨_, hp⟩)
      · exact ⟨k, hpage⟩
      · exact ih (fun n k hk => hfetch (n + 1) k hk) hk' hlater p hp

/-- A walk whose first page needs no valid cursor: it takes a first part of `whole`, and what its
own cursor has behind it is the rest. -/
theorem exists_follow {whole : List α} (h : Accounts next items valid behind size page)
    (hsplit : whole = items (fetch 0 k) ++ (next (fetch 0 k)).elim [] behind)
    (hnext : ∀ k', next (fetch 0 k) = some k' → valid k')
    (hlater : ∀ n k, valid k → page k (fetch (n + 1) k)) :
    ∃ fuel pages, follow next fuel fetch k = some pages ∧ pages.flatMap items = whole ∧
      ∀ p ∈ pages, p = fetch 0 k ∨ ∃ k, page k p := by
  cases hcursor : next (fetch 0 k) with
  | none =>
    rw [hcursor] at hsplit
    refine ⟨1, [fetch 0 k], follow_last hcursor, by simpa using hsplit.symm, fun p hp => ?_⟩
    exact Or.inl (List.mem_singleton.mp hp)
  | some k' =>
    have hk' := hnext k' hcursor
    obtain ⟨pages, hpages, hitems⟩ := follow_accounts h hlater hk' (Nat.lt_add_one _)
    refine ⟨size k' + 2, fetch 0 k :: pages, follow_next hcursor hpages, ?_, ?_⟩
    · rw [List.flatMap_cons, hitems, hsplit, hcursor]
      rfl
    · rintro p (_ | ⟨_, hp⟩)
      · exact Or.inl rfl
      · exact Or.inr (mem_follow h hlater hk' hpages p hp)

end Relational
