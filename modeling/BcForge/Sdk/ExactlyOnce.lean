import BcForge.Relational.Positions
import BcForge.Sdk.Codec
import BcForge.Sdk.Listeners

/-! When the listeners call their callbacks once for every event that is due. -/
namespace BcForge.Sdk

open Relational

variable {α : Type}

section Conditions

variable (select : EventResponse → Selection α) (chain : List EventResponse)

/-- A page is a stretch of the contract's events, in order, with none at or above the cursor left
out in front. It may end anywhere, and begin before the cursor. -/
def Serves (l : Listening α) : Answer → Prop
  | .failed => True
  | .page skipped events => events.map Prod.fst <+: chain.drop skipped ∧
    ∀ e ∈ chain.take skipped, e.ledger < l.lastLedger

def keys (events : List EventResponse) : List String := events.filterMap fun e => (select e).key

/-- An event that the listener passes over. -/
def Known (seen : List String) (event : EventResponse) : Prop :=
  ∃ k ∈ (select event).key, k ∈ seen

/-- An event that ends its page. -/
def Halts (seen : List String) (x : EventResponse × Bool) : Prop :=
  ¬ Known select seen x.1 ∧
    ((select x.1).throws = true ∨ x.2 = true ∧ (select x.1).due.isSome = true)

/-- The keys seen when the listener comes to an event of a page. -/
def seenBefore (seen : List String) (before : Page) : List String :=
  seen ++ keys select (before.map Prod.fst)

/-- A page falls into what is handled to the end and what an exception leaves over, with the event
that throws in front. -/
structure Handled (seen : List String) (page done rest : Page) : Prop where
  split : page = done ++ rest
  through : AtEach (fun before x => ¬ Halts select (seenBefore select seen before) x) done
  stop : ∀ x ∈ rest.head?, Halts select (seenBefore select seen done) x

/-- An event that is due has a key, and one that no event of the listener's kind before it has. -/
def Keyed (skipped : ℕ) (before : Page) (x : EventResponse × Bool) : Prop :=
  (select x.1).due.isSome = true →
    ∃ k, (select x.1).key = some k ∧ k ∉ keys select (chain.take (skipped + before.length))

/-- A ledger that the event moves the cursor past holds nothing due among `later`. -/
def Closes (l : Listening α) (later : List EventResponse) (before : Page)
    (x : EventResponse × Bool) : Prop :=
  ¬ Known select (seenBefore select l.seenTxHashes before) x.1 → l.lastLedger ≤ x.1.ledger →
    ∀ y ∈ later, (select y).due.isSome = true → x.1.ledger ≠ y.ledger

/-- Every due event that the listener comes to is keyed, and it leaves no event that is due behind
in a ledger that it moves its cursor past. -/
def Clean (l : Listening α) : Answer → Prop
  | .failed => True
  | .page skipped page => ∀ done rest, Handled select l.seenTxHashes page done rest →
    AtEach (Keyed select chain skipped) (done ++ rest.take 1) ∧
      AtEach (Closes select l (chain.drop (skipped + (done ++ rest.take 1).length))) done

/-- How far into the chain an answer brings the listener, unless something throws. -/
def Answer.reach : Answer → ℕ
  | .failed => 0
  | .page skipped events =>
    if events.all fun x => !x.2 && !(select x.1).throws then skipped + events.length else 0

/-- What was due up to some point has been delivered, in order and each event once. Every page that
was handled to its end is below that point, and nothing due above it is below the cursor. -/
def Delivered (answers : List Answer) (l : Listening α) : Prop :=
  ∃ n, (∀ a ∈ answers, a.reach select ≤ n) ∧
    l.delivered = (chain.take n).filterMap (fun e => (select e).due) ∧
    ∀ e ∈ chain.drop n, (select e).due.isSome = true → l.lastLedger ≤ e.ledger

/-- A condition on each poll and the state it starts in. -/
def AtEachPoll (P : Listening α → Answer → Prop) : Listening α → List Answer → Prop
  | _, [] => True
  | l, a :: answers => P l a ∧ AtEachPoll P (pollEvents select l a) answers

end Conditions

variable {select : EventResponse → Selection α} {chain : List EventResponse} {l : Listening α}
  {x : EventResponse × Bool} {e : EventResponse} {seen seen' : List String}
  {page done rest : Page} {n i : ℕ}

section Events

theorem known_congr (h : ∀ k, k ∈ seen ↔ k ∈ seen') : Known select seen e ↔ Known select seen' e :=
  exists_congr fun k => and_congr_right fun _ => h k

theorem halts_congr (h : ∀ k, k ∈ seen ↔ k ∈ seen') :
    Halts select seen x ↔ Halts select seen' x := by
  unfold Halts
  rw [known_congr h]

theorem known_iff : Known select seen e ↔ (select e).key.any (· ∈ seen) = true := by
  unfold Known
  cases (select e).key <;> simp

/-- The key of an event noted, and its callback called. -/
def record (select : EventResponse → Selection α) (l : Listening α) (e : EventResponse) :
    Listening α where
  lastLedger := l.lastLedger
  seenTxHashes := l.seenTxHashes ++ (select e).key.toList
  delivered := l.delivered ++ (select e).due.toList

/-- What becomes of the listener with an event that it handles to the end. -/
def absorb (select : EventResponse → Selection α) (l : Listening α) (x : EventResponse × Bool) :
    Listening α :=
  if (select x.1).key.any (· ∈ l.seenTxHashes) then l else (record select l x.1).advance x.1

@[simp] theorem advance_seen : (l.advance e).seenTxHashes = l.seenTxHashes := by
  unfold Listening.advance
  split <;> rfl

@[simp] theorem advance_delivered : (l.advance e).delivered = l.delivered := by
  unfold Listening.advance
  split <;> rfl

theorem absorb_known (h : Known select l.seenTxHashes x.1) : absorb select l x = l :=
  if_pos (known_iff.mp h)

theorem absorb_unknown (h : ¬ Known select l.seenTxHashes x.1) :
    absorb select l x = (record select l x.1).advance x.1 :=
  if_neg fun hknown => h (known_iff.mpr hknown)

theorem handlePage_cons (h : ¬ Halts select l.seenTxHashes x) :
    handlePage select l (x :: rest) = handlePage select (absorb select l x) rest := by
  obtain ⟨event, callbackThrows⟩ := x
  by_cases hknown : Known select l.seenTxHashes event
  · rw [absorb_known hknown]
    rw [known_iff] at hknown
    rw [handlePage]
    cases hsel : select event with
    | ignored => simp [hsel, Selection.key] at hknown
    | selected key data =>
      rw [hsel, Selection.key] at hknown
      exact if_pos hknown
    | thrown key =>
      rw [hsel, Selection.key] at hknown
      exact if_pos hknown
  · rw [absorb_unknown hknown]
    have hthrough : ¬ ((select event).throws = true ∨
        callbackThrows = true ∧ (select event).due.isSome = true) := fun hhalt => h ⟨hknown, hhalt⟩
    rw [known_iff] at hknown
    rw [handlePage]
    cases hsel : select event with
    | ignored => simp [record, hsel, Selection.key, Selection.due]
    | selected key data =>
      rw [hsel] at hknown hthrough
      rw [Selection.key] at hknown
      cases data with
      | none => simp [record, hsel, hknown, Selection.key, Selection.due]
      | some data =>
        have hquiet : callbackThrows = false := by
          simpa [Selection.due, Selection.throws] using hthrough
        simp [record, hsel, hknown, hquiet, Selection.key, Selection.due]
    | thrown key =>
      rw [hsel] at hthrough
      simp [Selection.throws] at hthrough

theorem handlePage_halts (h : Halts select l.seenTxHashes x) :
    handlePage select l (x :: rest) = record select l x.1 := by
  obtain ⟨event, callbackThrows⟩ := x
  obtain ⟨hknown, hhalt⟩ := h
  rw [known_iff] at hknown
  rw [handlePage]
  cases hsel : select event with
  | ignored => simp [hsel, Selection.throws, Selection.due] at hhalt
  | selected key data =>
    rw [hsel, Selection.key] at hknown
    cases data with
    | none => simp [hsel, Selection.throws, Selection.due] at hhalt
    | some data =>
      have hthrows : callbackThrows = true := by
        simpa [hsel, Selection.throws, Selection.due] using hhalt
      simp [record, hsel, hknown, hthrows, Selection.key, Selection.due]
  | thrown key =>
    rw [hsel, Selection.key] at hknown
    simp [record, hsel, hknown, Selection.key, Selection.due]

end Events

section Progress

/-- The first `n` events have been dealt with: their keys are noted, and what was due is
delivered. -/
structure Progress (select : EventResponse → Selection α) (chain : List EventResponse) (n : ℕ)
    (l : Listening α) : Prop where
  delivered : l.delivered = (chain.take n).filterMap fun e => (select e).due
  noted : ∀ e ∈ chain.take n, (select e).due.isSome = true → Known select l.seenTxHashes e
  old : ∀ k ∈ l.seenTxHashes, k ∈ keys select (chain.take n)

theorem Progress.advance (h : Progress select chain n l) :
    Progress select chain n (l.advance e) where
  delivered := by rw [advance_delivered, h.delivered]
  noted := by
    rw [advance_seen]
    exact h.noted
  old := by
    rw [advance_seen]
    exact h.old

/-- Events with nothing due can be counted in. -/
theorem Progress.skip {m : ℕ} (h : Progress select chain n l) (hle : n ≤ m)
    (hnone : ∀ e ∈ (chain.drop n).take (m - n), (select e).due = none) :
    Progress select chain m l := by
  have htake : chain.take m = chain.take n ++ (chain.drop n).take (m - n) := by
    rw [← List.take_add]
    congr 1
    omega
  have hnothing : ((chain.drop n).take (m - n)).filterMap (fun e => (select e).due) = [] :=
    List.filterMap_eq_nil_iff.mpr hnone
  refine ⟨?_, ?_, ?_⟩
  · rw [h.delivered, htake, List.filterMap_append, hnothing, List.append_nil]
  · intro e he hdue
    rw [htake] at he
    rcases List.mem_append.mp he with he | he
    · exact h.noted e he hdue
    · rw [hnone e he] at hdue
      cases hdue
  · intro k hk
    rw [htake, keys, List.filterMap_append]
    exact List.mem_append_left _ (h.old k hk)

theorem known_record_of_known (h : Known select l.seenTxHashes e) (e' : EventResponse) :
    Known select (record select l e').seenTxHashes e := by
  obtain ⟨k, hk, hseen⟩ := h
  exact ⟨k, hk, List.mem_append_left _ hseen⟩

/-- A new event, taken down at its place in the chain or, with nothing due, after that. -/
theorem progress_record (h : Progress select chain n l) (hi : i ≤ n) (hat : chain[i]? = some e)
    (hkey : (select e).due.isSome = true → ∃ k, (select e).key = some k)
    (hnew : ¬ Known select l.seenTxHashes e) :
    Progress select chain (max n (i + 1)) (record select l e) := by
  have hnext : chain.take (i + 1) = chain.take i ++ [e] := by
    rw [List.take_add_one, hat]
    rfl
  by_cases hlt : i < n
  · have hmem : e ∈ chain.take n := by
      refine List.mem_iff_getElem?.mpr ⟨i, ?_⟩
      rw [List.getElem?_take_of_lt hlt, hat]
    have hnone : (select e).due = none := by
      cases hdue : (select e).due with
      | none => rfl
      | some d => exact absurd (h.noted e hmem (by rw [hdue]; rfl)) hnew
    rw [Nat.max_eq_left hlt]
    refine ⟨?_, fun e' he' hdue => known_record_of_known (h.noted e' he' hdue) e, fun k hk => ?_⟩
    · simp [record, hnone, h.delivered]
    · rcases List.mem_append.mp hk with hk | hk
      · exact h.old k hk
      · exact List.mem_filterMap.mpr ⟨e, hmem, Option.mem_toList.mp hk⟩
  · obtain rfl : i = n := by omega
    rw [Nat.max_eq_right (Nat.le_succ i)]
    refine ⟨?_, fun e' he' hdue => ?_, fun k hk => ?_⟩
    · rw [hnext, List.filterMap_append, ← h.delivered]
      cases hdue : (select e).due <;> simp [record, hdue]
    · rw [hnext] at he'
      rcases List.mem_append.mp he' with he' | he'
      · exact known_record_of_known (h.noted e' he' hdue) e
      · obtain rfl : e' = e := by simpa using he'
        obtain ⟨k, hk⟩ := hkey hdue
        exact ⟨k, hk, List.mem_append_right _ (by simp [hk])⟩
    · rw [hnext, keys, List.filterMap_append]
      rcases List.mem_append.mp hk with hk | hk
      · exact List.mem_append_left _ (h.old k hk)
      · exact List.mem_append_right _ (List.mem_filterMap.mpr ⟨e, by simp, Option.mem_toList.mp hk⟩)

theorem progress_absorb (h : Progress select chain n l) (hi : i ≤ n)
    (hat : chain[i]? = some x.1)
    (hkey : (select x.1).due.isSome = true →
      ∃ k, (select x.1).key = some k ∧ k ∉ keys select (chain.take i)) :
    Progress select chain (max n (i + 1)) (absorb select l x) := by
  by_cases hknown : Known select l.seenTxHashes x.1
  · rw [absorb_known hknown]
    by_cases hlt : i < n
    · rwa [Nat.max_eq_left hlt]
    obtain rfl : i = n := by omega
    -- A due event at the frontier would have its key noted by one before it.
    have hnone : (select x.1).due = none := by
      by_contra hsome
      obtain ⟨k, hk, hfresh⟩ := hkey (Option.isSome_iff_ne_none.mpr hsome)
      obtain ⟨k', hk', hseen⟩ := hknown
      rw [hk] at hk'
      cases hk'
      exact hfresh (h.old k hseen)
    refine h.skip (Nat.le_max_left _ _) fun e he => ?_
    have hsub : max i (i + 1) - i = 1 := by omega
    obtain rfl : e = x.1 := by simpa [hsub, List.take_one, hat] using he
    exact hnone
  · rw [absorb_unknown hknown]
    exact (progress_record h hi hat (fun hdue => (hkey hdue).imp fun _ => And.left) hknown).advance

/-- The keys noted after part of a page. -/
theorem seen_foldl (done : Page) (k : String) :
    k ∈ (done.foldl (absorb select) l).seenTxHashes ↔
      k ∈ seenBefore select l.seenTxHashes done := by
  induction done using List.reverseRecOn with
  | nil => simp [seenBefore, keys]
  | append_singleton done x ih =>
    have hkeys : seenBefore select l.seenTxHashes (done ++ [x]) =
        seenBefore select l.seenTxHashes done ++ (select x.1).key.toList := by
      cases hkey : (select x.1).key <;> simp [seenBefore, keys, hkey]
    rw [List.foldl_append, hkeys, List.mem_append, ← ih]
    change k ∈ (absorb select (done.foldl (absorb select) l) x).seenTxHashes ↔ _
    by_cases hknown : Known select (done.foldl (absorb select) l).seenTxHashes x.1
    · rw [absorb_known hknown]
      refine (or_iff_left_of_imp fun hk => ?_).symm
      obtain ⟨k', hk', hseen⟩ := hknown
      rw [Option.mem_toList, hk'] at hk
      cases hk
      exact hseen
    · rw [absorb_unknown hknown, advance_seen]
      exact List.mem_append

end Progress

section Pages

/-- Every page is handled up to some point. -/
theorem handled_exists (select : EventResponse → Selection α) (seen : List String) (page : Page) :
    ∃ done rest, Handled select seen page done rest := by
  induction page generalizing seen with
  | nil => exact ⟨[], [], rfl, atEach_nil, by simp⟩
  | cons x page ih =>
    have hkeys : ∀ before : Page, seenBefore select (seenBefore select seen [x]) before =
        seenBefore select seen (x :: before) := by
      intro before
      cases hkey : (select x.1).key <;> simp [seenBefore, keys, hkey]
    by_cases hhalt : Halts select seen x
    · refine ⟨[], x :: page, rfl, atEach_nil, ?_⟩
      intro y hy
      obtain rfl : x = y := by simpa using hy
      simpa [seenBefore, keys] using hhalt
    · obtain ⟨done, rest, hsplit, hthrough, hstop⟩ := ih (seenBefore select seen [x])
      refine ⟨x :: done, rest, by rw [hsplit, List.cons_append], atEach_cons.mpr ⟨?_, ?_⟩, ?_⟩
      · simpa [seenBefore, keys] using hhalt
      · simpa only [hkeys] using hthrough
      · simpa only [hkeys] using hstop

/-- The part handled to the end is absorbed event by event. -/
theorem handlePage_done
    (h : AtEach (fun before x => ¬ Halts select (seenBefore select l.seenTxHashes before) x) done) :
    handlePage select l (done ++ rest) = handlePage select (done.foldl (absorb select) l) rest := by
  induction done using List.reverseRecOn generalizing rest with
  | nil => rfl
  | append_singleton done x ih =>
    obtain ⟨hdone, hx⟩ := atEach_concat.mp h
    rw [List.append_assoc, ih hdone, List.foldl_append]
    exact handlePage_cons fun hhalt => hx ((halts_congr (seen_foldl done)).mp hhalt)

/-- Where an event of a page stands in the chain. -/
theorem at_of_page {before after : Page}
    (h : (before ++ x :: after).map Prod.fst <+: chain.drop i) :
    chain[i + before.length]? = some x.1 := by
  obtain ⟨tail, htail⟩ := h
  rw [← List.getElem?_drop, ← htail]
  simp

theorem progress_foldl (h : Progress select chain n l) (hi : i ≤ n)
    (hpage : done.map Prod.fst <+: chain.drop i) (hkeyed : AtEach (Keyed select chain i) done) :
    Progress select chain (max n (i + done.length)) (done.foldl (absorb select) l) := by
  induction done using List.reverseRecOn with
  | nil => simpa [Nat.max_eq_left hi] using h
  | append_singleton done x ih =>
    obtain ⟨hdone, hx⟩ := atEach_concat.mp hkeyed
    have hat := at_of_page hpage
    rw [List.map_append] at hpage
    have hpart := (List.prefix_append _ _).trans hpage
    have hstep := progress_absorb (ih hpart hdone) (Nat.le_max_right _ _) hat hx
    rw [List.foldl_append, List.length_append]
    have hmax : max n (i + (done.length + [x].length)) =
        max (max n (i + done.length)) (i + done.length + 1) := by
      simp only [List.length_singleton]
      omega
    rw [hmax]
    exact hstep

theorem lastLedger_absorb (x : EventResponse × Bool) :
    (absorb select l x).lastLedger = l.lastLedger ∨ ¬ Known select l.seenTxHashes x.1 ∧
      l.lastLedger ≤ x.1.ledger ∧ (absorb select l x).lastLedger = x.1.ledger + 1 := by
  by_cases hknown : Known select l.seenTxHashes x.1
  · rw [absorb_known hknown]
    exact Or.inl rfl
  · rw [absorb_unknown hknown]
    unfold Listening.advance
    split
    · rename_i hle
      exact Or.inr ⟨hknown, hle, rfl⟩
    · exact Or.inl rfl

/-- The cursor stands still, or behind an event of the page that was not passed over. -/
theorem lastLedger_foldl (done : Page) :
    (done.foldl (absorb select) l).lastLedger = l.lastLedger ∨
      l.lastLedger < (done.foldl (absorb select) l).lastLedger ∧
      ∃ before x after, done = before ++ x :: after ∧
        ¬ Known select (seenBefore select l.seenTxHashes before) x.1 ∧
        (done.foldl (absorb select) l).lastLedger = x.1.ledger + 1 := by
  induction done using List.reverseRecOn with
  | nil => exact Or.inl rfl
  | append_singleton done x ih =>
    rw [List.foldl_append]
    change (absorb select (done.foldl (absorb select) l) x).lastLedger = _ ∨
      _ < (absorb select (done.foldl (absorb select) l) x).lastLedger ∧ ∃ before y after, _ ∧ _ ∧
        (absorb select (done.foldl (absorb select) l) x).lastLedger = _
    have hx : (absorb select (done.foldl (absorb select) l) x).lastLedger = _ ∨ _ :=
      lastLedger_absorb x
    rcases hx with hsame | ⟨hnew, hle, hmoved⟩
    · rw [hsame]
      refine ih.imp_right fun ⟨hlt, before, y, after, hdone, hy⟩ =>
        ⟨hlt, before, y, after ++ [x], ?_, hy⟩
      rw [hdone]
      simp
    · have hstart : l.lastLedger ≤ (done.foldl (absorb select) l).lastLedger := by
        rcases ih with hsame | ⟨hlt, -⟩
        · exact hsame.ge
        · exact hlt.le
      rw [hmoved]
      refine Or.inr ⟨by omega, done, x, [], rfl, ?_, rfl⟩
      rwa [known_congr (seen_foldl done)] at hnew

/-- A page advances the progress to its end, or to the event that throws, and leaves the cursor
where the part handled to the end has moved it. -/
theorem progress_page (h : Progress select chain n l) (hi : i ≤ n)
    (hpage : (done ++ rest).map Prod.fst <+: chain.drop i)
    (hhandled : Handled select l.seenTxHashes page done rest)
    (hkeyed : AtEach (Keyed select chain i) (done ++ rest.take 1)) :
    ∃ m, n ≤ m ∧ i + (done ++ rest.take 1).length ≤ m ∧
      (Answer.page i (done ++ rest)).reach select ≤ m ∧
      Progress select chain m (handlePage select l (done ++ rest)) ∧
      (handlePage select l (done ++ rest)).lastLedger =
        (done.foldl (absorb select) l).lastLedger := by
  have hfirst : done.map Prod.fst <+: chain.drop i := by
    rw [List.map_append] at hpage
    exact (List.prefix_append _ _).trans hpage
  have hdone := progress_foldl h hi hfirst hkeyed.append_left
  rw [handlePage_done hhandled.through]
  cases rest with
  | nil =>
    refine ⟨_, Nat.le_max_left _ _, by simp, ?_, hdone, rfl⟩
    simp only [Answer.reach, List.append_nil]
    split <;> omega
  | cons x rest =>
    have hhalts := (halts_congr (seen_foldl done)).mpr (hhandled.stop x rfl)
    have hx := (atEach_concat.mp hkeyed).2
    have hquiet : ¬ ((done ++ x :: rest).all fun x => !x.2 && !(select x.1).throws) = true := by
      intro hall
      have hquiet := List.all_eq_true.mp hall x (by simp)
      rcases hhalts.2 with hthrows | ⟨hthrows, -⟩ <;> simp [hthrows] at hquiet
    rw [handlePage_halts hhalts]
    refine ⟨_, ?_, ?_, ?_, progress_record hdone (Nat.le_max_right _ _) (at_of_page hpage)
      (fun hdue => (hx hdue).imp fun _ => And.left) hhalts.1, rfl⟩
    · omega
    · rw [List.length_append, List.take_succ_cons, List.length_cons, List.take_zero,
        List.length_nil]
      omega
    · rw [Answer.reach, if_neg hquiet]
      exact Nat.zero_le _

/-- What holds between two polls: nothing due above the point dealt with is below the cursor. -/
structure Kept (select : EventResponse → Selection α) (chain : List EventResponse) (n : ℕ)
    (l : Listening α) : Prop extends Progress select chain n l where
  ahead : ∀ e ∈ chain.drop n, (select e).due.isSome = true → l.lastLedger ≤ e.ledger

/-- What comes before a page may have been left out, but nothing was due there. -/
theorem Kept.start (h : Kept select chain n l)
    (hfront : ∀ e ∈ chain.take i, e.ledger < l.lastLedger) :
    Progress select chain (max n i) l := by
  refine h.toProgress.skip (Nat.le_max_left _ _) fun e he => ?_
  have hdrop := List.mem_of_mem_take he
  have hle : i ≤ n ∨ max n i = i := by omega
  rcases hle with hle | hmax
  · rw [Nat.max_eq_left hle, Nat.sub_self] at he
    cases he
  · rw [hmax, ← List.drop_take] at he
    have hlt := hfront e (List.mem_of_mem_drop he)
    cases hdue : (select e).due with
    | none => rfl
    | some d =>
      have hle := h.ahead e hdrop (by rw [hdue]; rfl)
      omega

/-- A clean answer keeps it up, further down the chain. -/
theorem poll_keeps (hsorted : chain.Pairwise (·.ledger ≤ ·.ledger)) (h : Kept select chain n l)
    {a : Answer} (hserves : Serves chain l a) (hclean : Clean select chain l a) :
    ∃ m, n ≤ m ∧ a.reach select ≤ m ∧ Kept select chain m (pollEvents select l a) := by
  cases a with
  | failed => exact ⟨n, le_rfl, Nat.zero_le n, h⟩
  | page skipped page =>
    obtain ⟨hpage, hfront⟩ := hserves
    obtain ⟨done, rest, hhandled⟩ := handled_exists select l.seenTxHashes page
    obtain ⟨hkeyed, hcloses⟩ := hclean done rest hhandled
    obtain rfl := hhandled.split
    obtain ⟨m, hle, hreach, hanswer, hprogress, hledger⟩ :=
      progress_page (h.start hfront) (Nat.le_max_right _ _) hpage hhandled hkeyed
    refine ⟨m, (Nat.le_max_left _ _).trans hle, hanswer, hprogress, fun e he hdue => ?_⟩
    change (handlePage select l (done ++ rest)).lastLedger ≤ e.ledger
    rw [hledger]
    have hcursor : (done.foldl (absorb select) l).lastLedger = _ ∨ _ := lastLedger_foldl done
    rcases hcursor with hsame | ⟨hlt, before, x, after, rfl, hnew, hmoved⟩
    · rw [hsame]
      have hsub := List.drop_sublist_drop_left chain ((Nat.le_max_left _ _).trans hle)
      exact h.ahead e (hsub.subset he) hdue
    · have hlater := (List.drop_sublist_drop_left chain hreach).subset he
      have hne := hcloses before x after rfl hnew (by omega) e hlater hdue
      have hat : chain[skipped + before.length]? = some x.1 := by
        rw [List.append_assoc, List.cons_append] at hpage
        exact at_of_page hpage
      have hmem : x.1 ∈ chain.take (skipped + (before ++ x :: after ++ rest.take 1).length) := by
        refine List.mem_iff_getElem?.mpr ⟨skipped + before.length, ?_⟩
        rw [List.getElem?_take_of_lt (by simp), hat]
      rw [← List.take_append_drop (skipped + (before ++ x :: after ++ rest.take 1).length) chain]
        at hsorted
      have hordered := (List.pairwise_append.mp hsorted).2.2 x.1 hmem e hlater
      omega

theorem answers_keep (hsorted : chain.Pairwise (·.ledger ≤ ·.ledger)) {answers : List Answer}
    (h : Kept select chain n l) (hserves : AtEachPoll select (Serves chain) l answers)
    (hclean : AtEachPoll select (Clean select chain) l answers) :
    ∃ m, n ≤ m ∧ (∀ a ∈ answers, a.reach select ≤ m) ∧
      Kept select chain m (answers.foldl (pollEvents select) l) := by
  induction answers generalizing l n with
  | nil => exact ⟨n, le_rfl, by simp, h⟩
  | cons a answers ih =>
    obtain ⟨m, hle, hreach, hkept⟩ := poll_keeps hsorted h hserves.1 hclean.1
    obtain ⟨m', hle', hreach', hkept'⟩ := ih hkept hserves.2 hclean.2
    exact ⟨m', hle.trans hle', List.forall_mem_cons.mpr ⟨hreach.trans hle', hreach'⟩, hkept'⟩

theorem AtEachPoll.initial {P : Listening α → Answer → Prop} {answers answers' : List Answer}
    (h : AtEachPoll select P l answers) (hpart : answers' <+: answers) :
    AtEachPoll select P l answers' := by
  obtain ⟨more, rfl⟩ := hpart
  induction answers' generalizing l with
  | nil => trivial
  | cons a answers' ih => exact ⟨h.1, ih h.2⟩

end Pages

section Runs

/-- A listener that meets clean answers only has, at every moment, called its callback once for
every event due so far. -/
def DeliversOnce (select : EventResponse → Selection α) (listener : List Answer → Listening α)
    (chain : List EventResponse) (start : ℕ) (answers : List Answer) : Prop :=
  AtEachPoll select (Serves chain) ⟨start, [], []⟩ answers →
  AtEachPoll select (Clean select chain) ⟨start, [], []⟩ answers →
    ∀ sofar, sofar <+: answers → Delivered select chain sofar (listener sofar)

theorem listen_delivers_once (select : EventResponse → Selection α) {start : ℕ}
    {answers : List Answer} (hsorted : chain.Pairwise (·.ledger ≤ ·.ledger))
    (hstart : ∀ e ∈ chain, start ≤ e.ledger) :
    DeliversOnce select (listen select start) chain start answers := by
  intro hserves hclean sofar hsofar
  have hkept : Kept select chain 0 ⟨start, [], []⟩ :=
    ⟨⟨rfl, by simp, by simp⟩, fun e he _ => hstart e he⟩
  obtain ⟨m, -, hreach, hend⟩ :=
    answers_keep hsorted hkept (hserves.initial hsofar) (hclean.initial hsofar)
  exact ⟨m, hreach, hend.delivered, hend.ahead⟩

/-- The three listeners, whatever pages they are given of the events from their first ledger on. -/
theorem listeners_deliver_once (scValToNative : ScVal → Option Native) (contractId : String)
    {option latest : Option ℕ} {answers : List Answer}
    (hsorted : chain.Pairwise (·.ledger ≤ ·.ledger))
    (hstart : ∀ e ∈ chain, startLedger option latest ≤ e.ledger) :
    DeliversOnce (selectMint scValToNative) (onMint scValToNative option latest) chain
        (startLedger option latest) answers ∧
      DeliversOnce (selectTransfer scValToNative) (onTransfer scValToNative option latest) chain
        (startLedger option latest) answers ∧
      DeliversOnce (selectVaultDeposit scValToNative contractId)
        (onVaultDeposit scValToNative contractId option latest) chain
        (startLedger option latest) answers :=
  ⟨listen_delivers_once _ hsorted hstart, listen_delivers_once _ hsorted hstart,
    listen_delivers_once _ hsorted hstart⟩

/-- A mint of 10 in the given ledger and transaction. -/
def mintResponse (ledger : ℕ) (txHash : String) : EventResponse :=
  (Emitted.token (.mint ⟨1⟩ ⟨2⟩ 10 10 10)).response ⟨ledger, some "token", some txHash, none⟩

def convert (v : ScVal) : Option Native := some (toNative v)

/-- Where nothing can throw a page is handled to its end. -/
theorem handled_quiet (h : Handled select seen page done rest)
    (hquiet : ∀ x ∈ page, x.2 = false ∧ (select x.1).throws = false) : done = page ∧ rest = [] := by
  obtain ⟨rfl, -, hstop⟩ := h
  cases rest with
  | nil => exact ⟨(List.append_nil done).symm, rfl⟩
  | cons x rest =>
    obtain ⟨hflag, hthrows⟩ := hquiet x (by simp)
    rcases (hstop x rfl).2 with hbad | ⟨hbad, -⟩
    · rw [hthrows] at hbad
      cases hbad
    · rw [hflag] at hbad
      cases hbad

/-- A page of one mint, and then one that repeats it in front of the next. -/
def overlapping : List Answer :=
  [.page 0 [(mintResponse 5 "a", false)],
   .page 0 [(mintResponse 5 "a", false), (mintResponse 6 "b", false)]]

theorem overlapping_clean :
    AtEachPoll (selectMint convert)
      (Clean (selectMint convert) [mintResponse 5 "a", mintResponse 6 "b"]) ⟨5, [], []⟩
      overlapping := by
  have hkeyed : ∀ before x, x ∈ [(mintResponse 5 "a", false), (mintResponse 6 "b", false)] →
      (selectMint convert x.1).key.all
        (· ∉ keys (selectMint convert) (before.map Prod.fst)) = true →
      [mintResponse 5 "a", mintResponse 6 "b"].take before.length = before.map Prod.fst →
      Keyed (selectMint convert) [mintResponse 5 "a", mintResponse 6 "b"] 0 before x := by
    intro before x hx hfresh htake hdue
    have hsome : ∀ x ∈ [(mintResponse 5 "a", false), (mintResponse 6 "b", false)],
        (selectMint convert x.1).key.isSome = true := by
      decide +kernel
    obtain ⟨k, hk⟩ := Option.isSome_iff_exists.mp (hsome x hx)
    rw [hk, Option.all_some, decide_eq_true_eq] at hfresh
    refine ⟨k, hk, ?_⟩
    rwa [zero_add, htake]
  refine ⟨fun done rest h => ?_, fun done rest h => ?_, trivial⟩
  · obtain ⟨rfl, rfl⟩ := handled_quiet h (by decide +kernel)
    simp only [List.take_nil, List.append_nil, atEach_cons, atEach_nil, and_true]
    refine ⟨hkeyed [] _ (by simp) (by decide +kernel) rfl, ?_⟩
    intro _ _ y hy _
    obtain rfl : y = mintResponse 6 "b" := by simpa using hy
    decide
  · obtain ⟨rfl, rfl⟩ := handled_quiet h (by decide +kernel)
    simp only [List.take_nil, List.append_nil, atEach_cons, atEach_nil, and_true]
    refine ⟨⟨hkeyed [] _ (by simp) (by decide +kernel) rfl,
      hkeyed [_] _ (by simp) (by decide +kernel) rfl⟩, ?_, ?_⟩
    · intro _ _ y hy _
      simp at hy
    · intro _ _ y hy _
      simp at hy

theorem overlapping_delivered :
    Delivered (selectMint convert) [mintResponse 5 "a", mintResponse 6 "b"] overlapping
      (onMint convert (some 5) none overlapping) ∧
    (onMint convert (some 5) none overlapping).delivered.length = 2 := by
  have hsorted : [mintResponse 5 "a", mintResponse 6 "b"].Pairwise (·.ledger ≤ ·.ledger) := by
    simp [mintResponse, Emitted.response]
  have hstart : ∀ e ∈ [mintResponse 5 "a", mintResponse 6 "b"],
      startLedger (some 5) none ≤ e.ledger := by
    simp [mintResponse, Emitted.response, startLedger]
  refine ⟨(listeners_deliver_once convert "token" hsorted hstart).1 ?_ overlapping_clean _
    (List.prefix_refl _), by decide +kernel⟩
  exact ⟨⟨List.prefix_append _ _, by simp⟩, ⟨List.prefix_refl _, by simp⟩, trivial⟩

/-- Two mints of one transaction, in one page. -/
def batched : List EventResponse := [mintResponse 5 "a", mintResponse 5 "a"]

/-- The second one is taken for the first one come again. -/
theorem batched_not_delivered : batched.Pairwise (·.ledger ≤ ·.ledger) ∧
    (∀ e ∈ batched, startLedger (some 5) none ≤ e.ledger) ∧
    AtEachPoll (selectMint convert) (Serves batched) ⟨5, [], []⟩
      [.page 0 (batched.map fun e => (e, false))] ∧
    ¬ Delivered (selectMint convert) batched [.page 0 (batched.map fun e => (e, false))]
      (onMint convert (some 5) none [.page 0 (batched.map fun e => (e, false))]) := by
  refine ⟨by simp [batched, mintResponse, Emitted.response],
    by simp [batched, mintResponse, Emitted.response, startLedger], ⟨⟨?_, by simp⟩, trivial⟩, ?_⟩
  · simp [Function.comp_def]
  · rintro ⟨n, hreach, hdelivered, -⟩
    have hall : 2 ≤ n := by
      have hreach := hreach _ List.mem_cons_self
      have htwo : (Answer.page 0 (batched.map fun e => (e, false))).reach (selectMint convert) =
          2 := by
        decide +kernel
      omega
    have htake : batched.take n = batched := List.take_of_length_le hall
    rw [htake] at hdelivered
    have hlength := congrArg List.length hdelivered
    have hone : (onMint convert (some 5) none
        [.page 0 (batched.map fun e => (e, false))]).delivered.length = 1 := by
      decide +kernel
    have htwo : (batched.filterMap fun e => (selectMint convert e).due).length = 2 := by
      decide +kernel
    omega

end Runs

end BcForge.Sdk
