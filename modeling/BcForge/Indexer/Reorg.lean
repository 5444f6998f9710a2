import BcForge.Indexer.Runner

/-! Reorganisations in the main loop: what a rollback leaves behind, and which of them the loop can
see. It keeps its position in the database and in variables of its own, and a rollback moves only
the former. -/
namespace BcForge.Indexer

variable {chain : List EventResponse} {s : State} {a : Answers chain} {as : List (Answers chain)}

section Rewind

/-- The primary key of `IndexedLedger`. -/
def UniqueLedgers (db : Database) : Prop :=
  (db.indexedLedger.map LedgerCoordinate.ledger).Nodup

variable {db : Database} {remote : List LedgerResponse} {cursor : Cursor}
  {common : Option LedgerCoordinate} {stored data checkpoints : List LedgerCoordinate}

theorem nodup_createMany (h : (stored.map LedgerCoordinate.ledger).Nodup) :
    ((createMany stored data).map LedgerCoordinate.ledger).Nodup := by
  unfold createMany
  induction data generalizing stored with
  | nil => exact h
  | cons c data ih =>
    refine ih ?_
    dsimp only
    split
    · exact h
    · rename_i hfree
      simp only [List.any_eq_true, decide_eq_true_eq, not_exists, not_and, not_or] at hfree
      rw [List.map_append, List.nodup_append]
      refine ⟨h, List.nodup_singleton _, ?_⟩
      intro n hn m hm hne
      obtain ⟨x, hx, rfl⟩ := List.mem_map.mp hn
      rw [List.map_singleton, List.mem_singleton] at hm
      exact (hfree x hx).1 (hne.trans hm)

theorem sorted_persisted (h : UniqueLedgers db) (cursor : Cursor) :
    (persistedCheckpoints db cursor).Pairwise fun c d => c.ledger < d.ledger := by
  have hle : (persistedCheckpoints db cursor).Pairwise fun c d => c.ledger ≤ d.ledger :=
    List.pairwise_insertionSort _ _
  have hne : (persistedCheckpoints db cursor).Pairwise fun c d => c.ledger ≠ d.ledger := by
    have hperm := List.perm_insertionSort (fun c d : LedgerCoordinate => c.ledger ≤ d.ledger)
      (db.indexedLedger.filter fun c =>
        scanStart cursor.ledger ≤ c.ledger ∧ c.ledger ≤ cursor.ledger)
    refine List.pairwise_map.mp ((hperm.map LedgerCoordinate.ledger).nodup_iff.mpr ?_)
    exact h.sublist (List.filter_sublist.map _)
  exact hle.imp₂ (fun c d hcd hne => lt_of_le_of_ne hcd hne) hne

/-- The scan stops at a ledger above the last one that was confirmed. -/
theorem scan_stops_above {c : LedgerCoordinate}
    (hsorted : checkpoints.Pairwise fun c d => c.ledger < d.ledger)
    (hcommon : ∀ c ∈ common, ∀ x ∈ checkpoints, c.ledger < x.ledger)
    (h : scanCheckpoints remote checkpoints common = (some c, true)) :
    ∃ x ∈ checkpoints, c.ledger < x.ledger := by
  induction checkpoints generalizing common with
  | nil => cases h
  | cons checkpoint rest ih =>
    obtain ⟨hfirst, hrest⟩ := List.pairwise_cons.mp hsorted
    unfold scanCheckpoints at h
    split at h
    · have hnext : ∀ c ∈ some checkpoint, ∀ x ∈ rest, c.ledger < x.ledger := by
        intro c hc
        cases hc
        exact hfirst
      obtain ⟨x, hx, hlt⟩ := ih hrest hnext h
      exact ⟨x, List.mem_cons_of_mem _ hx, hlt⟩
    · obtain ⟨rfl, -⟩ := Prod.mk.inj h
      exact ⟨checkpoint, List.mem_cons_self, hcommon c rfl checkpoint List.mem_cons_self⟩

theorem ledger_le_last {c last : LedgerCoordinate}
    (hsorted : checkpoints.Pairwise fun c d => c.ledger < d.ledger) (hc : c ∈ checkpoints)
    (hlast : checkpoints.getLast? = some last) : c.ledger ≤ last.ledger := by
  rw [← List.dropLast_append_getLast? last hlast] at hsorted hc
  rcases List.mem_append.mp hc with hc | hc
  · exact Nat.le_of_lt ((List.pairwise_append.mp hsorted).2.2 c hc last (by simp))
  · rw [List.mem_singleton.mp hc]

/-- A rollback always goes below the cursor it was called with. -/
theorem rewindLedger_lt (hkeys : UniqueLedgers db) (h : forkPoint db remote cursor = some common) :
    rewindLedger common < cursor.ledger := by
  have hsorted := sorted_persisted hkeys cursor
  obtain ⟨hpos, hcases⟩ := forkPoint_cases h
  cases common with
  | none => exact hpos
  | some c =>
    change c.ledger < cursor.ledger
    obtain ⟨last, hlast, hcommon, hmismatch | hne⟩ | hbelow := hcases
    · obtain ⟨x, hx, hlt⟩ := scan_stops_above hsorted (by simp) (Prod.ext hcommon hmismatch)
      exact Nat.lt_of_lt_of_le hlt (ledger_le_of_persisted hx)
    · rcases scanCheckpoints_common hcommon with hnone | hc
      · cases hnone
      · have hle := ledger_le_last hsorted hc hlast
        have hcursor := ledger_le_of_persisted (List.mem_of_getLast? hlast)
        omega
    · have := hbelow c rfl
      omega

end Rewind

/-- The state after a number of iterations. -/
def iterateAll (s : State) (as : List (Answers chain)) : State := as.foldl iterate s

/-- Each iteration has the property in the state it starts from. -/
def EveryIteration (P : State → Answers chain → Prop) : State → List (Answers chain) → Prop
  | _, [] => True
  | s, a :: as => P s a ∧ EveryIteration P (iterate s a) as

instance decidableEveryIteration (P : State → Answers chain → Prop)
    [∀ s a, Decidable (P s a)] : ∀ s as, Decidable (EveryIteration P s as)
  | _, [] => inferInstanceAs (Decidable True)
  | s, a :: as => @instDecidableAnd _ _ _ (decidableEveryIteration P (iterate s a) as)

theorem everyIteration_mono {P Q : State → Answers chain → Prop} (hpq : ∀ s a, P s a → Q s a)
    (h : EveryIteration P s as) : EveryIteration Q s as := by
  induction as generalizing s with
  | nil => trivial
  | cons a as ih => exact ⟨hpq s a h.1, ih h.2⟩

/-- The loop never goes back. -/
theorem startLedger_le_iterate (s : State) (a : Answers chain) :
    s.startLedger ≤ (iterate s a).startLedger := by
  unfold iterate
  split
  · exact Nat.le_refl _
  · exact Nat.le_refl _
  · rename_i endLedger coordinates events hturn
    have hend := (turn_ingest hturn).2.1
    dsimp only
    split
    · exact Nat.le_refl _
    · split
      · exact Nat.le_refl _
      · exact Nat.le_succ_of_le hend

theorem startLedger_le_iterateAll (as : List (Answers chain)) :
    s.startLedger ≤ (iterateAll s as).startLedger := by
  induction as generalizing s with
  | nil => exact Nat.le_refl _
  | cons a as ih => exact Nat.le_trans (startLedger_le_iterate s a) ih

section Reingestion

/-- The ledger an iteration rolls the cursor back to. -/
def rolledBackTo (s : State) (a : Answers chain) : Option ℕ :=
  match turn s a with
  | .reconcile cursor remote => (forkPoint s.db remote cursor).map rewindLedger
  | _ => none

/-- The first ledger of the range an iteration fetches and processes. -/
def ingestedFrom (s : State) (a : Answers chain) : Option ℕ :=
  match turn s a with
  | .ingest _ _ _ => some s.startLedger
  | _ => none

/-- The rollback that still waits for its range after an iteration. -/
def awaiting (s : State) (a : Answers chain) (pending : Option ℕ) : Option ℕ :=
  match rolledBackTo s a, ingestedFrom s a with
  | some ledger, _ => some ledger
  | none, some _ => none
  | none, none => pending

/-- After every rollback, the next range that is ingested begins right above it. -/
def Reingests : Option ℕ → State → List (Answers chain) → Prop
  | _, _, [] => True
  | pending, s, a :: as =>
    (∀ ledger ∈ pending, ∀ first ∈ ingestedFrom s a, first = ledger + 1) ∧
      Reingests (awaiting s a pending) (iterate s a) as

instance decidableReingests : ∀ (pending : Option ℕ) (s : State) (as : List (Answers chain)),
    Decidable (Reingests pending s as)
  | _, _, [] => inferInstanceAs (Decidable True)
  | pending, s, a :: as =>
    @instDecidableAnd _ _ _ (decidableReingests (awaiting s a pending) (iterate s a) as)

def IngestsNothing (s : State) (as : List (Answers chain)) : Prop :=
  EveryIteration (fun s a => ingestedFrom s a = none) s as

instance (s : State) (as : List (Answers chain)) : Decidable (IngestsNothing s as) :=
  inferInstanceAs (Decidable (EveryIteration _ s as))

/-- Once a reconciliation has found a fork, the run ingests nothing any more. -/
def NothingAfterFork : State → List (Answers chain) → Prop
  | _, [] => True
  | s, a :: as =>
    (rolledBackTo s a ≠ none → IngestsNothing (iterate s a) as) ∧ NothingAfterFork (iterate s a) as

instance decidableNothingAfterFork : ∀ (s : State) (as : List (Answers chain)),
    Decidable (NothingAfterFork s as)
  | _, [] => inferInstanceAs (Decidable True)
  | s, a :: as => @instDecidableAnd _ _ _ (decidableNothingAfterFork (iterate s a) as)

/-- The cursor in memory is older than the range to come, and so is what it leads back to. -/
structure Behind (s : State) (pending : Option ℕ) : Prop where
  keys : UniqueLedgers s.db
  cursor : ∀ cursor ∈ s.lastLedger, cursor.ledger < s.startLedger
  pending : ∀ ledger ∈ pending, ledger + 1 < s.startLedger

theorem behind_start {db : Database} (remote : List LedgerResponse) (h : UniqueLedgers db) :
    Behind (startIndexer db remote) none := by
  unfold startIndexer
  split
  · exact ⟨h, by simp, by simp⟩
  · rename_i last hlast
    refine ⟨?_, ?_, by simp⟩
    · change UniqueLedgers (seedLedgerCheckpoints db remote last)
      unfold seedLedgerCheckpoints
      split
      · exact h
      · dsimp only
        split
        · exact h
        · exact nodup_createMany h
    · intro cursor hcursor
      cases hcursor
      exact Nat.lt_succ_self _

theorem behind_iterate {pending : Option ℕ} (h : Behind s pending) (a : Answers chain) :
    Behind (iterate s a) (awaiting s a pending) := by
  cases hturn : turn s a with
  | idle =>
    simp only [iterate, awaiting, rolledBackTo, ingestedFrom, hturn]
    exact h
  | reconcile cursor remote =>
    have hcursor := h.cursor cursor (turn_reconcile hturn)
    cases hfork : forkPoint s.db remote cursor with
    | none =>
      simp only [iterate, awaiting, rolledBackTo, ingestedFrom, hturn, reconcileLedgerCursor, hfork]
      exact h
    | some common =>
      simp only [iterate, awaiting, rolledBackTo, hturn, reconcileLedgerCursor, hfork]
      refine ⟨h.keys.sublist (List.filter_sublist.map _), h.cursor, ?_⟩
      intro ledger hledger
      cases hledger
      have hbelow := rewindLedger_lt h.keys hfork
      change rewindLedger common + 1 < s.startLedger
      omega
  | ingest endLedger coordinates events =>
    have hend := (turn_ingest hturn).2.1
    simp only [iterate, awaiting, rolledBackTo, ingestedFrom, hturn]
    split
    · exact ⟨h.keys, h.cursor, by simp⟩
    · split
      · exact ⟨h.keys, h.cursor, by simp⟩
      · refine ⟨nodup_createMany h.keys, ?_, by simp⟩
        intro cursor hcursor
        have hbefore := h.cursor cursor hcursor
        change cursor.ledger < endLedger + 1
        omega

theorem ingestedFrom_eq {first : ℕ} (h : ingestedFrom s a = some first) :
    first = s.startLedger := by
  unfold ingestedFrom at h
  split at h
  · exact (Option.some.inj h).symm
  · cases h

/-- A range that is ingested while a rollback waits begins too high. -/
theorem reingests_iff_of_behind {pending : Option ℕ} (h : Behind s pending) :
    Reingests pending s as ↔ (pending ≠ none → IngestsNothing s as) ∧ NothingAfterFork s as := by
  induction as generalizing s pending with
  | nil => simp [Reingests, IngestsNothing, EveryIteration, NothingAfterFork]
  | cons a as ih =>
    have hrest := ih (behind_iterate h a)
    simp only [Reingests, IngestsNothing, EveryIteration, NothingAfterFork, hrest]
    cases pending with
    | none =>
      have hawaits : awaiting s a none ≠ none ↔ rolledBackTo s a ≠ none := by
        unfold awaiting
        split <;> simp_all
      simp [hawaits]
    | some ledger =>
      have hbehind := h.pending ledger rfl
      constructor
      · rintro ⟨hfirst, hwaiting, hfork⟩
        have hnone : ingestedFrom s a = none := by
          cases hingest : ingestedFrom s a with
          | none => rfl
          | some first =>
            have hstart := ingestedFrom_eq hingest
            have habove := hfirst ledger rfl first hingest
            omega
        have hnothing := hwaiting (by unfold awaiting; rw [hnone]; split <;> simp_all)
        exact ⟨fun _ => ⟨hnone, hnothing⟩, fun _ => hnothing, hfork⟩
      · rintro ⟨hpending, -, hfork⟩
        obtain ⟨hnone, hnothing⟩ := hpending (by simp)
        exact ⟨by simp [hnone], fun _ => hnothing, hfork⟩

/-- A run takes up what its rollbacks dropped exactly when it ingests nothing after them: the
variables of the loop stay where they were. -/
theorem reingests_iff (db : Database) (remote : List LedgerResponse) (hkeys : UniqueLedgers db)
    (as : List (Answers chain)) :
    Reingests none (startIndexer db remote) as ↔ NothingAfterFork (startIndexer db remote) as := by
  rw [reingests_iff_of_behind (behind_start remote hkeys)]
  exact and_iff_right fun hnone => absurd rfl hnone

/-- Ledgers up to 5 are indexed, the last two with their checkpoints. -/
def upToFive : Database where
  tables := Tables.empty
  lastIndexedLedger := some ⟨5, some "h5", some "h4"⟩
  indexedLedger := [⟨4, "h4", "h3"⟩, ⟨5, "h5", "h4"⟩]

/-- An iteration over a chain without events. -/
def answered (latest : ℕ) (ledgers remote : List LedgerResponse) : Answers [] where
  latest := some latest
  ledgers := some ledgers
  remote := some remote
  events := some []
  commitFails := false
  inOrder := by
    intro ds hds
    cases hds
    exact List.nil_sublist []

/-- Ledger 5 is replaced before ledger 6 is seen: the loop goes back to 4, and gets no further. -/
def replacedAtOnce : List (Answers []) :=
  let g := [⟨4, "h4", "h3"⟩, ⟨5, "g5", "h4"⟩, ⟨6, "g6", "g5"⟩]
  [answered 6 g g, answered 6 g g]

theorem replacedAtOnce_reingests : Reingests none (startIndexer upToFive []) replacedAtOnce ∧
    (iterateAll (startIndexer upToFive []) replacedAtOnce).db.lastIndexedLedger =
      some ⟨4, some "h4", some "h3"⟩ := by
  have hkeys : UniqueLedgers upToFive := by
    unfold UniqueLedgers
    decide
  exact ⟨(reingests_iff upToFive [] hkeys replacedAtOnce).mpr (by decide +kernel),
    by decide +kernel⟩

/-- Ledgers 5 and 6 are replaced after 6 was indexed. The RPC does not have ledger 7 at first, which
makes the loop look for the fork, and has it a moment later. -/
def replacedLate : List (Answers []) :=
  let h := [⟨5, "h5", "h4"⟩, ⟨6, "h6", "h5"⟩]
  let g := [⟨4, "h4", "h3"⟩, ⟨5, "g5", "h4"⟩, ⟨6, "g6", "g5"⟩]
  [answered 6 h [], answered 7 g g, answered 7 (g ++ [⟨7, "g7", "g6"⟩]) []]

/-- After the rollback to ledger 4 the next range is ledger 7: the new ledgers 5 and 6 are left
out. -/
theorem replacedLate_skips : ¬ Reingests none (startIndexer upToFive []) replacedLate ∧
    (iterateAll (startIndexer upToFive []) replacedLate).db.lastIndexedLedger =
      some ⟨7, some "g7", some "g6"⟩ := by
  exact ⟨by decide +kernel, by decide +kernel⟩

end Reingestion

section Continuity

/-- The hash persisted for the last indexed ledger. -/
def State.persistedHash (s : State) : Option String :=
  s.db.lastIndexedLedger.bind Cursor.knownHash

/-- The range as an iteration fetches it: its last ledger and its coordinates. -/
def fetched (s : State) (a : Answers chain) : Option (ℕ × List LedgerResponse) :=
  match a.latest, a.ledgers with
  | some currentLedger, some ledgers =>
    if s.startLedger > currentLedger then none
    else some (min (s.startLedger + 1000) currentLedger, ledgers)
  | _, _ => none

/-- The range begins with a ledger whose parent is not the one that was indexed last. -/
def Breaks (s : State) (a : Answers chain) : Prop :=
  ∃ hash ∈ s.persistedHash, ∃ range ∈ fetched s a,
    ∃ first ∈ (rangeCoordinates range.2 s.startLedger range.1).head?, first.parentHash ≠ hash

instance (s : State) (a : Answers chain) : Decidable (Breaks s a) :=
  inferInstanceAs (Decidable (∃ hash ∈ s.persistedHash, _))

/-- The iteration calls `reconcileLedgerCursor`, whether or not the RPC then answers, and leaves the
range alone. -/
def Reconciles (s : State) (a : Answers chain) : Prop :=
  ∃ cursor ∈ s.lastLedger, turn s a =
    match a.remote with
    | some remote => .reconcile cursor remote
    | none => .idle

instance (s : State) (a : Answers chain) : Decidable (Reconciles s a) :=
  inferInstanceAs (Decidable (∃ cursor ∈ s.lastLedger, _))

/-- A range that does not continue the indexed chain is not ingested: the cursor is reconciled
instead. -/
def Continues (s : State) (a : Answers chain) : Prop := Breaks s a → Reconciles s a

instance (s : State) (a : Answers chain) : Decidable (Continues s a) :=
  inferInstanceAs (Decidable (_ → _))

/-- The loop compares the range with a ledger that has the persisted hash, and can reconcile. False
from the second page of every fresh database on: the cursor is only read at the start, and there was
none. -/
def Trusted (s : State) (a : Answers chain) : Prop :=
  ∀ hash ∈ s.persistedHash, s.lastLedger ≠ none ∧
    ∀ range ∈ fetched s a, (previousCoordinate s range.2).map LedgerCoordinate.hash = some hash

instance (s : State) (a : Answers chain) : Decidable (Trusted s a) :=
  inferInstanceAs (Decidable (∀ hash ∈ s.persistedHash, _))

/-- The cursor in memory is the persisted one, right below the range. -/
def InStep (s : State) : Prop :=
  ∀ hash ∈ s.persistedHash, ∃ cursor ∈ s.lastLedger,
    cursor.ledger = s.startLedger - 1 ∧ cursor.knownHash = some hash

/-- What an iteration comes to, once it has a range. -/
theorem turn_fetched {endLedger : ℕ} {ledgers : List LedgerResponse}
    (h : fetched s a = some (endLedger, ledgers)) :
    turn s a =
      let coordinates := rangeCoordinates ledgers s.startLedger endLedger
      if coordinates.length ≠ endLedger - s.startLedger + 1 ∨
          hasContinuousParentChain coordinates (previousCoordinate s ledgers) = false then
        match s.lastLedger, a.remote with
        | some cursor, some remote => .reconcile cursor remote
        | _, _ => .idle
      else
        match a.events with
        | some events => .ingest endLedger coordinates events
        | none => .idle := by
  unfold fetched at h
  split at h
  · rename_i currentLedger ledgers' hlatest hledgers
    split at h
    · cases h
    · rename_i hstart
      cases h
      unfold turn
      rw [hlatest, hledgers]
      exact if_neg hstart
  · cases h

/-- A range whose first ledger has another parent than the one it is compared with. -/
theorem continues_of_trusted (h : Trusted s a) : Continues s a := by
  rintro ⟨hash, hhash, ⟨endLedger, ledgers⟩, hrange, first, hfirst, hne⟩
  obtain ⟨hcursor, hprevious⟩ := h hash hhash
  obtain ⟨previous, hp, rfl⟩ := Option.map_eq_some_iff.mp (hprevious _ hrange)
  obtain ⟨cursor, hcursor⟩ := Option.ne_none_iff_exists'.mp hcursor
  have hbroken : hasContinuousParentChain (rangeCoordinates ledgers s.startLedger endLedger)
      (previousCoordinate s ledgers) = false := by
    obtain ⟨rest, hrest⟩ := List.head?_eq_some_iff.mp hfirst
    rw [hrest, show previousCoordinate s ledgers = some previous from hp]
    simp [hasContinuousParentChain, hne]
  refine ⟨cursor, hcursor, ?_⟩
  rw [turn_fetched hrange]
  dsimp only
  rw [if_pos (Or.inr hbroken), hcursor]
  cases a.remote <;> rfl

theorem trusted_of_inStep (h : InStep s) (a : Answers chain) : Trusted s a := by
  intro hash hhash
  obtain ⟨cursor, hcursor, hledger, hknown⟩ := h hash hhash
  have hlast : s.lastLedger = some cursor := hcursor
  refine ⟨by simp [hlast], fun range _ => ?_⟩
  simp [previousCoordinate, hlast, hknown, hledger]

/-- A chain that differs at the ledger below the range, and goes on from whatever the loop takes
that ledger for. -/
def forged (s : State) (hash : String) : Answers chain where
  latest := some s.startLedger
  ledgers :=
    let below : LedgerResponse := ⟨s.startLedger - 1, hash ++ "'", ""⟩
    let parent := ((previousCoordinate s [below]).map LedgerCoordinate.hash).getD ""
    some [below, ⟨s.startLedger, "", parent⟩]
  remote := none
  events := some []
  commitFails := false
  inOrder := by
    intro ds hds
    cases hds
    exact List.nil_sublist chain

/-- The ledger below the range is all the loop looks at for a parent. -/
theorem previousCoordinate_below {below : LedgerResponse} (h : below.sequence = s.startLedger - 1)
    (rest : List LedgerResponse) :
    previousCoordinate s (below :: rest) = previousCoordinate s [below] := by
  simp [previousCoordinate, h]

/-- Out of step, it has another hash than the persisted one. -/
theorem previousCoordinate_forged {hash : String}
    (hout : ∀ cursor ∈ s.lastLedger,
      cursor.ledger = s.startLedger - 1 → cursor.knownHash ≠ some hash) :
    ∃ p, previousCoordinate s [⟨s.startLedger - 1, hash ++ "'", ""⟩] = some p ∧
      p.ledger = s.startLedger - 1 ∧ p.hash ≠ hash := by
  have hfresh : hash ++ "'" ≠ hash := by
    intro he
    have hlength := congrArg String.length he
    simp at hlength
  have hanswered : ((([⟨s.startLedger - 1, hash ++ "'", ""⟩] : List LedgerResponse).filter
      (·.sequence = s.startLedger - 1)).map toLedgerCoordinate).head? =
        some ⟨s.startLedger - 1, hash ++ "'", ""⟩ := by
    simp [toLedgerCoordinate]
  unfold previousCoordinate
  rw [hanswered]
  split
  · exact ⟨_, rfl, rfl, hfresh⟩
  · rename_i last hlast
    split
    · exact ⟨_, rfl, rfl, hfresh⟩
    · rename_i known hknown
      dsimp only
      split
      · rename_i hledger
        refine ⟨_, rfl, hledger, ?_⟩
        intro he
        exact hout last hlast hledger (by rw [hknown]; exact congrArg some he)
      · exact ⟨_, rfl, rfl, hfresh⟩

/-- A state out of step can meet a chain that it follows without noticing. -/
theorem inStep_of_continues (hstart : 0 < s.startLedger)
    (h : ∀ a : Answers chain, Continues s a) : InStep s := by
  intro hash hhash
  by_contra hout
  push Not at hout
  obtain ⟨p, hp, hledger, hne⟩ := previousCoordinate_forged hout
  have hprevious : ∀ rest, previousCoordinate s (⟨s.startLedger - 1, hash ++ "'", ""⟩ :: rest) =
      some p := fun rest => (previousCoordinate_below rfl rest).trans hp
  have hfetched : fetched s (forged s hash : Answers chain) = some (s.startLedger,
      [⟨s.startLedger - 1, hash ++ "'", ""⟩, ⟨s.startLedger, "", p.hash⟩]) := by
    simp [fetched, forged, hp]
  have hrange : rangeCoordinates [⟨s.startLedger - 1, hash ++ "'", ""⟩,
      ⟨s.startLedger, "", p.hash⟩] s.startLedger s.startLedger =
        [⟨s.startLedger, "", p.hash⟩] := by
    have hbelow : ¬ s.startLedger ≤ s.startLedger - 1 := by omega
    simp [rangeCoordinates, toLedgerCoordinate, hbelow]
  have hbreaks : Breaks s (forged s hash : Answers chain) := by
    refine ⟨hash, hhash, _, hfetched, ⟨s.startLedger, "", p.hash⟩, ?_, hne⟩
    rw [hrange]
    rfl
  obtain ⟨cursor, -, hturn⟩ := h _ hbreaks
  rw [turn_fetched hfetched] at hturn
  dsimp only at hturn
  have hcontinuous : hasContinuousParentChain [⟨s.startLedger, "", p.hash⟩] (some p) = true := by
    have hnext : s.startLedger = p.ledger + 1 := by omega
    simp [hasContinuousParentChain, hnext]
  rw [hrange, hprevious, hcontinuous, if_neg (by simp)] at hturn
  cases hturn

theorem startLedger_pos (db : Database) (remote : List LedgerResponse)
    (as : List (Answers chain)) : 0 < (iterateAll (startIndexer db remote) as).startLedger := by
  have hstart : 0 < (startIndexer db remote).startLedger := by
    unfold startIndexer
    split <;> exact Nat.succ_pos _
  exact Nat.lt_of_lt_of_le hstart (startLedger_le_iterateAll as)

/-- A run follows the indexed chain while the ledger the loop compares with carries the persisted
hash; and whatever chain comes next, it is followed only from a state in which the loop's own cursor
is still the persisted one. -/
theorem chain_continuity (db : Database) (remote : List LedgerResponse)
    (as : List (Answers chain)) :
    (EveryIteration Trusted (startIndexer db remote) as →
      EveryIteration Continues (startIndexer db remote) as) ∧
    ((∀ a : Answers chain, Continues (iterateAll (startIndexer db remote) as) a) ↔
      InStep (iterateAll (startIndexer db remote) as)) := by
  refine ⟨everyIteration_mono fun s a => continues_of_trusted, ?_, ?_⟩
  · exact inStep_of_continues (startLedger_pos db remote as)
  · exact fun h a => continues_of_trusted (trusted_of_inStep h a)

/-- The replaced ledger 5 is noticed: the loop still compares with the cursor it has read. -/
theorem replacedAtOnce_noticed :
    EveryIteration Continues (startIndexer upToFive []) (replacedAtOnce.take 1) ∧
    EveryIteration Breaks (startIndexer upToFive []) (replacedAtOnce.take 1) :=
  ⟨(chain_continuity upToFive [] (replacedAtOnce.take 1)).1 (by decide +kernel), by decide +kernel⟩

/-- Ledger 6 is replaced after it was indexed. -/
def replacedBelow : List (Answers []) :=
  [answered 6 [⟨5, "h5", "h4"⟩, ⟨6, "h6", "h5"⟩] [],
   answered 7 [⟨6, "g6", "h5"⟩, ⟨7, "g7", "g6"⟩] []]

/-- The loop takes the new ledger 6 for the indexed one and goes on to ledger 7. -/
theorem replacedBelow_unnoticed :
    ¬ EveryIteration Continues (startIndexer upToFive []) replacedBelow ∧
    (iterateAll (startIndexer upToFive []) replacedBelow).db.indexedLedger =
      [⟨4, "h4", "h3"⟩, ⟨5, "h5", "h4"⟩, ⟨6, "h6", "h5"⟩, ⟨7, "g7", "g6"⟩] := by
  exact ⟨by decide +kernel, by decide +kernel⟩

end Continuity

end BcForge.Indexer
