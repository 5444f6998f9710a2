import BcForge.Indexer.Cursor

/-! Where a reconciliation stops, and what it leaves behind. -/
namespace BcForge.Indexer

variable {db : Database} {remote : List LedgerResponse} {cursor : Cursor}
  {checkpoints : List LedgerCoordinate} {common : Option LedgerCoordinate} {n : ℕ} {hash : String}
  {parent : Option String}

/-- The remote answer has ledger `n` with this hash, and with this parent hash if it is known. -/
def Present (remote : List LedgerResponse) (n : ℕ) (hash : String) (parent : Option String) :
    Prop :=
  ∃ r, remoteBySequence remote n = some r ∧ r.hash = hash ∧ ∀ p ∈ parent, r.parentHash = p

theorem Present.mem (h : Present remote n hash parent) : ∃ l ∈ remote, l.sequence = n ∧
    l.hash = hash ∧ ∀ p ∈ parent, l.previousLedgerHash = p := by
  obtain ⟨r, hr, hhash, hparent⟩ := h
  obtain ⟨l, hl, rfl⟩ := Option.map_eq_some_iff.mp hr
  have hfound := List.find?_some hl
  exact ⟨l, List.mem_reverse.mp (List.mem_of_find?_eq_some hl), of_decide_eq_true hfound, hhash,
    hparent⟩

/-- The remote answer has the checkpoint. -/
def Confirmed (remote : List LedgerResponse) (c : LedgerCoordinate) : Prop :=
  Present remote c.ledger c.hash (some c.parentHash)

/-- The remote answer has the cursor, as far as its hashes are known. -/
def CursorConfirmed (remote : List LedgerResponse) (cursor : Cursor) : Prop :=
  ∀ hash ∈ cursor.knownHash, Present remote cursor.ledger hash cursor.parentHash

theorem confirms_iff {c : LedgerCoordinate} : confirms remote c = true ↔ Confirmed remote c := by
  unfold confirms Confirmed Present
  cases h : remoteBySequence remote c.ledger with
  | none => simp
  | some r => simp

theorem contradicts_iff : contradicts remote cursor = true ↔ ¬ CursorConfirmed remote cursor := by
  unfold contradicts CursorConfirmed Present
  cases hhash : cursor.knownHash with
  | none => simp
  | some hash =>
    cases hr : remoteBySequence remote cursor.ledger with
    | none => simp
    | some r => cases hparent : cursor.parentHash <;> simp [imp_iff_not_or]

/-- The scan splits the checkpoints before the first one that is not confirmed. -/
theorem scanCheckpoints_split (remote : List LedgerResponse) (checkpoints : List LedgerCoordinate)
    (common : Option LedgerCoordinate) :
    ∃ good rest, checkpoints = good ++ rest ∧ (∀ c ∈ good, Confirmed remote c) ∧
      (∀ c ∈ rest.head?, ¬ Confirmed remote c) ∧
      scanCheckpoints remote checkpoints common =
        (good.getLast?.or common, !rest.isEmpty) := by
  induction checkpoints generalizing common with
  | nil => exact ⟨[], [], rfl, by simp, by simp, by simp [scanCheckpoints]⟩
  | cons checkpoint rest ih =>
    unfold scanCheckpoints
    by_cases hc : confirms remote checkpoint = true
    · obtain ⟨good, bad, rfl, hgood, hbad, hscan⟩ := ih (some checkpoint)
      refine ⟨checkpoint :: good, bad, rfl, ?_, hbad, ?_⟩
      · exact List.forall_mem_cons.mpr ⟨confirms_iff.mp hc, hgood⟩
      · rw [if_pos hc, hscan]
        cases hlast : good.getLast? with
        | none => simp [List.getLast?_eq_none_iff.mp hlast]
        | some c => simp [List.getLast?_cons, hlast]
    · refine ⟨[], checkpoint :: rest, rfl, by simp, ?_, ?_⟩
      · intro c hmem
        obtain rfl : checkpoint = c := by simpa using hmem
        rwa [← confirms_iff]
      · rw [if_neg hc]
        simp

/-- What a rollback to a checkpoint, or to ledger 0, leaves. -/
structure RolledBack (db : Database) (common : Option LedgerCoordinate) : Prop where
  cursor : db.lastIndexedLedger = some ((common.map LedgerCoordinate.cursor).getD ⟨0, none, none⟩)
  rows : ∀ m, m.isToken = true → ∀ r ∈ db.tables.rows m, r.ledger ≤ rewindLedger common
  ledgers : ∀ c ∈ db.indexedLedger, c.ledger ≤ rewindLedger common

theorem rolledBack_rollback (db : Database) (common : Option LedgerCoordinate) :
    RolledBack (rollback db common) common where
  cursor := rfl
  rows m hm r hr := by
    change r ∈ (db.tables.deleteAbove (rewindLedger common)).rows m at hr
    simp only [Tables.deleteAbove, hm, if_true] at hr
    exact of_decide_eq_true (List.mem_filter.mp hr).2
  ledgers c hc := of_decide_eq_true (List.mem_filter.mp hc).2

/-- A cursor with a checkpoint of its own in the window. -/
def OwnCheckpoint (db : Database) (cursor : Cursor) : Prop :=
  ∃ c ∈ persistedCheckpoints db cursor, c.ledger = cursor.ledger

/-- The cursor has no checkpoint of its own, or the hashes of that one. -/
def AgreesWithOwn (db : Database) (cursor : Cursor) : Prop :=
  ∀ c ∈ persistedCheckpoints db cursor, c.ledger = cursor.ledger →
    (∀ hash ∈ cursor.knownHash, hash = c.hash) ∧ ∀ p ∈ cursor.parentHash, p = c.parentHash

/-- The last checkpoint of the window is the cursor's own if there is one. -/
theorem ownCheckpoint_iff {last : LedgerCoordinate}
    (hlast : (persistedCheckpoints db cursor).getLast? = some last) :
    OwnCheckpoint db cursor ↔ last.ledger = cursor.ledger := by
  constructor
  · rintro ⟨c, hc, hown⟩
    have hsorted : (persistedCheckpoints db cursor).Pairwise (·.ledger ≤ ·.ledger) :=
      List.pairwise_insertionSort _ _
    have hle := ledger_le_of_persisted (List.mem_of_getLast? hlast)
    obtain ⟨init, hinit⟩ := List.getLast?_eq_some_iff.mp hlast
    rw [hinit] at hsorted hc
    rcases List.mem_append.mp hc with hc | hc
    · have := (List.pairwise_append.mp hsorted).2.2 c hc last (by simp)
      omega
    · obtain rfl : c = last := by simpa using hc
      exact hown
  · intro hown
    exact ⟨last, List.mem_of_getLast? hlast, hown⟩

/-- With its own checkpoint confirmed a cursor that agrees with it is confirmed as well. -/
theorem cursorConfirmed_of_own (hall : ∀ c ∈ persistedCheckpoints db cursor, Confirmed remote c)
    (hagrees : AgreesWithOwn db cursor) (hown : OwnCheckpoint db cursor) :
    CursorConfirmed remote cursor := by
  obtain ⟨c, hc, hledger⟩ := hown
  obtain ⟨hhash, hparent⟩ := hagrees c hc hledger
  obtain ⟨r, hr, hrhash, hrparent⟩ := hall c hc
  intro hash hmem
  rw [hledger] at hr
  refine ⟨r, hr, hrhash.trans (hhash hash hmem).symm, fun p hp => ?_⟩
  rw [hparent p hp]
  exact hrparent _ rfl

/-- The checkpoints of the window are all confirmed, and the cursor too if it agrees with its own,
and nothing happens; or the cursor goes back to the last one before the first that is not
confirmed. -/
def FindsFork (db : Database) (remote : List LedgerResponse) (cursor : Cursor) : Prop :=
  (reconcileLedgerCursor db remote cursor = (db, cursor.ledger) ∧
    (∀ c ∈ persistedCheckpoints db cursor, Confirmed remote c) ∧
    (AgreesWithOwn db cursor → CursorConfirmed remote cursor)) ∨
  ∃ good rest, persistedCheckpoints db cursor = good ++ rest ∧
    (∀ c ∈ good, Confirmed remote c) ∧
    ((∃ first, rest.head? = some first ∧ ¬ Confirmed remote first) ∨
      rest = [] ∧ ¬ OwnCheckpoint db cursor ∧ ¬ CursorConfirmed remote cursor) ∧
    (reconcileLedgerCursor db remote cursor).2 = rewindLedger good.getLast? ∧
    RolledBack (reconcileLedgerCursor db remote cursor).1 good.getLast?

/-- Whatever the remote answers, as long as the window holds a checkpoint. -/
theorem reconcile_finds_fork (db : Database) (remote : List LedgerResponse) (cursor : Cursor)
    (hwindow : persistedCheckpoints db cursor ≠ []) : FindsFork db remote cursor := by
  have hpos : cursor.ledger ≠ 0 := by
    intro hzero
    obtain ⟨c, hc⟩ := List.exists_mem_of_ne_nil _ hwindow
    have hwithin := (List.mem_filter.mp ((List.mem_insertionSort _).mp hc)).2
    have hbounds := of_decide_eq_true hwithin
    have hstart : 1 ≤ scanStart cursor.ledger := Nat.le_max_left _ _
    omega
  obtain ⟨last, hlast⟩ := Option.isSome_iff_exists.mp (List.getLast?_isSome.mpr hwindow)
  obtain ⟨good, rest, hsplit, hgood, hrest, hscan⟩ :=
    scanCheckpoints_split remote (persistedCheckpoints db cursor) none
  have hown := ownCheckpoint_iff hlast
  have hfork : forkPoint db remote cursor =
      if rest.isEmpty = false ∨ last.ledger ≠ cursor.ledger ∧ contradicts remote cursor = true then
        some good.getLast?
      else none := by
    simp [forkPoint, hpos, hscan, hlast]
  unfold FindsFork reconcileLedgerCursor
  rw [hfork]
  split_ifs with hmismatch
  · refine Or.inr ⟨good, rest, hsplit, hgood, ?_, rfl, rolledBack_rollback db _⟩
    cases rest with
    | nil =>
      obtain ⟨hne, hcontra⟩ := hmismatch.resolve_left (by simp)
      exact Or.inr ⟨rfl, fun h => hne (hown.mp h), contradicts_iff.mp hcontra⟩
    | cons first rest => exact Or.inl ⟨first, rfl, hrest first rfl⟩
  · rw [not_or] at hmismatch
    obtain rfl : rest = [] := by simpa using hmismatch.1
    rw [List.append_nil] at hsplit
    rw [← hsplit] at hgood
    refine Or.inl ⟨rfl, hgood, fun hagrees => ?_⟩
    by_cases hcase : OwnCheckpoint db cursor
    · exact cursorConfirmed_of_own hgood hagrees hcase
    · by_contra hnot
      exact hmismatch.2 ⟨fun h => hcase (hown.mpr h), contradicts_iff.mpr hnot⟩

/-- Ledger 5 is on record with one hash at its checkpoint, and with another one at the cursor. -/
def doubtfulCursor : Cursor := ⟨5, some "b5", some "b4"⟩

def recordedFive : Database where
  tables := Tables.empty
  lastIndexedLedger := some doubtfulCursor
  indexedLedger := [⟨5, "a5", "a4"⟩, ⟨4, "a4", "a3"⟩]

def remoteFive : List LedgerResponse := [⟨4, "a4", "a3"⟩, ⟨5, "a5", "a4"⟩]

theorem recordedFive_finds_fork :
    persistedCheckpoints recordedFive doubtfulCursor = [⟨4, "a4", "a3"⟩, ⟨5, "a5", "a4"⟩] ∧
      FindsFork recordedFive remoteFive doubtfulCursor ∧
      (reconcileLedgerCursor recordedFive (remoteFive.take 1) doubtfulCursor).2 = 4 :=
  ⟨by decide +kernel, reconcile_finds_fork _ _ _ (by decide +kernel), by decide +kernel⟩

/-- Only the checkpoint is compared: the cursor stays, with a hash that the remote chain lacks. -/
theorem doubtfulCursor_stays : persistedCheckpoints recordedFive doubtfulCursor ≠ [] ∧
    reconcileLedgerCursor recordedFive remoteFive doubtfulCursor = (recordedFive, 5) ∧
    ¬ CursorConfirmed remoteFive doubtfulCursor := by
  have hnone : forkPoint recordedFive remoteFive doubtfulCursor = none := by decide +kernel
  refine ⟨by decide +kernel, ?_, ?_⟩
  · rw [reconcileLedgerCursor, hnone]
    rfl
  · intro h
    obtain ⟨l, hl, hfive, hhash, -⟩ := (h "b5" (by decide +kernel)).mem
    change l ∈ [LedgerResponse.mk 4 "a4" "a3", ⟨5, "a5", "a4"⟩] at hl
    change l.sequence = 5 at hfive
    simp only [List.mem_cons, List.not_mem_nil, or_false] at hl
    rcases hl with rfl | rfl
    · cases hfive
    · exact absurd hhash (by decide)

end BcForge.Indexer
