import Mathlib.Data.List.Sort
import BcForge.Indexer.Store

/-! The persisted cursor: ledger checkpoints, the search for the last common ledger and the
rollback to it. -/
namespace BcForge.Indexer

def REORG_LOOKBACK_LEDGERS : ℕ := 1000

structure LedgerCoordinate where
  ledger : ℕ
  hash : String
  parentHash : String
  deriving DecidableEq, Repr

/-- A ledger as `getLedgers` sends it, its header decoded. -/
structure LedgerResponse where
  sequence : ℕ
  hash : String
  previousLedgerHash : String
  deriving DecidableEq, Repr

def toLedgerCoordinate (ledger : LedgerResponse) : LedgerCoordinate where
  ledger := ledger.sequence
  hash := ledger.hash
  parentHash := ledger.previousLedgerHash

/-- The single row of `LastIndexedLedger`. -/
structure Cursor where
  ledger : ℕ
  hash : Option String
  parentHash : Option String
  deriving DecidableEq, Repr

/-- A hash that passes for true: neither null nor the empty string. -/
def Cursor.knownHash (cursor : Cursor) : Option String := cursor.hash.filter (· ≠ "")

def LedgerCoordinate.cursor (c : LedgerCoordinate) : Cursor :=
  ⟨c.ledger, some c.hash, some c.parentHash⟩

structure Database where
  tables : Tables
  lastIndexedLedger : Option Cursor
  indexedLedger : List LedgerCoordinate

/-- The loop of `hasContinuousParentChain`, with the parent it starts from. -/
def hasContinuousParentChain : List LedgerCoordinate → Option LedgerCoordinate → Bool
  | [], _ => true
  | ledger :: ledgers, parent =>
    match parent with
    | none => hasContinuousParentChain ledgers (some ledger)
    | some p =>
      if ledger.ledger ≠ p.ledger + 1 ∨ ledger.parentHash ≠ p.hash then false
      else hasContinuousParentChain ledgers (some ledger)

/-- `createMany` with `skipDuplicates`: both the ledger and the hash are unique columns. -/
def createMany (stored : List LedgerCoordinate) (data : List LedgerCoordinate) :
    List LedgerCoordinate :=
  data.foldl (fun stored c =>
    if stored.any fun x => x.ledger = c.ledger ∨ x.hash = c.hash then stored else stored ++ [c])
    stored

def scanStart (ledger : ℕ) : ℕ := max 1 (ledger + 1 - REORG_LOOKBACK_LEDGERS)

/-- Fill in the hash of a cursor that was stored without one. -/
def seedLedgerCheckpoints (db : Database) (remote : List LedgerResponse) (cursor : Cursor) :
    Database :=
  if cursor.ledger = 0 ∨ cursor.knownHash.isSome then db
  else
    let coordinates := (remote.filter (·.sequence ≤ cursor.ledger)).map toLedgerCoordinate
    match coordinates.find? (·.ledger = cursor.ledger) with
    | none => db
    | some c =>
      { db with
        indexedLedger := createMany db.indexedLedger coordinates
        lastIndexedLedger := db.lastIndexedLedger.map fun last =>
          { last with hash := some c.hash, parentHash := some c.parentHash } }

section Reconcile

/-- The map from sequence numbers: of two ledgers with one number the later one counts. -/
def remoteBySequence (remote : List LedgerResponse) (sequence : ℕ) : Option LedgerCoordinate :=
  (remote.reverse.find? (·.sequence = sequence)).map toLedgerCoordinate

/-- A stored checkpoint that the remote chain still has. -/
def confirms (remote : List LedgerResponse) (checkpoint : LedgerCoordinate) : Bool :=
  match remoteBySequence remote checkpoint.ledger with
  | none => false
  | some r => r.hash = checkpoint.hash ∧ r.parentHash = checkpoint.parentHash

/-- The cursor's own hash, when it is known, is not the one the remote chain has. -/
def contradicts (remote : List LedgerResponse) (cursor : Cursor) : Bool :=
  match cursor.knownHash with
  | none => false
  | some hash =>
    match remoteBySequence remote cursor.ledger with
    | none => true
    | some r => r.hash ≠ hash ∨ cursor.parentHash.any (r.parentHash ≠ ·)

/-- The scan over the stored checkpoints: the last one before the first mismatch, and whether there
was one. -/
def scanCheckpoints (remote : List LedgerResponse) :
    List LedgerCoordinate → Option LedgerCoordinate → Option LedgerCoordinate × Bool
  | [], common => (common, false)
  | checkpoint :: rest, common =>
    if confirms remote checkpoint then scanCheckpoints remote rest (some checkpoint)
    else (common, true)

/-- `findMany` over the window, in the order of the ledgers. -/
def persistedCheckpoints (db : Database) (cursor : Cursor) : List LedgerCoordinate :=
  (db.indexedLedger.filter fun c => scanStart cursor.ledger ≤ c.ledger ∧ c.ledger ≤ cursor.ledger)
    |>.insertionSort (·.ledger ≤ ·.ledger)

/-- The checkpoint to rewind to, `some none` standing for ledger 0; `none` when nothing
mismatches. -/
def forkPoint (db : Database) (remote : List LedgerResponse) (cursor : Cursor) :
    Option (Option LedgerCoordinate) :=
  if cursor.ledger = 0 then none
  else
    let persisted := persistedCheckpoints db cursor
    let (common, mismatch) := scanCheckpoints remote persisted none
    match persisted.getLast? with
    | some last =>
      if mismatch ∨ last.ledger ≠ cursor.ledger ∧ contradicts remote cursor then some common
      else none
    | none =>
      -- with no checkpoint in the window the ledger below the cursor is all that is left to try
      if contradicts remote cursor then
        some ((remoteBySequence remote (cursor.ledger - 1)).filter
          fun previous => cursor.parentHash = some previous.hash)
      else none

def rewindLedger (common : Option LedgerCoordinate) : ℕ :=
  (common.map LedgerCoordinate.ledger).getD 0

/-- The tables `deleteMany` is called on: those of mints, burns and transfers. -/
def Tables.deleteAbove (t : Tables) (ledger : ℕ) : Tables :=
  { t with rows := fun m => if m.isToken then (t.rows m).filter (·.ledger ≤ ledger) else t.rows m }

def rollback (db : Database) (common : Option LedgerCoordinate) : Database where
  tables := db.tables.deleteAbove (rewindLedger common)
  indexedLedger := db.indexedLedger.filter (·.ledger ≤ rewindLedger common)
  lastIndexedLedger := some ((common.map LedgerCoordinate.cursor).getD ⟨0, none, none⟩)

/-- Compare persisted coordinates with the RPC's and roll back to their last common ledger. -/
def reconcileLedgerCursor (db : Database) (remote : List LedgerResponse) (cursor : Cursor) :
    Database × ℕ :=
  match forkPoint db remote cursor with
  | none => (db, cursor.ledger)
  | some common => (rollback db common, rewindLedger common)

variable {db : Database} {remote : List LedgerResponse} {cursor : Cursor}
  {common : Option LedgerCoordinate}

theorem scanCheckpoints_common {checkpoints : List LedgerCoordinate} {c : LedgerCoordinate}
    (h : (scanCheckpoints remote checkpoints common).1 = some c) :
    common = some c ∨ c ∈ checkpoints := by
  induction checkpoints generalizing common with
  | nil => exact .inl h
  | cons checkpoint rest ih =>
    unfold scanCheckpoints at h
    split at h
    · rcases ih h with heq | hmem
      · cases heq
        exact .inr List.mem_cons_self
      · exact .inr (List.mem_cons_of_mem _ hmem)
    · exact .inl h

theorem ledger_of_remote {n : ℕ} {c : LedgerCoordinate} (h : remoteBySequence remote n = some c) :
    c.ledger = n := by
  obtain ⟨l, hl, rfl⟩ := Option.map_eq_some_iff.mp h
  have hfound := List.find?_some hl
  exact of_decide_eq_true hfound

theorem ledger_le_of_persisted {c : LedgerCoordinate} (h : c ∈ persistedCheckpoints db cursor) :
    c.ledger ≤ cursor.ledger := by
  have hwindow := (List.mem_filter.mp ((List.mem_insertionSort _).mp h)).2
  exact (of_decide_eq_true hwindow).2

/-- A rollback goes to the last checkpoint that the scan confirmed or, where there was none to
scan, to the ledger below the cursor. -/
theorem forkPoint_cases (h : forkPoint db remote cursor = some common) :
    0 < cursor.ledger ∧
    ((∃ last, (persistedCheckpoints db cursor).getLast? = some last ∧
        (scanCheckpoints remote (persistedCheckpoints db cursor) none).1 = common ∧
        ((scanCheckpoints remote (persistedCheckpoints db cursor) none).2 = true ∨
          last.ledger ≠ cursor.ledger)) ∨
      ∀ c ∈ common, c.ledger + 1 = cursor.ledger) := by
  unfold forkPoint at h
  split at h
  case isTrue => cases h
  case isFalse hpos =>
    refine ⟨Nat.pos_of_ne_zero hpos, ?_⟩
    dsimp only at h
    split at h
    case h_1 last hlast =>
      split at h
      case isTrue hfork => exact .inl ⟨last, hlast, Option.some.inj h, hfork.imp_right And.left⟩
      case isFalse => cases h
    case h_2 =>
      split at h
      case isTrue =>
        refine .inr fun c hc => ?_
        obtain ⟨hprevious, _⟩ := Option.filter_eq_some_iff.mp ((Option.some.inj h).trans hc)
        have := ledger_of_remote hprevious
        omega
      case isFalse => cases h

/-- A rollback never goes above the cursor it was called with. -/
theorem rewindLedger_le (h : forkPoint db remote cursor = some common) :
    rewindLedger common ≤ cursor.ledger := by
  cases common with
  | none => exact Nat.zero_le _
  | some c =>
    change c.ledger ≤ cursor.ledger
    obtain ⟨-, ⟨last, -, hscan, -⟩ | hbelow⟩ := forkPoint_cases h
    · rcases scanCheckpoints_common hscan with hnone | hmem
      · cases hnone
      · exact ledger_le_of_persisted hmem
    · have := hbelow c rfl
      omega

/-- What a reconciliation does to the database. -/
theorem reconcile_cases (db : Database) (remote : List LedgerResponse) (cursor : Cursor) :
    (reconcileLedgerCursor db remote cursor).1 = db ∨
      ∃ common, rewindLedger common ≤ cursor.ledger ∧
        (reconcileLedgerCursor db remote cursor).1 = rollback db common := by
  unfold reconcileLedgerCursor
  split
  · exact .inl rfl
  · rename_i common hfork
    exact .inr ⟨common, rewindLedger_le hfork, rfl⟩

theorem ledger_rollback (db : Database) (common : Option LedgerCoordinate) :
    ∀ last ∈ (rollback db common).lastIndexedLedger, last.ledger = rewindLedger common := by
  intro last hlast
  cases hlast
  cases common <;> rfl

theorem rows_deleteAbove_subset {t : Tables} {m : Model} {r : Row} {n : ℕ}
    (h : r ∈ (t.deleteAbove n).rows m) : r ∈ t.rows m := by
  unfold Tables.deleteAbove at h
  dsimp only at h
  split at h
  · exact (List.mem_filter.mp h).1
  · exact h

theorem reconcile_rollback (h : forkPoint db remote cursor = some common) :
    reconcileLedgerCursor db remote cursor = (rollback db common, rewindLedger common) := by
  rw [reconcileLedgerCursor, h]

end Reconcile

end BcForge.Indexer
