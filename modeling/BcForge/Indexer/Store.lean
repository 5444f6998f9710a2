import Mathlib.Order.Defs.LinearOrder
import BcForge.Indexer.Events
import BcForge.Relational.Unique

/-! The tables the indexer derives from events, and how one event is persisted. -/
namespace BcForge.Indexer

open Relational

structure Holder where
  balance : ℤ
  ledger : ℕ
  deriving DecidableEq, Repr

structure SupplyPoint where
  /-- The uuid drawn by the database. -/
  id : ℕ
  timestamp : ℤ
  supply : ℤ
  ledger : ℕ
  txHash : String
  deriving DecidableEq, Repr

structure Tables where
  rows : Model → List Row
  holder : String → Option Holder
  supplyPoint : List SupplyPoint

@[ext]
theorem Tables.ext {t t' : Tables} (hrows : t.rows = t'.rows) (hholder : t.holder = t'.holder)
    (hsupply : t.supplyPoint = t'.supplyPoint) : t = t' := by
  cases t
  cases t'
  subst hrows hholder hsupply
  rfl

def Tables.empty : Tables where
  rows := fun _ => []
  holder := fun _ => none
  supplyPoint := []

/-- One call of `processEvent`: the event, with the clock, the uuid and the failure it meets. -/
structure Delivery where
  event : EventResponse
  now : ℤ
  id : ℕ
  /-- The database fails while the event is persisted. -/
  fault : Bool
  deriving DecidableEq, Repr

def Tables.insert (t : Tables) (model : Model) (row : Row) : Tables :=
  { t with rows := Function.update t.rows model (t.rows model ++ [row]) }

/-- `txHash` is a unique column of every event table. -/
def create (t : Tables) (model : Model) (row : Row) : Except IndexerError Tables :=
  if row.txHash ∈ (t.rows model).map Row.txHash then .error .uniqueConstraint
  else .ok (t.insert model row)

structure ApplyAggregatesOptions where
  ledger : ℕ
  txHash : String
  timestamp : ℤ
  newSupply : Option ℤ
  id : ℕ

/-- One pass of the holder loop: read, shift, then delete or upsert. -/
def moveHolder (ledger : ℕ) (holder : String → Option Holder) (d : Delta) :
    String → Option Holder :=
  let balance := ((holder d.address).map Holder.balance).getD 0 + d.delta
  Function.update holder d.address (if balance = 0 then none else some ⟨balance, ledger⟩)

/-- The first point in the order `ledger desc, id desc`. -/
def latestSupplyPoint (points : List SupplyPoint) : Option SupplyPoint :=
  points.foldl (fun best p =>
    match best with
    | none => some p
    | some b => if b.ledger < p.ledger ∨ b.ledger = p.ledger ∧ b.id < p.id then some p else some b)
    none

def resolveSupply (t : Tables) (delta : ℤ) (newSupply : Option ℤ) : ℤ :=
  match newSupply with
  | some supply => supply
  | none => ((latestSupplyPoint t.supplyPoint).map SupplyPoint.supply).getD 0 + delta

def applyLedgerEventAggregates (t : Tables) (event : LedgerEvent)
    (options : ApplyAggregatesOptions) : Tables :=
  let moved := { t with holder := (deltasFor event).foldl (moveHolder options.ledger) t.holder }
  let supplyDelta := supplyDeltaFor event
  if supplyDelta = 0 then moved
  else
    let supply := resolveSupply moved supplyDelta options.newSupply
    { moved with supplyPoint := moved.supplyPoint ++
        [⟨options.id, options.timestamp, supply, options.ledger, options.txHash⟩] }

def ledgerCloseTime (d : Delivery) : ℤ := d.event.ledgerClosedAt.getD d.now

def aggregateOptions (d : Delivery) (newSupply : Option ℤ) : ApplyAggregatesOptions where
  ledger := d.event.ledger
  txHash := d.event.txHash
  timestamp := ledgerCloseTime d
  newSupply := newSupply
  id := d.id

/-- The row and its aggregates, in one transaction. -/
def persistEventRow (t : Tables) (model : Model) (data : RowData) (ledgerEvent : LedgerEvent)
    (d : Delivery) (newSupply : Option ℤ) : Except IndexerError Tables := do
  let created ← create t model ⟨data, d.event.ledger, d.event.txHash⟩
  return applyLedgerEventAggregates created ledgerEvent (aggregateOptions d newSupply)

def persistIndexedRow (t : Tables) (model : Model) (data : RowData) (d : Delivery) :
    Except IndexerError Tables :=
  create t model ⟨data, d.event.ledger, d.event.txHash⟩

def persist (t : Tables) (d : Delivery) (entry : Entry) : Except IndexerError Tables :=
  if d.fault then .error .databaseFailure
  else
    match entry.change with
    | some (ledgerEvent, newSupply) =>
      persistEventRow t entry.model entry.data ledgerEvent d newSupply
    | none => persistIndexedRow t entry.model entry.data d

/-- The body of the try block. -/
def indexEvent (t : Tables) (d : Delivery) : Except IndexerError Tables := do
  match ← decodeEvent d.event with
  | none => return t
  | some entry => persist t d entry

/-- The catch clause swallows every error: a unique violation silently, any other with a log
line. -/
def processEvent (t : Tables) (d : Delivery) : Tables :=
  match indexEvent t d with
  | .ok t' => t'
  | .error _ => t

def processEvents (t : Tables) (ds : List Delivery) : Tables := ds.foldl processEvent t

/-- Indexing from an empty database. -/
def index (ds : List Delivery) : Tables := processEvents Tables.empty ds

section Postings

/-- An entry that reaches the database. -/
structure Posting where
  delivery : Delivery
  entry : Entry

namespace Posting

def ledger (p : Posting) : ℕ := p.delivery.event.ledger

def row (p : Posting) : Row := ⟨p.entry.data, p.delivery.event.ledger, p.delivery.event.txHash⟩

/-- The unique index the row falls under. -/
def key (p : Posting) : Model × String := (p.entry.model, p.delivery.event.txHash)

def deltas (p : Posting) : List Delta :=
  match p.entry.change with
  | some (ledgerEvent, _) => deltasFor ledgerEvent
  | none => []

def supplyDelta (p : Posting) : ℤ :=
  match p.entry.change with
  | some (ledgerEvent, _) => supplyDeltaFor ledgerEvent
  | none => 0

end Posting

/-- The posting of a delivery, unless the event carries nothing to store or the database fails. -/
def posting (d : Delivery) : Option Posting :=
  if d.fault then none
  else
    match decodeEvent d.event with
    | .ok (some entry) => some ⟨d, entry⟩
    | _ => none

def postings (ds : List Delivery) : List Posting := ds.filterMap posting

def Tables.holds (t : Tables) (key : Model × String) : Bool :=
  key.2 ∈ (t.rows key.1).map Row.txHash

def write (t : Tables) (p : Posting) : Tables :=
  match p.entry.change with
  | some (ledgerEvent, newSupply) =>
    applyLedgerEventAggregates (t.insert p.entry.model p.row) ledgerEvent
      (aggregateOptions p.delivery newSupply)
  | none => t.insert p.entry.model p.row

variable {t : Tables} {d : Delivery} {ds : List Delivery} {p : Posting} {ps : List Posting}
  {m : Model} {a : String}

@[simp]
theorem rows_aggregates (e : LedgerEvent) (options : ApplyAggregatesOptions) :
    (applyLedgerEventAggregates t e options).rows = t.rows := by
  unfold applyLedgerEventAggregates
  dsimp only
  split <;> rfl

@[simp]
theorem holder_aggregates (e : LedgerEvent) (options : ApplyAggregatesOptions) :
    (applyLedgerEventAggregates t e options).holder =
      (deltasFor e).foldl (moveHolder options.ledger) t.holder := by
  unfold applyLedgerEventAggregates
  dsimp only
  split <;> rfl

theorem rows_write (t : Tables) (p : Posting) :
    (write t p).rows = Function.update t.rows p.entry.model (t.rows p.entry.model ++ [p.row]) := by
  unfold write
  split
  · rw [rows_aggregates]
    rfl
  · rfl

theorem holder_write (t : Tables) (p : Posting) :
    (write t p).holder = p.deltas.foldl (moveHolder p.ledger) t.holder := by
  unfold write Posting.deltas
  split
  · rw [holder_aggregates]
    rfl
  · rfl

theorem supplyPoint_write (t : Tables) (p : Posting) :
    (p.supplyDelta = 0 ∧ (write t p).supplyPoint = t.supplyPoint) ∨
      (p.supplyDelta ≠ 0 ∧ ∃ point, (write t p).supplyPoint = t.supplyPoint ++ [point]) := by
  unfold write Posting.supplyDelta
  split
  · unfold applyLedgerEventAggregates
    dsimp only
    split
    · exact .inl ⟨‹_›, rfl⟩
    · exact .inr ⟨‹_›, _, rfl⟩
  · exact .inl ⟨rfl, rfl⟩

theorem holds_write (t : Tables) (p : Posting) (k : Model × String) :
    (write t p).holds k = (t.holds k || decide (k = p.key)) := by
  obtain ⟨m, hash⟩ := k
  by_cases hm : m = p.entry.model
  · subst hm
    simp [Tables.holds, rows_write, Posting.key, Posting.row, Bool.or_comm]
  · simp [Tables.holds, rows_write, Posting.key, hm]

theorem create_eq (t : Tables) (d : Delivery) (entry : Entry) :
    create t entry.model ⟨entry.data, d.event.ledger, d.event.txHash⟩ =
      if t.holds (Posting.key ⟨d, entry⟩) then .error .uniqueConstraint
      else .ok (t.insert entry.model (Posting.row ⟨d, entry⟩)) := by
  have hholds : t.holds (Posting.key ⟨d, entry⟩) = true ↔
      d.event.txHash ∈ (t.rows entry.model).map Row.txHash := decide_eq_true_iff
  by_cases hk : d.event.txHash ∈ (t.rows entry.model).map Row.txHash
  · rw [create, if_pos hk, if_pos (hholds.mpr hk)]
  · rw [create, if_neg hk, if_neg (mt hholds.mp hk)]
    rfl

theorem persist_eq (entry : Entry) (hfault : d.fault = false) : persist t d entry =
    if t.holds (Posting.key ⟨d, entry⟩) then .error .uniqueConstraint
    else .ok (write t ⟨d, entry⟩) := by
  rw [persist, if_neg (by simp [hfault]), write]
  cases entry.change with
  | none => exact create_eq t d entry
  | some c =>
    dsimp only
    rw [persistEventRow, create_eq]
    by_cases hk : t.holds (Posting.key ⟨d, entry⟩) = true
    · rw [if_pos hk, if_pos hk]
      rfl
    · rw [if_neg hk, if_neg hk]
      rfl

/-- What one call of `processEvent` does: attempt the posting, if there is one. -/
theorem processEvent_eq (t : Tables) (d : Delivery) : processEvent t d =
    match posting d with
    | some p => attempt Posting.key Tables.holds write t p
    | none => t := by
  unfold processEvent indexEvent posting
  cases hd : decodeEvent d.event with
  | error e =>
    change t = _
    cases d.fault <;> rfl
  | ok entry =>
    cases entry with
    | none =>
      change t = _
      cases d.fault <;> rfl
    | some entry =>
      cases hf : d.fault with
      | true =>
        change (match persist t d entry with | .ok t' => t' | .error _ => t) = t
        simp [persist, hf]
      | false =>
        change (match persist t d entry with | .ok t' => t' | .error _ => t) =
          attempt Posting.key Tables.holds write t ⟨d, entry⟩
        rw [persist_eq entry hf, attempt]
        by_cases hk : t.holds (Posting.key ⟨d, entry⟩) = true
        · rw [if_pos hk, if_pos hk]
        · rw [if_neg hk, if_neg hk]

theorem processEvents_attempt (t : Tables) (ds : List Delivery) : processEvents t ds =
    (postings ds).foldl (attempt Posting.key Tables.holds write) t := by
  rw [postings, List.foldl_filterMap, processEvents]
  congr 1
  funext t d
  rw [processEvent_eq]
  cases posting d <;> rfl

/-- Processing writes the postings that find their key free, in order. -/
theorem processEvents_eq (t : Tables) (ds : List Delivery) : processEvents t ds =
    (admitted Posting.key t.holds (postings ds)).foldl write t := by
  rw [processEvents_attempt, foldl_attempt holds_write]

/-- A delivered event whose write goes through has its key taken from then on. -/
theorem holds_processEvents (t : Tables) (hd : d ∈ ds) (hpost : posting d = some p) :
    (processEvents t ds).holds p.key = true := by
  rw [processEvents_attempt]
  have hmem : p ∈ postings ds := List.mem_filterMap.mpr ⟨d, hd, hpost⟩
  exact taken_foldl_attempt holds_write (.inr ⟨p, hmem, rfl⟩)

theorem posting_some (h : posting d = some p) :
    d.fault = false ∧ p.delivery = d ∧ decodeEvent d.event = .ok (some p.entry) := by
  unfold posting at h
  split at h
  · cases h
  · rename_i hfault
    split at h
    · rename_i entry hd
      cases h
      exact ⟨by simpa using hfault, rfl, hd⟩
    · cases h

/-- What a database holds after indexing: the first posting of every key. -/
def stored (ds : List Delivery) : List Posting := keepFirst Posting.key (postings ds)

theorem index_eq (ds : List Delivery) : index ds = (stored ds).foldl write Tables.empty := by
  have hfree : Tables.empty.holds = fun _ => false := by
    funext k
    rfl
  rw [index, processEvents_eq, hfree]
  rfl

theorem rows_foldl_write (t : Tables) (ps : List Posting) : (ps.foldl write t).rows m =
    t.rows m ++ (ps.filter (·.entry.model = m)).map Posting.row := by
  induction ps generalizing t with
  | nil => simp
  | cons p ps ih =>
    rw [List.foldl_cons, ih, rows_write]
    by_cases hm : p.entry.model = m
    · subst hm
      simp
    · simp [hm, Function.update_of_ne (Ne.symm hm)]

/-- Every posting that changes the supply leaves one more point. -/
theorem supplyPoint_foldl_write (t : Tables) (ps : List Posting) :
    ∃ points, (ps.foldl write t).supplyPoint = t.supplyPoint ++ points ∧
      points.length = (ps.filter (·.supplyDelta ≠ 0)).length := by
  induction ps generalizing t with
  | nil => exact ⟨[], by simp, rfl⟩
  | cons p ps ih =>
    obtain ⟨points, hpoints, hlength⟩ := ih (write t p)
    rcases supplyPoint_write t p with ⟨hzero, hsame⟩ | ⟨hne, point, hnew⟩
    · exact ⟨points, by rw [List.foldl_cons, hpoints, hsame], by simpa [hzero] using hlength⟩
    · refine ⟨point :: points, ?_, by simpa [hne] using hlength⟩
      rw [List.foldl_cons, hpoints, hnew, List.append_assoc]
      rfl

/-- The holder moves of a list of postings, each with the ledger it is dated by. -/
def moves (ps : List Posting) : List (ℕ × Delta) :=
  ps.flatMap fun p => p.deltas.map fun d => (p.ledger, d)

theorem deltas_moves (ps : List Posting) :
    (moves ps).map Prod.snd = ps.flatMap Posting.deltas := by
  simp [moves, List.map_flatMap, Function.comp_def]

def applyMoves (holder : String → Option Holder) (ms : List (ℕ × Delta)) :
    String → Option Holder :=
  ms.foldl (fun holder move => moveHolder move.1 holder move.2) holder

theorem holder_foldl_write (t : Tables) (ps : List Posting) :
    (ps.foldl write t).holder = applyMoves t.holder (moves ps) := by
  induction ps generalizing t with
  | nil => rfl
  | cons p ps ih =>
    have hmoves : moves (p :: ps) = p.deltas.map (fun d => (p.ledger, d)) ++ moves ps := rfl
    rw [List.foldl_cons, ih, holder_write, hmoves, applyMoves, applyMoves, List.foldl_append,
      List.foldl_map]

end Postings

section Holders

variable {holder : String → Option Holder} {ms : List (ℕ × Delta)} {r : Holder} {a : String}

/-- The balances a holder table shows. -/
def shown (holder : String → Option Holder) : Balances := fun a => (holder a).map Holder.balance

theorem shown_moveHolder (ledger : ℕ) (d : Delta) :
    shown (moveHolder ledger holder d) = applyDelta (shown holder) d := by
  funext b
  by_cases hb : b = d.address
  · subst hb
    simp only [shown, moveHolder, applyDelta, Function.update_self]
    rw [apply_ite (Option.map Holder.balance)]
    rfl
  · simp [shown, moveHolder, applyDelta, hb]

/-- The table simulates the pure fold. -/
theorem shown_applyMoves :
    shown (applyMoves holder ms) = (ms.map Prod.snd).foldl applyDelta (shown holder) := by
  induction ms generalizing holder with
  | nil => rfl
  | cons move ms ih =>
    rw [List.map_cons, List.foldl_cons, ← shown_moveHolder move.1]
    exact ih

/-- A holder row is dated by the last move that touched it. -/
theorem dated_applyMoves (h : applyMoves holder ms a = some r) :
    ((∀ move ∈ ms, move.2.address ≠ a) ∧ holder a = some r) ∨
      ∃ move ∈ ms, move.2.address = a ∧ r.ledger = move.1 := by
  induction ms generalizing holder with
  | nil => exact .inl ⟨by simp, h⟩
  | cons move ms ih =>
    rcases ih h with ⟨hrest, hrow⟩ | ⟨move', hmem, hmove⟩
    · by_cases ha : move.2.address = a
      · subst ha
        refine .inr ⟨move, List.mem_cons_self, rfl, ?_⟩
        simp only [moveHolder, Function.update_self] at hrow
        split at hrow
        · cases hrow
        · cases hrow
          rfl
      · refine .inl ⟨by simpa [ha] using hrest, ?_⟩
        simpa [moveHolder, Function.update_of_ne (Ne.symm ha)] using hrow
    · exact .inr ⟨move', List.mem_cons_of_mem _ hmem, hmove⟩

theorem untouched_applyMoves (h : ∀ move ∈ ms, move.2.address ≠ a) :
    applyMoves holder ms a = holder a := by
  induction ms generalizing holder with
  | nil => rfl
  | cons move ms ih =>
    have ha := h move List.mem_cons_self
    have hrest := fun move' hmem => h move' (List.mem_cons_of_mem _ hmem)
    change applyMoves (moveHolder move.1 holder move.2) ms a = holder a
    rw [ih hrest, moveHolder, Function.update_of_ne (Ne.symm ha)]

/-- The balance of an address is the net sum of the stored moves. -/
theorem shown_stored (ps : List Posting) (a : String) :
    shown (ps.foldl write Tables.empty).holder a = sparse (net (ps.flatMap Posting.deltas) a) := by
  have hstart : ∀ b, shown Tables.empty.holder b = sparse ((fun _ => 0 : String → ℤ) b) := by
    intro b
    rfl
  rw [holder_foldl_write, shown_applyMoves, deltas_moves, foldl_applyDelta hstart, zero_add]

end Holders

end BcForge.Indexer
