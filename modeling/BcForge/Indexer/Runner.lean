import Mathlib.Logic.Relation
import BcForge.Indexer.Cursor

/-! The main loop of the indexer. The contract's events are fixed; what the RPC answers and what the
database refuses is different in every iteration. -/
namespace BcForge.Indexer

/-- What one iteration meets. A call that throws has no answer. -/
structure Answers (chain : List EventResponse) where
  /-- `getLatestLedger`. -/
  latest : Option ℕ
  /-- `getLedgers` for the range. -/
  ledgers : Option (List LedgerResponse)
  /-- `getLedgers` when the cursor is reconciled. -/
  remote : Option (List LedgerResponse)
  /-- One page of `getEvents`, with what each write meets. -/
  events : Option (List Delivery)
  /-- The transaction that advances the cursor fails. -/
  commitFails : Bool
  inOrder : ∀ ds ∈ events, (ds.map Delivery.event).Sublist chain

/-- The database, and the variables of `runIndexer`. -/
structure State where
  db : Database
  lastLedger : Option Cursor
  startLedger : ℕ

/-- Up to the loop. `lastLedger` keeps the cursor as it was read, before the checkpoints are
seeded. -/
def startIndexer (db : Database) (remote : List LedgerResponse) : State :=
  match db.lastIndexedLedger with
  | none => ⟨db, none, 1⟩
  | some last => ⟨seedLedgerCheckpoints db remote last, some last, last.ledger + 1⟩

def rangeCoordinates (ledgers : List LedgerResponse) (startLedger endLedger : ℕ) :
    List LedgerCoordinate :=
  (ledgers.filter fun l => startLedger ≤ l.sequence ∧ l.sequence ≤ endLedger).map toLedgerCoordinate

/-- The coordinate the range has to continue: the cursor read at the start if it is the one right
below, else what the RPC says. -/
def previousCoordinate (s : State) (ledgers : List LedgerResponse) : Option LedgerCoordinate :=
  let answered :=
    ((ledgers.filter (·.sequence = s.startLedger - 1)).map toLedgerCoordinate).head?
  match s.lastLedger with
  | none => answered
  | some last =>
    match last.knownHash with
    | none => answered
    | some hash =>
      if last.ledger = s.startLedger - 1 then some ⟨last.ledger, hash, last.parentHash.getD ""⟩
      else answered

/-- What an iteration comes to: nothing, a reconciliation, or the ingestion of one page. -/
inductive Turn where
  | idle
  | reconcile (cursor : Cursor) (remote : List LedgerResponse)
  | ingest (endLedger : ℕ) (coordinates : List LedgerCoordinate) (events : List Delivery)
  deriving DecidableEq, Repr

variable {chain : List EventResponse}

def turn (s : State) (a : Answers chain) : Turn :=
  match a.latest, a.ledgers with
  | some currentLedger, some ledgers =>
    if s.startLedger > currentLedger then .idle
    else
      let endLedger := min (s.startLedger + 1000) currentLedger
      let coordinates := rangeCoordinates ledgers s.startLedger endLedger
      if coordinates.length ≠ endLedger - s.startLedger + 1 ∨
          hasContinuousParentChain coordinates (previousCoordinate s ledgers) = false then
        match s.lastLedger, a.remote with
        | some cursor, some remote => .reconcile cursor remote
        | _, _ => .idle
      else
        match a.events with
        | some events => .ingest endLedger coordinates events
        | none => .idle
  | _, _ => .idle

/-- One iteration. The events are written one by one before the cursor advances, and stay written
when that fails; a reconciliation changes the database but neither variable. -/
def iterate (s : State) (a : Answers chain) : State :=
  match turn s a with
  | .idle => s
  | .reconcile cursor remote => { s with db := (reconcileLedgerCursor s.db remote cursor).1 }
  | .ingest endLedger coordinates events =>
    let tables := processEvents s.db.tables events
    match coordinates.getLast? with
    | none => { s with db := { s.db with tables := tables } }
    | some latest =>
      if a.commitFails then { s with db := { s.db with tables := tables } }
      else
        { s with
          db :=
            { tables := tables
              lastIndexedLedger := some latest.cursor
              indexedLedger := createMany s.db.indexedLedger coordinates }
          startLedger := endLedger + 1 }

/-- An iteration that meets a condition on the state before it and on what it is answered. -/
def Iterates (P : State → Answers chain → Prop) (s s' : State) : Prop :=
  ∃ a, P s a ∧ iterate s a = s'

/-- Any number of iterations, each meeting the condition. -/
def Run (P : State → Answers chain → Prop) : State → State → Prop :=
  Relation.ReflTransGen (Iterates P)

section NoEventSkipped

/-- Every token event from the start ledger up to the persisted cursor has its row. -/
def Complete (chain : List EventResponse) (start : ℕ) (s : State) : Prop :=
  ∀ last ∈ s.db.lastIndexedLedger, ∀ e : Emission, e.response ∈ chain →
    start ≤ e.ledger → e.ledger ≤ last.ledger → e.row ∈ s.db.tables.rows e.event.model

/-- A page leaves out no token event of the range: each is stored already, or is answered and its
write goes through. -/
def FullPage (s : State) (chain : List EventResponse) (endLedger : ℕ) (events : List Delivery) :
    Prop :=
  ∀ e : Emission, e.response ∈ chain → s.startLedger ≤ e.ledger → e.ledger ≤ endLedger →
    e.row ∈ s.db.tables.rows e.event.model ∨
      ∃ d ∈ events, d.event = e.response ∧ d.fault = false

/-- The iterations that may advance the cursor: the page is full, and no rollback has put the
persisted cursor behind what the loop believes to be indexed. -/
def Careful (start : ℕ) (s : State) (a : Answers chain) : Prop :=
  match turn s a with
  | .ingest endLedger _ events =>
    a.commitFails = false →
      (s.startLedger = start ∨ ∃ last ∈ s.db.lastIndexedLedger, s.startLedger ≤ last.ledger + 1) ∧
        FullPage s chain endLedger events
  | _ => True

/-- In its table, the hash of a token event leads to no other row: neither in the tables nor among
the events of the chain. -/
structure Unambiguous (chain : List EventResponse) (start : ℕ) (t : Tables) : Prop where
  stored : ∀ e : Emission, e.response ∈ chain → start ≤ e.ledger →
    ∀ r ∈ t.rows e.event.model, r.txHash = e.txHash → r = e.row
  emitted : ∀ e : Emission, e.response ∈ chain → start ≤ e.ledger →
    ∀ x ∈ chain, ∀ entry, decodeEvent x = .ok (some entry) → entry.model = e.event.model →
      x.txHash = e.txHash → Row.mk entry.data x.ledger x.txHash = e.row

variable {s : State} {a : Answers chain} {t : Tables} {ds : List Delivery} {start : ℕ}
  {e : Emission} {r : Row} {m : Model}

/-- Processing keeps the rows there are, and adds rows of the delivered events only. -/
theorem rows_processEvents (t : Tables) (ds : List Delivery) (m : Model) :
    ∃ added : List Posting, (processEvents t ds).rows m = t.rows m ++ added.map Posting.row ∧
      ∀ p ∈ added, p.entry.model = m ∧ ∃ d ∈ ds, posting d = some p := by
  refine ⟨_, by rw [processEvents_eq, rows_foldl_write], ?_⟩
  intro p hp
  obtain ⟨hmem, hmodel⟩ := List.mem_filter.mp hp
  obtain ⟨d, hd, hpost⟩ := List.mem_filterMap.mp (Relational.admitted_sublist.subset hmem)
  exact ⟨of_decide_eq_true hmodel, d, hd, hpost⟩

theorem row_kept (h : r ∈ t.rows m) : r ∈ (processEvents t ds).rows m := by
  obtain ⟨added, hrows, _⟩ := rows_processEvents t ds m
  rw [hrows]
  exact List.mem_append_left _ h

theorem unambiguous_processEvents (h : Unambiguous chain start t)
    (hds : (ds.map Delivery.event).Sublist chain) :
    Unambiguous chain start (processEvents t ds) where
  emitted := h.emitted
  stored := by
    intro e he hstart r hr hhash
    obtain ⟨added, hrows, hadded⟩ := rows_processEvents t ds e.event.model
    rw [hrows] at hr
    rcases List.mem_append.mp hr with hold | hnew
    · exact h.stored e he hstart r hold hhash
    · obtain ⟨p, hp, rfl⟩ := List.mem_map.mp hnew
      obtain ⟨hmodel, d, hd, hpost⟩ := hadded p hp
      obtain ⟨_, rfl, hdecode⟩ := posting_some hpost
      have hchain : p.delivery.event ∈ chain := hds.subset (List.mem_map_of_mem hd)
      exact h.emitted e he hstart _ hchain p.entry hdecode hmodel hhash

/-- A delivered event whose write goes through is stored under its hash. -/
theorem hash_stored {d : Delivery} {p : Posting} (hd : d ∈ ds) (hpost : posting d = some p) :
    ∃ r ∈ (processEvents t ds).rows p.entry.model, r.txHash = d.event.txHash := by
  have hholds := holds_processEvents t hd hpost
  obtain ⟨_, rfl, _⟩ := posting_some hpost
  exact List.mem_map.mp (of_decide_eq_true hholds)

/-- The invariant of the loop. A cursor read before the loop lies below the start ledger, so a
reconciliation can only rewind to where no event is promised. -/
structure Ingesting (chain : List EventResponse) (start : ℕ) (s : State) : Prop where
  read : ∀ cursor ∈ s.lastLedger, cursor.ledger < start
  startLedger : start ≤ s.startLedger
  unambiguous : Unambiguous chain start s.db.tables
  complete : Complete chain start s

theorem turn_reconcile {cursor : Cursor} {remote : List LedgerResponse}
    (h : turn s a = .reconcile cursor remote) : s.lastLedger = some cursor := by
  unfold turn at h
  split at h
  · split at h
    · cases h
    · dsimp only at h
      split at h
      · split at h
        · cases h
          assumption
        · cases h
      · split at h <;> cases h
  · cases h

theorem turn_ingest {endLedger : ℕ} {coordinates : List LedgerCoordinate} {events : List Delivery}
    (h : turn s a = .ingest endLedger coordinates events) :
    a.events = some events ∧ s.startLedger ≤ endLedger ∧
      ∀ c ∈ coordinates, c.ledger ≤ endLedger := by
  unfold turn at h
  split at h
  · split at h
    · cases h
    · rename_i hle
      dsimp only at h
      split at h
      · split at h <;> cases h
      · split at h
        · cases h
          refine ⟨by assumption, by omega, ?_⟩
          intro c hc
          obtain ⟨l, hl, rfl⟩ := List.mem_map.mp hc
          exact (of_decide_eq_true (List.mem_filter.mp hl).2).2
        · cases h
  · cases h

theorem tables_seed (db : Database) (remote : List LedgerResponse) (cursor : Cursor) :
    (seedLedgerCheckpoints db remote cursor).tables = db.tables := by
  unfold seedLedgerCheckpoints
  split
  · rfl
  · dsimp only
    split <;> rfl

theorem ledger_seed {db : Database} {remote : List LedgerResponse} {cursor last : Cursor}
    (h : db.lastIndexedLedger = some cursor)
    (hlast : last ∈ (seedLedgerCheckpoints db remote cursor).lastIndexedLedger) :
    last.ledger = cursor.ledger := by
  unfold seedLedgerCheckpoints at hlast
  split at hlast
  · rw [h] at hlast
    cases hlast
    rfl
  · dsimp only at hlast
    split at hlast
    · rw [h] at hlast
      cases hlast
      rfl
    · rw [h] at hlast
      cases hlast
      rfl

/-- An answered token event, if the database lets it pass, is posted as it was published. -/
theorem posting_response {d : Delivery} (hevent : d.event = e.response) (hfault : d.fault = false) :
    posting d = some ⟨d, ⟨e.event.model, e.event.rowData,
      some (e.event.ledgerEvent, e.event.newSupply)⟩⟩ := by
  rw [posting, hfault, hevent, e.decode_response]
  rfl

theorem ingesting_start (db : Database) (remote : List LedgerResponse)
    (h : Unambiguous chain (startIndexer db remote).startLedger db.tables) :
    Ingesting chain (startIndexer db remote).startLedger (startIndexer db remote) := by
  unfold startIndexer at h ⊢
  split at h
  · rename_i hnone
    refine ⟨by simp, le_refl _, h, ?_⟩
    intro last hlast
    rw [hnone] at hlast
    cases hlast
  · rename_i cursor hsome
    have htables := tables_seed db remote cursor
    refine ⟨?_, le_refl _, by rw [htables]; exact h, ?_⟩
    · intro c hc
      cases hc
      exact Nat.lt_succ_self _
    · intro last hlast e he hstart hle
      have hledger := ledger_seed hsome hlast
      change cursor.ledger + 1 ≤ e.ledger at hstart
      omega

theorem ingesting_reconcile {cursor : Cursor} (remote : List LedgerResponse)
    (h : Ingesting chain start s) (hcursor : s.lastLedger = some cursor) :
    Ingesting chain start { s with db := (reconcileLedgerCursor s.db remote cursor).1 } := by
  have hread := h.read cursor hcursor
  rcases reconcile_cases s.db remote cursor with hsame | ⟨common, hle, hdb⟩
  · rw [hsame]
    exact h
  · rw [hdb]
    refine ⟨h.read, h.startLedger, ⟨?_, h.unambiguous.emitted⟩, ?_⟩
    · intro e he hstart r hr hhash
      exact h.unambiguous.stored e he hstart r (rows_deleteAbove_subset hr) hhash
    · intro last hlast e he hstart hupto
      have hledger := ledger_rollback s.db common last hlast
      omega

/-- Events are written but the cursor stays. -/
theorem ingesting_write (h : Ingesting chain start s)
    (hds : (ds.map Delivery.event).Sublist chain) :
    Ingesting chain start
      { s with db := { s.db with tables := processEvents s.db.tables ds } } where
  read := h.read
  startLedger := h.startLedger
  unambiguous := unambiguous_processEvents h.unambiguous hds
  complete := by
    intro last hlast e he hstart hle
    exact row_kept (h.complete last hlast e he hstart hle)

/-- The cursor advances over a full page. -/
theorem ingesting_commit {endLedger : ℕ} {latest : LedgerCoordinate}
    {coordinates : List LedgerCoordinate} (h : Ingesting chain start s)
    (hds : (ds.map Delivery.event).Sublist chain) (hend : s.startLedger ≤ endLedger)
    (hlatest : latest.ledger ≤ endLedger)
    (hgap : s.startLedger = start ∨
      ∃ last ∈ s.db.lastIndexedLedger, s.startLedger ≤ last.ledger + 1)
    (hpage : FullPage s chain endLedger ds) :
    Ingesting chain start
      { s with
        db := ⟨processEvents s.db.tables ds, some latest.cursor, coordinates⟩
        startLedger := endLedger + 1 } where
  read := h.read
  startLedger := by
    have := h.startLedger
    change start ≤ endLedger + 1
    omega
  unambiguous := unambiguous_processEvents h.unambiguous hds
  complete := by
    intro last hlast e he hstart hle
    have hupto : e.ledger ≤ latest.ledger := by
      cases hlast
      exact hle
    by_cases hbelow : e.ledger < s.startLedger
    · -- indexed before: there is no gap, so the persisted cursor covers it
      rcases hgap with hfirst | ⟨last, hlast, hcovers⟩
      · omega
      · exact row_kept (h.complete last hlast e he hstart (by omega))
    · rcases hpage e he (by omega) (by omega) with hrow | ⟨d, hd, hevent, hfault⟩
      · exact row_kept hrow
      · have hpost := posting_response hevent hfault
        obtain ⟨r, hr, hhash⟩ := hash_stored (t := s.db.tables) hd hpost
        have hunambiguous := unambiguous_processEvents h.unambiguous hds
        have hrow := hunambiguous.stored e he hstart r hr (hhash.trans (by rw [hevent]; rfl))
        exact hrow ▸ hr

theorem ingesting_step (h : Ingesting chain start s) (ha : Careful start s a) :
    Ingesting chain start (iterate s a) := by
  unfold Careful at ha
  unfold iterate
  split
  · exact h
  · rename_i cursor remote hturn
    exact ingesting_reconcile remote h (turn_reconcile hturn)
  · rename_i endLedger coordinates events hturn
    obtain ⟨hevents, hend, hcoordinates⟩ := turn_ingest hturn
    have hds := a.inOrder events hevents
    dsimp only
    split
    · exact ingesting_write h hds
    · rename_i latest hlast
      have hlatest := hcoordinates latest (List.mem_of_getLast? hlast)
      split
      · exact ingesting_write h hds
      · rename_i hcommit
        simp only [hturn] at ha
        obtain ⟨hgap, hpage⟩ := ha (by simpa using hcommit)
        exact ingesting_commit h hds hend hlatest hgap hpage

/-- In every run of the loop whose iterations are careful, over a chain and from a database in which
no hash is ambiguous, no token event below the persisted cursor is ever missing. -/
theorem no_event_skipped (chain : List EventResponse) (db : Database) (remote : List LedgerResponse)
    (hunambiguous : Unambiguous chain (startIndexer db remote).startLedger db.tables) (s : State)
    (hrun : Run (fun s (a : Answers chain) => Careful (startIndexer db remote).startLedger s a)
      (startIndexer db remote) s) :
    Complete chain (startIndexer db remote).startLedger s := by
  have hinv : Ingesting chain (startIndexer db remote).startLedger s := by
    induction hrun with
    | refl => exact ingesting_start db remote hunambiguous
    | tail _ hstep ih =>
      obtain ⟨a, ha, rfl⟩ := hstep
      exact ingesting_step ih ha
  exact hinv.complete

/-- In an empty database nothing is ambiguous while every transaction emits one event. -/
theorem unambiguous_empty (h : (chain.map EventResponse.txHash).Nodup) :
    Unambiguous chain start Tables.empty where
  stored := by
    intro e he hstart r hr
    cases hr
  emitted := by
    intro e he hstart x hx entry hdecode hmodel hhash
    have hsame : x = e.response := List.inj_on_of_nodup_map h hx he hhash
    rw [hsame, e.decode_response] at hdecode
    cases hdecode
    rw [hsame]
    rfl

/-- Two mints in one ledger, by two transactions. -/
def twoMints : List Emission :=
  [⟨.mint "ADMIN" "ALICE" 10 10 10, 1, "tx1", some 10⟩,
    ⟨.mint "ADMIN" "BOB" 20 20 30, 1, "tx2", some 10⟩]

def emptyDatabase : Database := ⟨Tables.empty, none, []⟩

/-- The first iteration over ledger 1, with a page of the events of `twoMints`. -/
def firstPage (events : List Delivery)
    (h : (events.map Delivery.event).Sublist (twoMints.map Emission.response)) :
    Answers (twoMints.map Emission.response) where
  latest := some 1
  ledgers := some [⟨1, "h1", "h0"⟩]
  remote := none
  events := some events
  commitFails := false
  inOrder := by
    intro ds hds
    cases hds
    exact h

/-- The deliveries of `twoMints`, the second of which may meet a failing database. -/
def delivered (fault : Bool) : List Delivery :=
  [⟨Emission.response ⟨.mint "ADMIN" "ALICE" 10 10 10, 1, "tx1", some 10⟩, 11, 1, false⟩,
    ⟨Emission.response ⟨.mint "ADMIN" "BOB" 20 20 30, 1, "tx2", some 10⟩, 12, 2, fault⟩]

theorem delivered_page (fault : Bool) :
    ((delivered fault).map Delivery.event).Sublist (twoMints.map Emission.response) :=
  List.Sublist.refl _

theorem short_page : (((delivered false).take 1).map Delivery.event).Sublist
    (twoMints.map Emission.response) := by
  decide +kernel

theorem no_event_skipped_delivered :
    Complete (twoMints.map Emission.response) 1
      (iterate (startIndexer emptyDatabase [])
        (firstPage (delivered false) (delivered_page false))) := by
  have hturn : turn (startIndexer emptyDatabase [])
      (firstPage (delivered false) (delivered_page false)) =
        .ingest 1 [⟨1, "h1", "h0"⟩] (delivered false) := by
    decide +kernel
  have hpage : FullPage (startIndexer emptyDatabase []) (twoMints.map Emission.response) 1
      (delivered false) := by
    intro e he _ _
    have hall : ∀ x ∈ twoMints.map Emission.response,
        ∃ d ∈ delivered false, d.event = x ∧ d.fault = false := by decide +kernel
    exact .inr (hall _ he)
  have hcareful : Careful 1 (startIndexer emptyDatabase [])
      (firstPage (delivered false) (delivered_page false)) := by
    unfold Careful
    rw [hturn]
    exact fun _ => ⟨.inl rfl, hpage⟩
  have hhashes : ((twoMints.map Emission.response).map EventResponse.txHash).Nodup := by
    decide +kernel
  exact no_event_skipped _ emptyDatabase [] (unambiguous_empty hhashes) _
    (Relation.ReflTransGen.single ⟨_, hcareful, rfl⟩)

theorem not_complete_of_missing (hlast : s.db.lastIndexedLedger = some ⟨1, some "h1", some "h0"⟩)
    (hmissing : ⟨.mint "BOB" 20, 1, "tx2"⟩ ∉ s.db.tables.rows .mint) :
    ¬ Complete (twoMints.map Emission.response) 1 s := by
  intro h
  have hbob : (Emission.mk (.mint "ADMIN" "BOB" 20 20 30) 1 "tx2" (some 10)).response ∈
      twoMints.map Emission.response := by decide +kernel
  exact hmissing (h _ hlast _ hbob (le_refl 1) (le_refl 1))

/-- A mint whose write fails is skipped for good, and so is one that a short page leaves out: the
cursor advances over both. -/
theorem failed_write_skipped :
    ∃ lost cut : State,
      Run (fun _ (_ : Answers (twoMints.map Emission.response)) => True)
          (startIndexer emptyDatabase []) lost ∧
        ¬ Complete (twoMints.map Emission.response) 1 lost ∧
        Run (fun _ (_ : Answers (twoMints.map Emission.response)) => True)
          (startIndexer emptyDatabase []) cut ∧
        ¬ Complete (twoMints.map Emission.response) 1 cut := by
  refine ⟨iterate (startIndexer emptyDatabase [])
      (firstPage (delivered true) (delivered_page true)),
    iterate (startIndexer emptyDatabase []) (firstPage _ short_page),
    Relation.ReflTransGen.single ⟨_, trivial, rfl⟩, ?_,
    Relation.ReflTransGen.single ⟨_, trivial, rfl⟩, ?_⟩
  · exact not_complete_of_missing (by decide +kernel) (by decide +kernel)
  · exact not_complete_of_missing (by decide +kernel) (by decide +kernel)

end NoEventSkipped

end BcForge.Indexer
