import BcForge.Indexer.Runner
import BcForge.Messaging.Bus
import BcForge.Messaging.Retry

/-! What the indexer announces. A committed row goes to the connections that follow the event
stream and to the registered webhooks, while the loop, the API and the answers of the webhooks take
their turns in any order. -/
namespace BcForge.Indexer

open Messaging

/-- Its type is the table's name, its data the row. -/
structure IndexerEvent where
  type : Model
  data : Row
  deriving DecidableEq, Repr

/-- `processEvent`, with the call of `publishIndexerEvent` in which each case of the switch ends. -/
def processAndPublish (t : Tables) (d : Delivery) : Tables × Option IndexerEvent :=
  let published : Except IndexerError (Tables × Option IndexerEvent) := do
    match ← decodeEvent d.event with
    | none => return (t, none)
    | some entry =>
      let t' ← persist t d entry
      return (t', some ⟨entry.model, ⟨entry.data, d.event.ledger, d.event.txHash⟩⟩)
  match published with
  | .ok r => r
  | .error _ => (t, none)

/-- What the URL parser of the runtime makes of a text. -/
structure URL where
  protocol : String
  username : String
  password : String
  href : String
  deriving DecidableEq, Repr

structure WebhookTarget where
  id : String
  url : String
  deriving DecidableEq, Repr

inductive WebhookReply where
  /-- 201. -/
  | created (webhook : WebhookTarget)
  /-- 400. -/
  | badRequest (error : String)
  /-- 404. -/
  | notFound (error : String)
  /-- 204. -/
  | deleted
  deriving DecidableEq, Repr

/-- `POST /webhooks`. The body's `url` is none when it is no string; `id` is drawn by the
database. -/
def postWebhook (newURL : String → Option URL) (webhooks : List WebhookTarget)
    (rawUrl : Option String) (id : String) : List WebhookTarget × WebhookReply :=
  match rawUrl with
  | none => (webhooks, .badRequest "url must be an HTTPS URL")
  | some rawUrl =>
    match newURL rawUrl with
    | none => (webhooks, .badRequest "url must be an HTTPS URL")
    | some parsed =>
      if parsed.protocol ≠ "https:" ∨ 0 < parsed.username.length ∨ 0 < parsed.password.length then
        (webhooks, .badRequest "url must be an HTTPS URL without embedded credentials")
      else
        -- the url is a unique column
        match webhooks.find? (·.url = parsed.href) with
        | some webhook => (webhooks, .created webhook)
        | none => (webhooks ++ [⟨id, parsed.href⟩], .created ⟨id, parsed.href⟩)

/-- `DELETE /webhooks/:id`. -/
def deleteWebhook (webhooks : List WebhookTarget) (id : String) :
    List WebhookTarget × WebhookReply :=
  if webhooks.any (·.id = id) then (webhooks.filter (·.id ≠ id), .deleted)
  else (webhooks, .notFound "webhook_not_found")

/-- `deliverWebhook` makes at most two attempts. -/
def webhookAttempts : ℕ := 2

/-- How far `deliverIndexerEventToWebhooks` has got. -/
inductive Stage where
  | loading
  | posting (efforts : List (Effort WebhookTarget))
  /-- The webhooks could not be read. -/
  | lost
  deriving DecidableEq, Repr

/-- The webhook deliveries of one published event. -/
structure Job where
  event : IndexerEvent
  stage : Stage
  deriving DecidableEq, Repr

/-- The webhooks are read, or the database fails. Every target is posted to at once. -/
def Job.load (webhooks : List WebhookTarget) (answered : Bool) (j : Job) : Job :=
  match j.stage with
  | .loading => ⟨j.event, if answered then .posting (webhooks.map Effort.start) else .lost⟩
  | .posting _ | .lost => j

/-- The request to one target is answered: with a 2xx status, or not at all or by another one. -/
def Job.fetched (target : ℕ) (ok : Bool) (j : Job) : Job :=
  match j.stage with
  | .posting efforts => ⟨j.event, .posting (answerAt webhookAttempts efforts (target, ok))⟩
  | .loading | .lost => j

/-- The indexer process. Connections are numbered; the bus holds what was written to each. -/
structure Service where
  tables : Tables
  bus : Bus ℕ IndexerEvent
  webhooks : List WebhookTarget
  jobs : List Job

inductive Action where
  | processEvent (d : Delivery)
  | rollback (ledger : ℕ)
  /-- `GET /events/stream`. -/
  | connect (c : ℕ)
  /-- The response is ended or destroyed, and not written to from then on. -/
  | destroy (c : ℕ)
  /-- The `close` event of the request or of the response. -/
  | close (c : ℕ)
  | register (rawUrl : Option String) (id : String)
  | unregister (id : String)
  | load (job : ℕ) (answered : Bool)
  | fetched (job target : ℕ) (ok : Bool)

/-- The listeners are called at once; the webhooks are left to a job of their own. -/
def publishIndexerEvent (s : Service) (event : IndexerEvent) : Service :=
  { s with
    bus := s.bus.act (.emit event)
    jobs := s.jobs ++ [⟨event, .loading⟩] }

def Service.step (newURL : String → Option URL) (s : Service) : Action → Service
  | .processEvent d =>
    match processAndPublish s.tables d with
    | (t, none) => { s with tables := t }
    | (t, some event) => publishIndexerEvent { s with tables := t } event
  | .rollback ledger => { s with tables := s.tables.deleteAbove ledger }
  | .connect c => { s with bus := s.bus.act (.on c) }
  | .destroy c => { s with bus := s.bus.act (.deafen c) }
  | .close c => { s with bus := s.bus.act (.off c) }
  | .register rawUrl id => { s with webhooks := (postWebhook newURL s.webhooks rawUrl id).1 }
  | .unregister id => { s with webhooks := (deleteWebhook s.webhooks id).1 }
  | .load job answered => { s with jobs := s.jobs.modify job (Job.load s.webhooks answered) }
  | .fetched job target ok => { s with jobs := s.jobs.modify job (Job.fetched target ok) }

def Service.run (newURL : String → Option URL) (s : Service) (actions : List Action) : Service :=
  actions.foldl (Service.step newURL) s

def Service.start (t : Tables) (webhooks : List WebhookTarget) : Service :=
  ⟨t, Bus.empty, webhooks, []⟩

variable {newURL : String → Option URL} {s : Service} {t : Tables} {d : Delivery}
  {a : Action} {actions : List Action} {e : IndexerEvent} {m : Model} {n : ℕ}

section Announced

/-- What happens to the event tables: a row is added and announced, or a rollback takes rows away
and announces nothing. -/
inductive Notice where
  | announced (event : IndexerEvent)
  | rewound (ledger : ℕ)
  deriving DecidableEq, Repr

def noticesOf (s : Service) : Action → List Notice
  | .processEvent d => ((processAndPublish s.tables d).2.map Notice.announced).toList
  | .rollback ledger => [.rewound ledger]
  | _ => []

def history (newURL : String → Option URL) (s : Service) : List Action → List Notice
  | [] => []
  | a :: actions => noticesOf s a ++ history newURL (s.step newURL a) actions

/-- The rows of a table that somebody keeps who learns of every notice. -/
def follow (m : Model) (rows : List Row) : Notice → List Row
  | .announced event => if event.type = m then rows ++ [event.data] else rows
  | .rewound ledger => if m.isToken then rows.filter (·.ledger ≤ ledger) else rows

theorem processAndPublish_eq (t : Tables) (d : Delivery) : processAndPublish t d =
    match posting d with
    | some p =>
      if t.holds p.key then (t, none) else (write t p, some ⟨p.entry.model, p.row⟩)
    | none => (t, none) := by
  unfold processAndPublish posting
  cases hd : decodeEvent d.event with
  | error err => cases d.fault <;> rfl
  | ok entry =>
    cases entry with
    | none => cases d.fault <;> rfl
    | some entry =>
      cases hf : d.fault with
      | true =>
        have hfails : persist t d entry = .error .databaseFailure := if_pos hf
        simp only [bind, Except.bind, hfails]
        rfl
      | false =>
        simp only [bind, Except.bind, persist_eq entry hf]
        by_cases hk : t.holds (Posting.key ⟨d, entry⟩) = true
        · rw [if_pos hk]
          exact (if_pos hk).symm
        · rw [if_neg hk]
          exact (if_neg hk).symm

/-- Publishing changes nothing for the tables. -/
theorem tables_processAndPublish (t : Tables) (d : Delivery) :
    (processAndPublish t d).1 = processEvent t d := by
  rw [processAndPublish_eq, processEvent_eq]
  cases posting d with
  | none => rfl
  | some p =>
    unfold Relational.attempt
    dsimp only
    split <;> rfl

/-- An event is announced exactly when its row goes in, and its hash was free then. -/
theorem announcement_cases (t : Tables) (d : Delivery) :
    (processAndPublish t d = (t, none)) ∨
      ∃ t' event, processAndPublish t d = (t', some event) ∧
        event.data.txHash ∉ (t.rows event.type).map Row.txHash ∧
        ∀ m, t'.rows m = follow m (t.rows m) (.announced event) := by
  rw [processAndPublish_eq]
  cases hp : posting d with
  | none => exact .inl rfl
  | some p =>
    dsimp only
    obtain ⟨-, hdelivery, -⟩ := posting_some hp
    by_cases hk : t.holds p.key = true
    · exact .inl (if_pos hk)
    · refine .inr ⟨write t p, ⟨p.entry.model, p.row⟩, if_neg hk, ?_, ?_⟩
      · intro hmem
        exact hk (decide_eq_true hmem)
      · intro m
        rw [rows_write]
        by_cases hm : p.entry.model = m
        · subst hm
          simp [follow]
        · simp [follow, hm, Function.update_of_ne (Ne.symm hm)]

theorem rows_follow (s : Service) (a : Action) (m : Model) :
    (s.step newURL a).tables.rows m = (noticesOf s a).foldl (follow m) (s.tables.rows m) := by
  cases a with
  | processEvent d =>
    rcases announcement_cases s.tables d with h | ⟨t', event, h, -, hrows⟩
    · simp [Service.step, noticesOf, h]
    · simpa [Service.step, noticesOf, h, publishIndexerEvent] using hrows m
  | rollback ledger => rfl
  | connect c => rfl
  | destroy c => rfl
  | close c => rfl
  | register rawUrl id => rfl
  | unregister id => rfl
  | load job answered => rfl
  | fetched job target ok => rfl

/-- The tables follow the history. -/
theorem rows_run (s : Service) (actions : List Action) (m : Model) :
    (s.run newURL actions).tables.rows m =
      (history newURL s actions).foldl (follow m) (s.tables.rows m) := by
  induction actions generalizing s with
  | nil => rfl
  | cons a actions ih =>
    have hstep : (noticesOf s a).foldl (follow m) (s.tables.rows m) =
        (s.step newURL a).tables.rows m := (rows_follow s a m).symm
    rw [history, List.foldl_append, hstep]
    exact ih (s.step newURL a)

/-- No announcement repeats a hash that the table then holds. -/
def Fresh (rows : Model → List Row) : List Notice → Prop
  | [] => True
  | x :: h =>
    (∀ event, x = .announced event → event.data.txHash ∉ (rows event.type).map Row.txHash) ∧
      Fresh (fun m => follow m (rows m) x) h

theorem fresh_history (s : Service) (actions : List Action) :
    Fresh s.tables.rows (history newURL s actions) := by
  induction actions generalizing s with
  | nil => trivial
  | cons a actions ih =>
    have hrest := ih (s.step newURL a)
    have hrows : (s.step newURL a).tables.rows =
        fun m => (noticesOf s a).foldl (follow m) (s.tables.rows m) :=
      funext (rows_follow s a)
    rw [hrows] at hrest
    rw [history]
    cases a with
    | processEvent d =>
      rcases announcement_cases s.tables d with h | ⟨t', event, h, hfree, -⟩
      · have hnone : noticesOf s (.processEvent d) = [] := by simp [noticesOf, h]
        rw [hnone] at hrest ⊢
        exact hrest
      · have hone : noticesOf s (.processEvent d) = [.announced event] := by simp [noticesOf, h]
        rw [hone] at hrest ⊢
        refine ⟨?_, hrest⟩
        intro event' hevent
        cases hevent
        exact hfree
    | rollback ledger => exact ⟨nofun, hrest⟩
    | connect c => exact hrest
    | destroy c => exact hrest
    | close c => exact hrest
    | register rawUrl id => exact hrest
    | unregister id => exact hrest
    | load job answered => exact hrest
    | fetched job target ok => exact hrest

/-- A row stays until a rollback goes below its ledger. -/
theorem kept_or_rewound {r : Row} {rows : List Row} (h : List Notice) (hr : r ∈ rows) :
    r ∈ h.foldl (follow m) rows ∨ ∃ n, .rewound n ∈ h ∧ n < r.ledger ∧ m.isToken = true := by
  induction h generalizing rows with
  | nil => exact .inl hr
  | cons x h ih =>
    by_cases hgone : ∃ n, x = .rewound n ∧ n < r.ledger ∧ m.isToken = true
    · obtain ⟨n, rfl, hlt, hm⟩ := hgone
      exact .inr ⟨n, List.mem_cons_self, hlt, hm⟩
    · have hkept : r ∈ follow m rows x := by
        cases x with
        | announced event =>
          by_cases hm : event.type = m
          · rw [follow, if_pos hm]
            exact List.mem_append_left _ hr
          · rw [follow, if_neg hm]
            exact hr
        | rewound n =>
          by_cases hm : m.isToken = true
          · have hle : r.ledger ≤ n := by
              by_contra hlt
              exact hgone ⟨n, rfl, by omega, hm⟩
            rw [follow, if_pos hm]
            exact List.mem_filter.mpr ⟨hr, decide_eq_true hle⟩
          · rw [follow, if_neg hm]
            exact hr
      rcases ih hkept with hin | ⟨n, hn, hlt⟩
      · exact .inl hin
      · exact .inr ⟨n, List.mem_cons_of_mem x hn, hlt⟩

theorem fresh_append {rows : Model → List Row} {h h' : List Notice}
    (hfresh : Fresh rows (h ++ h')) :
    Fresh (fun m => h.foldl (follow m) (rows m)) h' := by
  induction h generalizing rows with
  | nil => exact hfresh
  | cons x h ih => exact ih hfresh.2

/-- In a fresh history two announcements of one hash have a rollback between them. -/
theorem rewound_between {rows : Model → List Row} {h₁ h₂ h₃ : List Notice}
    {e e' : IndexerEvent} (hfresh : Fresh rows (h₁ ++ .announced e :: h₂ ++ .announced e' :: h₃))
    (htype : e.type = e'.type) (hhash : e.data.txHash = e'.data.txHash) :
    ∃ n, .rewound n ∈ h₂ ∧ n < e.data.ledger ∧ e.type.isToken = true := by
  rw [List.append_assoc] at hfresh
  have hafter := fresh_append (fresh_append hfresh).2
  have hin : e.data ∈ follow e.type (h₁.foldl (follow e.type) (rows e.type)) (.announced e) := by
    simp [follow]
  rcases kept_or_rewound h₂ hin with hheld | hrewound
  · have hfree := hafter.1 e' rfl
    rw [← htype, ← hhash] at hfree
    exact absurd (List.mem_map_of_mem hheld) hfree
  · exact hrewound

end Announced

section Streams

/-- What an action means to the event emitter. -/
def signalsOf (s : Service) : Action → List (BusAction ℕ IndexerEvent)
  | .processEvent d => ((processAndPublish s.tables d).2.map BusAction.emit).toList
  | .connect c => [.on c]
  | .destroy c => [.deafen c]
  | .close c => [.off c]
  | _ => []

def signals (newURL : String → Option URL) (s : Service) :
    List Action → List (BusAction ℕ IndexerEvent)
  | [] => []
  | a :: actions => signalsOf s a ++ signals newURL (s.step newURL a) actions

theorem bus_step (s : Service) (a : Action) :
    (s.step newURL a).bus = s.bus.run (signalsOf s a) := by
  cases a with
  | processEvent d =>
    rcases announcement_cases s.tables d with h | ⟨t', event, h, -⟩
    · simp [Service.step, signalsOf, h, Bus.run]
    · simp [Service.step, signalsOf, h, publishIndexerEvent, Bus.run]
  | rollback ledger => rfl
  | connect c => rfl
  | destroy c => rfl
  | close c => rfl
  | register rawUrl id => rfl
  | unregister id => rfl
  | load job answered => rfl
  | fetched job target ok => rfl

theorem bus_run (s : Service) (actions : List Action) :
    (s.run newURL actions).bus = s.bus.run (signals newURL s actions) := by
  induction actions generalizing s with
  | nil => rfl
  | cons a actions ih =>
    have hrest := ih (s.step newURL a)
    rw [bus_step] at hrest
    refine hrest.trans ?_
    rw [signals, Bus.run, Bus.run, Bus.run, List.foldl_append]

def Notice.event? : Notice → Option IndexerEvent
  | .announced event => some event
  | .rewound _ => none

def emitted? : BusAction ℕ IndexerEvent → Option IndexerEvent
  | .emit event => some event
  | _ => none

/-- What is emitted is what is announced. -/
theorem emitted_signals (s : Service) (actions : List Action) :
    (signals newURL s actions).filterMap emitted? =
      (history newURL s actions).filterMap Notice.event? := by
  induction actions generalizing s with
  | nil => rfl
  | cons a actions ih =>
    rw [signals, history, List.filterMap_append, List.filterMap_append, ih]
    congr 1
    cases a with
    | processEvent d =>
      rcases announcement_cases s.tables d with hp | ⟨t', event, hp, -⟩
      · simp [signalsOf, noticesOf, hp]
      · simp [signalsOf, noticesOf, hp, emitted?, Notice.event?]
    | rollback ledger => rfl
    | connect c => rfl
    | destroy c => rfl
    | close c => rfl
    | register rawUrl id => rfl
    | unregister id => rfl
    | load job answered => rfl
    | fetched job target ok => rfl

/-- In any run of the indexer process the event tables follow the history of its announcements and
rollbacks. Every connection is written exactly what was announced while it was open, in order, and
no hash is announced twice for one table unless a rollback removed its row in between: the rows of
the vaults, of the vestings and of the splits are announced once for all. -/
theorem rows_announced (newURL : String → Option URL) (s : Service) (actions : List Action) :
    let s' := s.run newURL actions
    let h := history newURL s actions
    (∀ m, s'.tables.rows m = h.foldl (follow m) (s.tables.rows m)) ∧
      (∀ c, s'.bus.inbox c = s.bus.inbox c ++
        heard c (s.bus.deaf c) (s.bus.listeners.count c) (signals newURL s actions)) ∧
      (signals newURL s actions).filterMap emitted? = h.filterMap Notice.event? ∧
      ∀ h₁ h₂ h₃ e e', h = h₁ ++ .announced e :: h₂ ++ .announced e' :: h₃ →
        e.type = e'.type → e.data.txHash = e'.data.txHash →
        ∃ n, .rewound n ∈ h₂ ∧ n < e.data.ledger ∧ e.type.isToken = true := by
  intro s' h
  refine ⟨rows_run s actions, ?_, emitted_signals s actions, ?_⟩
  · intro c
    rw [← inbox_run]
    exact congrArg (Bus.inbox · c) (bus_run s actions)
  · intro h₁ h₂ h₃ e e' hsplit htype hhash
    have hfresh : Fresh s.tables.rows h := fresh_history s actions
    rw [hsplit] at hfresh
    exact rewound_between hfresh htype hhash

def aliceMint : Emission := ⟨.mint "ADMIN" "ALICE" 10 10 10, 1, "tx1", some 10⟩

/-- A mint is indexed, rolled back and indexed again. -/
def mintTwice : List Action :=
  [.processEvent ⟨aliceMint.response, 11, 1, false⟩, .connect 7, .rollback 0,
    .processEvent ⟨aliceMint.response, 12, 2, false⟩]

theorem rows_announced_mintTwice :
    ∃ n, Notice.rewound n ∈ [Notice.rewound 0] ∧ n < 1 ∧ Model.mint.isToken = true :=
  (rows_announced (fun _ => none) (Service.start Tables.empty []) mintTwice).2.2.2 []
    [.rewound 0] [] ⟨.mint, ⟨.mint "ALICE" 10, 1, "tx1"⟩⟩ ⟨.mint, ⟨.mint "ALICE" 10, 1, "tx1"⟩⟩
    (by decide +kernel) rfl rfl

/-- The actions an iteration of the loop comes to. -/
def performed {chain : List EventResponse} (state : State) (answers : Answers chain) :
    List Action :=
  match turn state answers with
  | .idle => []
  | .reconcile cursor remote =>
    match forkPoint state.db remote cursor with
    | none => []
    | some common => [.rollback (rewindLedger common)]
  | .ingest _ _ events => events.map .processEvent

theorem tables_processed (s : Service) (ds : List Delivery) :
    (s.run newURL (ds.map .processEvent)).tables = processEvents s.tables ds := by
  induction ds generalizing s with
  | nil => rfl
  | cons d ds ih =>
    have hstep : (s.step newURL (.processEvent d)).tables = processEvent s.tables d := by
      rw [← tables_processAndPublish]
      rcases announcement_cases s.tables d with h | ⟨t', event, h, -⟩ <;>
        simp [Service.step, h, publishIndexerEvent]
    have hrest := ih (s.step newURL (.processEvent d))
    rw [hstep] at hrest
    exact hrest

/-- The process does with the tables what the loop does. -/
theorem tables_performed {chain : List EventResponse} (state : State) (answers : Answers chain)
    (h : s.tables = state.db.tables) :
    (s.run newURL (performed state answers)).tables = (iterate state answers).db.tables := by
  unfold performed iterate
  cases turn state answers with
  | idle => exact h
  | reconcile cursor remote =>
    dsimp only
    cases hfork : forkPoint state.db remote cursor with
    | none =>
      rw [reconcileLedgerCursor, hfork]
      exact h
    | some common =>
      rw [reconcile_rollback hfork]
      exact congrArg (Tables.deleteAbove · (rewindLedger common)) h
  | ingest endLedger coordinates events =>
    dsimp only
    rw [tables_processed, h]
    split
    · rfl
    · split <;> rfl

end Streams

section Webhooks

/-- A target that the API let in. -/
def Registered (newURL : String → Option URL) (webhook : WebhookTarget) : Prop :=
  ∃ rawUrl parsed, newURL rawUrl = some parsed ∧ parsed.protocol = "https:" ∧
    parsed.username = "" ∧ parsed.password = "" ∧ webhook.url = parsed.href

/-- The table of webhooks: urls that were let in, each one once. -/
structure Hooked (newURL : String → Option URL) (webhooks : List WebhookTarget) : Prop where
  registered : ∀ w ∈ webhooks, Registered newURL w
  nodup : (webhooks.map WebhookTarget.url).Nodup

variable {webhooks : List WebhookTarget} {j : ℕ} {efforts : List (Effort WebhookTarget)}

theorem hooked_postWebhook (h : Hooked newURL webhooks) (rawUrl : Option String) (id : String) :
    Hooked newURL (postWebhook newURL webhooks rawUrl id).1 := by
  unfold postWebhook
  split
  · exact h
  · rename_i rawUrl
    split
    · exact h
    · rename_i parsed hparsed
      split
      · exact h
      · rename_i hallowed
        push Not at hallowed
        obtain ⟨hprotocol, huser, hpassword⟩ := hallowed
        split
        · exact h
        · rename_i hnew
          have hfresh : parsed.href ∉ webhooks.map WebhookTarget.url := by
            intro hmem
            obtain ⟨w, hw, hurl⟩ := List.mem_map.mp hmem
            have := List.find?_eq_none.mp hnew w hw
            simp [hurl] at this
          refine ⟨?_, ?_⟩
          · intro w hw
            rcases List.mem_append.mp hw with hold | hw
            · exact h.registered w hold
            · cases List.mem_singleton.mp hw
              refine ⟨rawUrl, parsed, hparsed, hprotocol, ?_, ?_, rfl⟩
              · exact String.length_eq_zero_iff.mp (Nat.le_zero.mp huser)
              · exact String.length_eq_zero_iff.mp (Nat.le_zero.mp hpassword)
          · rw [List.map_append]
            exact List.nodup_append.mpr ⟨h.nodup, List.nodup_singleton _, by
              rintro a ha b hb rfl
              have hurl : a = parsed.href := List.mem_singleton.mp hb
              exact hfresh (hurl ▸ ha)⟩

theorem hooked_deleteWebhook (h : Hooked newURL webhooks) (id : String) :
    Hooked newURL (deleteWebhook webhooks id).1 := by
  unfold deleteWebhook
  split
  · refine ⟨fun w hw => h.registered w (List.mem_filter.mp hw).1, ?_⟩
    exact h.nodup.sublist (List.filter_sublist.map _)
  · exact h

theorem hooked_step (h : Hooked newURL s.webhooks) (a : Action) :
    Hooked newURL (s.step newURL a).webhooks := by
  cases a with
  | processEvent d =>
    rcases announcement_cases s.tables d with hp | ⟨t', event, hp, -⟩
    · simpa [Service.step, hp] using h
    · simpa [Service.step, hp, publishIndexerEvent] using h
  | rollback ledger => exact h
  | connect c => exact h
  | destroy c => exact h
  | close c => exact h
  | register rawUrl id => exact hooked_postWebhook h rawUrl id
  | unregister id => exact hooked_deleteWebhook h id
  | load job answered => exact h
  | fetched job target ok => exact h

theorem hooked_run (h : Hooked newURL s.webhooks) (actions : List Action) :
    Hooked newURL (s.run newURL actions).webhooks := by
  induction actions generalizing s with
  | nil => exact h
  | cons a actions ih => exact ih (hooked_step h a)

theorem event_load (webhooks : List WebhookTarget) (answered : Bool) (job : Job) :
    (job.load webhooks answered).event = job.event := by
  unfold Job.load
  split <;> rfl

theorem event_fetched (target : ℕ) (ok : Bool) (job : Job) :
    (job.fetched target ok).event = job.event := by
  unfold Job.fetched
  split <;> rfl

theorem events_modify {f : Job → Job} (hf : ∀ job, (f job).event = job.event) (jobs : List Job) :
    (jobs.modify j f).map Job.event = jobs.map Job.event := by
  apply List.ext_getElem?
  intro i
  rw [List.getElem?_map, List.getElem?_map, List.getElem?_modify]
  split
  · rw [Option.map_eq_map, Option.map_map]
    congr 1
    funext job
    exact hf job
  · simp

/-- Every announcement starts one job. -/
theorem jobs_run (s : Service) (actions : List Action) :
    (s.run newURL actions).jobs.map Job.event =
      s.jobs.map Job.event ++ (history newURL s actions).filterMap Notice.event? := by
  induction actions generalizing s with
  | nil => exact (List.append_nil _).symm
  | cons a actions ih =>
    have hstep : (s.step newURL a).jobs.map Job.event =
        s.jobs.map Job.event ++ (noticesOf s a).filterMap Notice.event? := by
      cases a with
      | processEvent d =>
        rcases announcement_cases s.tables d with hp | ⟨t', event, hp, -⟩
        · simp [Service.step, noticesOf, hp]
        · simp [Service.step, noticesOf, hp, publishIndexerEvent, Notice.event?]
      | rollback ledger => exact (List.append_nil _).symm
      | connect c => exact (List.append_nil _).symm
      | destroy c => exact (List.append_nil _).symm
      | close c => exact (List.append_nil _).symm
      | register rawUrl id => exact (List.append_nil _).symm
      | unregister id => exact (List.append_nil _).symm
      | load job answered =>
        exact (events_modify (event_load s.webhooks answered) s.jobs).trans
          (List.append_nil _).symm
      | fetched job target ok =>
        exact (events_modify (event_fetched target ok) s.jobs).trans (List.append_nil _).symm
    refine (ih (s.step newURL a)).trans ?_
    rw [hstep, history, List.filterMap_append, List.append_assoc]

/-- The answers that reach a job. -/
def answersFor (j : ℕ) : List Action → List (ℕ × Bool)
  | [] => []
  | .fetched job target ok :: actions =>
    if job = j then (target, ok) :: answersFor j actions else answersFor j actions
  | _ :: actions => answersFor j actions

/-- Once it posts, a job sees nothing but its own answers. -/
theorem posting_run {e : IndexerEvent} (hj : s.jobs[j]? = some ⟨e, .posting efforts⟩)
    (actions : List Action) :
    (s.run newURL actions).jobs[j]? =
      some ⟨e, .posting ((answersFor j actions).foldl (answerAt webhookAttempts) efforts)⟩ := by
  induction actions generalizing s efforts with
  | nil => exact hj
  | cons a actions ih =>
    cases a with
    | processEvent d =>
      refine ih ?_
      rcases announcement_cases s.tables d with hp | ⟨t', event, hp, -⟩
      · simpa [Service.step, hp] using hj
      · have hlt : j < s.jobs.length := (List.getElem?_eq_some_iff.mp hj).1
        simpa [Service.step, hp, publishIndexerEvent, List.getElem?_append_left hlt] using hj
    | rollback ledger => exact ih hj
    | connect c => exact ih hj
    | destroy c => exact ih hj
    | close c => exact ih hj
    | register rawUrl id => exact ih hj
    | unregister id => exact ih hj
    | load job answered =>
      refine ih ?_
      by_cases hjob : job = j
      · simp [Service.step, hjob, hj, Job.load]
      · simp [Service.step, hjob, hj]
    | fetched job target ok =>
      by_cases hjob : job = j
      · subst hjob
        have hnext : (s.step newURL (.fetched job target ok)).jobs[job]? =
            some ⟨e, .posting (answerAt webhookAttempts efforts (target, ok))⟩ := by
          simp [Service.step, hj, Job.fetched]
        rw [answersFor, if_pos rfl]
        exact ih hnext
      · have hsame : (s.step newURL (.fetched job target ok)).jobs[j]? =
            some ⟨e, .posting efforts⟩ := by
          simp [Service.step, hjob, hj]
        rw [answersFor, if_neg hjob]
        exact ih hsame

/-- What becomes of the request to one target, by the answers it gets. -/
def fate (target : WebhookTarget) (answers : List Bool) : Effort WebhookTarget :=
  ⟨target, min 2 (1 + (answers.takeWhile not).length),
    if true ∈ answers.take 2 then some .delivered
    else if 2 ≤ answers.length then some .failed else none⟩

theorem posted (webhooks : List WebhookTarget) (answers : List (ℕ × Bool)) :
    answers.foldl (answerAt webhookAttempts) (webhooks.map Effort.start) =
      webhooks.mapIdx fun i w => fate w (answersTo i answers) := by
  rw [answers_apart]
  apply List.ext_getElem?
  intro i
  rw [List.getElem?_mapIdx, List.getElem?_mapIdx, List.getElem?_map, Option.map_map]
  congr 1
  funext w
  exact answers_start (by decide) w _

/-- Whatever else goes on, the webhooks registered when a job reads them are posted its event each
on its own: once if the first request succeeds, otherwise exactly twice, and nobody else is. They
are https urls without credentials, and different ones. -/
theorem webhooks_posted_apart (newURL : String → Option URL) (t : Tables)
    (webhooks : List WebhookTarget) (hwebhooks : Hooked newURL webhooks)
    (before after : List Action) (j : ℕ) (e : IndexerEvent) :
    let start := Service.start t webhooks
    let s := start.run newURL before
    s.jobs.map Job.event = (history newURL start before).filterMap Notice.event? ∧
      Hooked newURL s.webhooks ∧
      (s.jobs[j]? = some ⟨e, .loading⟩ →
        (s.run newURL (.load j true :: after)).jobs[j]? =
          some ⟨e, .posting (s.webhooks.mapIdx fun i w =>
            fate w (answersTo i (answersFor j after)))⟩) := by
  intro start s
  refine ⟨jobs_run start before, hooked_run hwebhooks before, ?_⟩
  intro hj
  have hload : (s.step newURL (.load j true)).jobs[j]? =
      some ⟨e, .posting (s.webhooks.map Effort.start)⟩ := by
    simp [Service.step, hj, Job.load]
  rw [← posted]
  exact posting_run hload after

/-- The parser of the runtime, on the one text used here. -/
def parseHook (rawUrl : String) : Option URL :=
  if rawUrl = "https://hooks.example/" then some ⟨"https:", "", "", "https://hooks.example/"⟩
  else none

theorem webhooks_posted_apart_once :
    let s := (Service.start Tables.empty []).run parseHook
      (.register (some "https://hooks.example/") "hook" :: mintTwice)
    (s.run parseHook [.load 0 true, .fetched 0 0 false, .fetched 0 0 true]).jobs[0]? =
      some ⟨⟨.mint, ⟨.mint "ALICE" 10, 1, "tx1"⟩⟩, .posting (s.webhooks.mapIdx fun i w =>
        fate w (answersTo i (answersFor 0 [.fetched 0 0 false, .fetched 0 0 true])))⟩ :=
  (webhooks_posted_apart parseHook Tables.empty [] ⟨nofun, List.nodup_nil⟩
    (.register (some "https://hooks.example/") "hook" :: mintTwice)
    [.fetched 0 0 false, .fetched 0 0 true] 0 _).2.2 (by decide +kernel)

end Webhooks

end BcForge.Indexer
