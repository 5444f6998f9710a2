import BcForge.Indexer.Aggregates
import BcForge.Indexer.Chain

/-! The database against the token: the events of a run, delivered and processed one by one. -/
namespace BcForge.Indexer

open Soroban BcForgeToken

/-- A published event on its way to the indexer. -/
structure Broadcast where
  event : Sdk.TokenEvent
  ledger : ℕ
  txHash : String
  closedAt : Option ℤ
  now : ℤ
  id : ℕ

variable (name : Address → String)

def Broadcast.delivery (b : Broadcast) : Delivery :=
  ⟨responseOf name b.event.emit b.ledger b.txHash b.closedAt, b.now, b.id, false⟩

/-- The event, if it is one of those the index keeps. -/
def Broadcast.kept (b : Broadcast) : Option Sent :=
  (named name b.event).map fun e => ⟨⟨e, b.ledger, b.txHash, b.closedAt⟩, b.now, b.id⟩

/-- The newest supply on record. -/
def lastSupply (points : List SupplyPoint) : ℤ := (points.getLast?.map SupplyPoint.supply).getD 0

variable {name} {bs : List Broadcast} {sent : List Sent} {w : World Store}
  {ls : List (Label Op)}

theorem posting_broadcast (b : Broadcast) :
    Indexer.posting (b.delivery name) = (b.kept name).map Sent.posting := by
  obtain ⟨event, ledger, txHash, closedAt, now, id⟩ := b
  cases event <;> rfl

theorem postings_broadcasts : postings (bs.map (Broadcast.delivery name)) =
    (bs.filterMap (Broadcast.kept name)).map Sent.posting := by
  have hpost : Indexer.posting ∘ Broadcast.delivery name =
      fun b => (b.kept name).map Sent.posting := funext posting_broadcast
  rw [postings, List.filterMap_map, hpost, List.map_filterMap]

/-- What the index does not keep leaves no trace in it. -/
theorem index_broadcasts : index (bs.map (Broadcast.delivery name)) =
    indexSent (bs.filterMap (Broadcast.kept name)) := by
  rw [indexSent, index_eq, index_eq, stored, stored, postings_broadcasts, postings_deliveries]

theorem events_kept :
    (bs.filterMap (Broadcast.kept name)).map (·.emission.event) =
      (bs.map Broadcast.event).filterMap (named name) := by
  rw [List.filterMap_map, List.map_filterMap]
  congr 1
  funext b
  simp [Broadcast.kept, Option.map_map, Function.comp_def]

/-- A write of an event that names the supply after it leaves that supply as the newest. -/
theorem lastSupply_write (t : Tables) (s : Sent)
    (h : ∀ x ∈ s.emission.event.newSupply,
      x = lastSupply t.supplyPoint + supplyDeltaFor s.emission.event.ledgerEvent) :
    lastSupply (write t s.posting).supplyPoint =
      lastSupply t.supplyPoint + supplyDeltaFor s.emission.event.ledgerEvent := by
  have hpoints : (write t s.posting).supplyPoint =
      (applyLedgerEventAggregates (t.insert s.posting.entry.model s.posting.row)
        s.emission.event.ledgerEvent
        (aggregateOptions s.delivery s.emission.event.newSupply)).supplyPoint := rfl
  rw [hpoints, supplyPoint_aggregates]
  split
  · rename_i hzero
    rw [hzero, add_zero]
    rfl
  · rename_i hne
    cases hnew : s.emission.event.newSupply with
    | some x =>
      simp [lastSupply, Application.point, aggregateOptions, Tables.insert, h x hnew]
    | none =>
      refine absurd ?_ hne
      cases he : s.emission.event with
      | mint m dst amount nb ns => simp [he, TokenEvent.newSupply] at hnew
      | burn src amount nb ns => simp [he, TokenEvent.newSupply] at hnew
      | transfer src dst amount => rfl
      | transferFrom spender src dst amount rest => rfl

theorem lastSupply_writes {t : Tables} {supply : ℤ}
    (h : SupplyTold (lastSupply t.supplyPoint) (sent.map (·.emission.event)) supply) :
    lastSupply ((sent.map Sent.posting).foldl write t).supplyPoint = supply := by
  induction sent generalizing t with
  | nil => exact Eq.symm h
  | cons s sent ih =>
    obtain ⟨hnamed, hrest⟩ := h
    rw [List.map_cons, List.foldl_cons]
    refine ih ?_
    rw [lastSupply_write t s hnamed]
    exact hrest

/-- A database that has processed every event the token published, no two of one table from one
transaction, shows the token's books: each holder's balance, no other holders, and as its newest
supply the supply. -/
theorem database_shows_books (hname : Function.Injective name) (h : Deployed w)
    (hall : bs.map Broadcast.event = w.collectSteps exec (published Emitting.exec) ls)
    (hone : OnePerTransaction (bs.filterMap (Broadcast.kept name))) :
    (∀ a, shown (index (bs.map (Broadcast.delivery name))).holder (name a) =
      sparse ((w.run exec ls).store.balance a)) ∧
    (∀ text ∉ Set.range name,
      shown (index (bs.map (Broadcast.delivery name))).holder text = none) ∧
    lastSupply (index (bs.map (Broadcast.delivery name))).supplyPoint =
      (w.run exec ls).store.supply := by
  have hevents : (bs.filterMap (Broadcast.kept name)).map (·.emission.event) =
      eventLog name w ls := by
    rw [events_kept, hall]
    rfl
  have hshown := sameBalances_of_onePerTransaction hone
  rw [SameBalances] at hshown
  have hmap : (bs.filterMap (Broadcast.kept name)).map (·.emission.event.ledgerEvent) =
      (eventLog name w ls).map TokenEvent.ledgerEvent := by
    rw [← hevents, List.map_map]
    rfl
  rw [index_broadcasts, hshown, hmap]
  refine ⟨folded_balance hname h, fun text ht => folded_unnamed ht, ?_⟩
  rw [indexSent, index_eq, stored_eq_all hone]
  refine lastSupply_writes ?_
  rw [hevents]
  exact supply_told hname h

/-- A mint, a spender's transfer out of it and a burn, each in a transaction of its own. -/
def plainRun : List (Label Op) :=
  [.call [⟨1⟩] [] (.mint ⟨1⟩ ⟨2⟩ 500),
   .call [⟨2⟩] [] (.approve ⟨2⟩ ⟨4⟩ 200 0),
   .call [⟨4⟩] [] (.transferFrom ⟨4⟩ ⟨2⟩ ⟨3⟩ 150),
   .call [⟨3⟩] [] (.burn ⟨3⟩ 50)]

/-- Events, each from a transaction of its own. -/
def numbered (es : List Sdk.TokenEvent) : List Broadcast :=
  es.zipIdx.map fun p => ⟨p.1, 100, toString p.2, none, 0, p.2⟩

theorem events_numbered (es : List Sdk.TokenEvent) : (numbered es).map Broadcast.event = es := by
  rw [numbered, List.map_map]
  exact List.zipIdx_map_fst 0 es

def plainBroadcasts : List Broadcast :=
  numbered (genesis.collectSteps exec (published Emitting.exec) plainRun)

theorem plainBroadcasts_shown :
    shown (index (plainBroadcasts.map (Broadcast.delivery letters))).holder (letters ⟨3⟩) =
      some 100 := by
  have hall : plainBroadcasts.map Broadcast.event =
      genesis.collectSteps exec (published Emitting.exec) plainRun := events_numbered _
  have hone : OnePerTransaction (plainBroadcasts.filterMap (Broadcast.kept letters)) := by
    unfold OnePerTransaction
    decide +kernel
  have hshown := (database_shows_books letters_injective genesis_deployed hall hone).1 ⟨3⟩
  exact hshown.trans (by decide +kernel)

end BcForge.Indexer
