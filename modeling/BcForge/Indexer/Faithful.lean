import Mathlib.Data.List.Perm.Subperm
import BcForge.Indexer.Store

/-! The index as a picture of the token's history: every event in its table, every balance in the
holder table. -/
namespace BcForge.Indexer

open Relational

/-- A token event as `processEvent` receives it, with no database failure. -/
structure Sent where
  emission : Emission
  now : ℤ
  id : ℕ
  deriving DecidableEq, Repr

namespace Sent

def delivery (s : Sent) : Delivery := ⟨s.emission.response, s.now, s.id, false⟩

def model (s : Sent) : Model := s.emission.event.model

def txHash (s : Sent) : String := s.emission.txHash

def posting (s : Sent) : Posting where
  delivery := s.delivery
  entry := ⟨s.model, s.emission.event.rowData,
    some (s.emission.event.ledgerEvent, s.emission.event.newSupply)⟩

end Sent

def indexSent (sent : List Sent) : Tables := index (sent.map Sent.delivery)

/-- Every event has a row of its own in its table. -/
def OwnRows (sent : List Sent) : Prop :=
  ∀ m, ((sent.filter (·.model = m)).map (·.emission.row)).Subperm ((indexSent sent).rows m)

/-- The holder table shows the balances of the pure fold. -/
def SameBalances (sent : List Sent) : Prop :=
  shown (indexSent sent).holder =
    (foldLedgerEvents (sent.map (·.emission.event.ledgerEvent))).balances

def Faithful (sent : List Sent) : Prop := OwnRows sent ∧ SameBalances sent

/-- No two events of one table come from the same transaction. -/
def OnePerTransaction (sent : List Sent) : Prop :=
  sent.Pairwise fun x y => x.model = y.model → x.txHash ≠ y.txHash

variable {sent : List Sent} {ds : List Delivery} {m : Model}

theorem posting_delivery (s : Sent) : Indexer.posting s.delivery = some s.posting := by
  have hd := s.emission.decode_response
  simp only [Indexer.posting, Sent.delivery, hd, Sent.posting, Sent.model]
  rfl

theorem postings_deliveries : postings (sent.map Sent.delivery) = sent.map Sent.posting := by
  have hpost : Indexer.posting ∘ Sent.delivery = fun s => some s.posting :=
    funext posting_delivery
  rw [postings, List.filterMap_map, hpost, ← List.filterMap_eq_map]
  rfl

/-- The unique index at work: no table ever holds a hash twice. -/
theorem rows_nodup (ds : List Delivery) (m : Model) :
    (((index ds).rows m).map Row.txHash).Nodup := by
  have hkeys : (stored ds).Pairwise fun p q => p.key ≠ q.key := List.pairwise_map.mp nodup_admitted
  rw [index_eq, rows_foldl_write]
  simp only [Tables.empty, List.nil_append, List.map_map]
  rw [List.Nodup, List.pairwise_map, List.pairwise_filter]
  refine hkeys.imp ?_
  intro p q hkey hp hq hhash
  have hmodel : p.entry.model = q.entry.model :=
    (of_decide_eq_true hp).trans (of_decide_eq_true hq).symm
  exact hkey (Prod.ext hmodel hhash)

theorem stored_eq_all (h : OnePerTransaction sent) :
    stored (sent.map Sent.delivery) = sent.map Sent.posting := by
  rw [stored, postings_deliveries]
  refine admitted_eq_self (fun _ _ => rfl) ?_
  rw [List.map_map, List.Nodup, List.pairwise_map]
  refine h.imp ?_
  intro x y hxy hkey
  obtain ⟨hmodel, hhash⟩ := Prod.ext_iff.mp hkey
  exact hxy hmodel hhash

theorem ownRows_of_onePerTransaction (h : OnePerTransaction sent) : OwnRows sent := by
  intro m
  rw [indexSent, index_eq, stored_eq_all h, rows_foldl_write, List.filter_map, List.map_map]
  exact List.Subperm.refl _

/-- Rows of their own have hashes of their own, since no table holds a hash twice. -/
theorem onePerTransaction_of_ownRows (h : OwnRows sent) : OnePerTransaction sent := by
  rw [OnePerTransaction, List.pairwise_iff_forall_sublist]
  intro x y hsub hmodel
  have hnodup : (((sent.filter (·.model = x.model)).map (·.emission.row)).map Row.txHash).Nodup := by
    obtain ⟨l, hperm, hl⟩ := h x.model
    have hnodup := (rows_nodup _ x.model).sublist (hl.map Row.txHash)
    exact (hperm.map Row.txHash).nodup_iff.mp hnodup
  rw [List.map_map, List.Nodup, List.pairwise_map, List.pairwise_filter,
    List.pairwise_iff_forall_sublist] at hnodup
  exact hnodup hsub (decide_eq_true rfl) (decide_eq_true hmodel.symm)

theorem sameBalances_of_onePerTransaction (h : OnePerTransaction sent) : SameBalances sent := by
  funext a
  have hdeltas : (sent.map Sent.posting).flatMap Posting.deltas =
      (sent.map (·.emission.event.ledgerEvent)).flatMap deltasFor := by
    rw [List.flatMap_map, List.flatMap_map]
    rfl
  rw [indexSent, index_eq, stored_eq_all h, shown_stored, hdeltas, foldLedgerEvents_balances]

/-- The index is faithful to a history of token events exactly when no transaction brings two events
to one table. -/
theorem index_faithful_iff (sent : List Sent) : Faithful sent ↔ OnePerTransaction sent := by
  constructor
  · intro h
    exact onePerTransaction_of_ownRows h.1
  · intro h
    exact ⟨ownRows_of_onePerTransaction h, sameBalances_of_onePerTransaction h⟩

/-- One `batch_mint` call with two recipients. -/
def batchMint : List Sent :=
  [⟨⟨.mint "ADMIN" "ALICE" 10 10 10, 5, "tx", some 50⟩, 51, 1⟩,
    ⟨⟨.mint "ADMIN" "BOB" 20 20 30, 5, "tx", some 50⟩, 52, 2⟩]

/-- The second mint of a batch is taken for a repetition of the first: it gets no row, and its
recipient no balance. -/
theorem batchMint_not_faithful : ¬ Faithful batchMint := by
  intro h
  have hrows := (h.1 .mint).length_le
  have hmissing : ¬ 2 ≤ ((indexSent batchMint).rows .mint).length := by decide +kernel
  exact hmissing hrows

section Redelivery

/-- The event was delivered at least once while the database did its work. -/
def Processed (ds : List Delivery) (event : EventResponse) : Prop :=
  ∃ d ∈ ds, d.event = event ∧ d.fault = false

instance (ds : List Delivery) (event : EventResponse) : Decidable (Processed ds event) :=
  inferInstanceAs (Decidable (∃ d ∈ ds, _))

/-- Deliveries of one event go under one key, whatever the clock and the database say. -/
theorem posting_again {d r : Delivery} {p : Posting} (hpost : posting r = some p)
    (hevent : d.event = r.event) (hfault : d.fault = false) :
    ∃ q, posting d = some q ∧ q.key = p.key := by
  obtain ⟨-, hdelivery, hdecode⟩ := posting_some hpost
  refine ⟨⟨d, p.entry⟩, ?_, ?_⟩
  · rw [posting, if_neg (by simp [hfault]), hevent, hdecode]
  · simp only [Posting.key, hevent, hdelivery]

/-- Whatever has been processed, in whatever order and however often, can be delivered again, in any
order and any number of times: no table changes. -/
theorem redelivery_harmless (t : Tables) (ds rs : List Delivery)
    (h : ∀ r ∈ rs, Processed ds r.event) :
    processEvents (processEvents t ds) rs = processEvents t ds := by
  rw [processEvents_attempt (processEvents t ds) rs]
  refine foldl_attempt_of_taken fun p hp => ?_
  obtain ⟨r, hr, hpost⟩ := List.mem_filterMap.mp hp
  obtain ⟨d, hd, hevent, hfault⟩ := h r hr
  obtain ⟨q, hq, hkey⟩ := posting_again hpost hevent hfault
  rw [← hkey]
  exact holds_processEvents t hd hq

/-- A mint, a burn and a transfer, the mint delivered twice and the transfer lost once. -/
def mixedDeliveries : List Delivery :=
  let mint := Emission.response ⟨.mint "ADMIN" "ALICE" 10 10 10, 5, "tx1", some 50⟩
  let transfer := Emission.response ⟨.transfer "ALICE" "BOB" 4, 6, "tx2", some 60⟩
  let burn := Emission.response ⟨.burn "BOB" 1 3 9, 7, "tx3", some 70⟩
  [⟨mint, 51, 1, false⟩, ⟨transfer, 61, 2, true⟩, ⟨mint, 52, 3, false⟩, ⟨transfer, 62, 4, false⟩,
    ⟨burn, 71, 5, false⟩]

/-- Delivered again backwards, they leave ALICE with 6 and BOB with 3, and two supply points. -/
theorem mixedDeliveries_again :
    processEvents (index mixedDeliveries) mixedDeliveries.reverse = index mixedDeliveries ∧
      shown (index mixedDeliveries).holder "ALICE" = some 6 ∧
      shown (index mixedDeliveries).holder "BOB" = some 3 ∧
      (index mixedDeliveries).supplyPoint.length = 2 := by
  refine ⟨redelivery_harmless _ _ _ ?_, by decide +kernel, by decide +kernel, by decide +kernel⟩
  decide +kernel

end Redelivery

end BcForge.Indexer
