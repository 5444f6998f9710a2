import BcForge.Indexer.Cursor

/-! What a rollback restores: the deleted rows come back out of the tables, the aggregates they left
behind do not. -/
namespace BcForge.Indexer

open Relational

/-- The deliveries of a run, in the order of their ledgers. -/
structure History where
  deliveries : List Delivery
  inOrder : deliveries.Pairwise fun d e => d.event.ledger ≤ e.event.ledger

namespace History

/-- The events of ledgers at most `ledger`. -/
def upTo (h : History) (ledger : ℕ) : List Delivery :=
  h.deliveries.filter (·.event.ledger ≤ ledger)

def after (h : History) (ledger : ℕ) : List Delivery :=
  h.deliveries.filter (ledger < ·.event.ledger)

/-- What the index took in up to a ledger. -/
def kept (h : History) (ledger : ℕ) : List Posting :=
  (stored h.deliveries).filter (·.ledger ≤ ledger)

/-- What the index took in above a ledger. -/
def undone (h : History) (ledger : ℕ) : List Posting :=
  (stored h.deliveries).filter (ledger < ·.ledger)

end History

/-- The histories a rollback to `ledger` can undo: above it only transfers, or mints and burns of
nothing, and only between addresses that hold nothing at `ledger` and nothing in the end. -/
def Restorable (h : History) (ledger : ℕ) : Prop :=
  ∀ p ∈ h.undone ledger, p.entry.model.isToken = true ∧ p.supplyDelta = 0 ∧
    ∀ d ∈ p.deltas, net ((h.kept ledger).flatMap Posting.deltas) d.address = 0 ∧
      net ((h.undone ledger).flatMap Posting.deltas) d.address = 0

instance (h : History) (ledger : ℕ) : Decidable (Restorable h ledger) := by
  unfold Restorable
  infer_instance

variable {h : History} {R : ℕ} {t : Tables} {ps : List Posting} {p : Posting} {m : Model}

section Split

variable {α : Type} {f : α → Bool} {l l' : List α}

theorem filter_eq_left (hl : ∀ a ∈ l, f a = true) (hl' : ∀ a ∈ l', f a = false) :
    (l ++ l').filter f = l := by
  have hnone : l'.filter f = [] := List.filter_eq_nil_iff.mpr fun a ha => by simp [hl' a ha]
  rw [List.filter_append, List.filter_eq_self.mpr hl, hnone, List.append_nil]

theorem filter_eq_right (hl : ∀ a ∈ l, f a = false) (hl' : ∀ a ∈ l', f a = true) :
    (l ++ l').filter f = l' := by
  have hnone : l.filter f = [] := List.filter_eq_nil_iff.mpr fun a ha => by simp [hl a ha]
  rw [List.filter_append, List.filter_eq_self.mpr hl', hnone, List.nil_append]

end Split

/-- A list in the order of its ledgers is cut in two by any ledger. -/
theorem split_sorted {l : List Delivery}
    (h : l.Pairwise fun d e => d.event.ledger ≤ e.event.ledger) :
    l.filter (·.event.ledger ≤ R) ++ l.filter (R < ·.event.ledger) = l := by
  induction l with
  | nil => rfl
  | cons d l ih =>
    obtain ⟨hd, hl⟩ := List.pairwise_cons.mp h
    by_cases hle : d.event.ledger ≤ R
    · have hnot : ¬ R < d.event.ledger := by omega
      simpa [hle, hnot] using ih hl
    · -- from here on every ledger is above
      have habove : ∀ e ∈ d :: l, R < e.event.ledger := by
        intro e he
        rcases List.mem_cons.mp he with rfl | he
        · omega
        · have := hd e he
          omega
      rw [List.filter_eq_nil_iff.mpr fun e he => by simpa using habove e he,
        List.filter_eq_self.mpr fun e he => decide_eq_true (habove e he), List.nil_append]

theorem delivery_mem {taken : Model × String → Bool} {ds : List Delivery}
    (hp : p ∈ admitted Posting.key taken (postings ds)) : p.delivery ∈ ds := by
  obtain ⟨d, hd, hpost⟩ := List.mem_filterMap.mp (admitted_sublist.subset hp)
  exact (posting_some hpost).2.1 ▸ hd

/-- A history's postings are those of its lower part, then the rest. -/
theorem stored_split (h : History) (R : ℕ) :
    h.kept R = stored (h.upTo R) ∧ stored h.deliveries = h.kept R ++ h.undone R := by
  have hpostings : postings h.deliveries = postings (h.upTo R) ++ postings (h.after R) := by
    have hsplit : h.upTo R ++ h.after R = h.deliveries := split_sorted h.inOrder
    rw [← hsplit, postings, List.filterMap_append]
    rfl
  obtain ⟨later, hstored, hlater⟩ : ∃ later, stored h.deliveries = stored (h.upTo R) ++ later ∧
      ∀ p ∈ later, R < p.ledger := by
    refine ⟨_, by rw [stored, hpostings, keepFirst, admitted_append]; rfl, ?_⟩
    intro p hp
    have hmem := List.mem_filter.mp (delivery_mem hp)
    exact of_decide_eq_true hmem.2
  have hearlier : ∀ p ∈ stored (h.upTo R), p.ledger ≤ R := by
    intro p hp
    have hmem := List.mem_filter.mp (delivery_mem hp)
    exact of_decide_eq_true hmem.2
  have hkept : h.kept R = stored (h.upTo R) := by
    rw [History.kept, hstored]
    exact filter_eq_left (fun p hp => decide_eq_true (hearlier p hp))
      fun p hp => decide_eq_false (Nat.not_le.mpr (hlater p hp))
  have hundone : h.undone R = later := by
    rw [History.undone, hstored]
    exact filter_eq_right (fun p hp => decide_eq_false (Nat.not_lt.mpr (hearlier p hp)))
      fun p hp => decide_eq_true (hlater p hp)
  exact ⟨hkept, by rw [hkept, hundone, hstored]⟩

theorem index_upTo (h : History) (R : ℕ) :
    index (h.upTo R) = (h.kept R).foldl write Tables.empty := by
  rw [index_eq, (stored_split h R).1]

theorem index_split (h : History) (R : ℕ) :
    index h.deliveries = (h.undone R).foldl write (index (h.upTo R)) := by
  rw [index_upTo, ← List.foldl_append, ← (stored_split h R).2, index_eq]

theorem ledger_kept (hp : p ∈ h.kept R) : p.ledger ≤ R :=
  of_decide_eq_true (List.mem_filter.mp hp).2

theorem ledger_undone (hp : p ∈ h.undone R) : R < p.ledger :=
  of_decide_eq_true (List.mem_filter.mp hp).2

/-- The deleted rows are those above the ledger, so the token's tables always come out right. -/
theorem rows_deleteAbove (h : History) (R : ℕ) (m : Model) :
    ((index h.deliveries).deleteAbove R).rows m = (index (h.upTo R)).rows m ++
      if m.isToken then [] else ((h.undone R).filter (·.entry.model = m)).map Posting.row := by
  have hrows := rows_foldl_write (m := m) (index (h.upTo R)) (h.undone R)
  simp only [Tables.deleteAbove, index_split h R, hrows]
  split
  · rw [List.append_nil]
    refine filter_eq_left ?_ ?_
    · intro r hr
      rw [index_upTo, rows_foldl_write] at hr
      obtain ⟨p, hp, rfl⟩ := List.mem_map.mp hr
      exact decide_eq_true (ledger_kept (List.mem_filter.mp hp).1)
    · intro r hr
      obtain ⟨p, hp, rfl⟩ := List.mem_map.mp hr
      exact decide_eq_false (Nat.not_le.mpr (ledger_undone (List.mem_filter.mp hp).1))
  · rfl

theorem rows_restored_iff (h : History) (R : ℕ) :
    ((index h.deliveries).deleteAbove R).rows = (index (h.upTo R)).rows ↔
      ∀ p ∈ h.undone R, p.entry.model.isToken = true := by
  constructor
  · intro hrows p hp
    by_contra htoken
    have hm := congrFun hrows p.entry.model
    rw [rows_deleteAbove, if_neg htoken, List.append_right_eq_self] at hm
    have hmem : p ∈ (h.undone R).filter (·.entry.model = p.entry.model) :=
      List.mem_filter.mpr ⟨hp, decide_eq_true rfl⟩
    rw [List.map_eq_nil_iff.mp hm] at hmem
    cases hmem
  · intro htoken
    funext m
    rw [rows_deleteAbove]
    split
    · exact List.append_nil _
    · rename_i hm
      have hnone : (h.undone R).filter (·.entry.model = m) = [] := by
        refine List.filter_eq_nil_iff.mpr ?_
        intro p hp he
        exact hm (of_decide_eq_true he ▸ htoken p hp)
      rw [hnone]
      exact List.append_nil _

/-- Supply points are only ever appended. -/
theorem supply_restored_iff (t : Tables) (ps : List Posting) :
    (ps.foldl write t).supplyPoint = t.supplyPoint ↔ ∀ p ∈ ps, p.supplyDelta = 0 := by
  obtain ⟨points, happend, hlength⟩ := supplyPoint_foldl_write t ps
  rw [happend, List.append_right_eq_self, ← List.length_eq_zero_iff, hlength,
    List.length_eq_zero_iff, List.filter_eq_nil_iff]
  simp

/-- A holder row the lower part of a history leaves is dated there. -/
theorem dated_upTo {r : Holder} {a : String} (hr : (index (h.upTo R)).holder a = some r) :
    r.ledger ≤ R := by
  rw [index_upTo, holder_foldl_write] at hr
  rcases dated_applyMoves hr with ⟨_, hempty⟩ | ⟨move, hmem, _, hledger⟩
  · cases hempty
  · obtain ⟨p, hp, hmove⟩ := List.mem_flatMap.mp hmem
    obtain ⟨d, _, rfl⟩ := List.mem_map.mp hmove
    exact hledger ▸ ledger_kept hp

theorem shown_upTo (h : History) (R : ℕ) (a : String) : shown (index (h.upTo R)).holder a =
    sparse (net ((h.kept R).flatMap Posting.deltas) a) := by
  rw [index_upTo, shown_stored]

theorem shown_deliveries (h : History) (R : ℕ) (a : String) :
    shown (index h.deliveries).holder a =
      sparse (net ((h.kept R).flatMap Posting.deltas) a +
        net ((h.undone R).flatMap Posting.deltas) a) := by
  rw [index_eq, (stored_split h R).2, shown_stored, List.flatMap_append, net_append]

/-- An address touched above the ledger shows the same row only if it shows none: the row it has
now is dated above, the one it had is not. -/
theorem touched_same_iff {a : String} {d : Delta} (hp : p ∈ h.undone R) (hd : d ∈ p.deltas)
    (ha : d.address = a) : (index h.deliveries).holder a = (index (h.upTo R)).holder a ↔
      net ((h.kept R).flatMap Posting.deltas) a = 0 ∧
        net ((h.undone R).flatMap Posting.deltas) a = 0 := by
  have hbelow := shown_upTo h R a
  have hall := shown_deliveries h R a
  constructor
  · intro hsame
    have hnone : (index (h.upTo R)).holder a = none := by
      cases hrow : (index (h.upTo R)).holder a with
      | none => rfl
      | some r =>
        have hle := dated_upTo hrow
        rw [hrow, index_split h R, holder_foldl_write] at hsame
        rcases dated_applyMoves hsame with ⟨huntouched, _⟩ | ⟨move, hmem, _, hledger⟩
        · have hmove : (p.ledger, d) ∈ moves (h.undone R) :=
            List.mem_flatMap.mpr ⟨p, hp, List.mem_map.mpr ⟨d, hd, rfl⟩⟩
          exact absurd ha (huntouched _ hmove)
        · obtain ⟨q, hq, hmove⟩ := List.mem_flatMap.mp hmem
          obtain ⟨d', _, rfl⟩ := List.mem_map.mp hmove
          have hlt : R < q.ledger := ledger_undone hq
          have hdate : r.ledger = q.ledger := hledger
          omega
    rw [shown, hnone] at hbelow
    rw [shown, hsame, hnone] at hall
    have hzero : sparse 0 = none := rfl
    have hkept := sparse_injective (hzero.trans hbelow)
    have hsum := sparse_injective (hzero.trans hall)
    omega
  · rintro ⟨hkept, hundone⟩
    rw [shown, hkept] at hbelow
    rw [shown, hkept, hundone] at hall
    have hbelow' := Option.map_eq_none_iff.mp hbelow
    have hall' := Option.map_eq_none_iff.mp hall
    rw [hall', hbelow']

theorem holder_restored_iff (h : History) (R : ℕ) :
    (index h.deliveries).holder = (index (h.upTo R)).holder ↔
      ∀ p ∈ h.undone R, ∀ d ∈ p.deltas,
        net ((h.kept R).flatMap Posting.deltas) d.address = 0 ∧
          net ((h.undone R).flatMap Posting.deltas) d.address = 0 := by
  constructor
  · intro hsame p hp d hd
    exact (touched_same_iff hp hd rfl).mp (congrFun hsame d.address)
  · intro hzero
    funext a
    by_cases htouched : ∃ p ∈ h.undone R, ∃ d ∈ p.deltas, d.address = a
    · obtain ⟨p, hp, d, hd, rfl⟩ := htouched
      exact (touched_same_iff hp hd rfl).mpr (hzero p hp d hd)
    · rw [index_split h R, holder_foldl_write]
      refine untouched_applyMoves ?_
      intro move hmem ha
      obtain ⟨p, hp, hmove⟩ := List.mem_flatMap.mp hmem
      obtain ⟨d, hd, rfl⟩ := List.mem_map.mp hmove
      exact htouched ⟨p, hp, d, hd, ha⟩

theorem deleteAbove_restores_iff (h : History) (R : ℕ) :
    (index h.deliveries).deleteAbove R = index (h.upTo R) ↔ Restorable h R := by
  have hrows := rows_restored_iff h R
  have hholder := holder_restored_iff h R
  have hsupply : (index h.deliveries).supplyPoint = (index (h.upTo R)).supplyPoint ↔
      ∀ p ∈ h.undone R, p.supplyDelta = 0 := by
    rw [index_split h R]
    exact supply_restored_iff _ _
  rw [Tables.ext_iff]
  constructor
  · rintro ⟨hr, hh, hs⟩ p hp
    exact ⟨hrows.mp hr p hp, hsupply.mp hs p hp, hholder.mp hh p hp⟩
  · intro hall
    exact ⟨hrows.mpr fun p hp => (hall p hp).1, hholder.mpr fun p hp => (hall p hp).2.2,
      hsupply.mpr fun p hp => (hall p hp).2.1⟩

/-- After `reconcileLedgerCursor` has rewound the cursor, the tables are those of the remaining
ledgers exactly when the undone part of the history was restorable. -/
theorem rollback_restores_iff (h : History) (last : Option Cursor)
    (checkpoints : List LedgerCoordinate) (remote : List LedgerResponse) (cursor : Cursor)
    (common : Option LedgerCoordinate)
    (hrewind : forkPoint ⟨index h.deliveries, last, checkpoints⟩ remote cursor = some common) :
    (reconcileLedgerCursor ⟨index h.deliveries, last, checkpoints⟩ remote cursor).1.tables =
        index (h.upTo (rewindLedger common)) ↔
      Restorable h (rewindLedger common) := by
  rw [reconcile_rollback hrewind]
  exact deleteAbove_restores_iff h (rewindLedger common)

/-- Two checkpoints, of which the RPC confirms the first only. -/
def forked : List LedgerCoordinate := [⟨4, "h4", "h3"⟩, ⟨5, "h5", "h4"⟩]

def forkedRemote : List LedgerResponse := [⟨4, "h4", "h3"⟩, ⟨5, "g5", "h4"⟩]

/-- All that happens above ledger 4 is a transfer of nothing between empty accounts. -/
def idleTop : History where
  deliveries :=
    [⟨Emission.response ⟨.mint "ADMIN" "ALICE" 10 10 10, 3, "tx1", some 30⟩, 31, 1, false⟩,
      ⟨Emission.response ⟨.transfer "ALICE" "BOB" 4, 4, "tx2", some 40⟩, 41, 2, false⟩,
      ⟨Emission.response ⟨.transfer "CAROL" "DAVE" 0, 5, "tx3", some 50⟩, 51, 3, false⟩]
  inOrder := by decide

theorem idleTop_restored :
    (reconcileLedgerCursor ⟨index idleTop.deliveries, none, forked⟩ forkedRemote
      ⟨5, some "h5", some "h4"⟩).1.tables = index (idleTop.upTo 4) := by
  have hrewind : forkPoint ⟨index idleTop.deliveries, none, forked⟩ forkedRemote
      ⟨5, some "h5", some "h4"⟩ = some (some ⟨4, "h4", "h3"⟩) := by decide +kernel
  have hrestorable : Restorable idleTop 4 := by decide +kernel
  exact (rollback_restores_iff idleTop none forked forkedRemote _ _ hrewind).mpr hrestorable

/-- A mint in the ledger that the chain drops. -/
def droppedMint : History where
  deliveries :=
    [⟨Emission.response ⟨.mint "ADMIN" "ALICE" 10 10 10, 5, "tx", some 50⟩, 51, 1, false⟩]
  inOrder := by decide

/-- The row of the dropped mint goes, the balance it gave stays. -/
theorem droppedMint_not_restored :
    forkPoint ⟨index droppedMint.deliveries, some ⟨5, some "h5", some "h4"⟩, forked⟩ forkedRemote
        ⟨5, some "h5", some "h4"⟩ = some (some ⟨4, "h4", "h3"⟩) ∧
      (reconcileLedgerCursor ⟨index droppedMint.deliveries, some ⟨5, some "h5", some "h4"⟩, forked⟩
        forkedRemote ⟨5, some "h5", some "h4"⟩).1.tables ≠ index (droppedMint.upTo 4) := by
  refine ⟨by decide +kernel, ?_⟩
  intro hsame
  have hholder := congrArg (fun t : Tables => t.holder "ALICE") hsame
  revert hholder
  decide +kernel

end BcForge.Indexer
