import BcForge.Indexer.Store
import BcForge.Relational.Positions

/-! The aggregates in the database against the pure fold over the events. -/
namespace BcForge.Indexer

open Relational

/-- One call of `applyLedgerEventAggregates`. -/
structure Application where
  event : LedgerEvent
  options : ApplyAggregatesOptions

def aggregated (as : List Application) : Tables :=
  as.foldl (fun t a => applyLedgerEventAggregates t a.event a.options) Tables.empty

/-- What the aggregates stand for: the folded state, and a point for each change of the supply. -/
structure Folded where
  state : LedgerState
  points : List SupplyPoint

def Application.point (a : Application) (supply : ℤ) : SupplyPoint :=
  ⟨a.options.id, a.options.timestamp, supply, a.options.ledger, a.options.txHash⟩

def foldStep (f : Folded) (a : Application) : Folded where
  state := applyLedgerEvent f.state a.event
  points :=
    if supplyDeltaFor a.event = 0 then f.points
    else f.points ++ [a.point (applyLedgerEvent f.state a.event).supply]

def folded (as : List Application) : Folded := as.foldl foldStep ⟨emptyLedgerState, []⟩

variable {as : List Application} {a : Application} {t : Tables}

theorem aggregated_concat : aggregated (as ++ [a]) =
    applyLedgerEventAggregates (aggregated as) a.event a.options := by
  rw [aggregated, List.foldl_append]
  rfl

theorem folded_concat : folded (as ++ [a]) = foldStep (folded as) a := by
  rw [folded, List.foldl_append]
  rfl

theorem folded_state (as : List Application) :
    (folded as).state = foldLedgerEvents (as.map (·.event)) := by
  induction as using List.reverseRecOn with
  | nil => rfl
  | append_singleton as a ih =>
    rw [folded_concat, List.map_append, foldLedgerEvents, List.foldl_append]
    change applyLedgerEvent (folded as).state a.event = _
    rw [ih]
    rfl

/-- The holder table follows the balances, also where sender and recipient are the same. -/
theorem shown_aggregates (e : LedgerEvent) (options : ApplyAggregatesOptions) :
    shown (applyLedgerEventAggregates t e options).holder =
      (deltasFor e).foldl applyDelta (shown t.holder) := by
  rw [holder_aggregates]
  have hmoves : (deltasFor e).foldl (moveHolder options.ledger) t.holder =
      applyMoves t.holder ((deltasFor e).map fun d => (options.ledger, d)) := by
    rw [applyMoves, List.foldl_map]
  rw [hmoves, shown_applyMoves, List.map_map]
  congr 1
  exact List.map_id' _

theorem holders_agree (as : List Application) :
    shown (aggregated as).holder = (folded as).state.balances := by
  induction as using List.reverseRecOn with
  | nil => rfl
  | append_singleton as a ih =>
    rw [aggregated_concat, folded_concat, shown_aggregates, ih]
    rfl

/-- The supply that an event without `newSupply` starts from. -/
def readSupply (points : List SupplyPoint) : ℤ :=
  ((latestSupplyPoint points).map SupplyPoint.supply).getD 0

theorem supplyPoint_aggregates (e : LedgerEvent) (options : ApplyAggregatesOptions) :
    (applyLedgerEventAggregates t e options).supplyPoint =
      if supplyDeltaFor e = 0 then t.supplyPoint
      else t.supplyPoint ++ [Application.point ⟨e, options⟩
        (options.newSupply.getD (readSupply t.supplyPoint + supplyDeltaFor e))] := by
  unfold applyLedgerEventAggregates
  dsimp only
  split
  · rfl
  · cases options.newSupply <;> simp [resolveSupply, readSupply, Application.point]

/-- A `newSupply` says what the supply is after its event. -/
def Truthful (as : List Application) : Prop :=
  AtEach (fun done a => supplyDeltaFor a.event ≠ 0 →
    ∀ x ∈ a.options.newSupply, x = (folded (done ++ [a])).state.supply) as

/-- An event without `newSupply` finds, as the greatest point by ledger and id, one with the supply
of the moment. -/
def ReadsLatest (as : List Application) : Prop :=
  AtEach (fun done a => supplyDeltaFor a.event ≠ 0 → a.options.newSupply = none →
    readSupply (folded done).points = (folded done).state.supply) as

/-- One more application appends the right point exactly if it finds the supply of the moment. -/
theorem point_agrees_iff (htrue : supplyDeltaFor a.event ≠ 0 → ∀ x ∈ a.options.newSupply,
      x = (folded (as ++ [a])).state.supply)
    (hsame : (aggregated as).supplyPoint = (folded as).points) :
    (aggregated (as ++ [a])).supplyPoint = (folded (as ++ [a])).points ↔
      (supplyDeltaFor a.event ≠ 0 → a.options.newSupply = none →
        readSupply (folded as).points = (folded as).state.supply) := by
  rw [folded_concat] at htrue
  rw [aggregated_concat, folded_concat, supplyPoint_aggregates, foldStep, hsame]
  by_cases hzero : supplyDeltaFor a.event = 0
  · simp [hzero]
  rw [if_neg hzero, if_neg hzero, List.append_cancel_left_eq]
  have hsupply : (applyLedgerEvent (folded as).state a.event).supply =
      (folded as).state.supply + supplyDeltaFor a.event := rfl
  cases hnew : a.options.newSupply with
  | none => simp [Application.point, hsupply, hzero]
  | some x =>
    have hx : x = (applyLedgerEvent (folded as).state a.event).supply := htrue hzero x hnew
    simp [Application.point, hx]

theorem points_agree_iff (as : List Application) (h : Truthful as) :
    (aggregated as).supplyPoint = (folded as).points ↔ ReadsLatest as := by
  induction as using List.reverseRecOn with
  | nil => exact iff_of_true rfl atEach_nil
  | append_singleton as a ih =>
    obtain ⟨hinit, htrue⟩ := atEach_concat.mp h
    rw [ReadsLatest, atEach_concat, ← ReadsLatest, ← ih hinit]
    constructor
    · intro hall
      have hsame : (aggregated as).supplyPoint = (folded as).points := by
        rw [aggregated_concat, folded_concat, supplyPoint_aggregates, foldStep] at hall
        by_cases hzero : supplyDeltaFor a.event = 0
        · simpa [hzero] using hall
        · rw [if_neg hzero, if_neg hzero] at hall
          exact (List.append_inj' hall rfl).1
      exact ⟨hsame, (point_agrees_iff htrue hsame).mp hall⟩
    · rintro ⟨hsame, hlast⟩
      exact (point_agrees_iff htrue hsame).mpr hlast

/-- The holders always agree with the fold. With truthful events the supply points do exactly if
every event that has to look up the supply finds it. -/
theorem aggregates_simulate_iff (as : List Application) (h : Truthful as) :
    (shown (aggregated as).holder = (foldLedgerEvents (as.map (·.event))).balances ∧
      (aggregated as).supplyPoint = (folded as).points) ↔ ReadsLatest as := by
  rw [← folded_state, points_agree_iff as h]
  exact and_iff_right (holders_agree as)

/-- Mints in one ledger whose points draw the given ids. -/
def mintsDrawing (ids : List ℕ) : List Application :=
  ids.map fun id => ⟨.mint "alice" 10, ⟨7, "tx", 0, none, id⟩⟩

theorem truthful_mintsDrawing (ids : List ℕ) : Truthful (mintsDrawing ids) := by
  intro done a rest heq _ x hx
  have hmem : a ∈ mintsDrawing ids := by
    rw [heq]
    simp
  obtain ⟨id, -, rfl⟩ := List.mem_map.mp hmem
  cases hx

theorem mintsDrawing_agree : Truthful (mintsDrawing [1, 2, 3]) ∧
    ReadsLatest (mintsDrawing [1, 2, 3]) :=
  ⟨truthful_mintsDrawing _, (aggregates_simulate_iff _ (truthful_mintsDrawing _)).mp
    ⟨by rw [holders_agree, folded_state], by decide +kernel⟩⟩

/-- The third mint reads the point of the first one, whose id happens to be the greatest. -/
theorem mintsDrawing_disagree : Truthful (mintsDrawing [9, 4, 5]) ∧
    (aggregated (mintsDrawing [9, 4, 5])).supplyPoint ≠ (folded (mintsDrawing [9, 4, 5])).points ∧
    (aggregated (mintsDrawing [9, 4, 5])).supplyPoint.map SupplyPoint.supply = [10, 20, 20] :=
  ⟨truthful_mintsDrawing _, by decide +kernel, by decide +kernel⟩

end BcForge.Indexer
