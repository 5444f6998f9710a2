import BcForge.Token.Delegated
import Mathlib.Algebra.Order.Ring.Int

/-! A batch of transfers, and the calls of `transfer` it stands for. -/
namespace BcForge.BcForgeToken

open Soroban Call Admin

variable {env : Env} {s s' t : Store} {u : Unit} {src : Address}
  {recipients : List (Address × ℤ)} {total y : ℤ}

/-- What a batch sends in all. -/
def amounts (recipients : List (Address × ℤ)) : ℤ := (recipients.map (·.2)).sum

/-- The entries as operations of their own. -/
def moves (recipients : List (Address × ℤ)) : List BatchOp :=
  recipients.map fun r => .transfer r.1 r.2

/-- The entries as calls of their own, signed for as the batch is. -/
def transfers (signers : List Address) (uploaded : List BytesN32) (src : Address)
    (recipients : List (Address × ℤ)) : List (Label Op) :=
  recipients.map fun r => .call signers uploaded (.transfer src r.1 r.2)

theorem singles_moves (signers : List Address) (uploaded : List BytesN32) :
    singles signers uploaded src (moves recipients) =
      transfers signers uploaded src recipients := by
  simp only [singles, moves, transfers, List.map_map]
  rfl

theorem amounts_pos (h : ∀ r ∈ recipients, 0 < r.2) (hne : recipients ≠ []) :
    0 < amounts recipients := by
  refine List.sum_pos _ ?_ (by simpa using hne)
  intro x hx
  obtain ⟨r, hr, rfl⟩ := List.mem_map.mp hx
  exact h r hr

theorem amounts_nonneg (h : ∀ r ∈ recipients, 0 < r.2) : 0 ≤ amounts recipients := by
  by_cases hne : recipients = []
  · exact (by rw [hne]; rfl : amounts recipients = 0).ge
  · exact (amounts_pos h hne).le

section Batch

/-- Positive amounts overflow on the way only if their sum does. -/
theorem runs_batchTotal (htotal : 0 ≤ total) (hr : I128.InRange total) :
    Runs (batchTotal recipients total) env s y s' ↔ (∀ r ∈ recipients, 0 < r.2) ∧
      I128.InRange (total + amounts recipients) ∧ y = total + amounts recipients ∧ s' = s := by
  induction recipients generalizing total with
  | nil => simp [batchTotal, amounts, hr]
  | cons r rest ih =>
    simp only [batchTotal, I128.checkedAdd, runs_failIf_bind, runs_okOr_bind, not_le,
      I128.checked_eq_some, List.forall_mem_cons]
    have hsum : total + amounts (r :: rest) = total + r.2 + amounts rest := by
      simp [amounts, add_assoc]
    rw [hsum]
    constructor
    · rintro ⟨hpos, _, ⟨hin, rfl⟩, h⟩
      obtain ⟨hrest, hall, hy, hs⟩ := (ih (by omega) hin).mp h
      exact ⟨⟨hpos, hrest⟩, hall, hy, hs⟩
    · rintro ⟨⟨hpos, hrest⟩, hall, hy, hs⟩
      have hnonneg := amounts_nonneg hrest
      have hin : I128.InRange (total + r.2) := I128.inRange_of_le (by omega) (by omega) hall
      exact ⟨hpos, _, ⟨hin, rfl⟩, (ih (by omega) hin).mpr ⟨hrest, hall, hy, hs⟩⟩

theorem ignores_transferAll {flags : Guard → Bool} {nonces : Address → ℕ}
    (recipients : List (Address × ℤ)) :
    Ignores (withMarks flags nonces) (transferAll src recipients) := by
  induction recipients with
  | nil => exact ignores_pure _
  | cons r rest ih =>
    exact (ignores_checkRateLimit _ _).bind fun _ => (ignores_moveBalance r.1 r.2).bind fun _ => ih

theorem runs_batchTransfer (hs : Unlocked s) : Runs (batchTransfer src recipients) env s u s' ↔
    hasAdmin s.access = true ∧ s.paused = false ∧ env.Authorized src ∧
      (∀ r ∈ recipients, 0 < r.2) ∧ I128.InRange (amounts recipients) ∧
      amounts recipients ≤ getSpendableBalance s src ∧
      Runs (transferAll src recipients) env s u s' := by
  have hheld : (∃ t, Runs (transferAll src recipients) env ((guardLens .batchTransfer).set true s) u
      t ∧ s' = (guardLens .batchTransfer).set false t) ↔
        Runs (transferAll src recipients) env s u s' :=
    runs_held (fun _ _ => ignores_transferAll recipients) (writes_transferAll recipients)
      (by decide) (by decide) (hs _)
  rw [← hheld, batchTransfer, runs_reentrancyGuard]
  simp only [runs_ensureInitialized_bind, runs_ensureNotPaused_bind, runs_requireAuth_bind,
    runs_bind (x := batchTotal recipients 0), runs_batchTotal le_rfl (by decide : I128.InRange 0),
    runs_gets_bind, runs_failIf_bind, not_lt, zero_add]
  constructor
  · rintro ⟨-, t, ⟨hinit, hrunning, hsigned, _, _, ⟨hpos, hin, rfl, rfl⟩, hle, hrun⟩, hdown⟩
    exact ⟨hinit, hrunning, hsigned, hpos, hin, hle, t, hrun, hdown⟩
  · rintro ⟨hinit, hrunning, hsigned, hpos, hin, hle, t, hrun, hdown⟩
    exact ⟨hs _, t, ⟨hinit, hrunning, hsigned, _, _, ⟨hpos, hin, rfl, rfl⟩, hle, hrun⟩, hdown⟩

/-- Beside the sign of each amount, the operations do what the batch does. -/
theorem runs_moves : Runs (executeAll src (moves recipients)) env s u s' ↔
    (∀ r ∈ recipients, 0 < r.2) ∧ Runs (transferAll src recipients) env s u s' := by
  induction recipients generalizing s with
  | nil => simp [moves, executeAll, transferAll]
  | cons r rest ih =>
    simp only [moves, List.map_cons, executeAll, executeOperation, transferAll, runs_bind_assoc,
      runs_failIf_bind, not_le, List.forall_mem_cons]
    constructor
    · rintro ⟨hpos, h⟩
      obtain ⟨_, s₁, hlimit, h⟩ := runs_bind.mp h
      obtain ⟨_, s₂, hmove, h⟩ := runs_bind.mp h
      obtain ⟨hrest, h⟩ := ih.mp h
      exact ⟨⟨hpos, hrest⟩, runs_bind.mpr ⟨_, s₁, hlimit, runs_bind.mpr ⟨_, s₂, hmove, h⟩⟩⟩
    · rintro ⟨⟨hpos, hrest⟩, h⟩
      obtain ⟨_, s₁, hlimit, h⟩ := runs_bind.mp h
      obtain ⟨_, s₂, hmove, h⟩ := runs_bind.mp h
      exact ⟨hpos, runs_bind.mpr ⟨_, s₁, hlimit, runs_bind.mpr ⟨_, s₂, hmove,
        ih.mpr ⟨hrest, h⟩⟩⟩⟩

end Batch

section Spendable

theorem spendable_le (s : Store) (a : Address) : getSpendableBalance s a ≤ I128.MAX := by
  unfold getSpendableBalance
  cases h : I128.checkedSub (s.balance a) (getLockedAmount s a) with
  | none => exact (by decide : (0 : ℤ) ≤ I128.MAX)
  | some d =>
    obtain ⟨hr, rfl⟩ := I128.checked_eq_some.mp h
    exact hr.2

/-- A positive amount that can be spent is within the difference, not its default. -/
theorem spendable_eq {a : Address} {x : ℤ} (hx : 0 < x) (h : x ≤ getSpendableBalance s a) :
    getSpendableBalance s a = s.balance a - getLockedAmount s a := by
  unfold getSpendableBalance at h ⊢
  cases hd : I128.checkedSub (s.balance a) (getLockedAmount s a) with
  | none =>
    rw [hd, Option.getD_none] at h
    omega
  | some d => exact (I128.checked_eq_some.mp hd).2

/-- What a payment to another account leaves to spend. -/
theorem spendable_moved {dst : Address} {x : ℤ} (hne : src ≠ dst) (hx : 0 < x)
    (h : Runs (moveBalance src dst x) env s u s') :
    x ≤ getSpendableBalance s src ∧
      s'.balance src - getLockedAmount s' src = getSpendableBalance s src - x := by
  simp only [moveBalance, writeBalance, runs_gets_bind, runs_failIf_bind, runs_ite, runs_pure,
    runs_i128_bind, runs_modify_bind, runs_modify, not_lt] at h
  obtain ⟨hle, ⟨he, -⟩ | ⟨-, -, -, rfl⟩⟩ := h
  · exact absurd he hne
  · refine ⟨hle, ?_⟩
    have hleft : Function.update (Function.update s.balance src (s.balance src - x)) dst
        (s.balance dst + x) src = s.balance src - x := by
      rw [Function.update_of_ne hne, Function.update_self]
    rw [spendable_eq hx hle]
    simp only [getLockedAmount, hleft]
    omega

/-- Payments to others that all go through were covered together from the start. -/
theorem amounts_le_spendable (hsrc : src ∉ recipients.map Prod.fst)
    (hpos : ∀ r ∈ recipients, 0 < r.2) (hne : recipients ≠ [])
    (h : Runs (transferAll src recipients) env s u s') :
    amounts recipients ≤ getSpendableBalance s src := by
  induction recipients generalizing s with
  | nil => exact absurd rfl hne
  | cons r rest ih =>
    rw [List.forall_mem_cons] at hpos
    rw [List.map_cons, List.mem_cons, not_or] at hsrc
    rw [transferAll] at h
    obtain ⟨_, s₁, hlimit, h⟩ := runs_bind.mp h
    obtain ⟨_, s₂, hmove, h⟩ := runs_bind.mp h
    have hframe : Writes parts [.rateLimit] (checkTransferRateLimit src) :=
      writes_checkRateLimit (by decide) "transfer" src
    have hbalance : s₁.balance = s.balance := hframe _ _ _ _ hlimit .balance (by decide)
    have hlockup : s₁.lockup = s.lockup := hframe _ _ _ _ hlimit .lockup (by decide)
    have hsame : getSpendableBalance s₁ src = getSpendableBalance s src := by
      rw [getSpendableBalance, getSpendableBalance, getLockedAmount, getLockedAmount, hbalance,
        hlockup]
    obtain ⟨hle, hleft⟩ := spendable_moved hsrc.1 hpos.1 hmove
    rw [hsame] at hle hleft
    have hsum : amounts (r :: rest) = r.2 + amounts rest := by simp [amounts]
    rw [hsum]
    by_cases hlast : rest = []
    · subst hlast
      simpa [amounts] using hle
    · have hrest := ih hsrc.2 hpos.2 hlast h
      rw [spendable_eq (amounts_pos hpos.2 hlast) hrest, hleft] at hrest
      omega

end Spendable

section Refinement

variable {w : World Store} {signers : List Address} {uploaded : List BytesN32}

/-- Transfers that all go through are the operations of a batch, one after the other. -/
theorem runs_of_transfers (hs : Unlocked w.store)
    (h : w.EveryStep exec Succeeds (transfers signers uploaded src recipients)) :
    ∃ t, Runs (executeAll src (moves recipients)) (w.env signers uploaded) w.store () t := by
  induction recipients generalizing w with
  | nil => exact ⟨w.store, runs_pure.mpr ⟨rfl, rfl⟩⟩
  | cons r rest ih =>
    obtain ⟨hone, hrest⟩ := h
    have hrun : Runs (exec (.transfer src r.1 r.2)) (w.env signers uploaded) w.store () _ :=
      runs_invoke hone
    obtain ⟨-, -, -, hop⟩ := (runs_transfer_iff hs).mp hrun
    obtain ⟨t, ht⟩ := ih (unlocked_exec hs hrun) hrest
    exact ⟨t, runs_bind.mpr ⟨(), _, hop, ht⟩⟩

/-- The first of them has passed the checks every transfer makes. -/
theorem checked_of_transfers (hs : Unlocked w.store) (hne : recipients ≠ [])
    (h : w.EveryStep exec Succeeds (transfers signers uploaded src recipients)) :
    hasAdmin w.store.access = true ∧ w.store.paused = false ∧
      (w.env signers uploaded).Authorized src := by
  obtain ⟨r, rest, rfl⟩ := List.exists_cons_of_ne_nil hne
  have hrun : Runs (exec (.transfer src r.1 r.2)) (w.env signers uploaded) w.store () _ :=
    runs_invoke h.1
  obtain ⟨hinit, hrunning, hsigned, -⟩ := (runs_transfer_iff hs).mp hrun
  exact ⟨hinit, hrunning, hsigned⟩

theorem transfers_of_batch (hs : Unlocked w.store)
    (h : Runs (batchTransfer src recipients) (w.env signers uploaded) w.store () s') :
    w.EveryStep exec Succeeds (transfers signers uploaded src recipients) ∧
      (w.run exec (transfers signers uploaded src recipients)).store = s' := by
  obtain ⟨hinit, hrunning, hsigned, hpos, -, -, hrun⟩ := (runs_batchTransfer hs).mp h
  rw [← singles_moves]
  exact runs_singles hs hinit hrunning hsigned (runs_moves.mpr ⟨hpos, hrun⟩)

theorem batch_of_transfers (hs : Unlocked w.store) (hne : recipients ≠ [])
    (hsrc : src ∉ recipients.map Prod.fst)
    (h : w.EveryStep exec Succeeds (transfers signers uploaded src recipients)) :
    ∃ t, Runs (batchTransfer src recipients) (w.env signers uploaded) w.store () t := by
  obtain ⟨hinit, hrunning, hsigned⟩ := checked_of_transfers hs hne h
  obtain ⟨t, ht⟩ := runs_of_transfers hs h
  obtain ⟨hpos, hrun⟩ := runs_moves.mp ht
  have hle := amounts_le_spendable hsrc hpos hne hrun
  have hin : I128.InRange (amounts recipients) :=
    ⟨(by decide : I128.MIN ≤ 0).trans (amounts_nonneg hpos), hle.trans (spendable_le _ _)⟩
  exact ⟨t, (runs_batchTransfer hs).mpr ⟨hinit, hrunning, hsigned, hpos, hin, hle, hrun⟩⟩

theorem unlocked_run (h : Deployed w) (ls : List (Label Op)) : Unlocked (w.run exec ls).store :=
  World.run_induction (P := fun w : World Store => Unlocked w.store) (unlocked_deployed h)
    fun _ _ => unlocked_next

/-- A batch that goes through is its transfers made one by one, whoever is paid and how often; and
a batch that pays others goes through whenever they all do. No reentrancy flag is up in any
reachable state. -/
theorem batch_transfer_refines :
    (∀ (w : World Store) (ls : List (Label Op)), Deployed w → Unlocked (w.run exec ls).store) ∧
    ∀ (w : World Store) (signers : List Address) (uploaded : List BytesN32) (src : Address)
      (recipients : List (Address × ℤ)), Unlocked w.store →
      (∀ s', Runs (batchTransfer src recipients) (w.env signers uploaded) w.store () s' →
        w.EveryStep exec Succeeds (transfers signers uploaded src recipients) ∧
          (w.run exec (transfers signers uploaded src recipients)).store = s') ∧
      (src ∉ recipients.map Prod.fst → recipients ≠ [] →
        ((∃ s', Runs (batchTransfer src recipients) (w.env signers uploaded) w.store () s') ↔
          w.EveryStep exec Succeeds (transfers signers uploaded src recipients))) := by
  refine ⟨fun w ls h => unlocked_run h ls, ?_⟩
  intro w signers uploaded src recipients hs
  refine ⟨fun s' h => transfers_of_batch hs h, fun hsrc hne => ⟨?_, ?_⟩⟩
  · rintro ⟨s', h⟩
    exact (transfers_of_batch hs h).1
  · exact batch_of_transfers hs hne hsrc

/-- Account 2 holds a thousand units. -/
def funded : List (Label Op) := [.call [⟨1⟩] [] (.mint ⟨1⟩ ⟨2⟩ 1000)]

/-- A batch that pays one account twice and the sender itself in between. -/
theorem paidTwice_refined :
    (genesis.run exec funded).EveryStep exec Succeeds
      (transfers [⟨2⟩] [] ⟨2⟩ [(⟨3⟩, 100), (⟨2⟩, 50), (⟨3⟩, 200)]) ∧
    ((genesis.run exec funded).run exec
      (transfers [⟨2⟩] [] ⟨2⟩ [(⟨3⟩, 100), (⟨2⟩, 50), (⟨3⟩, 200)])).store.balance ⟨3⟩ = 300 := by
  have hs := batch_transfer_refines.1 genesis funded genesis_deployed
  have hrun : Runs (batchTransfer ⟨2⟩ [(⟨3⟩, 100), (⟨2⟩, 50), (⟨3⟩, 200)])
      ((genesis.run exec funded).env [⟨2⟩] []) (genesis.run exec funded).store () _ :=
    runs_invoke (by decide +kernel)
  obtain ⟨hsteps, -⟩ := (batch_transfer_refines.2 _ [⟨2⟩] [] ⟨2⟩ _ hs).1 _ hrun
  exact ⟨hsteps, by decide +kernel⟩

/-- No transfers at all go through on a paused token, where a batch without entries fails. -/
theorem emptyBatch_fails :
    Deployed genesis ∧
    (genesis.run exec [.call [⟨1⟩] [] (.pause ⟨1⟩)]).EveryStep exec Succeeds
      (transfers [⟨2⟩] [] ⟨2⟩ []) ∧
    ¬ ∃ s', Runs (batchTransfer ⟨2⟩ [])
      ((genesis.run exec [.call [⟨1⟩] [] (.pause ⟨1⟩)]).env [⟨2⟩] [])
      (genesis.run exec [.call [⟨1⟩] [] (.pause ⟨1⟩)]).store () s' := by
  refine ⟨genesis_deployed, trivial, ?_⟩
  rintro ⟨s', h⟩
  have hok := isOk_of_runs h
  revert hok
  decide +kernel

end Refinement

end BcForge.BcForgeToken
