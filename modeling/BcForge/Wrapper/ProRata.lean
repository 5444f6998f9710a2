import BcForge.Wrapper.Solvency

/-! What an exit from the vault is worth, and that it is at most its share of what the vault
holds. -/
namespace BcForge.Wrapper

open Soroban Call Admin

variable {env : Env} {s s' : Store} {w : World Store} {l : Label Op} {ls : List (Label Op)}
  {u c : Address} {op : Op} {n x : ℤ}

section Given

/-- What a call gave the user: paid out, or set down in the queue for later. -/
def given (u : Address) (s s' : Store) : ℤ :=
  s'.book.owed u - s.book.owed u + (s'.underlying.balance u - s.underlying.balance u)

theorem transfer_balance {vault : Address} {t : Token}
    (ht : s.underlying.transfer vault c x = some t) (hc : c ≠ vault) :
    t.balance c = s.underlying.balance c + x := by
  obtain ⟨-, -, hb⟩ := Token.transfer_spec ht hc.symm
  simp [hb]

theorem given_paid {t : Token} (ht : s.underlying.transfer env.self c x = some t)
    (hc : c ≠ env.self) (howed : s'.book.owed c = s.book.owed c) (hs : s'.underlying = t) :
    given c s s' = x := by
  unfold given
  rw [howed, hs, transfer_balance ht hc]
  omega

theorem given_queued {release : ℕ} (hq : s.queuedWithdrawal c = none)
    (hs : s'.queuedWithdrawal c = some ⟨n, x, release⟩)
    (hb : s'.underlying = s.underlying) : given c s s' = x := by
  unfold given
  rw [hb]
  simp [Book.owed, Store.book, hq, hs]

theorem given_claimed {t : Token} {q : QueuedWithdrawal}
    (ht : s.underlying.transfer env.self c q.amount = some t) (hc : c ≠ env.self)
    (hq : s.queuedWithdrawal c = some q) :
    given c s (settle t (removeQueuedWithdrawal c s)) = 0 := by
  unfold given
  change (Book.owed _ c) - (Book.owed _ c) + (t.balance c - s.underlying.balance c) = 0
  rw [transfer_balance ht hc]
  simp [Book.owed, Store.book, hq, settle, removeQueuedWithdrawal]

/-- A withdrawal is worth its shares at the share price, and the cap has been asked. -/
theorem withdraw_given (hv : ∀ c, env.Authorized c → c ≠ env.self) (hn : n ≠ 0)
    (h : Effect env s (.withdraw c n) s') :
    convertToAssets n s.supply (s.underlying.balance env.self) = some (given c s s') ∧
      0 < given c s s' ∧ CapSpent env.ledger (readCooldownConfig s) c (given c s s')
        s.userEmergencyState s'.userEmergencyState := by
  have hworth : ∀ x, given c s s' = x →
      convertToAssets n s.supply (s.underlying.balance env.self) = some x → 0 < x →
      CapSpent env.ledger (readCooldownConfig s) c x s.userEmergencyState s'.userEmergencyState →
      convertToAssets n s.supply (s.underlying.balance env.self) = some (given c s s') ∧
        0 < given c s s' ∧ CapSpent env.ledger (readCooldownConfig s) c (given c s s')
          s.userEmergencyState s'.userEmergencyState := by
    rintro _ rfl hx hpos hcap
    exact ⟨hx, hpos, hcap⟩
  cases h with
  | enqueue c' n' x windows hop hl ha hfree hn' hb hq hx hpos hcap he =>
    cases hop
    exact hworth x (given_queued hq (Function.update_self ..) rfl) hx hpos hcap
  | pay c' n' x windows t hop hl ha hfree hn' hb hq hx hpos hcap he ht =>
    cases hop
    exact hworth x (given_paid ht (hv _ ha) rfl rfl) hx hpos hcap
  | claim c' q t hop hl ha hq hr ht =>
    obtain hop | hop := hop
    · cases hop
    · cases hop
      exact absurd rfl hn
  | enter c' n' m t hop hl ha hn' hm ht hr => obtain hop | hop := hop <;> cases hop
  | unwrap c' n' x t hop hl ha hfree hn' hb hx hpos ht => cases hop
  | move src dst n' allowance expiry hop hn' hb => obtain hop | ⟨_, hop⟩ := hop <;> cases hop
  | destroy c' n' allowance expiry hop hn' hb => obtain hop | ⟨_, hop⟩ := hop <;> cases hop
  | aside _ hop hsame haside hfund => cases hop

end Given

section ProRata

/-- A floor is within the exact share price exactly when the rounding makes up for the virtual
offset. -/
theorem floor_pro_rata_iff {a o : ℤ} {S : ℤ} (ho : 0 < o) (hS : 0 ≤ S) :
    n * (a + o) / (S + o) * S ≤ n * a ↔ n * o * (S - a) ≤ S * (n * (a + o) % (S + o)) := by
  have hd : 0 < S + o := by omega
  have hsplit := Int.emod_add_mul_ediv (n * (a + o)) (S + o)
  generalize n * (a + o) / (S + o) = q at hsplit ⊢
  generalize n * (a + o) % (S + o) = r at hsplit ⊢
  have hscaled : q * S * (S + o) = (n * (a + o) - r) * S := by
    rw [← hsplit]
    ring
  rw [← mul_le_mul_iff_of_pos_right hd, hscaled]
  constructor
  · intro h
    linarith
  · intro h
    linarith

/-- No more than the shares' part of what the vault holds; all shares can be paid from it. -/
def ProRata (w : World Store) (u : Address) (n : ℤ) (s' : Store) : Prop :=
  given u w.store s' * w.store.supply ≤ n * w.store.underlying.balance w.self ∧
    (n = w.store.supply → given u w.store s' ≤ w.store.underlying.balance w.self)

/-- What the floor takes off outweighs what the virtual offset adds. -/
def RoundingCovers (w : World Store) (n : ℤ) : Prop :=
  n * VIRTUAL_OFFSET * (w.store.supply - w.store.underlying.balance w.self) ≤
    w.store.supply * (n * (w.store.underlying.balance w.self + VIRTUAL_OFFSET) %
      (w.store.supply + VIRTUAL_OFFSET))

/-- A vault that holds a unit of the underlying token for every share needs no rounding. -/
theorem roundingCovers_of_le (hw : Ready w) (hn : 0 ≤ n)
    (h : w.store.supply ≤ w.store.underlying.balance w.self) : RoundingCovers w n := by
  have hS : 0 ≤ w.store.supply := hw.balanced.supply_nonneg
  have hr := Int.emod_nonneg (n * (w.store.underlying.balance w.self + VIRTUAL_OFFSET))
    (show w.store.supply + VIRTUAL_OFFSET ≠ 0 by have := offset_pos; omega)
  have hleft : n * VIRTUAL_OFFSET * (w.store.supply - w.store.underlying.balance w.self) ≤ 0 :=
    mul_nonpos_of_nonneg_of_nonpos (mul_nonneg hn offset_pos.le) (by omega)
  exact hleft.trans (mul_nonneg hS hr)

theorem withdraw_given_of_runs {signers : List Address} {uploaded : List BytesN32} (hn : n ≠ 0)
    (hr : Runs (exec (.withdraw c n)) (w.env signers uploaded) w.store () s') :
    convertToAssets n w.store.supply (w.store.underlying.balance w.self) =
        some (given c w.store s') ∧
      0 < given c w.store s' ∧
      CapSpent w.ledger (readCooldownConfig w.store) c (given c w.store s')
        w.store.userEmergencyState s'.userEmergencyState :=
  withdraw_given World.authorized_ne_self hn (exec_effect World.authorized_ne_self hr)

theorem proRata_step_iff {signers : List Address} {uploaded : List BytesN32} (hn : n ≠ 0)
    (hr : Runs (exec (.withdraw c n)) (w.env signers uploaded) w.store () s') :
    ProRata w c n s' ↔ RoundingCovers w n := by
  obtain ⟨hx, -, -⟩ := withdraw_given_of_runs hn hr
  obtain ⟨hpos, hS, -, hout⟩ := convertToAssets_spec hx
  have hiff := floor_pro_rata_iff (n := n) (a := w.store.underlying.balance w.self)
    offset_pos hS
  unfold ProRata RoundingCovers
  rw [hout, ← hiff]
  refine ⟨And.left, fun h => ⟨h, ?_⟩⟩
  rintro rfl
  exact le_of_mul_le_mul_right (h.trans_eq (mul_comm _ _)) hpos

theorem ready_run (h : Deployed w) (ls : List (Label Op)) : Ready (w.run exec ls) :=
  World.run_induction (ready_deployed h) fun _ _ => ready_next

/-- In every reachable state a withdrawal stays within its proportional part exactly when the
rounding covers the offset, and always when the vault holds a unit for every share. -/
theorem withdraw_proRata_iff {signers : List Address} {uploaded : List BytesN32}
    (h : Deployed w) (hn : n ≠ 0)
    (hr : Runs (exec (.withdraw c n)) ((w.run exec ls).env signers uploaded)
      (w.run exec ls).store () s') :
    (ProRata (w.run exec ls) c n s' ↔ RoundingCovers (w.run exec ls) n) ∧
      ((w.run exec ls).store.supply ≤ (w.run exec ls).store.underlying.balance w.self →
        ProRata (w.run exec ls) c n s') := by
  have hiff := proRata_step_iff hn hr
  obtain ⟨hx, -, -⟩ := withdraw_given_of_runs hn hr
  have hpos := (convertToAssets_spec hx).1
  refine ⟨hiff, fun hle => hiff.mpr (roundingCovers_of_le (ready_run h ls) hpos.le ?_)⟩
  rwa [World.run_self]

/-- Half a share per unit: account 2 wraps and ends up with twice as many shares as the vault
holds units. -/
def halfRate : List (Label Op) :=
  [.call [] [] (.underlyingMint ⟨2⟩ 1000000000),
   .call [⟨2⟩] [] (.underlyingApprove ⟨2⟩ ⟨100⟩ 1000000000),
   .call [⟨1⟩] [] (.setVaultState ⟨1⟩ ⟨0, ⟨1⟩, 0, 0, 5000000, 0, 0⟩),
   .call [⟨2⟩] [] (.wrap ⟨2⟩ 1000000000)]

/-- Half of the shares take more than half of the assets. -/
theorem halfRate_not_proRata : (Runs (exec (.withdraw ⟨2⟩ 1000000000))
      ((genesis.run exec halfRate).env [⟨2⟩] []) (genesis.run exec halfRate).store ()
      (genesis.run exec (halfRate ++ [.call [⟨2⟩] [] (.withdraw ⟨2⟩ 1000000000)])).store) ∧
    ¬ ProRata (genesis.run exec halfRate) ⟨2⟩ 1000000000
      (genesis.run exec (halfRate ++ [.call [⟨2⟩] [] (.withdraw ⟨2⟩ 1000000000)])).store := by
  refine ⟨runs_invoke (by decide), fun h => ?_⟩
  have hle := h.1
  revert hle
  decide

theorem cooldownOn_proRata : ProRata (genesis.run exec cooldownOn) ⟨2⟩ 500000000
    (genesis.run exec (cooldownOn ++ [.call [⟨2⟩] [] (.withdraw ⟨2⟩ 500000000)])).store := by
  have hr : Runs (exec (.withdraw ⟨2⟩ 500000000)) ((genesis.run exec cooldownOn).env [⟨2⟩] [])
      (genesis.run exec cooldownOn).store ()
      (genesis.run exec (cooldownOn ++ [.call [⟨2⟩] [] (.withdraw ⟨2⟩ 500000000)])).store :=
    runs_invoke (by decide)
  exact (withdraw_proRata_iff genesis_deployed (by decide) hr).2 (by decide)

end ProRata

end BcForge.Wrapper
