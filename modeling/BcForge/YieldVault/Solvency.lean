import BcForge.YieldVault.Spec

/-! The yield vault's queue and the assets that have to cover it. -/
namespace BcForge.YieldVault

open Soroban Call Admin Wrapper

/-- A vault just initialized, over an underlying token in any state. -/
def Deployed (w : World Store) : Prop :=
  ∃ env admin token underlying foreign, env.self = w.self ∧
    Runs (initializeVault admin token) env (Store.empty underlying foreign) () w.store

/-- What holds between the calls of any run. -/
structure Ready (w : World Store) : Prop where
  initialized : hasAdmin w.store.access = true
  token : w.store.underlyingToken.isSome = true
  balanced : w.store.book.Balanced
  not_self : w.store.queuedWithdrawal w.self = none

variable {w : World Store} {l : Label Op} {ls : List (Label Op)} {u : Address}

theorem Deployed.store_eq (h : Deployed w) : ∃ access token underlying foreign,
    hasAdmin access = true ∧ w.store = { Store.empty underlying foreign with
      access := access, underlyingToken := some token } := by
  obtain ⟨env, c, token, underlying, foreign, -, h⟩ := h
  simp only [initializeVault, runs_self_bind, runs_requireAuth_bind, runs_gets_bind,
    runs_failIf_bind] at h
  obtain ⟨-, -, h⟩ := h
  rw [runs_bind] at h
  obtain ⟨_, s, hadmin, h⟩ := h
  simp only [YieldVault.admin, runs_within] at hadmin
  obtain ⟨access, hadmin, rfl⟩ := hadmin
  rw [runs_modify] at h
  refine ⟨access, token, underlying, foreign, ?_, h⟩
  simp [hasAdmin, (runs_setAdmin hadmin).rules.admin]

theorem ready_deployed (h : Deployed w) : Ready w := by
  obtain ⟨access, token, underlying, foreign, ha, hs⟩ := h.store_eq
  refine ⟨?_, ?_, ?_, ?_⟩ <;> rw [hs]
  · exact ha
  · rfl
  · refine ⟨fun a => le_rfl, hasTotal_zero, ?_, 0, hasTotal_zero⟩
    intro u q hq
    cases hq
  · rfl

theorem ready_next (h : Ready w) : Ready (w.next exec l) := by
  have hs : Ready { w with store := (w.next exec l).store } := by
    refine World.next_store (P := fun s => Ready { w with store := s }) h ?_
    intro signers uploaded op s' hr
    obtain ⟨hsame, x, -, hstep⟩ := exec_booked World.authorized_ne_self hr
    refine ⟨?_, ?_, Book.step_balanced h.balanced hstep, Book.step_queue_self hstep h.not_self⟩
    · exact hsame.access ▸ h.initialized
    · exact hsame.token ▸ h.token
  refine ⟨hs.initialized, hs.token, hs.balanced, ?_⟩
  rw [World.next_self]
  exact hs.not_self

/-- The exit leaves what is queued in the vault, at the price it is made. -/
def Covered (w : World Store) : Op → Prop
  | .withdraw _ n _ => n = 0 ∨ ∀ q, HasTotal w.store.book.owed q →
    n * w.store.underlying.balance w.self <
      (w.store.underlying.balance w.self - q + 1) * w.store.supply
  | _ => True

def Solvent (w : World Store) : Prop := Book.Solvent w.self w.store.book

/-- The price of an exit fits what is free of the queue exactly when the exit is covered. -/
theorem covered_iff {op : Op} {x q : ℤ} (hw : Ready w) (hq : HasTotal w.store.book.owed q)
    (hsol : q ≤ w.store.underlying.balance w.self) (hp : op.payout w.self w.store = some x) :
    x ≤ w.store.underlying.balance w.self - q ↔ Covered w op := by
  have hzero : x = 0 → x ≤ w.store.underlying.balance w.self - q := by
    intro hx
    omega
  cases op with
  | withdraw c n m =>
    simp only [Op.payout] at hp
    split at hp
    · rename_i hn
      exact ⟨fun _ => Or.inl hn, fun _ => hzero (Option.some.inj hp).symm⟩
    · rename_i hn
      split at hp
      · cases hp
      · rename_i hpos
        have hassets := w.store.underlying.balance_nonneg w.self
        obtain ⟨hsupply, rfl⟩ := mulDiv_spec hp (by omega) hassets hw.balanced.supply_nonneg
        rw [Book.ediv_le_iff hsupply, Covered, or_iff_right hn]
        constructor
        · intro h r hr
          rwa [hq.unique hr]
        · intro h
          exact h q hq
  | _ => exact ⟨fun _ => trivial, fun _ => hzero (Option.some.inj hp).symm⟩

theorem solvent_next_iff (hw : Ready w) (hs : Solvent w) :
    Solvent (w.next exec l) ↔ World.OnSuccess exec Covered w l := by
  obtain ⟨q, hq⟩ := hw.balanced.queue_total
  have hle := (Book.solvent_iff hq).mp hs
  rw [Solvent, World.next_self]
  refine World.next_store_iff (P := fun s : Store => Book.Solvent w.self s.book) hs ?_
  intro signers uploaded op s' hr
  obtain ⟨-, x, hp, hstep⟩ := exec_booked World.authorized_ne_self hr
  exact (Book.solvent_step_iff hq hs hstep).trans (covered_iff hw hq hle hp)

/-- One claim by each of the users, in the order given. -/
def claims (us : List Address) : List (Label Op) :=
  us.map fun u => .call [u] [] (.claimWithdrawal u)

def Matured (w : World Store) (u : Address) : Prop :=
  ∃ q, w.store.queuedWithdrawal u = some q ∧ q.releaseLedger ≤ w.ledger.sequence

/-- Whoever has a matured withdrawal queued is paid in full, whatever the order of claims. -/
def ClaimsPaid (w : World Store) : Prop :=
  ∀ us : List Address, us.Nodup → (∀ u ∈ us, Matured w u) →
    ∀ u ∈ us, (w.run exec (claims us)).store.underlying.balance u =
      w.store.underlying.balance u + w.store.book.owed u

theorem claim_next (hw : Ready w) (hs : Solvent w) {q : QueuedWithdrawal}
    (hq : w.store.queuedWithdrawal u = some q) (hr : q.releaseLedger ≤ w.ledger.sequence) :
    ∃ t, u ≠ w.self ∧ w.store.underlying.transfer w.self u q.amount = some t ∧
      (w.next exec (.call [u] [] (.claimWithdrawal u))).store =
        { removeQueuedWithdrawal u w.store with underlying := t } := by
  have hne : u ≠ w.self := by
    rintro rfl
    rw [hw.not_self] at hq
    cases hq
  have hsome : (w.store.underlying.transfer w.self u q.amount).isSome :=
    Token.transfer_isSome.mpr (hs.holds hw.balanced hq)
  obtain ⟨t, ht⟩ := Option.isSome_iff_exists.mp hsome
  refine ⟨t, hne, ht, ?_⟩
  have hrun : Runs (claimWithdrawal u) (w.env [u] []) w.store q.amount
      { removeQueuedWithdrawal u w.store with underlying := t } :=
    runs_claimWithdrawal.mpr ⟨hw.initialized, by simp [hne], q, hq, hr, hw.token, t, ht, rfl, rfl⟩
  have hexec : Runs (exec (.claimWithdrawal u)) (w.env [u] []) w.store ()
      { removeQueuedWithdrawal u w.store with underlying := t } := by
    simp only [exec, runs_bind, runs_pure]
    exact ⟨_, _, hrun, trivial, rfl⟩
  exact invoke_of_runs hexec

theorem pays_claims : Book.Pays exec Store.book (fun u => .call [u] [] (.claimWithdrawal u))
    (fun w => Ready w ∧ Solvent w) where
  ledger w u := rfl
  paid := by
    rintro w u q ⟨hw, hs⟩ hq hr
    obtain ⟨t, hne, ht, hstore⟩ := claim_next hw hs hq hr
    have hcov : World.OnSuccess exec Covered w (.call [u] [] (.claimWithdrawal u)) :=
      fun _ _ => trivial
    refine ⟨⟨ready_next hw, (solvent_next_iff hw hs).mpr hcov⟩, ?_⟩
    rw [hstore]
    exact claimed_book hne ht

theorem claimsPaid_of_solvent (hw : Ready w) (hs : Solvent w) : ClaimsPaid w := by
  intro us hnd hm u hu
  have hne : u ≠ w.self := by
    rintro rfl
    obtain ⟨q, hq, -⟩ := hm _ hu
    rw [hw.not_self] at hq
    cases hq
  have hpaid := pays_claims.claims us ⟨hw, hs⟩ hnd hm u hne
  rw [if_pos hu] at hpaid
  exact hpaid

theorem solvent_deployed (h : Deployed w) : Solvent w := by
  obtain ⟨access, token, underlying, foreign, -, hs⟩ := h.store_eq
  refine ⟨0, ?_, w.store.underlying.balance_nonneg w.self⟩
  rw [hs]
  exact hasTotal_zero

/-- The supply is the sum of all shares, the queue is covered, and every matured claim is paid. -/
structure Sound (w : World Store) : Prop where
  supply : HasTotal w.store.balance w.store.supply
  solvent : Solvent w
  paid : ClaimsPaid w

theorem sound_iff (hw : Ready w) : Sound w ↔ Solvent w :=
  ⟨Sound.solvent, fun hs => ⟨hw.balanced.shares_total, hs, claimsPaid_of_solvent hw hs⟩⟩

/-- The vault stays sound exactly as long as each exit leaves behind what is queued already. -/
theorem sound_iff_covered (h : Deployed w) (ls : List (Label Op)) :
    w.EveryState exec Sound ls ↔ w.EveryStep exec (World.OnSuccess exec Covered) ls := by
  have hw := ready_deployed h
  refine World.everyState_iff_everyStep (I := Ready) hw (fun _ _ => ready_next)
    ((sound_iff hw).mpr (solvent_deployed h)) ?_
  intro w l hw hs
  rw [sound_iff (ready_next hw), solvent_next_iff hw hs.solvent]

/-- A vault at address 100 over a token nobody holds yet, with account 1 as its administrator. -/
def genesis : World Store where
  ledger := .ofNat 100 1700000000
  self := ⟨100⟩
  store := invoke (initializeVault ⟨1⟩ ⟨50⟩)
    ⟨.ofNat 100 1700000000, ⟨100⟩, [], true, []⟩
    (Store.empty (Token.empty 7) fun _ => Token.empty 7)

theorem genesis_deployed : Deployed genesis := by
  refine ⟨⟨.ofNat 100 1700000000, ⟨100⟩, [], true, []⟩, ⟨1⟩, ⟨50⟩,
    Token.empty 7, fun _ => Token.empty 7, rfl, ?_⟩
  exact runs_invoke (by decide)

/-- The account receives the amount, lets the vault spend it, and deposits it. -/
def fundedDeposit (u : Address) (x : ℤ) : List (Label Op) :=
  [.call [] [] (.underlyingMint u x),
   .call [u] [] (.underlyingApprove u ⟨100⟩ x),
   .call [u] [] (.deposit u x 0)]

/-- Two equal deposits, and the cooldown switched on. -/
def cooldownOn : List (Label Op) :=
  fundedDeposit ⟨2⟩ 100 ++ fundedDeposit ⟨3⟩ 100 ++
    [.call [⟨1⟩] [] (.setCooldownConfig ⟨1⟩ ⟨true, 0, 0, 0⟩)]

/-- One holder leaves through the queue. -/
def singleExit : List (Label Op) :=
  cooldownOn ++ [.call [⟨2⟩] [] (.withdraw ⟨2⟩ 100 0), .call [⟨2⟩] [] (.claimWithdrawal ⟨2⟩)]

theorem singleExit_sound : genesis.EveryState exec Sound singleExit ∧
    (genesis.run exec singleExit).store.underlying.balance ⟨2⟩ = 100 := by
  refine ⟨(sound_iff_covered genesis_deployed singleExit).mpr ?_, by decide +kernel⟩
  refine ⟨fun _ _ => trivial, fun _ _ => trivial, fun _ _ => trivial, fun _ _ => trivial,
    fun _ _ => trivial, fun _ _ => trivial, fun _ _ => trivial, fun _ _ => Or.inr ?_,
    fun _ _ => trivial, trivial⟩
  intro q hq
  obtain rfl : q = 0 := hasTotal_zero.unique hq
  decide +kernel

/-- The second holder leaves while the first one's assets still count towards the share price. -/
def doubleExit : List (Label Op) :=
  cooldownOn ++ [.call [⟨2⟩] [] (.withdraw ⟨2⟩ 100 0), .call [⟨3⟩] [] (.withdraw ⟨3⟩ 100 0)]

/-- 100 is queued for the one and all 200 for the other. -/
theorem doubleExit_unsound : ¬ genesis.EveryState exec Sound doubleExit := by
  intro h
  obtain ⟨q, hq, hle⟩ := h.run.solvent
  have hw : Ready (genesis.run exec doubleExit) :=
    World.run_induction (ready_deployed genesis_deployed) fun _ _ => ready_next
  have hsum := hq.add_le hw.balanced.owed_nonneg (show (⟨2⟩ : Address) ≠ ⟨3⟩ by decide)
  have howed : (genesis.run exec doubleExit).store.book.owed ⟨2⟩ +
      (genesis.run exec doubleExit).store.book.owed ⟨3⟩ = 300 := by decide +kernel
  have hassets : (genesis.run exec doubleExit).store.book.assets
      (genesis.run exec doubleExit).self = 200 := by decide +kernel
  omega

end BcForge.YieldVault
