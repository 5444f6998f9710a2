import BcForge.Wrapper.Spec

/-! Queued withdrawals and the assets that have to cover them. -/
namespace BcForge.Wrapper

open Soroban Call Admin

/-- A vault just initialized, over an underlying token in any state. -/
def Deployed (w : World Store) : Prop :=
  ∃ env admin token decimal underlying foreign, env.self = w.self ∧
    Runs (initializeVault admin token decimal) env (Store.empty underlying foreign) () w.store

/-- What holds between the calls of any run. -/
structure Ready (w : World Store) : Prop where
  initialized : hasAdmin w.store.access = true
  token : w.store.underlyingToken.isSome = true
  unlocked : w.store.lock = false
  balanced : w.store.book.Balanced
  not_self : w.store.queuedWithdrawal w.self = none

variable {w : World Store} {l : Label Op} {ls : List (Label Op)} {u : Address}

theorem Deployed.store_eq (h : Deployed w) : ∃ access token decimal underlying foreign,
    hasAdmin access = true ∧ w.store = { Store.empty underlying foreign with
      access := access, underlyingToken := some token, decimals := some decimal } := by
  obtain ⟨env, c, token, decimal, underlying, foreign, -, h⟩ := h
  simp only [initializeVault, runs_self_bind, runs_requireAuth_bind, runs_gets_bind,
    runs_failIf_bind] at h
  obtain ⟨-, -, h⟩ := h
  rw [runs_bind] at h
  obtain ⟨_, s, hadmin, h⟩ := h
  simp only [Wrapper.admin, runs_within] at hadmin
  obtain ⟨access, hadmin, rfl⟩ := hadmin
  rw [runs_modify] at h
  refine ⟨access, token, decimal, underlying, foreign, ?_, h⟩
  simp [hasAdmin, (runs_setAdmin hadmin).rules.admin]

theorem ready_deployed (h : Deployed w) : Ready w := by
  obtain ⟨access, token, decimal, underlying, foreign, ha, hs⟩ := h.store_eq
  refine ⟨?_, ?_, ?_, ?_, ?_⟩ <;> rw [hs]
  · exact ha
  · rfl
  · rfl
  · refine ⟨fun a => le_rfl, hasTotal_zero, ?_, 0, hasTotal_zero⟩
    intro u q hq
    cases hq
  · rfl

theorem ready_next (h : Ready w) : Ready (w.next exec l) := by
  have hs : Ready { w with store := (w.next exec l).store } := by
    refine World.next_store (P := fun s => Ready { w with store := s }) h ?_
    intro signers uploaded op s' hr
    obtain ⟨hsame, x, -, hstep⟩ := exec_booked World.authorized_ne_self hr
    refine ⟨?_, ?_, ?_, Book.step_balanced h.balanced hstep, Book.step_queue_self hstep h.not_self⟩
    · exact hsame.access ▸ h.initialized
    · exact hsame.token ▸ h.token
    · exact hsame.lock.trans h.unlocked
  refine ⟨hs.initialized, hs.token, hs.unlocked, hs.balanced, ?_⟩
  rw [World.next_self]
  exact hs.not_self

/-- The exit leaves what is queued in the vault, at the price it is made: the virtual-offset
share price for `withdraw`, the flat rate for `unwrap`. -/
def Covered (w : World Store) : Op → Prop
  | .withdraw _ n => n = 0 ∨ ∀ q, HasTotal w.store.book.owed q →
    n * (w.store.underlying.balance w.self + VIRTUAL_OFFSET) <
      (w.store.underlying.balance w.self - q + 1) * (w.store.supply + VIRTUAL_OFFSET)
  | .unwrap _ n => ∀ q, HasTotal w.store.book.owed q →
    n * flatRate w.store / SCALING_FACTOR *
        10 ^ (w.store.underlying.decimals - wrapperDecimals w.store) <
      (w.store.underlying.balance w.self - q + 1) *
        10 ^ (wrapperDecimals w.store - w.store.underlying.decimals)
  | _ => True

theorem covered_iff {op : Op} {x q : ℤ}
    (hq : HasTotal w.store.book.owed q) (hsol : q ≤ w.store.underlying.balance w.self)
    (hp : op.payout w.self w.store = some x) :
    x ≤ w.store.underlying.balance w.self - q ↔ Covered w op := by
  have hany : ∀ P : ℤ → Prop, (∀ r, HasTotal w.store.book.owed r → P r) ↔ P q := by
    intro P
    constructor
    · intro h
      exact h q hq
    · intro h r hr
      rwa [hq.unique hr]
  have hzero : x = 0 → x ≤ w.store.underlying.balance w.self - q := by
    intro hx
    omega
  cases op with
  | withdraw c n =>
    simp only [Op.payout] at hp
    split at hp
    · rename_i hn
      obtain rfl := Option.some.inj hp
      exact ⟨fun _ => Or.inl hn, fun _ => hzero rfl⟩
    · rename_i hn
      obtain ⟨-, hs, -, rfl⟩ := convertToAssets_spec hp
      have hpos : 0 < w.store.supply + VIRTUAL_OFFSET := by
        have := offset_pos
        omega
      rw [Book.ediv_le_iff hpos, Covered, hany, or_iff_right hn]
  | unwrap c n =>
    obtain ⟨-, rfl⟩ := calcAssetsForShares_spec hp
    rw [Book.ediv_le_iff (by positivity), Covered, hany]
  | _ => exact ⟨fun _ => trivial, fun _ => hzero (Option.some.inj hp).symm⟩

def Solvent (w : World Store) : Prop := Book.Solvent w.self w.store.book

theorem solvent_next_iff (hw : Ready w) (hs : Solvent w) :
    Solvent (w.next exec l) ↔ World.OnSuccess exec Covered w l := by
  obtain ⟨q, hq⟩ := hw.balanced.queue_total
  have hle := (Book.solvent_iff hq).mp hs
  rw [Solvent, World.next_self]
  refine World.next_store_iff (P := fun s : Store => Book.Solvent w.self s.book) hs ?_
  intro signers uploaded op s' hr
  obtain ⟨-, x, hp, hstep⟩ := exec_booked World.authorized_ne_self hr
  exact (Book.solvent_step_iff hq hs hstep).trans (covered_iff hq hle hp)

/-- One claim by each of the users, in the order given. -/
def claims (us : List Address) : List (Label Op) :=
  us.map fun u => .call [u] [] (.claimWithdrawal u)

def Matured (w : World Store) (u : Address) : Prop :=
  ∃ q, w.store.queuedWithdrawal u = some q ∧ q.releaseLedger ≤ w.ledger.sequence

/-- Whoever has a matured withdrawal queued is paid in full, whatever the order of claims. -/
def ClaimsPaid (w : World Store) : Prop :=
  w.store.paused = false → ∀ us : List Address, us.Nodup → (∀ u ∈ us, Matured w u) →
    ∀ u ∈ us, (w.run exec (claims us)).store.underlying.balance u =
      w.store.underlying.balance u + w.store.book.owed u

theorem claim_next (hw : Ready w) (hs : Solvent w) (hp : w.store.paused = false)
    {q : QueuedWithdrawal} (hq : w.store.queuedWithdrawal u = some q)
    (hr : q.releaseLedger ≤ w.ledger.sequence) : ∃ t, u ≠ w.self ∧
      w.store.underlying.transfer w.self u q.amount = some t ∧
      (w.next exec (.call [u] [] (.claimWithdrawal u))).store =
        settle t (removeQueuedWithdrawal u w.store) := by
  have hne : u ≠ w.self := by
    rintro rfl
    rw [hw.not_self] at hq
    cases hq
  have hsome : (w.store.underlying.transfer w.self u q.amount).isSome :=
    Token.transfer_isSome.mpr (hs.holds hw.balanced hq)
  obtain ⟨t, ht⟩ := Option.isSome_iff_exists.mp hsome
  refine ⟨t, hne, ht, ?_⟩
  have hrun : Runs (claimWithdrawal u) (w.env [u] []) w.store q.amount
      (settle t (removeQueuedWithdrawal u w.store)) :=
    runs_claimWithdrawal.mpr ⟨hw.initialized, hp, by simp [hne], q, hq, hr, hw.unlocked, hw.token,
      t, ht, rfl, rfl⟩
  have hexec : Runs (exec (.claimWithdrawal u)) (w.env [u] []) w.store ()
      (settle t (removeQueuedWithdrawal u w.store)) := by
    simp only [exec, runs_bind, runs_pure]
    exact ⟨_, _, hrun, trivial, rfl⟩
  exact invoke_of_runs hexec

theorem pays_claims : Book.Pays exec Store.book (fun u => .call [u] [] (.claimWithdrawal u))
    (fun w => Ready w ∧ Solvent w ∧ w.store.paused = false) where
  ledger w u := rfl
  paid := by
    rintro w u q ⟨hw, hs, hp⟩ hq hr
    obtain ⟨t, hne, ht, hstore⟩ := claim_next hw hs hp hq hr
    obtain ⟨-, -, hbal⟩ := Token.transfer_spec ht hne.symm
    have hcov : World.OnSuccess exec Covered w (.call [u] [] (.claimWithdrawal u)) :=
      fun _ _ => trivial
    refine ⟨⟨ready_next hw, (solvent_next_iff hw hs).mpr hcov, ?_⟩, ?_⟩
    · rw [hstore]
      exact hp
    · rw [hstore]
      simp only [Store.book, settle, removeQueuedWithdrawal, hbal]
      rfl

theorem claimsPaid_of_solvent (hw : Ready w) (hs : Solvent w) : ClaimsPaid w := by
  intro hp us hnd hm u hu
  have hne : u ≠ w.self := by
    rintro rfl
    obtain ⟨q, hq, -⟩ := hm _ hu
    rw [hw.not_self] at hq
    cases hq
  have hpaid := pays_claims.claims us ⟨hw, hs, hp⟩ hnd hm u hne
  rw [if_pos hu] at hpaid
  exact hpaid

theorem solvent_deployed (h : Deployed w) : Solvent w := by
  obtain ⟨access, token, decimal, underlying, foreign, -, hs⟩ := h.store_eq
  refine ⟨0, ?_, w.store.underlying.balance_nonneg w.self⟩
  rw [hs]
  exact hasTotal_zero

/-- The queue stays covered, and with it every matured claim payable in any order, exactly as long
as each exit leaves behind what is queued already. -/
theorem queue_covered_iff (h : Deployed w) :
    w.EveryState exec (fun w => Solvent w ∧ ClaimsPaid w) ls ↔
      w.EveryStep exec (World.OnSuccess exec Covered) ls := by
  have hpaid : ∀ w, Ready w → (Solvent w ∧ ClaimsPaid w ↔ Solvent w) := by
    intro w hw
    exact ⟨And.left, fun hs => ⟨hs, claimsPaid_of_solvent hw hs⟩⟩
  have hw := ready_deployed h
  refine World.everyState_iff_everyStep (I := Ready) hw (fun _ _ => ready_next)
    ((hpaid w hw).mpr (solvent_deployed h)) ?_
  intro w l hw hs
  rw [hpaid _ (ready_next hw), solvent_next_iff hw hs.1]

/-- A vault at address 100 over a token nobody holds yet, with account 1 as its administrator. -/
def genesis : World Store where
  ledger := .ofNat 100 1700000000
  self := ⟨100⟩
  store := invoke (initializeVault ⟨1⟩ ⟨50⟩ 7)
    ⟨.ofNat 100 1700000000, ⟨100⟩, [], true, []⟩
    (Store.empty (Token.empty 7) fun _ => Token.empty 7)

theorem genesis_deployed : Deployed genesis := by
  refine ⟨⟨.ofNat 100 1700000000, ⟨100⟩, [], true, []⟩, ⟨1⟩, ⟨50⟩, 7,
    Token.empty 7, fun _ => Token.empty 7, rfl, ?_⟩
  exact runs_invoke (by decide)

/-- The account receives the amount, lets the vault spend it, and deposits it. -/
def fundedDeposit (u : Address) (x : ℤ) : List (Label Op) :=
  [.call [] [] (.underlyingMint u x),
   .call [u] [] (.underlyingApprove u ⟨100⟩ x),
   .call [u] [] (.deposit u x)]

/-- Two equal deposits, and the cooldown switched on. -/
def cooldownOn : List (Label Op) :=
  fundedDeposit ⟨2⟩ 1000000000 ++ fundedDeposit ⟨3⟩ 1000000000 ++
    [.call [⟨1⟩] [] (.setCooldownConfig ⟨1⟩ ⟨true, 0, 0, 0⟩)]

/-- One holder leaves through the queue. -/
def singleExit : List (Label Op) :=
  cooldownOn ++ [.call [⟨2⟩] [] (.withdraw ⟨2⟩ 1000000000),
    .call [⟨2⟩] [] (.claimWithdrawal ⟨2⟩)]

/-- The second holder leaves while the first one's assets still count towards the share price. -/
def doubleExit : List (Label Op) :=
  cooldownOn ++ [.call [⟨2⟩] [] (.withdraw ⟨2⟩ 1000000000),
    .call [⟨3⟩] [] (.withdraw ⟨3⟩ 1000000000)]

theorem singleExit_covered :
    genesis.EveryState exec (fun w => Solvent w ∧ ClaimsPaid w) singleExit ∧
    (genesis.run exec singleExit).store.underlying.balance ⟨2⟩ = 1000000000 := by
  refine ⟨(queue_covered_iff genesis_deployed).mpr ?_, by decide⟩
  refine ⟨fun _ _ => trivial, fun _ _ => trivial, fun _ _ => trivial, fun _ _ => trivial,
    fun _ _ => trivial, fun _ _ => trivial, fun _ _ => trivial, fun _ _ => Or.inr ?_,
    fun _ _ => trivial, trivial⟩
  intro q hq
  obtain rfl : q = 0 := hasTotal_zero.unique hq
  decide

theorem doubleExit_uncovered :
    ¬ genesis.EveryState exec (fun w => Solvent w ∧ ClaimsPaid w) doubleExit := by
  intro h
  obtain ⟨⟨q, hq, hle⟩, -⟩ := h.run
  have hw : Ready (genesis.run exec doubleExit) :=
    World.run_induction (ready_deployed genesis_deployed) fun _ _ => ready_next
  have hsum := hq.add_le hw.balanced.owed_nonneg
    (show (⟨2⟩ : Address) ≠ ⟨3⟩ by decide)
  have howed : 2000000000 < (genesis.run exec doubleExit).store.book.owed ⟨2⟩ +
      (genesis.run exec doubleExit).store.book.owed ⟨3⟩ := by decide
  have hassets : (genesis.run exec doubleExit).store.book.assets
      (genesis.run exec doubleExit).self = 2000000000 := by decide
  omega

end BcForge.Wrapper
