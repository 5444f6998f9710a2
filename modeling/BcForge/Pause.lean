import BcForge.Token.Conservation
import BcForge.Token.Frame
import BcForge.Wrapper.Solvency

/-! The pause flag freezes value, in the token and in the wrapper vault. -/
namespace BcForge

open Soroban Call

namespace BcForgeToken

variable {α : Type} {env : Env} {s s' : Store} {a : α} {k : Unit → TokenCall α} {op : Op}

/-- No balance has changed, and neither has the supply. -/
structure Frozen (s s' : Store) : Prop where
  balance : s'.balance = s.balance
  supply : s'.supply = s.supply

instance : IsPreorder Store Frozen where
  refl _ := ⟨rfl, rfl⟩
  trans _ _ _ h h' := ⟨h'.balance.trans h.balance, h'.supply.trans h.supply⟩

/-- The calls that clear the flag. -/
def Op.unpauses : Op → Bool
  | .unpause _ => true
  | .unpauseAs _ => true
  | _ => false

theorem unpaused_of_opening
    (h : Runs (ensureInitialized >>= fun _ => ensureNotPaused >>= k) env s a s') :
    s.paused = false := by
  simp only [ensureInitialized, ensureNotPaused, runs_bind_assoc, runs_gets_bind,
    runs_failIf_bind, Bool.not_eq_true] at h
  exact h.2.1

theorem unpaused_of_guarded {g : Guard}
    (h : Runs (reentrancyGuard g (ensureInitialized >>= fun _ => ensureNotPaused >>= k))
      env s a s') : s.paused = false := by
  obtain ⟨-, t, hbody, -⟩ := runs_guarded.mp h
  have hp : ((guardLens g).set true s).paused = false := unpaused_of_opening hbody
  exact hp

/-- Every call on the books looks at the flag first. -/
theorem unpaused_of_books (hop : .balance ∈ op.writes) (h : Runs (exec op) env s () s') :
    s.paused = false := by
  cases op with
  | mint minter dst amount => exact unpaused_of_guarded (runs_failIf_bind.mp h).2
  | batchMint minter recipients => exact unpaused_of_guarded h
  | batchTransfer src recipients => exact unpaused_of_guarded h
  | executeFromContract src operations nonce maxLedger => exact unpaused_of_guarded h
  | transfer src dst amount => exact unpaused_of_guarded h
  | transferFrom spender src dst amount => exact unpaused_of_opening h
  | burn src amount => exact unpaused_of_opening h
  | burnFrom spender src amount => exact unpaused_of_opening h
  | _ => simp [Op.writes] at hop

theorem supply_writes (hop : .balance ∉ op.writes)
    (hinit : ∀ a d n m, op ≠ .initializeToken a d n m) : .supply ∉ op.writes := by
  cases op with
  | initializeToken a d n m => exact absurd rfl (hinit a d n m)
  | _ => simp_all [Op.writes]

theorem exec_frozen (hinit : ∀ a d n m, op ≠ .initializeToken a d n m) (hp : s.paused = true)
    (h : Runs (exec op) env s () s') : Frozen s s' := by
  by_cases hop : .balance ∈ op.writes
  · rw [unpaused_of_books hop h] at hp
    cases hp
  · have hframe := exec_writes op env s () s' h
    exact ⟨hframe .balance hop, hframe .supply (supply_writes hop hinit)⟩

theorem exec_paused (hop : op.unpauses = false) (hp : s.paused = true)
    (h : Runs (exec op) env s () s') : s'.paused = true := by
  by_cases hw : .paused ∈ op.writes
  · cases op with
    | pause caller =>
      simp only [exec, pause, ensureInitialized, runs_bind_assoc, runs_gets_bind,
        runs_failIf_bind, runs_requireAuth_bind, runs_modify] at h
      rw [h.2.2.2.2]
    | pauseAs caller =>
      simp only [exec, pauseAs, ensureInitialized, runs_bind_assoc, runs_gets_bind,
        runs_failIf_bind, Lifecycle.runs_pause] at h
      rw [h.2.2.2.2.2]
      rfl
    | unpause caller => cases hop
    | unpauseAs caller => cases hop
    | _ => simp [Op.writes] at hw
  · exact (exec_writes op env s () s' h .paused hw).trans hp

variable {w : World Store} {ls : List (Label Op)}

theorem next_frozen (hp : w.store.paused = true) (l : Label Op) :
    Frozen w.store (w.next exec l).store := by
  refine World.next_store (P := Frozen w.store) (refl_of Frozen w.store) ?_
  intro signers uploaded op s' hr
  refine exec_frozen ?_ hp hr
  rintro a d n m rfl
  exact not_runs_initializeToken hr

theorem next_paused (hp : w.store.paused = true) {l : Label Op}
    (h : World.OnSuccess exec (fun _ op => op.unpauses = false) w l) :
    (w.next exec l).store.paused = true :=
  World.next_store_of_onSuccess (P := fun s : Store => s.paused = true) hp h
    fun _ _ _ _ hr hop => exec_paused hop hp hr

/-- Until an unpause succeeds, nothing moves. -/
theorem run_frozen (hp : w.store.paused = true)
    (h : w.EveryStep exec (World.OnSuccess exec fun _ op => op.unpauses = false) ls) :
    w.EveryState exec (fun w' => w'.store.paused = true ∧ Frozen w.store w'.store) ls := by
  refine World.everyState_of_everyStep ⟨hp, refl_of Frozen w.store⟩ ?_ h
  rintro w' l ⟨hp', hf⟩ hl
  exact ⟨next_paused hp' hl, trans_of Frozen hf (next_frozen hp' l)⟩

end BcForgeToken

namespace Wrapper

variable {α : Type} {env : Env} {s s' : Store} {a : α} {k : Unit → WrapperCall α} {op : Op}

/-- Neither the shares nor what they stand for has changed: the underlying token and the queued
withdrawals are as before. -/
structure Frozen (s s' : Store) : Prop where
  balance : s'.balance = s.balance
  supply : s'.supply = s.supply
  underlying : s'.underlying = s.underlying
  queue : s'.queuedWithdrawal = s.queuedWithdrawal

instance : IsPreorder Store Frozen where
  refl _ := ⟨rfl, rfl, rfl, rfl⟩
  trans _ _ _ h h' := ⟨h'.balance.trans h.balance, h'.supply.trans h.supply,
    h'.underlying.trans h.underlying, h'.queue.trans h.queue⟩

/-- The vault's own entry points, as opposed to what others do on the underlying token. -/
def Op.isEntry : Op → Bool
  | .underlyingMint _ _ => false
  | .underlyingTransfer _ _ _ => false
  | .underlyingApprove _ _ _ => false
  | _ => true

theorem unpaused_of_opening
    (h : Runs (ensureInitialized >>= fun _ => ensureNotPaused >>= k) env s a s') :
    s.paused = false := by
  rw [runs_ensureInitialized_bind, runs_ensureNotPaused_bind] at h
  exact h.2.1

/-- Every entry point that moves anything looks at the flag first. -/
theorem unpaused_of_moves (hop : op.isEntry = true) (hset : op.isSetting = false)
    (h : Runs (exec op) env s () s') : s.paused = false := by
  cases op with
  | wrap caller amount => exact unpaused_of_opening h
  | deposit caller assets =>
    obtain ⟨_, t, h, -⟩ := runs_bind.mp h
    exact unpaused_of_opening h
  | unwrap caller wrappedAmount => exact unpaused_of_opening h
  | withdraw caller shares =>
    obtain ⟨_, t, h, -⟩ := runs_bind.mp h
    exact unpaused_of_opening h
  | claimWithdrawal caller =>
    obtain ⟨_, t, h, -⟩ := runs_bind.mp h
    exact unpaused_of_opening h
  | distributeRewards caller amount => exact unpaused_of_opening h
  | transfer src dst amount => exact unpaused_of_opening h
  | transferFrom spender src dst amount => exact unpaused_of_opening h
  | burn owner amount => exact unpaused_of_opening h
  | burnFrom spender owner amount => exact unpaused_of_opening h
  | underlyingMint dst amount => cases hop
  | underlyingTransfer src dst amount => cases hop
  | underlyingApprove owner spender amount => cases hop
  | _ => cases hset

/-- In a paused vault only settings change. -/
theorem exec_frozen (hop : op.isEntry = true) (hp : s.paused = true)
    (h : Runs (exec op) env s () s') : Frozen s s' ∧ s'.paused = op.pauses.getD true := by
  by_cases hset : op.isSetting = true
  · obtain ⟨hvault, hpaused, -⟩ := exec_setting hset h
    simp only [Store.vault, Prod.mk.injEq] at hvault
    obtain ⟨-, -, -, hunderlying, -, hbalance, hsupply, hqueue, -⟩ := hvault
    rw [hp] at hpaused
    exact ⟨⟨hbalance, hsupply, hunderlying, hqueue⟩, hpaused⟩
  · rw [unpaused_of_moves hop (Bool.not_eq_true _ ▸ hset) h] at hp
    cases hp

variable {w : World Store} {ls : List (Label Op)}

theorem next_frozen (hp : w.store.paused = true) {signers : List Address}
    {uploaded : List BytesN32} (hop : op.isEntry = true) :
    Frozen w.store (w.next exec (.call signers uploaded op)).store := by
  rcases World.call_cases exec w signers uploaded op with hr | ⟨-, hs⟩
  · exact (exec_frozen hop hp hr).1
  · rw [hs]
    exact refl_of Frozen w.store

/-- Until an unpause succeeds, no entry point moves anything. -/
theorem run_frozen (hp : w.store.paused = true)
    (h : w.EveryStep exec
      (World.OnSuccess exec fun _ op => op.isEntry = true ∧ op.pauses ≠ some false) ls) :
    w.EveryState exec (fun w' => w'.store.paused = true ∧ Frozen w.store w'.store) ls := by
  refine World.everyState_of_everyStep ⟨hp, refl_of Frozen w.store⟩ ?_ h
  rintro w' l ⟨hp', hf⟩ hl
  refine World.next_store_of_onSuccess
    (P := fun s : Store => s.paused = true ∧ Frozen w.store s) ⟨hp', hf⟩ hl ?_
  rintro signers uploaded op s' hr ⟨hentry, hop⟩
  obtain ⟨hfrozen, hpaused⟩ := exec_frozen hentry hp' hr
  refine ⟨?_, trans_of Frozen hf hfrozen⟩
  rw [hpaused]
  cases hb : op.pauses with
  | none => rfl
  | some b =>
    cases b with
    | false => exact absurd hb hop
    | true => rfl

/-- No call after deployment can initialize: the vault does not sign for itself. -/
theorem not_runs_initializeVault {signers : List Address} {uploaded : List BytesN32}
    {a t : Address} {d : ℕ} :
    ¬ Runs (initializeVault a t d) (w.env signers uploaded) w.store () s' := by
  intro h
  simp only [initializeVault, runs_self_bind, runs_requireAuth_bind, World.env_authorized] at h
  exact h.1.1 rfl

end Wrapper

/-- While the flag is set, no call of any entry point of the token moves a balance or the supply,
and none of the vault's moves a share, an underlying token or a queued withdrawal; and so it stays
until an unpause succeeds. -/
theorem value_frozen {w : World BcForgeToken.Store} {v : World Wrapper.Store}
    (hw : w.store.paused = true) (hv : v.store.paused = true) :
    (∀ signers uploaded op, BcForgeToken.Frozen w.store
        (w.next BcForgeToken.exec (.call signers uploaded op)).store) ∧
      (∀ ls, w.EveryStep BcForgeToken.exec
          (World.OnSuccess BcForgeToken.exec fun _ op => op.unpauses = false) ls →
        w.EveryState BcForgeToken.exec (fun w' => w'.store.paused = true ∧
          BcForgeToken.Frozen w.store w'.store) ls) ∧
      (∀ signers uploaded op, op.isEntry = true → Wrapper.Frozen v.store
        (v.next Wrapper.exec (.call signers uploaded op)).store) ∧
      (∀ signers uploaded a t d s',
        ¬ Runs (Wrapper.initializeVault a t d) (v.env signers uploaded) v.store () s') ∧
      ∀ ls, v.EveryStep Wrapper.exec
          (World.OnSuccess Wrapper.exec fun _ op => op.isEntry = true ∧ op.pauses ≠ some false) ls →
        v.EveryState Wrapper.exec (fun v' => v'.store.paused = true ∧
          Wrapper.Frozen v.store v'.store) ls :=
  ⟨fun _ _ _ => BcForgeToken.next_frozen hw _, fun _ => BcForgeToken.run_frozen hw,
    fun _ _ _ hop => Wrapper.next_frozen hv hop,
    fun _ _ _ _ _ _ => Wrapper.not_runs_initializeVault, fun _ => Wrapper.run_frozen hv⟩

/-- Account 2 holds tokens, and the administrator has paused them. -/
def pausedToken : World BcForgeToken.Store :=
  BcForgeToken.genesis.run BcForgeToken.exec
    [.call [⟨1⟩] [] (.mint ⟨1⟩ ⟨2⟩ 1000),
     .call [⟨1⟩] [] (.pause ⟨1⟩)]

/-- Account 2 has deposited, and the administrator has paused the vault. -/
def pausedVault : World Wrapper.Store :=
  Wrapper.genesis.run Wrapper.exec (Wrapper.fundedDeposit ⟨2⟩ 1000 ++ [.call [⟨1⟩] [] .pause])

/-- Neither a transfer of the tokens nor a withdrawal of the shares gets through. -/
theorem value_frozen_paused :
    (pausedToken.next BcForgeToken.exec
        (.call [⟨2⟩] [] (.transfer ⟨2⟩ ⟨3⟩ 10))).store.balance ⟨2⟩ = 1000 ∧
      (pausedVault.next Wrapper.exec (.call [⟨2⟩] [] (.withdraw ⟨2⟩ 10))).store.balance ⟨2⟩ =
        1000 := by
  have h := value_frozen (w := pausedToken) (v := pausedVault) (by decide +kernel)
    (by decide +kernel)
  rw [(h.1 _ _ _).balance, (h.2.2.1 _ _ (.withdraw ⟨2⟩ 10) rfl).balance]
  decide +kernel

end BcForge
