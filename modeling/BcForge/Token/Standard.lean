import BcForge.Soroban.Standard
import BcForge.Token.Books

/-! The token is a standard SEP-41 token: whoever uses it sees a ledger that standard operations
explain. -/
namespace BcForge.BcForgeToken

open Soroban Call Admin

/-- The ledger the token shows at a ledger sequence: an allowance that has run out is none. -/
def Seen (sequence : ℕ) (s : Store) (t : Token) : Prop :=
  t.Shows s.balance s.supply (fun o sp => (effective s o sp).available sequence) (storedDecimals s)

def BatchOp.standard (sequence : ℕ) (src : Address) : BatchOp → Token.Op
  | .approve spender amount exp =>
    .approve src spender (AllowanceData.available ⟨amount, exp⟩ sequence)
  | .transfer dst amount => .transfer src dst amount

/-- The standard operations a successful call stands for; administration stands for none. -/
def Op.standard (sequence : ℕ) : Op → List Token.Op
  | .mint _ dst amount => [.mint dst amount]
  | .batchMint _ recipients => recipients.map fun r => .mint r.dst r.amount
  | .batchTransfer src recipients => recipients.map fun r => .transfer src r.1 r.2
  | .executeFromContract src operations _ _ => operations.map (BatchOp.standard sequence src)
  | .approve owner spender amount exp =>
    [.approve owner spender (AllowanceData.available ⟨amount, exp⟩ sequence)]
  | .transfer src dst amount => [.transfer src dst amount]
  | .transferFrom spender src dst amount => [.transferFrom spender src dst amount]
  | .burn src amount => [.burn src amount]
  | .burnFrom spender src amount => [.burnFrom spender src amount]
  | _ => []

/-- A failing call stands for nothing; a new ledger ends the allowances it is too late for. -/
def standardSteps (w : World Store) : Label Op → List Token.Op
  | .call signers uploaded op =>
    if (exec op (w.env signers uploaded) w.store).isOk = true then op.standard w.ledger.sequence
    else []
  | .close l =>
    [.lapse fun o sp =>
      decide ((effective w.store o sp).Expired (w.next exec (.close l)).ledger.sequence)]

/-- The operations lead from what the one store shows to what the other does. -/
def Replays (sequence : ℕ) (ops : List Token.Op) (s s' : Store) : Prop :=
  ∀ t, Seen sequence s t → ∃ t', t.replay ops = some t' ∧ Seen sequence s' t'

variable {env : Env} {s s' s₁ : Store} {sequence : ℕ} {ops ops' : List Token.Op} {op : Token.Op}
  {src dst spender owner : Address} {x : ℤ} {u : Unit}

theorem Replays.append (h : Replays sequence ops s s₁) (h' : Replays sequence ops' s₁ s') :
    Replays sequence (ops ++ ops') s s' := by
  intro t ht
  obtain ⟨t₁, hr, ht₁⟩ := h t ht
  obtain ⟨t', hr', ht'⟩ := h' t₁ ht₁
  exact ⟨t', by rw [Token.replay_append hr, hr'], ht'⟩

theorem Replays.cons (h : Replays sequence [op] s s₁) (h' : Replays sequence ops s₁ s') :
    Replays sequence (op :: ops) s s' :=
  h.append h'

theorem replays_nil (hb : s'.balance = s.balance) (hs : s'.supply = s.supply)
    (ha : effective s' = effective s) (hd : s'.decimals = s.decimals) :
    Replays sequence [] s s' := by
  intro t ht
  refine ⟨t, rfl, ?_⟩
  rw [Seen, hb, hs, ha, storedDecimals, hd]
  exact ht

theorem replays_one (h : ∀ t, Seen sequence s t → ∃ t', t.apply op = some t' ∧
    Seen sequence s' t') : Replays sequence [op] s s' := by
  intro t ht
  rw [Token.replay_singleton]
  exact h t ht

/-- A spendable amount is in the balance. -/
theorem le_balance (h : s.ledger.Sound) (hx : 0 < x) (hf : x ≤ getSpendableBalance s src) :
    x ≤ s.balance src := by
  have hfree := free_of_spendable hx hf
  have hlocked := h.locked_nonneg src
  unfold Ledger.free at hfree
  change x ≤ s.ledger.balance src
  omega

theorem available_update {d : AllowanceData} :
    (fun o sp => (update₂ (effective s) owner spender d o sp).available sequence) =
      granted (fun o sp => (effective s o sp).available sequence) owner spender
        (d.available sequence) := by
  funext o sp
  by_cases h : o = owner ∧ sp = spender
  · obtain ⟨rfl, rfl⟩ := h
    simp [granted]
  · rw [update₂_of_ne _ _ h, granted, if_neg h]

/-- Spending an allowance that is still good leaves the rest of it good. -/
theorem available_spentFrom (h : ¬ (effective s owner spender).Expired sequence) :
    (fun o sp => (spentFrom (effective s) owner spender x o sp).available sequence) =
      granted (fun o sp => (effective s o sp).available sequence) owner spender
        ((effective s owner spender).available sequence - x) := by
  have hlive : ¬ (AllowanceData.mk ((effective s owner spender).amount - x)
      (effective s owner spender).expirationLedger).Expired sequence := h
  rw [spentFrom, available_update, AllowanceData.available, if_neg hlive, AllowanceData.available,
    if_neg h]

theorem replays_moved (hs : s.ledger.Sound) (hx : 0 < x) (hf : x ≤ getSpendableBalance s src)
    (hl : Leaves s' (moved s.balance src dst x) s.supply (effective s))
    (hd : s'.decimals = s.decimals) : Replays sequence [.transfer src dst x] s s' := by
  refine replays_one fun t ht => ?_
  obtain ⟨t', hr, hshows⟩ := Token.shows_transfer dst ht hx.le (le_balance hs hx hf)
  refine ⟨t', hr, ?_⟩
  rw [Seen, hl.balance, hl.supply, hl.allowance, storedDecimals, hd]
  exact hshows

theorem replays_minted (hx : 0 < x) (hmax : s.supply + x ≤ I128.MAX)
    (hl : Leaves s' (Function.update s.balance dst (s.balance dst + x)) (s.supply + x)
      (effective s)) (hd : s'.decimals = s.decimals) : Replays sequence [.mint dst x] s s' := by
  refine replays_one fun t ht => ?_
  obtain ⟨t', hr, hshows⟩ := Token.shows_mint dst ht hx.le hmax
  refine ⟨t', hr, ?_⟩
  rw [Seen, hl.balance, hl.supply, hl.allowance, storedDecimals, hd]
  exact hshows

theorem replays_granted {exp : ℕ} (hb : s'.balance = s.balance) (hs : s'.supply = s.supply)
    (ha : effective s' = update₂ (effective s) owner spender ⟨x, exp⟩)
    (hd : s'.decimals = s.decimals) : Replays sequence
      [.approve owner spender (AllowanceData.available ⟨x, exp⟩ sequence)] s s' := by
  refine replays_one fun t ht => ⟨_, rfl, ?_⟩
  rw [Seen, hb, hs, ha, available_update, storedDecimals, hd]
  exact Token.shows_approve ht _ _ _

theorem replays_mintAll {minter : Address} {recipients : List Recipient}
    (h : Runs (mintAll minter recipients) env s u s') :
    Replays sequence (recipients.map fun r => .mint r.dst r.amount) s s' := by
  induction recipients generalizing s with
  | nil =>
    rw [(runs_pure.mp h).2]
    exact replays_nil rfl rfl rfl rfl
  | cons r rest ih =>
    obtain ⟨_, s₁, hrate, h⟩ := runs_bind.mp h
    obtain ⟨limits, rfl⟩ := runs_checkRateLimit hrate
    obtain ⟨_, s₂, hmint, hrest⟩ := runs_bind.mp h
    obtain ⟨hx, -, hrange, hs₂⟩ := runs_internalMint hmint
    have hleaves : Leaves s₂ (Function.update s.balance r.dst (s.balance r.dst + r.amount))
        (s.supply + r.amount) (effective s) := by
      rw [hs₂]
      exact ⟨rfl, rfl, rfl⟩
    have hone : Replays sequence [.mint r.dst r.amount] s s₂ :=
      replays_minted hx hrange.2 hleaves (by rw [hs₂])
    exact hone.cons (ih hrest)

theorem replays_transferAll {recipients : List (Address × ℤ)} (hs : s.ledger.Sound)
    (hpos : ∀ r ∈ recipients, 0 < r.2) (h : Runs (transferAll src recipients) env s u s') :
    Replays sequence (recipients.map fun r => .transfer src r.1 r.2) s s' := by
  induction recipients generalizing s with
  | nil =>
    rw [(runs_pure.mp h).2]
    exact replays_nil rfl rfl rfl rfl
  | cons r rest ih =>
    have hr := hpos r (by simp)
    obtain ⟨_, s₁, hrate, h⟩ := runs_bind.mp h
    obtain ⟨limits, rfl⟩ := runs_checkRateLimit hrate
    obtain ⟨_, s₂, hmove, hrest⟩ := runs_bind.mp h
    have hsound := Ledger.sound_steps hs (respects_moveBalance hr _ _ _ _ hmove).entries
    obtain ⟨hf, hs₂⟩ := runs_moveBalance hmove
    have hleaves : Leaves s₂ (moved s.balance src r.1 r.2) s.supply (effective s) := by
      rw [hs₂]
      exact ⟨rfl, rfl, rfl⟩
    have hone : Replays sequence [.transfer src r.1 r.2] s s₂ :=
      replays_moved hs hr hf hleaves (by rw [hs₂])
    exact hone.cons (ih hsound (fun r' hr' => hpos r' (by simp [hr'])) hrest)

theorem replays_executeOperation {op : BatchOp} (hs : s.ledger.Sound)
    (h : Runs (executeOperation src op) env s u s') :
    Replays sequence [op.standard sequence src] s s' := by
  cases op with
  | approve spender amount exp =>
    obtain ⟨-, h⟩ := runs_failIf_bind.mp h
    have hgrant := runs_writeAllowance h
    obtain rfl := runs_modify.mp h
    exact replays_granted rfl rfl hgrant rfl
  | transfer dst amount =>
    obtain ⟨hx, h⟩ := runs_failIf_bind.mp h
    obtain ⟨_, s₁, hrate, h⟩ := runs_bind.mp h
    obtain ⟨limits, rfl⟩ := runs_checkRateLimit hrate
    obtain ⟨hf, rfl⟩ := runs_moveBalance h
    exact replays_moved hs (not_le.mp hx) hf ⟨rfl, rfl, rfl⟩ rfl

theorem replays_executeAll {operations : List BatchOp} (hs : s.ledger.Sound)
    (h : Runs (executeAll src operations) env s u s') :
    Replays sequence (operations.map (BatchOp.standard sequence src)) s s' := by
  induction operations generalizing s with
  | nil =>
    rw [(runs_pure.mp h).2]
    exact replays_nil rfl rfl rfl rfl
  | cons op rest ih =>
    obtain ⟨_, s₁, hop, hrest⟩ := runs_bind.mp h
    have hsound := Ledger.sound_steps hs (respects_executeOperation op _ _ _ _ hop).entries
    exact (replays_executeOperation hs hop).cons (ih hsound hrest)

/-! The scale of the amounts is fixed once the token is initialized. -/

theorem decimals_of_writes {α : Type} {ws : List Part} {y : TokenCall α} {a : α}
    (h : Writes parts ws y) (hset : .settings ∉ ws) (hr : Runs y env s a s') :
    s'.decimals = s.decimals :=
  congrArg Settings.decimals (h env s a s' hr _ hset)

theorem decimals_exec {op : Op} (hop : ∀ a d n m, op ≠ .initializeToken a d n m)
    (h : Runs (exec op) env s u s') : s'.decimals = s.decimals := by
  by_cases hset : .settings ∉ op.writes
  · exact decimals_of_writes (exec_writes op) hset h
  · cases op with
    | initializeToken a d n m => exact absurd rfl (hop a d n m)
    | setFeeConfig caller config =>
      simp only [exec, setFeeConfig, admin, requireAdmin, runs_ensureInitialized_bind,
        runs_failIf_bind, runs_access_bind, runs_modify] at h
      obtain ⟨-, -, -, -, -, -, access, -, rfl⟩ := h
      rfl
    | setTreasury caller treasury =>
      simp only [exec, setTreasury, admin, requireAdmin, runs_ensureInitialized_bind,
        runs_requireRole_bind, runs_modify] at h
      obtain ⟨-, -, -, rfl⟩ := h
      rfl
    | setFeeExemption caller a exemptionType =>
      simp only [exec, setFeeExemption, writeFeeExemption, admin, requireAdmin,
        runs_ensureInitialized_bind, runs_requireRole_bind, runs_modify] at h
      obtain ⟨-, -, -, rfl⟩ := h
      rfl
    | removeFeeExemption caller a =>
      simp only [exec, removeFeeExemption, writeFeeExemption, admin, requireAdmin,
        runs_ensureInitialized_bind, runs_requireRole_bind, runs_modify] at h
      obtain ⟨-, -, -, rfl⟩ := h
      rfl
    | updateName newName =>
      simp only [exec, updateName, admin, requireAdmin, runs_ensureInitialized_bind,
        runs_access_bind, runs_modify] at h
      obtain ⟨-, -, -, -, -, access, -, rfl⟩ := h
      rfl
    | updateSymbol newSymbol =>
      simp only [exec, updateSymbol, admin, requireAdmin, runs_ensureInitialized_bind,
        runs_access_bind, runs_modify] at h
      obtain ⟨-, -, -, -, -, access, -, rfl⟩ := h
      rfl
    | setMetadata caller name symbol decimals =>
      simp only [exec, setMetadata, admin, requireAdmin, runs_ensureInitialized_bind,
        runs_requireRole_bind, runs_gets_bind, runs_failIf_bind, runs_modify] at h
      obtain ⟨-, -, -, -, rfl⟩ := h
      rfl
    | updateMetadata caller name symbol =>
      simp only [exec, updateMetadata, admin, requireAdmin, runs_ensureInitialized_bind,
        runs_requireRole_bind, runs_modify] at h
      obtain ⟨-, -, -, rfl⟩ := h
      rfl
    | _ => exact absurd (by simp [Op.writes]) hset

/-- A call that leaves balances, supply and allowances alone. -/
theorem replays_of_writes {op : Op} (hop : ∀ a d n m, op ≠ .initializeToken a d n m)
    (hb : .balance ∉ op.writes) (hs : .supply ∉ op.writes) (ha : .allowance ∉ op.writes)
    (h : Runs (exec op) env s u s') : Replays sequence [] s s' :=
  replays_nil (exec_writes op env s u s' h _ hb) (exec_writes op env s u s' h _ hs)
    (effective_of_writes (exec_writes op) ha h) (decimals_exec hop h)

/-- A successful call shows what its standard operations make of the ledger before it. -/
theorem replays_exec {op : Op} (hop : ∀ a d n m, op ≠ .initializeToken a d n m)
    (hs : s.ledger.Sound) (h : Runs (exec op) env s u s') :
    Replays env.ledger.sequence (op.standard env.ledger.sequence) s s' := by
  have hd := decimals_exec hop h
  cases op with
  | mint minter dst amount =>
    obtain ⟨-, hx, hmax, hl⟩ := leaves_mint h
    exact replays_minted hx hmax hl hd
  | batchMint minter recipients =>
    obtain ⟨-, t, hbody, rfl⟩ := runs_reentrancyGuard.mp h
    simp only [admin, runs_ensureInitialized_bind, runs_ensureNotPaused_bind, runs_failIf_bind,
      runs_requireRole_bind] at hbody
    obtain ⟨-, -, -, -, -, hall⟩ := hbody
    have hreplays : Replays env.ledger.sequence _ _ _ := replays_mintAll hall
    exact hreplays
  | batchTransfer src recipients =>
    obtain ⟨-, t, hbody, rfl⟩ := runs_reentrancyGuard.mp h
    simp only [runs_ensureInitialized_bind, runs_ensureNotPaused_bind, runs_requireAuth_bind]
      at hbody
    obtain ⟨-, -, -, hbody⟩ := hbody
    obtain ⟨total, s₁, htotal, hbody⟩ := runs_bind.mp hbody
    obtain ⟨rfl, hpos⟩ := batchTotal_pos htotal
    simp only [runs_gets_bind, runs_failIf_bind] at hbody
    have hsound : ((guardLens .batchTransfer).set true s).ledger.Sound := hs
    have hreplays : Replays env.ledger.sequence _ _ _ := replays_transferAll hsound hpos hbody.2
    exact hreplays
  | executeFromContract src operations nonce maxLedger =>
    obtain ⟨-, t, hall, rfl⟩ := runs_executeFromContract h
    have hsound : (begun src s).ledger.Sound := hs
    have hreplays : Replays env.ledger.sequence _ _ _ := replays_executeAll hsound hall
    exact hreplays
  | approve owner spender amount exp =>
    have hframe := exec_writes _ env s u s' h
    exact replays_granted (hframe .balance (by simp [Op.writes]))
      (hframe .supply (by simp [Op.writes])) (grants_approve h) hd
  | transfer src dst amount =>
    obtain ⟨-, hx, hf, hl⟩ := leaves_transfer h
    exact replays_moved hs hx hf hl hd
  | transferFrom spender src dst amount =>
    obtain ⟨⟨-, hlive⟩, ⟨hx, hle⟩, hf, hl⟩ := leaves_transferFrom h
    refine replays_one fun t ht => ?_
    have hallowed : amount ≤ (effective s src spender).available env.ledger.sequence := by
      rwa [AllowanceData.available, if_neg hlive]
    obtain ⟨t', hr, hshows⟩ :=
      Token.shows_transferFrom dst ht hx.le (le_balance hs hx hf) hallowed
    refine ⟨t', hr, ?_⟩
    rw [Seen, hl.balance, hl.supply, hl.allowance, available_spentFrom hlive, storedDecimals, hd]
    exact hshows
  | burn src amount =>
    obtain ⟨-, hx, hf, hl⟩ := leaves_burn h
    refine replays_one fun t ht => ?_
    obtain ⟨t', hr, hshows⟩ := Token.shows_burn ht hx.le (le_balance hs hx hf)
    refine ⟨t', hr, ?_⟩
    rw [Seen, hl.balance, hl.supply, hl.allowance, storedDecimals, hd]
    exact hshows
  | burnFrom spender src amount =>
    obtain ⟨⟨-, hlive⟩, ⟨hx, hle⟩, hf, hl⟩ := leaves_burnFrom h
    refine replays_one fun t ht => ?_
    have hallowed : amount ≤ (effective s src spender).available env.ledger.sequence := by
      rwa [AllowanceData.available, if_neg hlive]
    obtain ⟨t', hr, hshows⟩ := Token.shows_burnFrom ht hx.le (le_balance hs hx hf) hallowed
    refine ⟨t', hr, ?_⟩
    rw [Seen, hl.balance, hl.supply, hl.allowance, available_spentFrom hlive, storedDecimals, hd]
    exact hshows
  | allowance owner spender =>
    have hframe := exec_writes _ env s u s' h
    obtain ⟨x, hr⟩ := runs_discarded.mp h
    simp only [allowance, runs_ensureInitialized_bind, runs_allowanceAmount] at hr
    obtain ⟨-, -, hs'⟩ := hr
    have ha : effective s' = effective s := by
      rw [hs', effective_migrate]
    exact replays_nil (hframe .balance (by simp [Op.writes]))
      (hframe .supply (by simp [Op.writes])) ha hd
  | initializeToken a d n m => exact absurd rfl (hop a d n m)
  | _ =>
    exact replays_of_writes hop (by simp [Op.writes]) (by simp [Op.writes]) (by simp [Op.writes]) h

variable {w : World Store} {l : Label Op} {ls : List (Label Op)} {t : Token}

/-- An allowance that has run out stays out. -/
theorem seen_lapse {later : ℕ} (hle : sequence ≤ later) (h : Seen sequence s t) :
    Seen later s (t.lapse fun o sp => decide ((effective s o sp).Expired later)) := by
  have hlapsed := Token.shows_lapse h fun o sp => decide ((effective s o sp).Expired later)
  refine ⟨hlapsed.balance, hlapsed.supply, ?_, hlapsed.decimals⟩
  rw [hlapsed.allowance]
  funext o sp
  by_cases hlater : (effective s o sp).Expired later
  · simp [AllowanceData.available, hlater]
  · have hnow : ¬ (effective s o sp).Expired sequence := by
      unfold AllowanceData.Expired at hlater ⊢
      omega
    simp [AllowanceData.available, hlater, hnow]

theorem seen_next (hs : w.store.ledger.Sound) (h : Seen w.ledger.sequence w.store t) :
    ∃ t', t.replay (standardSteps w l) = some t' ∧
      Seen (w.next exec l).ledger.sequence (w.next exec l).store t' := by
  cases l with
  | close l =>
    refine ⟨_, rfl, ?_⟩
    rw [World.next_close_store]
    exact seen_lapse (World.next_ledger_mono exec w (.close l)).1 h
  | call signers uploaded op =>
    rcases World.call_cases exec w signers uploaded op with hr | ⟨hfail, hsame⟩
    · have hop : ∀ a d n m, op ≠ .initializeToken a d n m := by
        rintro a d n m rfl
        exact not_runs_initializeToken hr
      rw [standardSteps, if_pos (isOk_of_runs hr)]
      exact replays_exec hop hs hr t h
    · rw [standardSteps, if_neg hfail, hsame]
      exact ⟨t, rfl, h⟩

theorem explains_token : Token.Explains exec (fun w : World Store => w.store.ledger.Sound)
    (fun w => Seen w.ledger.sequence w.store) standardSteps where
  keep _ _ hs := sound_next hs
  step _ _ _ hs ht := seen_next hs ht

theorem seen_deployed (h : Deployed w) :
    Seen w.ledger.sequence w.store (Token.empty (storedDecimals w.store)) := by
  obtain ⟨_, _, access, decimal, n, symbol, foreign, -, hs⟩ := deployed_store h
  rw [hs]
  refine ⟨rfl, rfl, ?_, rfl⟩
  funext o sp
  exact (ite_self (0 : ℤ)).symm

/-- A run of the token is a run of the standard ledger that the other contracts take a token for:
replayed on the empty ledger, its standard operations all go through and end with the balances,
the supply, the spendable allowances and the scale that the token shows. -/
theorem token_is_standard (h : Deployed w) (ls : List (Label Op)) :
    ∃ t, (Token.empty (storedDecimals w.store)).replay (w.collectSteps exec standardSteps ls) =
      some t ∧ Seen (w.run exec ls).ledger.sequence (w.run exec ls).store t :=
  explains_token.run (sound_deployed h) (seen_deployed h) ls

theorem token_is_standard_busyRun :
    ∃ t, (Token.empty 7).replay (genesis.collectSteps exec standardSteps busyRun) = some t ∧
      t.balance ⟨2⟩ = 300 ∧ t.supply = 600 := by
  obtain ⟨t, hr, ht⟩ := token_is_standard genesis_deployed busyRun
  refine ⟨t, hr, ?_, ?_⟩
  · rw [ht.balance]
    decide +kernel
  · rw [ht.supply]
    decide +kernel

end BcForge.BcForgeToken
