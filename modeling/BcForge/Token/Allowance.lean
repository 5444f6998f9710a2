import BcForge.Token.Conservation
import BcForge.Token.Frame
import BcForge.Token.Spec

/-! Allowances across the two storage layouts: what an owner has granted, what was spent of it,
and what a read reports. -/
namespace BcForge.BcForgeToken

open Soroban Call Admin

/-- The allowance that both layouts stand for. -/
def effective (s : Store) (owner spender : Address) : AllowanceData :=
  match s.allowance owner spender with
  | some (.data d) => d
  | some (.legacy amount) => ⟨amount, (s.allowanceExp owner spender).getD 0⟩
  | none => ⟨0, (s.allowanceExp owner spender).getD 0⟩

/-- The store a read leaves behind. -/
def migrate (owner spender : Address) (s : Store) : Store :=
  match s.allowance owner spender, s.allowanceExp owner spender with
  | some (.data _), _ =>
    { s with allowanceExp := update₂ s.allowanceExp owner spender none }
  | some (.legacy amount), exp => persistAllowanceData owner spender ⟨amount, exp.getD 0⟩ s
  | none, some exp => persistAllowanceData owner spender ⟨0, exp⟩ s
  | none, none => s

/-- Expiration 0 means none; the expiration ledger itself is still covered. -/
def AllowanceData.Expired (d : AllowanceData) (sequence : ℕ) : Prop :=
  0 < d.expirationLedger ∧ d.expirationLedger < sequence

instance (d : AllowanceData) (sequence : ℕ) : Decidable (d.Expired sequence) :=
  inferInstanceAs (Decidable (_ ∧ _))

/-- What can be spent at a ledger. -/
def AllowanceData.available (d : AllowanceData) (sequence : ℕ) : ℤ :=
  if d.Expired sequence then 0 else d.amount

theorem available_eq (d : AllowanceData) (sequence : ℕ) : d.available sequence =
    if 0 < d.expirationLedger ∧ d.expirationLedger < sequence then 0 else d.amount := rfl

variable {env : Env} {s s' : Store} {owner spender o sp src dst : Address} {x : ℤ}
  {d : AllowanceData} {u : Unit} {α : Type} {ws : List Part}

@[simp] theorem update₂_self {β : Type} (f : Address → Address → β) (b : β) :
    update₂ f owner spender b owner spender = b := by
  simp [update₂]

theorem update₂_of_ne {β : Type} (f : Address → Address → β) (b : β)
    (h : ¬ (o = owner ∧ sp = spender)) : update₂ f owner spender b o sp = f o sp := by
  by_cases ho : o = owner
  · subst ho
    have hs : sp ≠ spender := fun hs => h ⟨rfl, hs⟩
    simp [update₂, Function.update_of_ne hs]
  · simp [update₂, Function.update_of_ne ho]

theorem update₂_eq_self {β : Type} (f : Address → Address → β) :
    update₂ f owner spender (f owner spender) = f := by
  simp [update₂]

theorem effective_persist : effective (persistAllowanceData owner spender d s) =
    update₂ (effective s) owner spender d := by
  funext o sp
  by_cases h : o = owner ∧ sp = spender
  · obtain ⟨rfl, rfl⟩ := h
    simp [effective, persistAllowanceData]
  · rw [update₂_of_ne _ _ h]
    simp only [effective, persistAllowanceData, update₂_of_ne _ _ h]

/-- Reading keeps every allowance, whatever it finds. -/
theorem effective_migrate : effective (migrate owner spender s) = effective s := by
  cases ha : s.allowance owner spender with
  | none =>
    cases he : s.allowanceExp owner spender with
    | none => simp [migrate, ha, he]
    | some exp =>
      have hd : (⟨0, exp⟩ : AllowanceData) = effective s owner spender := by
        simp [effective, ha, he]
      simp only [migrate, ha, he, effective_persist]
      rw [hd, update₂_eq_self]
  | some entry =>
    cases entry with
    | legacy amount =>
      have hd : (⟨amount, (s.allowanceExp owner spender).getD 0⟩ : AllowanceData) =
          effective s owner spender := by
        simp [effective, ha]
      simp only [migrate, ha, effective_persist]
      rw [hd, update₂_eq_self]
    | data d =>
      funext o sp
      by_cases h : o = owner ∧ sp = spender
      · obtain ⟨rfl, rfl⟩ := h
        simp [effective, migrate, ha]
      · simp only [effective, migrate, ha, update₂_of_ne _ _ h]

theorem runs_readAllowanceData : Runs (readAllowanceData owner spender) env s d s' ↔
    d = effective s owner spender ∧ s' = migrate owner spender s := by
  simp only [readAllowanceData, runs_gets_bind, effective, migrate]
  cases s.allowance owner spender with
  | none => cases s.allowanceExp owner spender <;> simp
  | some entry => cases entry <;> simp

theorem runs_allowanceAmount : Runs (allowanceAmount owner spender) env s x s' ↔
    x = (effective s owner spender).available env.ledger.sequence ∧
      s' = migrate owner spender s := by
  simp only [allowanceAmount, runs_bind, runs_readAllowanceData, runs_ledger, runs_pure]
  constructor
  · rintro ⟨_, _, ⟨rfl, rfl⟩, _, _, ⟨rfl, rfl⟩, hx, hs⟩
    exact ⟨hx, hs⟩
  · rintro ⟨hx, hs⟩
    exact ⟨_, _, ⟨rfl, rfl⟩, _, _, ⟨rfl, rfl⟩, hx, hs⟩

theorem effective_of_writes {y : TokenCall α} {a : α} (h : Writes parts ws y)
    (ha : .allowance ∉ ws) (hr : Runs y env s a s') : effective s' = effective s := by
  have hsame : (s'.allowance, s'.allowanceExp) = (s.allowance, s.allowanceExp) :=
    h env s a s' hr _ ha
  obtain ⟨hallowance, hexp⟩ := Prod.mk.inj hsame
  funext o sp
  simp only [effective, hallowance, hexp]

/-- A spender took `x` out of an allowance that covered it and had not expired. -/
structure Spends (sequence : ℕ) (owner spender : Address) (x : ℤ) (s s' : Store) : Prop where
  pos : 0 < x
  le : x ≤ (effective s owner spender).amount
  unexpired : ¬ (effective s owner spender).Expired sequence
  after : effective s' = update₂ (effective s) owner spender
    ⟨(effective s owner spender).amount - x, (effective s owner spender).expirationLedger⟩

/-- A positive amount within what is available is within an allowance that has not expired. -/
theorem available_spec {sequence : ℕ} (hx : 0 < x) (h : x ≤ d.available sequence) :
    ¬ d.Expired sequence ∧ d.available sequence = d.amount := by
  unfold AllowanceData.available at h ⊢
  split at h
  · omega
  · rename_i hn
    exact ⟨hn, if_neg hn⟩

theorem spends_of_write {sequence : ℕ} (hx : 0 < x)
    (hle : x ≤ (effective s owner spender).available sequence)
    (h : effective s' = update₂ (effective s) owner spender
      ⟨(effective s owner spender).available sequence - x,
        (effective s owner spender).expirationLedger⟩) : Spends sequence owner spender x s s' := by
  obtain ⟨hn, heq⟩ := available_spec hx hle
  rw [heq] at hle h
  exact ⟨hx, hle, hn, h⟩

theorem runs_writeAllowance {exp : ℕ} (h : Runs (writeAllowance owner spender x exp) env s u s') :
    effective s' = update₂ (effective s) owner spender ⟨x, exp⟩ := by
  rw [runs_modify.mp h, effective_persist]

/-- The opening `transfer_from` and `burn_from` share: the allowance is read twice before anything
is written. -/
theorem runs_spending {operation : String} {k : ℤ → AllowanceData → TokenCall Unit}
    (h : Runs (do
      ensureInitialized
      ensureNotPaused
      requireAuth spender
      failIf (x ≤ 0) TokenError.invalidAmount
      checkRateLimit operation spender
      let allowance ← allowanceAmount src spender
      failIf (allowance < x) TokenError.insufficientAllowance
      let d ← readAllowanceData src spender
      k allowance d) env s u s') :
    0 < x ∧ x ≤ (effective s src spender).available env.ledger.sequence ∧ ∃ t,
      effective t = effective s ∧ Runs (k ((effective s src spender).available env.ledger.sequence)
        (effective s src spender)) env t u s' := by
  simp only [runs_ensureInitialized_bind, runs_ensureNotPaused_bind, runs_requireAuth_bind,
    runs_failIf_bind, not_le] at h
  obtain ⟨-, -, -, hx, h⟩ := h
  obtain ⟨_, s₁, hrate, h⟩ := runs_bind.mp h
  have hframe : Writes parts [.rateLimit] (checkRateLimit operation spender) :=
    writes_checkRateLimit (by decide) _ _
  have hkept : effective s₁ = effective s := effective_of_writes hframe (by decide) hrate
  obtain ⟨_, s₂, hamount, h⟩ := runs_bind.mp h
  obtain ⟨rfl, rfl⟩ := runs_allowanceAmount.mp hamount
  obtain ⟨hle, h⟩ := runs_failIf_bind.mp h
  obtain ⟨_, s₃, hread, h⟩ := runs_bind.mp h
  obtain ⟨rfl, rfl⟩ := runs_readAllowanceData.mp hread
  rw [hkept] at hle
  rw [effective_migrate, hkept] at h
  exact ⟨hx, not_lt.mp hle, _, by rw [effective_migrate, effective_migrate, hkept], h⟩

theorem spends_transferFrom (h : Runs (transferFrom spender src dst x) env s u s') :
    Spends env.ledger.sequence src spender x s s' := by
  obtain ⟨hx, hle, t, ht, h⟩ := runs_spending h
  obtain ⟨_, t₁, hmove, h⟩ := runs_bind.mp h
  have hframe : Writes parts [.balance] (moveBalance src dst x) := writes_moveBalance (by decide)
  have hkept : effective t₁ = effective t := effective_of_writes hframe (by decide) hmove
  obtain ⟨-, h⟩ := runs_i128_bind.mp h
  refine spends_of_write hx hle ?_
  rw [runs_writeAllowance h, hkept, ht]

theorem spends_burnFrom (h : Runs (burnFrom spender src x) env s u s') :
    Spends env.ledger.sequence src spender x s s' := by
  obtain ⟨hx, hle, t, ht, h⟩ := runs_spending h
  simp only [runs_gets_bind, runs_failIf_bind, runs_i128_bind] at h
  obtain ⟨-, -, -, -, h⟩ := h
  obtain ⟨_, t₁, hwrite, h⟩ := runs_bind.mp h
  have hrest : effective s' = effective t₁ := by
    rw [runs_modify_bind, runs_modify] at h
    rw [h]
    rfl
  refine spends_of_write hx hle ?_
  rw [hrest, runs_writeAllowance hwrite, ht]

theorem grants_approve {exp : ℕ} (h : Runs (approve owner spender x exp) env s u s') :
    effective s' = update₂ (effective s) owner spender ⟨x, exp⟩ := by
  obtain ⟨-, t, hbody, rfl⟩ := runs_reentrancyGuard.mp h
  simp only [runs_ensureInitialized_bind, runs_requireAuth_bind, runs_failIf_bind] at hbody
  obtain ⟨-, -, -, hbody⟩ := hbody
  have hgrant := runs_writeAllowance hbody
  exact hgrant

/-- What an operation of a batch grants. -/
def BatchOp.grant (owner : Address) (f : Address → Address → AllowanceData) :
    BatchOp → Address → Address → AllowanceData
  | .approve spender amount exp => update₂ f owner spender ⟨amount, exp⟩
  | .transfer _ _ => f

theorem grants_executeOperation {op : BatchOp} (h : Runs (executeOperation src op) env s u s') :
    effective s' = op.grant src (effective s) := by
  cases op with
  | approve spender amount exp => exact runs_writeAllowance (runs_failIf_bind.mp h).2
  | transfer dst amount =>
    have hkept :
        Writes parts [.rateLimit, .balance] (executeOperation src (.transfer dst amount)) :=
      (respects_failIf _ _).bind fun _ => (writes_checkRateLimit (by decide) _ _).bind fun _ =>
        writes_moveBalance (by decide)
    exact effective_of_writes hkept (by decide) h

theorem grants_executeAll {operations : List BatchOp}
    (h : Runs (executeAll src operations) env s u s') :
    effective s' = operations.foldl (BatchOp.grant src) (effective s) := by
  induction operations generalizing s with
  | nil => rw [(runs_pure.mp h).2, List.foldl_nil]
  | cons op rest ih =>
    obtain ⟨_, t, hop, hrest⟩ := runs_bind.mp h
    rw [ih hrest, grants_executeOperation hop, List.foldl_cons]

theorem grants_executeFromContract {operations : List BatchOp} {nonce maxLedger : ℕ}
    (h : Runs (executeFromContract src operations nonce maxLedger) env s u s') :
    effective s' = operations.foldl (BatchOp.grant src) (effective s) := by
  obtain ⟨-, t, hall, rfl⟩ := runs_executeFromContract h
  have hgrants := grants_executeAll hall
  exact hgrants

/-- What one owner last granted one spender, and what was spent of it since: at which ledger
sequence, and how much. -/
structure Grant where
  amount : ℤ
  expiration : ℕ
  spends : List (ℕ × ℤ)

def Grant.spent (g : Grant) : ℤ := (g.spends.map (·.2)).sum

def Grant.spend (sequence : ℕ) (x : ℤ) (g : Grant) : Grant :=
  { g with spends := g.spends ++ [(sequence, x)] }

/-- A new approval starts a new count. -/
def BatchOp.regrant (sp : Address) (g : Grant) : BatchOp → Grant
  | .approve spender amount exp => if spender = sp then ⟨amount, exp, []⟩ else g
  | .transfer _ _ => g

/-- What a success of the call means for the grant of `o` to `sp`. -/
def Op.regrant (o sp : Address) (sequence : ℕ) (g : Grant) : Op → Grant
  | .approve owner spender amount exp =>
    if owner = o ∧ spender = sp then ⟨amount, exp, []⟩ else g
  | .executeFromContract src operations _ _ =>
    if src = o then operations.foldl (BatchOp.regrant sp) g else g
  | .transferFrom spender src _ amount =>
    if src = o ∧ spender = sp then g.spend sequence amount else g
  | .burnFrom spender src amount =>
    if src = o ∧ spender = sp then g.spend sequence amount else g
  | _ => g

def recordGrant (o sp : Address) (w : World Store) (g : Grant) : Label Op → Grant
  | .call signers uploaded op =>
    if (exec op (w.env signers uploaded) w.store).isOk = true then
      op.regrant o sp w.ledger.sequence g
    else g
  | .close _ => g

/-- Before the first approval, what is stored counts as granted. -/
def storedGrant (s : Store) (o sp : Address) : Grant :=
  ⟨(effective s o sp).amount, (effective s o sp).expirationLedger, []⟩

/-- The grant of `o` to `sp` after a run from a store in any layout. -/
def grantAfter (o sp : Address) (w : World Store) (ls : List (Label Op)) : Grant :=
  w.foldSteps exec (recordGrant o sp) (storedGrant w.store o sp) ls

/-- The stored allowance is what is left of the grant, and the grant was respected. -/
structure Honoured (d : AllowanceData) (g : Grant) : Prop where
  amount : d.amount = g.amount - g.spent
  expiration : d.expirationLedger = g.expiration
  within : g.spent ≤ max 0 g.amount
  inTime : ∀ p ∈ g.spends, g.expiration = 0 ∨ p.1 ≤ g.expiration

variable {g : Grant} {exp : ℕ}

theorem honoured_granted : Honoured ⟨x, exp⟩ ⟨x, exp, []⟩ := by
  refine ⟨?_, rfl, ?_, ?_⟩
  · simp [Grant.spent]
  · simp [Grant.spent]
  · intro p hp
    cases hp

theorem honoured_spend {sequence : ℕ} (h : Honoured d g) (hle : x ≤ d.amount)
    (hn : ¬ d.Expired sequence) :
    Honoured ⟨d.amount - x, d.expirationLedger⟩ (g.spend sequence x) := by
  have hspent : (g.spend sequence x).spent = g.spent + x := by
    simp [Grant.spent, Grant.spend]
  have hamount := h.amount
  have hexp := h.expiration
  refine ⟨?_, hexp, ?_, ?_⟩
  · rw [hspent]
    change d.amount - x = g.amount - (g.spent + x)
    omega
  · rw [hspent]
    change g.spent + x ≤ max 0 g.amount
    omega
  · intro p hp
    change g.expiration = 0 ∨ p.1 ≤ g.expiration
    rcases List.mem_append.mp hp with hp | hp
    · exact h.inTime p hp
    · rw [List.mem_singleton.mp hp]
      unfold AllowanceData.Expired at hn
      omega

theorem honoured_batch {f : Address → Address → AllowanceData} (operations : List BatchOp)
    (h : Honoured (f o sp) g) :
    Honoured (operations.foldl (BatchOp.grant o) f o sp)
      (operations.foldl (BatchOp.regrant sp) g) := by
  induction operations generalizing f g with
  | nil => exact h
  | cons op rest ih =>
    refine ih ?_
    cases op with
    | transfer dst amount => exact h
    | approve spender amount exp =>
      by_cases hs : spender = sp
      · subst hs
        simp only [BatchOp.grant, BatchOp.regrant, update₂_self, if_true]
        exact honoured_granted
      · have hne : ¬ (o = o ∧ sp = spender) := fun hc => hs hc.2.symm
        simp only [BatchOp.grant, BatchOp.regrant, update₂_of_ne _ _ hne, if_neg hs]
        exact h

/-- A batch of another owner leaves the grant alone. -/
theorem batch_of_ne {f : Address → Address → AllowanceData} (operations : List BatchOp)
    (hne : o ≠ owner) : operations.foldl (BatchOp.grant owner) f o sp = f o sp := by
  induction operations generalizing f with
  | nil => rfl
  | cons op rest ih =>
    rw [List.foldl_cons, ih]
    cases op with
    | transfer dst amount => rfl
    | approve spender amount exp => exact update₂_of_ne _ _ fun hc => hne hc.1

theorem honoured_spends (h : Honoured (effective s o sp) g)
    (hs : Spends env.ledger.sequence src spender x s s') :
    Honoured (effective s' o sp)
      (if src = o ∧ spender = sp then g.spend env.ledger.sequence x else g) := by
  rw [hs.after]
  by_cases heq : src = o ∧ spender = sp
  · obtain ⟨rfl, rfl⟩ := heq
    rw [update₂_self, if_pos ⟨rfl, rfl⟩]
    exact honoured_spend h hs.le hs.unexpired
  · have hne : ¬ (o = src ∧ sp = spender) := fun hc => heq ⟨hc.1.symm, hc.2.symm⟩
    rw [update₂_of_ne _ _ hne, if_neg heq]
    exact h

/-- Every success keeps the stored allowance and the grant together. -/
theorem exec_honoured {op : Op} (h : Honoured (effective s o sp) g)
    (hr : Runs (exec op) env s () s') :
    Honoured (effective s' o sp) (op.regrant o sp env.ledger.sequence g) := by
  by_cases hop : .allowance ∈ op.writes
  · cases op with
    | approve owner spender amount exp =>
      rw [grants_approve hr, Op.regrant]
      by_cases heq : owner = o ∧ spender = sp
      · obtain ⟨rfl, rfl⟩ := heq
        rw [update₂_self, if_pos ⟨rfl, rfl⟩]
        exact honoured_granted
      · have hne : ¬ (o = owner ∧ sp = spender) := fun hc => heq ⟨hc.1.symm, hc.2.symm⟩
        rw [update₂_of_ne _ _ hne, if_neg heq]
        exact h
    | executeFromContract src operations nonce maxLedger =>
      rw [grants_executeFromContract hr, Op.regrant]
      by_cases hsrc : src = o
      · subst hsrc
        rw [if_pos rfl]
        exact honoured_batch operations h
      · rw [if_neg hsrc, batch_of_ne operations (Ne.symm hsrc)]
        exact h
    | transferFrom spender src dst amount => exact honoured_spends h (spends_transferFrom hr)
    | burnFrom spender src amount => exact honoured_spends h (spends_burnFrom hr)
    | allowance owner spender =>
      obtain ⟨_, hread⟩ := runs_discarded.mp hr
      obtain ⟨-, hread⟩ := runs_ensureInitialized_bind.mp hread
      obtain ⟨-, rfl⟩ := runs_allowanceAmount.mp hread
      rw [effective_migrate]
      exact h
    | _ => simp [Op.writes] at hop
  · rw [effective_of_writes (exec_writes op) hop hr]
    have hsame : op.regrant o sp env.ledger.sequence g = g := by
      cases op with
      | approve owner spender amount exp => simp [Op.writes] at hop
      | executeFromContract src operations nonce maxLedger => simp [Op.writes] at hop
      | transferFrom spender src dst amount => simp [Op.writes] at hop
      | burnFrom spender src amount => simp [Op.writes] at hop
      | _ => rfl
    rw [hsame]
    exact h

variable {w : World Store} {l : Label Op}

theorem honoured_next (h : Honoured (effective w.store o sp) g) :
    Honoured (effective (w.next exec l).store o sp) (recordGrant o sp w g l) := by
  cases l with
  | close l =>
    rw [World.next_close_store]
    exact h
  | call signers uploaded op =>
    rcases World.call_cases exec w signers uploaded op with hr | ⟨hfail, hs⟩
    · rw [recordGrant, if_pos (isOk_of_runs hr)]
      exact exec_honoured h hr
    · rw [recordGrant, if_neg hfail, hs]
      exact h

theorem honoured_run (o sp : Address) (w : World Store) (ls : List (Label Op)) :
    Honoured (effective (w.run exec ls).store o sp) (grantAfter o sp w ls) :=
  World.run_induction_fold (J := fun w g => Honoured (effective w.store o sp) g) honoured_granted
    fun _ _ _ h => honoured_next h

end BcForge.BcForgeToken
