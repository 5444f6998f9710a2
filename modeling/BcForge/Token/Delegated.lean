import BcForge.Token.Frame
import BcForge.Token.Spec
import BcForge.Token.Conservation
import BcForge.Soroban.Ignores

/-! Delegated batches: their nonces, and the calls of `approve` and `transfer` they stand for. -/
namespace BcForge.BcForgeToken

open Soroban Call Admin

variable {env : Env} {s s' t : Store} {u : Unit} {src a : Address} {op : BatchOp}
  {operations : List BatchOp} {nonce maxLedger : ℕ}

section Ignored

variable {flags : Guard → Bool} {nonces : Address → ℕ}

theorem ignores_checkRateLimit (operation : String) (b : Address) :
    Ignores (withMarks flags nonces) (checkRateLimit operation b) :=
  Ignores.bind (ignores_within (fun _ => rfl) fun _ _ => rfl) fun _ => ignores_failIf _ _

theorem ignores_moveBalance (dst : Address) (x : ℤ) :
    Ignores (withMarks flags nonces) (moveBalance src dst x) := by
  refine Ignores.bind (ignores_gets fun _ => rfl) fun _ =>
    Ignores.bind (ignores_gets fun _ => rfl) fun _ => (ignores_failIf _ _).bind fun _ =>
    ignores_ite (ignores_pure _) ?_
  exact Ignores.bind (ignores_gets fun _ => rfl) fun _ => (ignores_i128 _).bind fun _ =>
    Ignores.bind (ignores_modify fun _ => rfl) fun _ => (ignores_i128 _).bind fun _ =>
    ignores_modify fun _ => rfl

theorem ignores_executeOperation (op : BatchOp) :
    Ignores (withMarks flags nonces) (executeOperation src op) := by
  cases op with
  | approve spender amount expiration =>
    exact (ignores_failIf _ _).bind fun _ => ignores_modify fun _ => rfl
  | transfer dst amount =>
    exact (ignores_failIf _ _).bind fun _ => (ignores_checkRateLimit _ _).bind fun _ =>
      ignores_moveBalance dst amount

theorem ignores_executeAll (operations : List BatchOp) :
    Ignores (withMarks flags nonces) (executeAll src operations) := by
  induction operations with
  | nil => exact ignores_pure _
  | cons op rest ih => exact (ignores_executeOperation op).bind fun _ => ih

end Ignored

/-- A batch does what its operations do, and consumes a nonce. -/
theorem executeAll_of_executeFromContract
    (h : Runs (executeFromContract src operations nonce maxLedger) env s u s') :
    ∃ t, Runs (executeAll src operations) env s () t ∧
      s' = { t with nonce := Function.update s.nonce src (s.nonce src + 1) } := by
  obtain ⟨hadmitted, t₁, hall, rfl⟩ := runs_executeFromContract h
  obtain ⟨t, hrun, rfl⟩ := (ignores_executeAll operations _ _).runs.mp hall
  refine ⟨t, hrun, ?_⟩
  have hframe : Writes parts [.rateLimit, .balance, .allowance] (executeAll src operations) :=
    writes_executeAll (by decide) (by decide) (by decide) operations
  have hsame : t.guard = s.guard := hframe env s () t hrun .guard (by decide)
  have hback : Function.update (Function.update s.guard .executeFromContract true)
      .executeFromContract false = t.guard := by
    rw [Function.update_idem, ← hadmitted.free, Function.update_eq_self, hsame]
  simp only [guardLens, withMarks, hback]

/-- The call that performs one operation of a batch on its own. -/
def BatchOp.single (src : Address) : BatchOp → Op
  | .approve spender amount expiration => .approve src spender amount expiration
  | .transfer dst amount => .transfer src dst amount

/-- The operations of a batch one by one, signed for as the batch is. -/
def singles (signers : List Address) (uploaded : List BytesN32) (src : Address)
    (operations : List BatchOp) : List (Label Op) :=
  operations.map fun op => .call signers uploaded (op.single src)

/-- Between calls no reentrancy flag is up. -/
def Unlocked (s : Store) : Prop := ∀ g, s.guard g = false

/-- What neither reads nor writes the flags does the same while one is held. -/
theorem runs_held {y : TokenCall Unit} {ws : List Part} {g : Guard}
    (hy : ∀ flags nonces, Ignores (withMarks flags nonces) y) (hframe : Writes parts ws y)
    (hg : .guard ∉ ws) (hn : .nonce ∉ ws) (hfree : s.guard g = false) :
    (∃ t, Runs y env ((guardLens g).set true s) u t ∧ s' = (guardLens g).set false t) ↔
      Runs y env s u s' := by
  have hback : ∀ t, Runs y env s u t →
      (guardLens g).set false (withMarks (Function.update s.guard g true) s.nonce t) = t := by
    intro t ht
    have hguard : t.guard = s.guard := hframe env s u t ht .guard hg
    have hnonce : t.nonce = s.nonce := hframe env s u t ht .nonce hn
    have hdown : Function.update (Function.update s.guard g true) g false = t.guard := by
      rw [Function.update_idem, ← hfree, Function.update_eq_self, hguard]
    simp only [guardLens, withMarks, hdown, ← hnonce]
  constructor
  · rintro ⟨t, ht, rfl⟩
    obtain ⟨t', hrun, rfl⟩ := (hy _ _ _ _).runs.mp ht
    rwa [hback t' hrun]
  · intro h
    exact ⟨_, (hy _ _ _ _).runs.mpr ⟨s', h, rfl⟩, (hback s' h).symm⟩

theorem runs_heldOperation (g : Guard) (hs : Unlocked s) :
    (∃ t, Runs (executeOperation src op) env ((guardLens g).set true s) u t ∧
      s' = (guardLens g).set false t) ↔ Runs (executeOperation src op) env s u s' := by
  have hframe : Writes parts [.rateLimit, .balance, .allowance] (executeOperation src op) :=
    writes_executeOperation (by decide) (by decide) (by decide) op
  exact runs_held (fun _ _ => ignores_executeOperation op) hframe (by decide) (by decide) (hs g)

/-- A transfer is the operation, behind the checks of the entry point. -/
theorem runs_transfer_iff {dst : Address} {x : ℤ} (hs : Unlocked s) :
    Runs (transfer src dst x) env s u s' ↔ hasAdmin s.access = true ∧ s.paused = false ∧
      env.Authorized src ∧ Runs (executeOperation src (.transfer dst x)) env s u s' := by
  rw [← runs_heldOperation .transfer hs, transfer, runs_reentrancyGuard]
  simp only [runs_ensureInitialized_bind, runs_ensureNotPaused_bind, runs_requireAuth_bind]
  constructor
  · rintro ⟨-, t, ⟨hinit, hrunning, hsigned, hrun⟩, hdown⟩
    exact ⟨hinit, hrunning, hsigned, t, hrun, hdown⟩
  · rintro ⟨hinit, hrunning, hsigned, t, hrun, hdown⟩
    exact ⟨hs _, t, ⟨hinit, hrunning, hsigned, hrun⟩, hdown⟩

theorem runs_single (hs : Unlocked s) (hinit : hasAdmin s.access = true)
    (hrunning : s.paused = false) (hsigned : env.Authorized src)
    (h : Runs (executeOperation src op) env s () s') :
    Runs (exec (op.single src)) env s () s' := by
  cases op with
  | approve spender amount expiration =>
    obtain ⟨t, hrun, rfl⟩ := (runs_heldOperation .approve hs).mpr h
    refine runs_reentrancyGuard.mpr ⟨hs _, t, ?_, rfl⟩
    rw [runs_ensureInitialized_bind, runs_requireAuth_bind]
    exact ⟨hinit, hsigned, hrun⟩
  | transfer dst amount => exact (runs_transfer_iff hs).mpr ⟨hinit, hrunning, hsigned, h⟩

variable {w : World Store} {l : Label Op} {ls : List (Label Op)} {signers : List Address}
  {uploaded : List BytesN32}

/-- The call goes through in the state it is made in. -/
def Succeeds (w : World Store) : Label Op → Prop
  | .call signers uploaded op => (exec op (w.env signers uploaded) w.store).isOk = true
  | .close _ => True

theorem unlocked_exec {op : Op} (hs : Unlocked s) (h : Runs (exec op) env s () s') :
    Unlocked s' := by
  have hkept : .guard ∉ op.writes := by
    cases op <;> simp [Op.writes]
  have hsame : s'.guard = s.guard := exec_writes op env s () s' h .guard hkept
  intro g
  rw [hsame]
  exact hs g

/-- One by one the operations go through as well, and they leave the same store. -/
theorem runs_singles (hs : Unlocked w.store) (hinit : hasAdmin w.store.access = true)
    (hrunning : w.store.paused = false) (hsigned : (w.env signers uploaded).Authorized src)
    (h : Runs (executeAll src operations) (w.env signers uploaded) w.store () t) :
    w.EveryStep exec Succeeds (singles signers uploaded src operations) ∧
      (w.run exec (singles signers uploaded src operations)).store = t := by
  induction operations generalizing w with
  | nil => exact ⟨trivial, (runs_pure.mp h).2.symm⟩
  | cons op rest ih =>
    obtain ⟨_, s₁, hop, hrest⟩ := runs_bind.mp h
    have hone := runs_single hs hinit hrunning hsigned hop
    have hframe : Writes parts [.rateLimit, .balance, .allowance] (executeOperation src op) :=
      writes_executeOperation (by decide) (by decide) (by decide) op
    have hadmin : s₁.access.admin = w.store.access.admin :=
      hframe _ _ _ _ hop (.access .admin) (by decide)
    have hpaused : s₁.paused = w.store.paused := hframe _ _ _ _ hop .paused (by decide)
    have hnext : (w.next exec (.call signers uploaded (op.single src))).store = s₁ :=
      invoke_of_runs hone
    have htail := ih (w := w.next exec (.call signers uploaded (op.single src)))
      (by rw [hnext]; exact unlocked_exec hs hone)
      (by rw [hnext, hasAdmin, hadmin]; exact hinit)
      (by rw [hnext, hpaused]; exact hrunning) hsigned (by rw [hnext]; exact hrest)
    exact ⟨⟨isOk_of_runs hone, htail.1⟩, htail.2⟩

/-- The nonce of a batch of `a` that goes through. -/
def noncesUsed (a : Address) (w : World Store) : Label Op → List ℕ
  | .call signers uploaded (.executeFromContract src operations nonce maxLedger) =>
    if src = a ∧ (exec (.executeFromContract src operations nonce maxLedger)
        (w.env signers uploaded) w.store).isOk = true then [nonce] else []
  | _ => []

/-- The nonces used so far count up from zero, and the stored one is next. -/
structure Counted (a : Address) (w : World Store) (nonces : List ℕ) : Prop where
  next : w.store.nonce a = nonces.length
  inOrder : nonces = List.range nonces.length

theorem counted_succ {b : List ℕ} (h : Counted a w b) :
    b ++ [w.store.nonce a] = List.range (b ++ [w.store.nonce a]).length := by
  rw [List.length_append, List.length_singleton, List.range_succ, ← h.inOrder, h.next]

/-- Only delegated batches count. -/
theorem counted_aside {b : List ℕ} {op : Op} (h : Counted a w b) (hop : .nonce ∉ op.writes) :
    Counted a (w.next exec (.call signers uploaded op))
      (b ++ noncesUsed a w (.call signers uploaded op)) := by
  have hnone : noncesUsed a w (.call signers uploaded op) = [] := by
    cases op with
    | executeFromContract src operations nonce maxLedger => simp [Op.writes] at hop
    | _ => rfl
  have hsame : (w.next exec (.call signers uploaded op)).store.nonce = w.store.nonce :=
    sameBut_next w (exec_writes op) .nonce hop
  rw [hnone, List.append_nil]
  exact ⟨by rw [hsame]; exact h.next, h.inOrder⟩

theorem counted_batch {b : List ℕ} (h : Counted a w b) :
    Counted a (w.next exec
        (.call signers uploaded (.executeFromContract src operations nonce maxLedger)))
      (b ++ noncesUsed a w
        (.call signers uploaded (.executeFromContract src operations nonce maxLedger))) := by
  rcases World.call_cases exec w signers uploaded
    (.executeFromContract src operations nonce maxLedger) with hr | ⟨hfail, hs⟩
  · obtain ⟨t, -, ht⟩ := executeAll_of_executeFromContract hr
    have hnonce := (runs_executeFromContract hr).1.next
    have hafter : (w.next exec (.call signers uploaded
        (.executeFromContract src operations nonce maxLedger))).store.nonce =
          Function.update w.store.nonce src (w.store.nonce src + 1) := by
      rw [ht]
    by_cases hsrc : src = a
    · subst hsrc
      rw [noncesUsed, if_pos ⟨rfl, isOk_of_runs hr⟩]
      refine ⟨?_, ?_⟩
      · rw [hafter, Function.update_self, h.next]
        simp
      · rw [hnonce]
        exact counted_succ h
    · rw [noncesUsed, if_neg fun hc => hsrc hc.1, List.append_nil]
      refine ⟨?_, h.inOrder⟩
      rw [hafter, Function.update_of_ne (Ne.symm hsrc)]
      exact h.next
  · rw [noncesUsed, if_neg fun hc => hfail hc.2, List.append_nil, hs]
    exact h

theorem counted_next {b : List ℕ} (h : Counted a w b) :
    Counted a (w.next exec l) (b ++ noncesUsed a w l) := by
  cases l with
  | close l =>
    have hnone : noncesUsed a w (.close l) = [] := rfl
    rw [hnone, List.append_nil]
    exact ⟨by rw [World.next_close_store]; exact h.next, h.inOrder⟩
  | call signers uploaded op =>
    by_cases hop : .nonce ∈ op.writes
    · cases op with
      | executeFromContract src operations nonce maxLedger => exact counted_batch h
      | _ => simp [Op.writes] at hop
    · exact counted_aside h hop

theorem unlocked_deployed (h : Deployed w) : Unlocked w.store := by
  obtain ⟨_, _, _, _, _, _, _, -, hs⟩ := deployed_store h
  rw [hs]
  exact fun _ => rfl

theorem unlocked_next (h : Unlocked w.store) : Unlocked (w.next exec l).store :=
  World.next_store h fun _ _ _ _ hr => unlocked_exec h hr

/-- A batch that succeeds is in time, and its operations one by one would have had the same effect;
one with an operation that fails in its turn has none. -/
def BatchLaw (w : World Store) : Label Op → Prop
  | .call signers uploaded (.executeFromContract src operations nonce maxLedger) =>
    (Succeeds w (.call signers uploaded (.executeFromContract src operations nonce maxLedger)) →
      (maxLedger = 0 ∨ w.ledger.sequence ≤ maxLedger) ∧
        w.EveryStep exec Succeeds (singles signers uploaded src operations) ∧
        (w.run exec (singles signers uploaded src operations)).store =
          { (w.next exec (.call signers uploaded
            (.executeFromContract src operations nonce maxLedger))).store with
            nonce := w.store.nonce }) ∧
      ∀ before op rest t, operations = before ++ op :: rest →
        Runs (executeAll src before) (w.env signers uploaded) (begun src w.store) () t →
        (∀ t', ¬ Runs (executeOperation src op) (w.env signers uploaded) t () t') →
        (w.next exec (.call signers uploaded
          (.executeFromContract src operations nonce maxLedger))).store = w.store
  | _ => True

/-- A batch reaches all its operations. -/
theorem runs_executeAll_append {before rest : List BatchOp} :
    Runs (executeAll src (before ++ rest)) env s u s' ↔
      ∃ t, Runs (executeAll src before) env s () t ∧ Runs (executeAll src rest) env t u s' := by
  induction before generalizing s with
  | nil => simp [executeAll]
  | cons op before ih =>
    simp only [List.cons_append, executeAll, runs_bind, ih]
    grind

theorem batchLaw_batch (h : Unlocked w.store) : BatchLaw w
    (.call signers uploaded (.executeFromContract src operations nonce maxLedger)) := by
  refine ⟨?_, ?_⟩
  · intro hok
    have hr := runs_invoke hok
    obtain ⟨hadmitted, -⟩ := runs_executeFromContract hr
    obtain ⟨t, hall, ht⟩ := executeAll_of_executeFromContract hr
    obtain ⟨hsteps, hend⟩ :=
      runs_singles h hadmitted.initialized hadmitted.running hadmitted.signed hall
    refine ⟨hadmitted.inTime, hsteps, ?_⟩
    have hframe : Writes parts [.rateLimit, .balance, .allowance] (executeAll src operations) :=
      writes_executeAll (by decide) (by decide) (by decide) operations
    have hnonce : t.nonce = w.store.nonce := hframe _ _ _ _ hall .nonce (by decide)
    rw [hend]
    simp only [World.next, ht, ← hnonce]
  · intro before op rest t hsplit hbefore hop
    rcases World.call_cases exec w signers uploaded
      (.executeFromContract src operations nonce maxLedger) with hr | ⟨-, hs⟩
    · -- A success would have got past the failing operation.
      obtain ⟨-, t₁, hall, -⟩ := runs_executeFromContract hr
      rw [hsplit, runs_executeAll_append] at hall
      obtain ⟨t₂, hbefore₂, hrest⟩ := hall
      obtain ⟨-, rfl⟩ := hbefore.unique hbefore₂
      obtain ⟨_, t₃, hdone, -⟩ := runs_bind.mp hrest
      exact absurd hdone (hop t₃)
    · rw [hs]

theorem batchLaw_step (h : Unlocked w.store) : BatchLaw w l := by
  cases l with
  | close l => trivial
  | call signers uploaded op =>
    cases op with
    | executeFromContract src operations nonce maxLedger => exact batchLaw_batch h
    | _ => trivial

theorem counted_deployed (h : Deployed w) : Counted a w [] := by
  obtain ⟨_, _, _, _, _, _, _, -, hs⟩ := deployed_store h
  have hzero : w.store.nonce a = 0 := by
    rw [hs]
    rfl
  exact ⟨hzero, rfl⟩

/-- Each address uses the nonces 0, 1, 2, ... in turn, and every batch is in time, all or nothing,
and worth its operations. -/
theorem delegated_batches (h : Deployed w) (ls : List (Label Op)) :
    (∀ a, w.collectSteps exec (noncesUsed a) ls =
      List.range ((w.run exec ls).store.nonce a)) ∧ w.EveryStep exec BatchLaw ls := by
  refine ⟨?_, ?_⟩
  · intro a
    have hcount : Counted a (w.run exec ls) ([] ++ w.collectSteps exec (noncesUsed a) ls) :=
      World.run_induction_collect (C := fun _ _ => True) (counted_deployed h)
        (fun _ _ _ hc _ => counted_next hc) (World.everyStep_of_forall fun _ _ => trivial)
    rw [List.nil_append] at hcount
    rw [hcount.next]
    exact hcount.inOrder
  · exact World.everyStep_of_invariant (I := fun w => Unlocked w.store) (unlocked_deployed h)
      (fun _ _ => unlocked_next) fun _ _ => batchLaw_step

/-- A minted balance, a batch that approves and pays, a replay of it, a batch whose second
operation overdraws, and one that is late. -/
def delegatedRun : List (Label Op) :=
  [.call [⟨1⟩] [] (.mint ⟨1⟩ ⟨2⟩ 500),
   .call [⟨2⟩] [] (.executeFromContract ⟨2⟩ [.approve ⟨3⟩ 50 0, .transfer ⟨4⟩ 200] 0 100),
   .call [⟨2⟩] [] (.executeFromContract ⟨2⟩ [.approve ⟨3⟩ 50 0, .transfer ⟨4⟩ 200] 0 100),
   .call [⟨2⟩] [] (.executeFromContract ⟨2⟩ [.approve ⟨3⟩ 70 0, .transfer ⟨4⟩ 301] 1 0),
   .call [⟨2⟩] [] (.executeFromContract ⟨2⟩ [.transfer ⟨4⟩ 1] 1 99),
   .call [⟨2⟩] [] (.executeFromContract ⟨2⟩ [.transfer ⟨4⟩ 1] 1 0)]

theorem delegatedRun_batches :
    (∀ a, genesis.collectSteps exec (noncesUsed a) delegatedRun =
      List.range ((genesis.run exec delegatedRun).store.nonce a)) ∧
      genesis.EveryStep exec BatchLaw delegatedRun ∧
      genesis.collectSteps exec (noncesUsed ⟨2⟩) delegatedRun = [0, 1] :=
  ⟨(delegated_batches genesis_deployed delegatedRun).1,
    (delegated_batches genesis_deployed delegatedRun).2, by decide +kernel⟩

end BcForge.BcForgeToken
