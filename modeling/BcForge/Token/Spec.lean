import BcForge.Token.Contract

/-! The openings the token's calls share, as steps of a run. -/
namespace BcForge.BcForgeToken

open Soroban Call Admin

variable {α β : Type} {env : Env} {s s' : Store} {a : α} {c : Address} {r : Role}

@[simp] theorem runs_ensureInitialized_bind {k : Unit → TokenCall α} :
    Runs (ensureInitialized >>= k) env s a s' ↔
      hasAdmin s.access = true ∧ Runs (k ()) env s a s' := by
  simp [ensureInitialized]

@[simp] theorem runs_ensureNotPaused_bind {k : Unit → TokenCall α} :
    Runs (ensureNotPaused >>= k) env s a s' ↔ s.paused = false ∧ Runs (k ()) env s a s' := by
  simp [ensureNotPaused]

/-- A call of the administration works on its part of the store. -/
theorem runs_access_bind {wrap : AdminError → TokenError} {y : AdminCall β} {k : β → TokenCall α} :
    Runs (within accessLens wrap y >>= k) env s a s' ↔
      ∃ b t, Runs y env s.access b t ∧ Runs (k b) env { s with access := t } a s' := by
  constructor
  · intro h
    obtain ⟨b, s₁, hwithin, hk⟩ := runs_bind.mp h
    obtain ⟨t, hy, rfl⟩ := runs_within.mp hwithin
    exact ⟨b, t, hy, hk⟩
  · rintro ⟨b, t, hy, hk⟩
    exact runs_bind.mpr ⟨b, _, runs_within.mpr ⟨t, hy, rfl⟩, hk⟩

@[simp] theorem runs_requireRole_bind {wrap : AdminError → TokenError} {k : Unit → TokenCall α} :
    Runs (within accessLens wrap (requireRoleGuard r c) >>= k) env s a s' ↔
      hasRole s.access r c = true ∧ env.Authorized c ∧ Runs (k ()) env s a s' := by
  rw [runs_access_bind]
  simp [and_assoc, Unique.exists_iff]

/-- The body of a guarded call runs with the flag up, and the flag comes down behind it. -/
theorem runs_reentrancyGuard {g : Guard} {y : TokenCall α} :
    Runs (reentrancyGuard g y) env s a s' ↔ s.guard g = false ∧
      ∃ t, Runs y env ((guardLens g).set true s) a t ∧ s' = (guardLens g).set false t :=
  runs_guarded

/-- Reentrancy flags and nonces are read by no operation of a batch. -/
def withMarks (flags : Guard → Bool) (nonces : Address → ℕ) (s : Store) : Store :=
  { s with guard := flags, nonce := nonces }

variable {src : Address} {operations : List BatchOp} {nonce maxLedger : ℕ} {u : Unit}

/-- The store the operations of a batch start from: the flag is up and the nonce consumed. -/
def begun (src : Address) (s : Store) : Store :=
  withMarks (Function.update s.guard .executeFromContract true)
    (Function.update s.nonce src (s.nonce src + 1)) s

/-- What lets a batch begin. -/
structure Admitted (env : Env) (s : Store) (src : Address) (nonce maxLedger : ℕ) : Prop where
  free : s.guard .executeFromContract = false
  initialized : hasAdmin s.access = true
  running : s.paused = false
  inTime : maxLedger = 0 ∨ env.ledger.sequence ≤ maxLedger
  signed : env.Authorized src
  next : nonce = s.nonce src

theorem runs_executeFromContract
    (h : Runs (executeFromContract src operations nonce maxLedger) env s u s') :
    Admitted env s src nonce maxLedger ∧
      ∃ t, Runs (executeAll src operations) env (begun src s) () t ∧
        s' = (guardLens .executeFromContract).set false t := by
  obtain ⟨hfree, t, hbody, rfl⟩ := runs_reentrancyGuard.mp h
  simp only [runs_ensureInitialized_bind, runs_ensureNotPaused_bind, runs_failIf_bind,
    runs_ledger_bind, runs_requireAuth_bind, runs_gets_bind, runs_u64_bind, runs_modify_bind,
    not_not] at hbody
  obtain ⟨hinit, hrunning, -, -, htime, hsigned, hnonce, -, hall⟩ := hbody
  refine ⟨⟨hfree, hinit, hrunning, ?_, hsigned, hnonce⟩, t, hall, rfl⟩
  have hend : ¬ (0 < maxLedger ∧ maxLedger < env.ledger.sequence) := htime
  omega

end BcForge.BcForgeToken
