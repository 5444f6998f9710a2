import BcForge.Admin.MigrateAdmin
import BcForge.Remote.Ensures

/-! The migration script against a contract it reaches over an unreliable connection. Answers may
get lost, and others use the contract meanwhile; an answer that does arrive is true. -/
namespace BcForge.Migrations

open Soroban Admin Remote Talk

/-- What became of the migration transaction. -/
inductive TxStatus where
  | unsent
  | pending (source : Address)
  | success
  | failed
deriving DecidableEq

structure Chain where
  contract : World LegacyStore
  tx : TxStatus
  /-- How many transactions the script sent. -/
  sent : ℕ

def Chain.hasRole (c : Chain) (r : Role) (a : Address) : Bool :=
  Admin.hasRole c.contract.store.access r a

/-- Somebody else's step on the contract, or a ledger that takes the transaction up. -/
inductive Event where
  | step (l : Label LegacyOp)
  | included (success : Bool)

def Chain.happen (c : Chain) : Event → Chain
  | .step l => { c with contract := c.contract.next LegacyOp.exec l }
  | .included success =>
    match c.tx with
    | .pending source =>
      if success = true then
        { c with
          contract := c.contract.next LegacyOp.exec (.call [source] [] .migrateAdmin)
          tx := .success }
      else { c with tx := .failed }
    | _ => c

def Chain.happenAll (c : Chain) (events : List Event) : Chain := events.foldl happen c

/-- What goes on during one request. -/
structure Turn where
  /-- Whether a transaction that is sent reaches the network. -/
  arrives : Bool
  events : List Event
  /-- Why the request fails, if it does. -/
  failure : Option String
  /-- The error of a simulation, if it finds one. -/
  simulationError : Option String
  /-- `JSON.stringify(errorResult)` of an answer with status `ERROR`. -/
  rejected : Option String
  hash : String
  /-- Whether the server has not seen the last ledgers yet. -/
  behind : Bool

abbrev Script := Talk Turn Chain String

def ask {α : Type} (answer : Turn → Chain → Except String α) : Script α :=
  request fun t c =>
    let c := c.happenAll t.events
    match t.failure with
    | some message => (.error message, c)
    | none => (answer t c, c)

/-- `withRetry` after an attempt that threw `lastError`; the delays between attempts are left
out. -/
def withRetryFrom {α : Type} (fn : Script α) : ℕ → String → Script α
  | 0, lastError => fail lastError
  | retries + 1, _ => do
    match ← capture fn with
    | .ok a => return a
    | .error error => withRetryFrom fn retries error

def withRetry {α : Type} (fn : Script α) : Script α := withRetryFrom fn 3 "undefined"

def simulated {α : Type} (t : Turn) (a : α) : Except String α :=
  match t.simulationError with
  | some error => .error ("Simulation failed: " ++ error)
  | none => .ok a

def hasAdmin : Script Bool :=
  ask fun t c => simulated t (Admin.hasAdmin c.contract.store.access)

def hasRole (role : Role) (address : Address) : Script Bool :=
  ask fun t c => simulated t (c.hasRole role address)

def getAccount : Script Unit := ask fun _ _ => .ok ()

/-- The error of the simulation, if there is one. -/
def simulateTransaction : Script (Option String) := ask fun t _ => .ok t.simulationError

structure SendTransactionResponse where
  rejected : Option String
  hash : String

def sendTransaction (source : Address) : Script SendTransactionResponse :=
  request fun t c =>
    let c := { c with
      tx := if t.arrives = true then .pending source else c.tx
      sent := c.sent + 1 }
    let c := c.happenAll t.events
    match t.failure with
    | some message => (.error message, c)
    | none => (.ok ⟨t.rejected, t.hash⟩, c)

inductive GetTransactionStatus where
  | notFound
  | success
  | failed
deriving DecidableEq

def getTransaction : Script GetTransactionStatus :=
  ask fun t c => .ok <|
    if t.behind = true then .notFound
    else match c.tx with
      | .success => .success
      | .failed => .failed
      | _ => .notFound

/-- The polls that are left after the next one. -/
def pollTransaction : ℕ → Script GetTransactionStatus
  | 0 => getTransaction
  | attempts + 1 => do
    let status ← getTransaction
    if status = .notFound then pollTransaction attempts else return status

structure MigrationResult where
  success : Bool
  hash : Option String
  error : Option String
  alreadyMigrated : Option Bool
  adminAddress : Option Address

def MigrationResult.failure (hash : Option String) (error : String) : MigrationResult :=
  ⟨false, hash, some error, none, none⟩

/-- The checks that both functions begin with: a result that is final, or none. -/
def precheck (adminAddress : Address) : Script (Option MigrationResult) := do
  let hasAdminResult ← withRetry hasAdmin
  if hasAdminResult = false then
    return some (.failure none
      "Contract has no admin set. Migration requires an initialized contract.")
  let alreadyHasSuperAdmin ← withRetry (hasRole .superAdmin adminAddress)
  if alreadyHasSuperAdmin = true then
    return some ⟨true, none, none, some true, some adminAddress⟩
  return none

/-- What a `catch` makes of anything thrown. -/
def caught (body : Script MigrationResult) : Script MigrationResult := do
  match ← capture body with
  | .ok result => return result
  | .error error => return .failure none error

def confirm (adminAddress : Address) (hash : String) : Script MigrationResult := do
  match ← pollTransaction 29 with
  | .notFound => return .failure hash "Transaction not found after maximum polling attempts"
  | .failed => return .failure hash "Transaction failed with status: FAILED"
  | .success =>
    let verifyHasSuperAdmin ← withRetry (hasRole .superAdmin adminAddress)
    if verifyHasSuperAdmin = false then
      return .failure hash <| "Migration transaction succeeded but verification failed: " ++
        "admin does not have SuperAdmin role"
    return ⟨true, some hash, none, none, some adminAddress⟩

def submit (adminAddress : Address) : Script MigrationResult := do
  getAccount
  match ← simulateTransaction with
  | some error => return .failure none ("Simulation failed: " ++ error)
  | none =>
    let sendResponse ← sendTransaction adminAddress
    match sendResponse.rejected with
    | some errorResult =>
      return .failure none ("Transaction submission failed: " ++ errorResult)
    | none => confirm adminAddress sendResponse.hash

/-- `adminAddress` is the account of the keypair. -/
def migrateContract (adminAddress : Address) : Script MigrationResult := caught do
  match ← precheck adminAddress with
  | some result => return result
  | none => submit adminAddress

def dryRunMigration (adminAddress : Address) : Script MigrationResult := caught do
  match ← precheck adminAddress with
  | some result => return result
  | none =>
    getAccount
    match ← simulateTransaction with
    | some error => return .failure none ("Dry-run simulation failed: " ++ error)
    | none => return ⟨true, none, none, some false, some adminAddress⟩

section Rules
variable {α : Type} {script : ℕ → Turn} {P : Chain → Prop} {V : α → Chain → Prop} {x : Script α}
  {a : Address} {n : ℕ} {b : Bool} {c : Chain}

@[simp] theorem happenAll_sent (c : Chain) (events : List Event) :
    (c.happenAll events).sent = c.sent := by
  induction events generalizing c with
  | nil => rfl
  | cons e events ih =>
    refine (ih (c.happen e)).trans ?_
    cases e with
    | step l => rfl
    | included success =>
      dsimp only [Chain.happen]
      split
      · split <;> rfl
      · rfl

/-- Taking the migration up gives nobody a role. -/
theorem included_hasRole (c : Chain) (success : Bool) (r : Role) (a : Address) :
    (c.happen (.included success)).hasRole r a = c.hasRole r a := by
  dsimp only [Chain.happen]
  split
  case h_2 => rfl
  case h_1 source _ =>
    split
    case isFalse => rfl
    case isTrue =>
      have hview : legacyView (c.contract.next LegacyOp.exec (.call [source] [] .migrateAdmin)) =
          legacyView c.contract := view_migrateAdmin
      exact congrArg (fun w : World Store => Admin.hasRole w.store r a) hview

/-- What happens during the requests of the script leaves `P` true. -/
def Stable (script : ℕ → Turn) (P : Chain → Prop) : Prop :=
  ∀ k c, P c → P (c.happenAll (script k).events)

theorem ensures_ask {answer : Turn → Chain → Except String α} (hP : Stable script P)
    (h : ∀ t c v, answer t c = .ok v → V v c) : Ensures script P P V (ask answer) := by
  refine ensures_request (fun k c hc => ?_) fun k c v hc hv => ?_
  · dsimp only
    cases (script k).failure <;> exact hP k c hc
  · dsimp only at hv ⊢
    cases hf : (script k).failure with
    | some message =>
      rw [hf] at hv
      cases hv
    | none =>
      rw [hf] at hv
      exact h _ _ v hv

/-- An attempt that throws leaves the next one where it would have started. -/
theorem ensures_withRetryFrom (hx : Ensures script P P V x) (retries : ℕ) (lastError : String) :
    Ensures script P P V (withRetryFrom x retries lastError) := by
  induction retries generalizing lastError with
  | zero => exact ensures_fail
  | succ retries ih =>
    refine ensures_try hx (fun v => ?_) fun error => ih error
    exact (ensures_pure fun c hc => hc.2).imp (fun c hc => hc.1) fun _ _ _ hv => hv

theorem simulated_ok {t : Turn} {v v' : α} (h : simulated t v = .ok v') : v' = v := by
  unfold simulated at h
  split at h
  · cases h
  · exact (Except.ok.inj h).symm

theorem ensures_hasAdmin (hP : Stable script P) :
    Ensures script P P (fun _ _ => True) (withRetry hasAdmin) :=
  ensures_withRetryFrom (ensures_ask hP fun _ _ _ _ => trivial) 3 "undefined"

/-- A role is reported as it is when the answer is given. -/
theorem ensures_hasRole (hP : Stable script P) (a : Address) :
    Ensures script P P (fun v c => v = c.hasRole .superAdmin a)
      (withRetry (hasRole .superAdmin a)) := by
  have hask : Ensures script P P (fun v c => v = c.hasRole .superAdmin a)
      (hasRole .superAdmin a) := ensures_ask hP fun _ _ _ h => simulated_ok h
  exact ensures_withRetryFrom hask 3 "undefined"

theorem ensures_getAccount (hP : Stable script P) :
    Ensures script P P (fun _ _ => True) getAccount :=
  ensures_ask hP fun _ _ _ _ => trivial

theorem ensures_simulateTransaction (hP : Stable script P) :
    Ensures script P P (fun _ _ => True) simulateTransaction :=
  ensures_ask hP fun _ _ _ _ => trivial

theorem ensures_pollTransaction (hP : Stable script P) (attempts : ℕ) :
    Ensures script P P (fun _ _ => True) (pollTransaction attempts) := by
  have hget : Ensures script P P (fun _ _ => True) getTransaction :=
    ensures_ask hP fun _ _ _ _ => trivial
  induction attempts with
  | zero => exact hget
  | succ attempts ih =>
    refine ensures_bind hget (fun c hc => hc) fun status => ?_
    split
    · exact ih.of_imp fun c hc => hc.1
    · exact (ensures_pure fun _ _ => trivial).of_imp fun c hc => hc.1

/-- A final result of the checks is right, and without one the account lacks the role. -/
def Checked (a : Address) (result : Option MigrationResult) (c : Chain) : Prop :=
  match result with
  | some r => r.alreadyMigrated ≠ some false ∧
    (r.success = true → r.alreadyMigrated = some true ∧ c.hasRole .superAdmin a = true)
  | none => c.hasRole .superAdmin a = false

theorem ensures_precheck (hP : Stable script P) (a : Address) :
    Ensures script P P (Checked a) (precheck a) := by
  refine ensures_bind (ensures_hasAdmin hP) (fun c hc => hc) fun hasAdminResult => ?_
  refine Ensures.of_imp (P := P) ?_ fun c hc => hc.1
  split
  · exact ensures_pure fun c _ => ⟨nofun, fun h => nomatch h⟩
  · refine ensures_bind (ensures_hasRole hP a) (fun c hc => hc) fun held => ?_
    split
    case isTrue hheld =>
      exact (ensures_pure fun c hc => ⟨nofun, fun _ => ⟨rfl, hc.2.symm.trans hheld⟩⟩).imp
        (fun c hc => hc.1) fun _ _ _ hv => hv
    case isFalse hheld =>
      exact (ensures_pure fun c hc => hc.2.symm.trans (Bool.eq_false_of_not_eq_true hheld)).imp
        (fun c hc => hc.1) fun _ _ _ hv => hv

/-- Success is reported after the role has been seen. -/
def Verified (a : Address) (r : MigrationResult) (c : Chain) : Prop :=
  r.success = true → c.hasRole .superAdmin a = true

theorem ensures_failure (hash : Option String) (error : String) :
    Ensures script P P (Verified a) (pure (.failure hash error) : Script MigrationResult) :=
  ensures_pure fun _ _ h => nomatch h

theorem ensures_confirm (hP : Stable script P) (a : Address) (hash : String) :
    Ensures script P P (Verified a) (confirm a hash) := by
  refine ensures_bind (ensures_pollTransaction hP 29) (fun c hc => hc) fun status => ?_
  refine Ensures.of_imp (P := P) ?_ fun c hc => hc.1
  cases status with
  | notFound => exact ensures_failure _ _
  | failed => exact ensures_failure _ _
  | success =>
    refine ensures_bind (ensures_hasRole hP a) (fun c hc => hc) fun held => ?_
    split
    · exact (ensures_failure _ _).of_imp fun c hc => hc.1
    case isFalse hheld =>
      exact (ensures_pure fun c hc _ => hc.2.symm.trans (Bool.eq_true_of_not_eq_false hheld)).imp
        (fun c hc => hc.1) fun _ _ _ hv => hv

/-- What holds before the transaction is sent, and what after. -/
structure Sends (script : ℕ → Turn) (P P' : Chain → Prop) : Prop where
  before : Stable script P
  after : Stable script P'
  send : ∀ c tx, P c → P' { c with tx := tx, sent := c.sent + 1 }

theorem ensures_sendTransaction {P' : Chain → Prop} (h : Sends script P P') (source : Address) :
    Ensures script P P' (fun _ _ => True) (sendTransaction source) := by
  refine ensures_request (fun k c hc => ?_) fun _ _ _ _ _ => trivial
  dsimp only
  cases (script k).failure <;> exact h.after k _ (h.send c _ hc)

theorem ensures_submit {P' : Chain → Prop} (h : Sends script P P') (a : Address) :
    Ensures script P (fun c => P c ∨ P' c) (Verified a) (submit a) := by
  refine ensures_bind (ensures_getAccount h.before) (fun _ => .inl) fun _ => ?_
  refine Ensures.of_imp (P := P) ?_ fun c hc => hc.1
  refine ensures_bind (ensures_simulateTransaction h.before) (fun _ => .inl) fun error => ?_
  refine Ensures.of_imp (P := P) ?_ fun c hc => hc.1
  cases error with
  | some error => exact (ensures_failure _ _).imp (fun _ => .inl) fun _ _ _ hv => hv
  | none =>
    refine ensures_bind (ensures_sendTransaction h a) (fun _ => .inr) fun response => ?_
    refine Ensures.of_imp (P := P') ?_ fun c hc => hc.1
    cases response.rejected with
    | some errorResult => exact (ensures_failure _ _).imp (fun _ => .inr) fun _ _ _ hv => hv
    | none => exact (ensures_confirm h.after a _).imp (fun _ => .inr) fun _ _ _ hv => hv

/-- A result tells of a migration found done, or comes after the transaction may have been
sent. -/
theorem ensures_migrateContract {P' : Chain → Prop} (h : Sends script P P') (a : Address) :
    Ensures script P (fun c => P c ∨ P' c) (Verified a) (migrateContract a) := by
  refine ensures_try (Q := fun c => P c ∨ P' c) (V := Verified a) ?_ (fun r => ?_) fun error => ?_
  · refine ensures_bind (ensures_precheck h.before a) (fun _ => .inl) fun result => ?_
    cases result with
    | some r =>
      exact (ensures_pure fun c hc hr => (hc.2.2 hr).2).imp (fun c hc => .inl hc.1)
        fun _ _ _ hv => hv
    | none => exact (ensures_submit h a).of_imp fun c hc => hc.1
  · exact (ensures_pure fun c hc => hc.2).imp (fun c hc => hc.1) fun _ _ _ hv => hv
  · exact ensures_failure _ _

theorem caught_returns (body : Script MigrationResult) {s : Session Chain} :
    ∃ r, (caught body script s).1 = .ok r := by
  unfold caught
  rw [run_bind, run_capture]
  cases h : (body script s).1 with
  | ok r => exact ⟨r, rfl⟩
  | error error => exact ⟨_, rfl⟩

theorem stable_sent (script : ℕ → Turn) (n : ℕ) : Stable script fun c => c.sent = n :=
  fun _ c hc => (happenAll_sent c _).trans hc

/-- Nobody else's step changes whether the account holds the role. -/
def Turn.Quiet (a : Address) (t : Turn) : Prop :=
  ∀ l, .step l ∈ t.events → ∀ w : World LegacyStore,
    Admin.hasRole (w.next LegacyOp.exec l).store.access .superAdmin a =
      Admin.hasRole w.store.access .superAdmin a

theorem quiet_hasRole {events : List Event} (h : ∀ l, .step l ∈ events → ∀ w : World LegacyStore,
      Admin.hasRole (w.next LegacyOp.exec l).store.access .superAdmin a =
        Admin.hasRole w.store.access .superAdmin a) (c : Chain) :
    (c.happenAll events).hasRole .superAdmin a = c.hasRole .superAdmin a := by
  induction events generalizing c with
  | nil => rfl
  | cons e events ih =>
    have hrest := ih (fun l hl => h l (List.mem_cons_of_mem _ hl)) (c.happen e)
    refine hrest.trans ?_
    cases e with
    | step l => exact h l List.mem_cons_self c.contract
    | included success => exact included_hasRole c success .superAdmin a

/-- In a quiet network the role stays as it is, and the transaction does not change it. -/
theorem sends_quiet (hquiet : ∀ k, (script k).Quiet a) :
    Sends script (fun c => c.sent = n ∧ c.hasRole .superAdmin a = b)
      (fun c => c.sent = n + 1 ∧ c.hasRole .superAdmin a = b) where
  before k c hc := ⟨(happenAll_sent c _).trans hc.1, (quiet_hasRole (hquiet k) c).trans hc.2⟩
  after k c hc := ⟨(happenAll_sent c _).trans hc.1, (quiet_hasRole (hquiet k) c).trans hc.2⟩
  send _ _ hc := ⟨congrArg (· + 1) hc.1, hc.2⟩

theorem ensures_migrateContract_quiet (hquiet : ∀ k, (script k).Quiet a) :
    Ensures script (fun c => c.sent = n ∧ c.hasRole .superAdmin a = b)
      (fun c => c.hasRole .superAdmin a = b)
      (fun r c => r.success = true → r.alreadyMigrated = some true ∧ c.sent = n ∧ b = true)
      (migrateContract a) := by
  have hsends : Sends script _ _ := sends_quiet (n := n) (b := b) hquiet
  refine ensures_try (Q := fun c => c.hasRole .superAdmin a = b)
    (V := fun (r : MigrationResult) c =>
      r.success = true → r.alreadyMigrated = some true ∧ c.sent = n ∧ b = true)
    ?_ (fun r => ?_) fun error => ?_
  · refine ensures_bind (ensures_precheck hsends.before a) (fun c hc => hc.2) fun result => ?_
    cases result with
    | some r =>
      refine (ensures_pure fun c hc hr => ?_).imp (fun c hc => hc.1.2) fun _ _ _ hv => hv
      have hfound := hc.2.2 hr
      exact ⟨hfound.1, hc.1.1, hc.1.2.symm.trans hfound.2⟩
    | none =>
      cases b with
      | true =>
        -- without the role the checks would have answered that it is held
        intro s hs
        have hheld := hs.1.2.symm.trans hs.2
        cases hheld
      | false =>
        refine ((ensures_submit hsends a).of_imp fun c hc => hc.1).imp ?_ ?_
        · rintro c (hc | hc) <;> exact hc.2
        · intro r c hc hv hr
          have hheld := hv hr
          rcases hc with hc | hc <;> exact nomatch hc.2.symm.trans hheld
  · exact (ensures_pure fun c hc => hc.2).imp (fun c hc => hc.1) fun _ _ _ hv => hv
  · exact ensures_pure fun _ _ h => nomatch h

/-- The dry run sends nothing, and in a quiet network it announces a migration only of an account
that lacks the role. -/
theorem ensures_dryRunMigration_quiet (hquiet : ∀ k, (script k).Quiet a) :
    Ensures script (fun c => c.sent = n ∧ c.hasRole .superAdmin a = b)
      (fun c => c.sent = n ∧ c.hasRole .superAdmin a = b)
      (fun r _ => r.alreadyMigrated = some false → r.success = true ∧ b = false)
      (dryRunMigration a) := by
  have hsends : Sends script _ _ := sends_quiet (n := n) (b := b) hquiet
  have hstable := hsends.before
  refine ensures_try (Q := fun c => c.sent = n ∧ c.hasRole .superAdmin a = b)
    (V := fun (r : MigrationResult) _ =>
      r.alreadyMigrated = some false → r.success = true ∧ b = false)
    ?_ (fun r => ?_) fun error => ensures_pure fun _ _ h => nomatch h
  · refine ensures_bind (ensures_precheck hstable a) (fun c hc => hc) fun result => ?_
    cases result with
    | some r =>
      exact (ensures_pure fun c hc hr => absurd hr hc.2.1).imp (fun c hc => hc.1)
        fun _ _ _ hv => hv
    | none =>
      cases b with
      | true =>
        intro s hs
        have hheld := hs.1.2.symm.trans hs.2
        cases hheld
      | false =>
        refine Ensures.of_imp ?_ fun c hc => hc.1
        refine ensures_bind (ensures_getAccount hstable) (fun c hc => hc) fun _ => ?_
        refine Ensures.of_imp ?_ fun c hc => hc.1
        refine ensures_bind (ensures_simulateTransaction hstable) (fun c hc => hc) fun error => ?_
        refine Ensures.of_imp ?_ fun c hc => hc.1
        cases error with
        | some error => exact ensures_pure fun _ _ h => nomatch h
        | none => exact ensures_pure fun _ _ _ => ⟨rfl, rfl⟩
  · exact (ensures_pure fun c hc => hc.2).imp (fun c hc => hc.1) fun _ _ _ hv => hv

/-- What the dry run announces, the migration after it does not bring about. -/
theorem announced_migration_fails {script' : ℕ → Turn} {s : Session Chain}
    {r r' : MigrationResult} (hquiet : ∀ k, (script k).Quiet a)
    (hquiet' : ∀ k, (script' k).Quiet a) (hr : (dryRunMigration a script s).1 = .ok r)
    (hannounced : r.alreadyMigrated = some false)
    (hr' : (migrateContract a script' (dryRunMigration a script s).2).1 = .ok r') :
    r.success = true ∧ r'.success = false := by
  obtain ⟨⟨-, hrole⟩, hdry⟩ := ensures_dryRunMigration_quiet hquiet s ⟨rfl, rfl⟩
  obtain ⟨hsuccess, hlacks⟩ := hdry r hr hannounced
  refine ⟨hsuccess, Bool.eq_false_of_not_eq_true fun hmigrated => ?_⟩
  obtain ⟨-, hlater⟩ := ensures_migrateContract_quiet hquiet' (dryRunMigration a script s).2
    ⟨rfl, rfl⟩
  have hholds := (hlater r' hr' hmigrated).2.2
  exact nomatch (hrole.trans hlacks).symm.trans hholds

end Rules

/-- Whatever happens on the way, the script does not throw, sends one transaction at most and
reports success only of an account that holds the role. If nobody else changes that, success
means that the account held it from the start and nothing was sent: where the migration is
needed, it fails, also when its transaction goes through. -/
theorem migration_never_migrates (a : Address) (script : ℕ → Turn) (s : Session Chain) :
    ∃ r, (migrateContract a script s).1 = .ok r ∧
      (migrateContract a script s).2.world.sent ≤ s.world.sent + 1 ∧
      (r.success = true → (migrateContract a script s).2.world.hasRole .superAdmin a = true) ∧
      ((∀ k, (script k).Quiet a) →
        (migrateContract a script s).2.world.hasRole .superAdmin a =
            s.world.hasRole .superAdmin a ∧
          (r.success = true → r.alreadyMigrated = some true ∧
            (migrateContract a script s).2.world.sent = s.world.sent ∧
            s.world.hasRole .superAdmin a = true)) := by
  obtain ⟨r, hr⟩ : ∃ r, (migrateContract a script s).1 = .ok r := caught_returns _
  have hsends : Sends script (fun c => c.sent = s.world.sent)
      (fun c => c.sent = s.world.sent + 1) :=
    ⟨stable_sent script _, stable_sent script _, fun c _ hc => congrArg (· + 1) hc⟩
  obtain ⟨hsent, hverified⟩ := ensures_migrateContract hsends a s rfl
  refine ⟨r, hr, by omega, hverified r hr, fun hquiet => ?_⟩
  obtain ⟨hrole, hsuccess⟩ := ensures_migrateContract_quiet hquiet s ⟨rfl, rfl⟩
  exact ⟨hrole, hsuccess r hr⟩

/-- A contract from before the roles: its administrator is stored and holds no role bit. -/
def legacyChain : Chain where
  contract := ⟨.ofNat 1000 1700000000, ⟨100⟩,
    ⟨{ Store.empty with admin := some ⟨1⟩ }, fun _ => false⟩⟩
  tx := .unsent
  sent := 0

/-- Every request is answered, and every transaction goes through at once. -/
def smoothTurn : Turn := ⟨true, [.included true], none, none, none, "tx", false⟩

theorem smoothTurn_quiet : smoothTurn.Quiet ⟨1⟩ := by
  intro l hl
  simp [smoothTurn] at hl

theorem migration_never_migrates_legacyChain : ∃ r,
    (migrateContract ⟨1⟩ (fun _ => smoothTurn) ⟨0, legacyChain⟩).1 = .ok r ∧ r.success = false ∧
      (migrateContract ⟨1⟩ (fun _ => smoothTurn) ⟨0, legacyChain⟩).2.world.tx = .success := by
  obtain ⟨r, hr, -, -, hquiet⟩ :=
    migration_never_migrates ⟨1⟩ (fun _ => smoothTurn) ⟨0, legacyChain⟩
  refine ⟨r, hr, ?_, by decide +kernel⟩
  by_contra hsuccess
  have hheld := ((hquiet fun _ => smoothTurn_quiet).2 (Bool.eq_true_of_not_eq_false hsuccess)).2.2
  exact absurd hheld (by decide +kernel)

end BcForge.Migrations
