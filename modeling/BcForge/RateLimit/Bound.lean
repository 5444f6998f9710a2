import BcForge.Admin.Rbac
import BcForge.RateLimit
import BcForge.Soroban.Run
import BcForge.Soroban.Tumbling

/-! The rate-limit contract, and how often one of its limits lets calls through. -/
namespace BcForge.RateLimit

open Soroban Call

/-- The instance storage that the limits share with the admin library. -/
structure Instance where
  access : Admin.Store
  limits : Store

def accessLens : Lens Instance Admin.Store where
  get s := s.access
  set a s := { s with access := a }

def limitsLens : Lens Instance Store where
  get s := s.limits
  set l s := { s with limits := l }

abbrev RateLimitCall := Call Instance Admin.AdminError

def checkRateLimit (address : Option Address) (operation : String) : RateLimitCall Bool :=
  within limitsLens id (internalCheckRateLimit address operation)

def setGlobalRateLimit (caller : Address) (operation : String) (limit windowSeconds : ℕ) :
    RateLimitCall Unit := do
  within accessLens id (Admin.requireRoleGuard .admin caller)
  within limitsLens id (internalSetGlobalRateLimit operation limit windowSeconds)

def setAddressRateLimit (caller a : Address) (operation : String) (limit windowSeconds : ℕ) :
    RateLimitCall Unit := do
  within accessLens id (Admin.requireRoleGuard .admin caller)
  within limitsLens id (internalSetAddressRateLimit a operation limit windowSeconds)

inductive Op where
  | checkRateLimit (address : Option Address) (operation : String)
  | setGlobalRateLimit (caller : Address) (operation : String) (limit windowSeconds : ℕ)
  | setAddressRateLimit (caller a : Address) (operation : String) (limit windowSeconds : ℕ)

def exec : Op → RateLimitCall Unit
  | .checkRateLimit address operation => do
    let _ ← checkRateLimit address operation
    pure ()
  | .setGlobalRateLimit caller operation limit windowSeconds =>
    setGlobalRateLimit caller operation limit windowSeconds
  | .setAddressRateLimit caller a operation limit windowSeconds =>
    setAddressRateLimit caller a operation limit windowSeconds

/-- One of the limits: of an operation for everyone, or for one address. -/
inductive Key where
  | global (operation : String)
  | perAddress (a : Address) (operation : String)
deriving DecidableEq

namespace Key

def config : Key → Store → Option RateLimitConfig
  | .global operation, s => s.globalRateLimit operation
  | .perAddress a operation, s => s.addressRateLimit a operation

def state : Key → Lens Store RateLimitState
  | .global operation => globalState operation
  | .perAddress a operation => addressState a operation

/-- Whether a call is subject to the limit. -/
def Governs : Key → Option Address → String → Prop
  | .global operation, _, operation' => operation' = operation
  | .perAddress a operation, address, operation' => address = some a ∧ operation' = operation

instance decidableGoverns : ∀ (key : Key) (address : Option Address) (operation : String),
    Decidable (key.Governs address operation)
  | .global operation, _, operation' => inferInstanceAs (Decidable (operation' = operation))
  | .perAddress a operation, address, operation' =>
    inferInstanceAs (Decidable (address = some a ∧ operation' = operation))

/-- Whether a step sets the limit. -/
def SetBy : Key → Label Op → Prop
  | .global operation, .call _ _ (.setGlobalRateLimit _ operation' _ _) => operation' = operation
  | .perAddress a operation, .call _ _ (.setAddressRateLimit _ a' operation' _ _) =>
    a' = a ∧ operation' = operation
  | _, _ => False

/-- The counter of the limit. -/
def meter (key : Key) (s : Store) : Meter :=
  ⟨(key.state.get s).count, (key.state.get s).lastReset⟩

end Key

variable {ε : Type} {env : Env} {s s' : Store} {k k' : Key} {x : RateLimitState}
  {config : RateLimitConfig} {address : Option Address} {operation : String} {allowed : Bool}

@[simp] theorem state_get_set (k : Key) (x : RateLimitState) (s : Store) :
    k.state.get (k.state.set x s) = x := by
  cases k with
  | global operation => simp [Key.state, globalState]
  | perAddress a operation => simp [Key.state, addressState]

theorem state_get_set_of_ne (h : k ≠ k') (x : RateLimitState) (s : Store) :
    k.state.get (k'.state.set x s) = k.state.get s := by
  cases k with
  | global operation =>
    cases k' with
    | global operation' =>
      have hne : operation ≠ operation' := fun he => h (congrArg Key.global he)
      simp [Key.state, globalState, hne]
    | perAddress a' operation' => rfl
  | perAddress a operation =>
    cases k' with
    | global operation' => rfl
    | perAddress a' operation' =>
      by_cases ha : a = a'
      · subst ha
        have hne : operation ≠ operation' := fun he => h (congrArg (Key.perAddress a) he)
        simp [Key.state, addressState, hne]
      · simp [Key.state, addressState, ha]

@[simp] theorem state_set_set (k : Key) (x y : RateLimitState) (s : Store) :
    k.state.set y (k.state.set x s) = k.state.set y s := by
  cases k with
  | global operation => simp [Key.state, globalState]
  | perAddress a operation => simp [Key.state, addressState]

@[simp] theorem config_set (k k' : Key) (x : RateLimitState) (s : Store) :
    k.config (k'.state.set x s) = k.config s := by
  cases k <;> cases k' <;> rfl

@[simp] theorem meter_set (k : Key) (x : RateLimitState) (s : Store) :
    k.meter (k.state.set x s) = ⟨x.count, x.lastReset⟩ := by
  simp [Key.meter]

theorem meter_set_of_ne (h : k ≠ k') (x : RateLimitState) (s : Store) :
    k.meter (k'.state.set x s) = k.meter s := by
  simp [Key.meter, state_get_set_of_ne h]

/-- The store differs at most in the counter of one limit. -/
def OnlyCounts (k : Key) (s s' : Store) : Prop := s' = s ∨ ∃ x, s' = k.state.set x s

theorem OnlyCounts.configs (h : OnlyCounts k s s') (k' : Key) : k'.config s' = k'.config s := by
  rcases h with rfl | ⟨x, rfl⟩
  · rfl
  · exact config_set k' k x s

theorem OnlyCounts.meter (h : OnlyCounts k s s') (hne : k' ≠ k) :
    k'.meter s' = k'.meter s := by
  rcases h with rfl | ⟨x, rfl⟩
  · rfl
  · exact meter_set_of_ne hne x s

theorem runs_resetIfNeeded
    (h : Runs (resetIfNeeded config k.state : Call Store ε RateLimitState) env s x s') :
    (x = k.state.get s ∧ s' = s ∧
      env.ledger.timestamp < x.lastReset + config.windowSeconds) ∨
    (x = ⟨0, env.ledger.timestamp⟩ ∧ s' = k.state.set x s ∧
      (k.state.get s).lastReset + config.windowSeconds ≤ env.ledger.timestamp) := by
  simp only [resetIfNeeded, windowElapsed, runs_bind_assoc, runs_gets_bind, runs_ledger_bind,
    runs_u64_bind, runs_pure_bind, decide_eq_true_eq, runs_ite, runs_modify_bind, runs_pure] at h
  obtain ⟨-, ⟨hover, rfl, rfl⟩ | ⟨hopen, rfl, rfl⟩⟩ := h
  · exact Or.inr ⟨rfl, rfl, hover⟩
  · exact Or.inl ⟨rfl, rfl, not_le.mp hopen⟩

/-- What the check of a limit decides, and what it leaves in the counter. -/
theorem checkLimit_cases
    (h : Runs (checkLimit (some config) k.state : Call Store ε Bool) env s allowed s') :
    (k.state.get s).lastReset + config.windowSeconds ≤ env.ledger.timestamp ∧
      (allowed = false ∧ config.limit ≤ 0 ∧ s' = k.state.set ⟨0, env.ledger.timestamp⟩ s ∨
        allowed = true ∧ 0 < config.limit ∧ s' = k.state.set ⟨1, env.ledger.timestamp⟩ s) ∨
    env.ledger.timestamp < (k.state.get s).lastReset + config.windowSeconds ∧
      (allowed = false ∧ config.limit ≤ (k.state.get s).count ∧ s' = s ∨
        allowed = true ∧ (k.state.get s).count < config.limit ∧
          s' = k.state.set ⟨(k.state.get s).count + 1, (k.state.get s).lastReset⟩ s) := by
  simp only [checkLimit, runs_bind (x := resetIfNeeded config k.state), runs_ite, runs_pure,
    runs_u64_bind, runs_modify_bind] at h
  obtain ⟨x, s₁, hreset, h⟩ := h
  rcases runs_resetIfNeeded hreset with ⟨rfl, rfl, hopen⟩ | ⟨rfl, rfl, hover⟩
  · refine Or.inr ⟨hopen, ?_⟩
    rcases h with ⟨hlimit, rfl, rfl⟩ | ⟨hlimit, -, rfl, rfl⟩
    · exact Or.inl ⟨rfl, hlimit, rfl⟩
    · exact Or.inr ⟨rfl, not_le.mp hlimit, rfl⟩
  · refine Or.inl ⟨hover, ?_⟩
    rcases h with ⟨hlimit, rfl, rfl⟩ | ⟨hlimit, -, rfl, rfl⟩
    · exact Or.inl ⟨rfl, hlimit, rfl⟩
    · exact Or.inr ⟨rfl, not_le.mp hlimit, state_set_set k _ _ s⟩

/-- The check of a limit moves its own counter only, and that as a tumbling window moves. -/
theorem runs_checkLimit
    (h : Runs (checkLimit (some config) k.state : Call Store ε Bool) env s allowed s') :
    Meter.Step config.limit config.windowSeconds env.ledger.timestamp (k.meter s) allowed
      (k.meter s') ∧ OnlyCounts k s s' := by
  rcases checkLimit_cases h with ⟨hover, hcase⟩ | ⟨hopen, hcase⟩
  · rcases hcase with ⟨rfl, -, rfl⟩ | ⟨rfl, hlimit, rfl⟩
    · refine ⟨?_, Or.inr ⟨_, rfl⟩⟩
      rw [meter_set]
      exact .restart (k.meter s) hover
    · refine ⟨?_, Or.inr ⟨_, rfl⟩⟩
      rw [meter_set]
      exact .restartHit (k.meter s) hover hlimit
  · rcases hcase with ⟨rfl, -, rfl⟩ | ⟨rfl, hlimit, rfl⟩
    · exact ⟨.idle _, Or.inl rfl⟩
    · refine ⟨?_, Or.inr ⟨_, rfl⟩⟩
      rw [meter_set]
      exact .hit (k.meter s) hlimit hopen

theorem runs_checkLimit_onlyCounts {c : Option RateLimitConfig}
    (h : Runs (checkLimit c k.state : Call Store ε Bool) env s allowed s') :
    OnlyCounts k s s' := by
  cases c with
  | none =>
    simp only [checkLimit, runs_pure] at h
    exact Or.inl h.2
  | some config => exact (runs_checkLimit h).2

/-- The global limit is checked, and then that of the address, if there is one. -/
theorem internalCheckRateLimit_cases
    (h : Runs (internalCheckRateLimit address operation : Call Store ε Bool) env s allowed s') :
    ∃ first s₁, Runs (checkLimit (s.globalRateLimit operation) (globalState operation) :
        Call Store ε Bool) env s first s₁ ∧
      ((s' = s₁ ∧ allowed = first ∧ (allowed = true → address = none)) ∨
        first = true ∧ ∃ a, address = some a ∧
          Runs (checkLimit (s₁.addressRateLimit a operation) (addressState a operation) :
            Call Store ε Bool) env s₁ allowed s') := by
  simp only [internalCheckRateLimit, runs_gets_bind, runs_ite,
    runs_bind (x := checkLimit (s.globalRateLimit operation) (globalState operation))] at h
  obtain ⟨first, s₁, hglobal, ⟨hfirst, h⟩ | ⟨hfirst, h⟩⟩ := h
  · simp only [runs_pure] at h
    obtain ⟨rfl, rfl⟩ := h
    exact ⟨first, s', hglobal, Or.inl ⟨rfl, hfirst.symm, fun ha => absurd ha (by decide)⟩⟩
  · have hfirst : first = true := by simpa using hfirst
    cases address with
    | none =>
      simp only [runs_pure] at h
      exact ⟨first, s₁, hglobal, Or.inl ⟨h.2, h.1.trans hfirst.symm, fun _ => rfl⟩⟩
    | some a =>
      simp only [runs_gets_bind] at h
      exact ⟨first, s₁, hglobal, Or.inr ⟨hfirst, a, rfl, h⟩⟩

/-- The check of one limit is a step of its counter, and leaves the other counters alone. -/
theorem runs_checkLimit_step {c : Option RateLimitConfig}
    (h : Runs (checkLimit c k.state : Call Store ε Bool) env s allowed s')
    (hc : c = k.config s) (hconfig : k'.config s = some config) :
    ∃ counted, Meter.Step config.limit config.windowSeconds env.ledger.timestamp (k'.meter s)
      counted (k'.meter s') ∧ (k' = k → counted = allowed) := by
  by_cases hk : k' = k
  · subst hk
    rw [hc, hconfig] at h
    exact ⟨allowed, (runs_checkLimit h).1, fun _ => rfl⟩
  · rw [(runs_checkLimit_onlyCounts h).meter hk]
    exact ⟨false, .idle _, fun he => absurd he hk⟩

/-- A call moves every counter as a tumbling window moves, and is counted against each limit it is
subject to if it is allowed. -/
theorem runs_internalCheckRateLimit
    (h : Runs (internalCheckRateLimit address operation : Call Store ε Bool) env s allowed s')
    (hconfig : k.config s = some config) :
    k.config s' = some config ∧
    ∃ counted, Meter.Step config.limit config.windowSeconds env.ledger.timestamp (k.meter s)
      counted (k.meter s') ∧ (k.Governs address operation → allowed = true → counted = true) := by
  obtain ⟨first, s₁, hglobal, h⟩ := internalCheckRateLimit_cases h
  have honly := runs_checkLimit_onlyCounts (k := .global operation) hglobal
  have hconfig₁ := (honly.configs k).trans hconfig
  obtain ⟨counted, hstep, hcounted⟩ :=
    runs_checkLimit_step (k := .global operation) hglobal rfl hconfig
  rcases h with ⟨rfl, hfirst, haddress⟩ | ⟨hfirst, a, rfl, haddress⟩
  · refine ⟨hconfig₁, counted, hstep, fun hgoverns ha => ?_⟩
    obtain rfl := haddress ha
    cases k with
    | global operation' =>
      exact (hcounted (congrArg Key.global hgoverns.symm)).trans (hfirst.symm.trans ha)
    | perAddress a operation' => exact absurd hgoverns.1 (by simp)
  · have hsecond := runs_checkLimit_onlyCounts (k := .perAddress a operation) haddress
    refine ⟨(hsecond.configs k).trans hconfig₁, ?_⟩
    by_cases hk : k = .perAddress a operation
    · -- The global check left this counter alone, so its step is that of the second check.
      obtain ⟨counted', hstep', hcounted'⟩ :=
        runs_checkLimit_step (k := .perAddress a operation) haddress rfl hconfig₁
      rw [honly.meter (by simp [hk])] at hstep'
      exact ⟨counted', hstep', fun _ ha => (hcounted' hk).trans ha⟩
    · rw [hsecond.meter hk]
      refine ⟨counted, hstep, fun hgoverns _ => ?_⟩
      cases k with
      | global operation' => exact (hcounted (congrArg Key.global hgoverns.symm)).trans hfirst
      | perAddress a' operation' =>
        obtain ⟨ha, rfl⟩ := hgoverns
        exact absurd (by rw [Option.some.inj ha]) hk

/-- Whether a call returns, and that the operation may go ahead. -/
def allows (address : Option Address) (operation : String) (env : Env) (i : Instance) : Bool :=
  (checkRateLimit address operation env i).toOption.map Done.value = some true

/-- When a step lets a call through that is subject to the limit. -/
def allowedAt (key : Key) (w : World Instance) : Label Op → List ℕ
  | .call signers uploaded (.checkRateLimit address operation) =>
    if key.Governs address operation ∧ allows address operation (w.env signers uploaded) w.store
    then [w.ledger.timestamp] else []
  | _ => []

/-- A step that starts a new window of the limit. -/
def Resets (key : Key) (w : World Instance) (l : Label Op) : Prop :=
  (key.state.get (w.next exec l).store.limits).lastReset ≠
    (key.state.get w.store.limits).lastReset

variable {w : World Instance} {l : Label Op} {ls : List (Label Op)} {L W : ℕ}

theorem allowedAt_now (x : ℕ) (hx : x ∈ allowedAt k w l) : x = w.ledger.timestamp := by
  unfold allowedAt at hx
  split at hx
  · split at hx
    · exact List.mem_singleton.mp hx
    · exact absurd hx List.not_mem_nil
  · exact absurd hx List.not_mem_nil

/-- Whoever sets another limit leaves this one and all counters alone. -/
theorem next_set {op : Op} {signers : List Address} {uploaded : List BytesN32}
    (hop : ∀ address operation, op ≠ .checkRateLimit address operation)
    (hset : ¬ k.SetBy (.call signers uploaded op)) {i i' : Instance}
    (h : Runs (exec op) env i () i') :
    k.config i'.limits = k.config i.limits ∧ k.meter i'.limits = k.meter i.limits := by
  cases op with
  | checkRateLimit address operation => exact absurd rfl (hop address operation)
  | setGlobalRateLimit caller operation limit windowSeconds =>
    simp only [exec, setGlobalRateLimit, runs_bind, runs_within, internalSetGlobalRateLimit,
      runs_modify] at h
    obtain ⟨_, _, ⟨a, -, rfl⟩, _, rfl, rfl⟩ := h
    cases k with
    | global operation' =>
      have hne : operation' ≠ operation := fun he => hset he.symm
      exact ⟨Function.update_of_ne hne _ _, rfl⟩
    | perAddress a' operation' => exact ⟨rfl, rfl⟩
  | setAddressRateLimit caller a operation limit windowSeconds =>
    simp only [exec, setAddressRateLimit, runs_bind, runs_within, internalSetAddressRateLimit,
      runs_modify] at h
    obtain ⟨_, _, ⟨acc, -, rfl⟩, _, rfl, rfl⟩ := h
    cases k with
    | global operation' => exact ⟨rfl, rfl⟩
    | perAddress a' operation' =>
      refine ⟨?_, rfl⟩
      by_cases ha : a' = a
      · subst ha
        have hne : operation' ≠ operation := fun he => hset ⟨rfl, he.symm⟩
        simp [Key.config, limitsLens, accessLens, hne]
      · simp [Key.config, limitsLens, accessLens, ha]

/-- A check that fails lets nothing through; one that returns leaves its store to the next step. -/
theorem check_cases (address : Option Address) (operation : String) (env : Env) (i : Instance) :
    (invoke (exec (.checkRateLimit address operation)) env i = i ∧
      allows address operation env i = false) ∨
    ∃ s', Runs (internalCheckRateLimit address operation : Call Store Admin.AdminError Bool) env
        i.limits (allows address operation env i) s' ∧
      (invoke (exec (.checkRateLimit address operation)) env i).limits = s' := by
  have hexec : invoke (exec (.checkRateLimit address operation)) env i =
      invoke (checkRateLimit address operation) env i := by
    change invoke (Call.bind (checkRateLimit address operation) fun _ => pure ()) env i = _
    unfold invoke Call.bind
    cases checkRateLimit address operation env i <;> rfl
  rw [hexec]
  rcases invoke_cases (checkRateLimit address operation) env i with ⟨allowed, hr⟩ | ⟨hn, hs⟩
  · refine Or.inr ?_
    have hallows : allows address operation env i = allowed := by
      obtain ⟨log, hr⟩ := hr
      simp [allows, hr, Except.toOption]
    obtain ⟨s', hcheck, hs'⟩ := runs_within.mp hr
    rw [hallows]
    exact ⟨s', hcheck, congrArg Instance.limits hs'⟩
  · refine Or.inl ⟨hs, ?_⟩
    cases he : checkRateLimit address operation env i with
    | ok d => exact absurd ⟨d.requested, he⟩ (hn d.value d.store)
    | error e => simp [allows, he, Except.toOption]

theorem allowedAt_set {signers : List Address} {uploaded : List BytesN32} {op : Op}
    (h : ¬ ∃ address operation, op = .checkRateLimit address operation) :
    allowedAt k w (.call signers uploaded op) = [] := by
  cases op with
  | checkRateLimit address operation => exact absurd ⟨address, operation, rfl⟩ h
  | setGlobalRateLimit => rfl
  | setAddressRateLimit => rfl

/-- The window moved as a tumbling window moves, and it counted what was let through. -/
def Moves (k : Key) (L W : ℕ) (w : World Instance) (l : Label Op) : Prop :=
  k.config (w.next exec l).store.limits = some ⟨L, W⟩ ∧
  ∃ counted, Meter.Step L W w.ledger.timestamp (k.meter w.store.limits) counted
    (k.meter (w.next exec l).store.limits) ∧ (allowedAt k w l).length ≤ counted.toNat

theorem moves_idle (hconfig : k.config (w.next exec l).store.limits = some ⟨L, W⟩)
    (hmeter : k.meter (w.next exec l).store.limits = k.meter w.store.limits)
    (hnone : allowedAt k w l = []) : Moves k L W w l := by
  refine ⟨hconfig, false, ?_, by simp [hnone]⟩
  rw [hmeter]
  exact .idle _

theorem moves_check {signers : List Address} {uploaded : List BytesN32}
    {address : Option Address} {operation : String}
    (hconfig : k.config w.store.limits = some ⟨L, W⟩) :
    Moves k L W w (.call signers uploaded (.checkRateLimit address operation)) := by
  rcases check_cases address operation (w.env signers uploaded) w.store with
    ⟨hs, hno⟩ | ⟨s', hcheck, hs⟩
  · apply moves_idle
    · simpa only [World.next, hs] using hconfig
    · simp only [World.next, hs]
    · simp [allowedAt, hno]
  · obtain ⟨hconfig', counted, hstep, hcounted⟩ := runs_internalCheckRateLimit hcheck hconfig
    simp only [Moves, World.next, allowedAt, hs]
    refine ⟨hconfig', counted, hstep, ?_⟩
    split
    · rename_i hallowed
      rw [hcounted hallowed.1 hallowed.2]
      exact Nat.le_refl 1
    · exact Nat.zero_le _

theorem next_meter (hset : ¬ k.SetBy l) (hconfig : k.config w.store.limits = some ⟨L, W⟩) :
    Moves k L W w l := by
  cases l with
  | close next =>
    apply moves_idle
    · simpa only [World.next_close_store] using hconfig
    · rw [World.next_close_store]
    · rfl
  | call signers uploaded op =>
    by_cases hop : ∃ address operation, op = .checkRateLimit address operation
    · obtain ⟨address, operation, rfl⟩ := hop
      exact moves_check hconfig
    · rcases World.next_cases exec w (.call signers uploaded op) with
        ⟨hs, -⟩ | ⟨signers', uploaded', op', hl, h⟩
      · exact moves_idle (hs ▸ hconfig) (by rw [hs]) (allowedAt_set hop)
      · cases hl
        obtain ⟨hc, hm⟩ := next_set (fun _ _ he => hop ⟨_, _, he⟩) hset h
        exact moves_idle (hc.trans hconfig) hm (allowedAt_set hop)

/-- The limit is as it was set, and its counter accounts for the calls it has let through. -/
structure Metered (k : Key) (L W : ℕ) (w : World Instance) (calls : List ℕ) : Prop where
  config : k.config w.store.limits = some ⟨L, W⟩
  paced : ∃ old cur, old ++ cur = calls ∧
    Meter.Paced L W w.ledger.timestamp (k.meter w.store.limits) old cur

theorem metered_next (hW : 0 < W) {calls : List ℕ} (h : Metered k L W w calls)
    (hset : ¬ k.SetBy l) : Metered k L W (w.next exec l) (calls ++ allowedAt k w l) := by
  obtain ⟨hconfig, counted, hstep, hlen⟩ := next_meter hset h.config
  obtain ⟨old, cur, rfl, hpaced⟩ := h.paced
  obtain ⟨old', cur', happend, hpaced'⟩ := hpaced.step hW hstep hlen allowedAt_now
  exact ⟨hconfig, old', cur', happend, hpaced'.later (World.next_ledger_mono exec w l).2⟩

/-- The same for calls that were all let through since the window's last restart. -/
structure Covered (k : Key) (L W : ℕ) (w : World Instance) (calls : List ℕ) : Prop where
  config : k.config w.store.limits = some ⟨L, W⟩
  covers : calls.length ≤ (k.meter w.store.limits).count

theorem covered_next (hW : 0 < W) {calls : List ℕ} (h : Covered k L W w calls)
    (hreset : ¬ Resets k w l) (hset : ¬ k.SetBy l) :
    Covered k L W (w.next exec l) (calls ++ allowedAt k w l) := by
  obtain ⟨hconfig, counted, hstep, hlen⟩ := next_meter hset h.config
  have hcovers := Meter.step_covers hstep (not_not.mp hreset) hW
  have hbefore := h.covers
  refine ⟨hconfig, ?_⟩
  rw [List.length_append]
  omega

/-- What a step and the steps after it let through, up to the next restart, stands in the counter
at the end. -/
theorem covered_run (hW : 0 < W) {window : List (Label Op)}
    (hconfig : k.config w.store.limits = some ⟨L, W⟩) (hset : ∀ l' ∈ l :: window, ¬ k.SetBy l')
    (hwindow : (w.next exec l).EveryStep exec (fun v l => ¬ Resets k v l) window) :
    (w.collectSteps exec (allowedAt k) (l :: window)).length ≤
      (k.meter (w.run exec (l :: window)).store.limits).count := by
  obtain ⟨hconfig', counted, hstep, hlen⟩ := next_meter (hset l (by simp)) hconfig
  have hfirst : Covered k L W (w.next exec l) (allowedAt k w l) :=
    ⟨hconfig', Nat.le_trans hlen (Meter.step_counted hstep)⟩
  have hsteps := World.everyStep_and_forall hwindow fun l' hl' => hset l' (by simp [hl'])
  have hend : Covered k L W (w.run exec (l :: window))
      (w.collectSteps exec (allowedAt k) (l :: window)) :=
    World.run_induction_collect hfirst (fun _ _ _ h hl => covered_next hW h hl.1 hl.2) hsteps
  exact hend.covers

/-- No counter goes over its limit, no window lets through more calls than the limit, and no
interval as long as a window more than twice the limit. -/
theorem rate_limit_bound (k : Key) (hW : 0 < W) (hconfig : k.config w.store.limits = some ⟨L, W⟩)
    (hcount : (k.state.get w.store.limits).count ≤ L) (ls : List (Label Op))
    (hset : ∀ l ∈ ls, ¬ k.SetBy l) :
    w.EveryState exec (fun v => (k.state.get v.store.limits).count ≤ L) ls ∧
    (∀ done l window, done ++ l :: window <+: ls →
      (w.run exec (done ++ [l])).EveryStep exec (fun v l => ¬ Resets k v l) window →
      ((w.run exec done).collectSteps exec (allowedAt k) (l :: window)).length ≤ L) ∧
    ∀ t, Meter.within t W (w.collectSteps exec (allowedAt k) ls) ≤ 2 * L := by
  have hsteps : ∀ done, done <+: ls →
      Metered k L W (w.run exec done) (w.collectSteps exec (allowedAt k) done) := by
    intro done hdone
    have hstart : Metered k L W w [] := ⟨hconfig, [], [], rfl, Meter.paced_nil hcount⟩
    have hkept : w.EveryStep exec (fun _ l => ¬ k.SetBy l) done :=
      World.everyStep_iff_prefix.mpr fun done' l hl =>
        hset l (hdone.subset (hl.subset (by simp)))
    exact World.run_induction_collect hstart (fun _ _ _ h hl => metered_next hW h hl) hkept
  refine ⟨?_, ?_, ?_⟩
  · refine World.everyState_iff_prefix.mpr fun done hdone => ?_
    obtain ⟨-, old, cur, -, hpaced⟩ := hsteps done hdone
    exact hpaced.bounded
  · intro done l window hpre hwindow
    have hdone := hsteps done ((List.prefix_append done _).trans hpre)
    obtain ⟨-, old, cur, -, hpaced⟩ := hsteps (done ++ l :: window) hpre
    rw [World.run_append] at hwindow hpaced
    have hcovered := covered_run hW hdone.config
      (fun l' hl' => hset l' (hpre.subset (List.mem_append_right done hl'))) hwindow
    exact Nat.le_trans hcovered hpaced.bounded
  · intro t
    obtain ⟨-, old, cur, happend, hpaced⟩ := hsteps ls (List.prefix_refl ls)
    rw [← happend]
    exact hpaced.within_le

/-- Two mints every ten seconds, for everyone together. -/
def twoMints : World Instance where
  ledger := Ledger.ofNat 1 9
  self := ⟨100⟩
  store := ⟨Admin.Store.empty,
    { Store.empty with globalRateLimit := Function.update (fun _ => none) "mint" (some ⟨2, 10⟩) }⟩

/-- Three mints just before a window is over, and three just after. -/
def mintBurst : List (Label Op) :=
  let mint (a : ℕ) : Label Op := .call [] [] (.checkRateLimit (some ⟨a⟩) "mint")
  [mint 2, mint 3, mint 4, .close (Ledger.ofNat 2 10), mint 2, mint 3, mint 4]

/-- The burst meets two windows, and twice the limit is what gets through. -/
theorem mintBurst_allowed :
    twoMints.collectSteps exec (allowedAt (.global "mint")) mintBurst = [9, 9, 10, 10] ∧
    ∀ t, Meter.within t 10 (twoMints.collectSteps exec (allowedAt (.global "mint")) mintBurst) ≤
      2 * 2 := by
  have hset : ∀ l ∈ mintBurst, ¬ Key.SetBy (.global "mint") l := by
    simp [mintBurst, Key.SetBy]
  have hconfig : Key.config (.global "mint") twoMints.store.limits = some ⟨2, 10⟩ := by
    simp [Key.config, twoMints]
  exact ⟨by decide +kernel,
    (rate_limit_bound (.global "mint") (by decide) hconfig (by decide) mintBurst hset).2.2⟩

end BcForge.RateLimit
