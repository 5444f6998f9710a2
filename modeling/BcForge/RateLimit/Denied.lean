import BcForge.RateLimit.Bound

/-! What a denied call leaves behind in the counters. -/
namespace BcForge.RateLimit

open Soroban Call

variable {ε : Type} {env : Env} {s s' : Store} {i i' : Instance} {k : Key} {now : ℕ}
  {config : RateLimitConfig} {address : Option Address} {operation : String} {allowed : Bool}

/-- The counter is as it was, or its window was over and has been restarted. -/
def Unspent (now : ℕ) (s s' : Store) (k : Key) : Prop :=
  k.state.get s' = k.state.get s ∨
    ∃ config, k.config s = some config ∧
      (k.state.get s).lastReset + config.windowSeconds ≤ now ∧ k.state.get s' = ⟨0, now⟩

/-- The limit denies a call at `now`. -/
def Exhausted (now : ℕ) (config : RateLimitConfig) (state : RateLimitState) : Prop :=
  config.limit ≤ if state.lastReset + config.windowSeconds ≤ now then 0 else state.count

/-- A window without length that was restarted at `now` and has let one call through: one more
leaves it as it is. -/
def Idle (now : ℕ) (config : RateLimitConfig) (state : RateLimitState) : Prop :=
  config.windowSeconds = 0 ∧ state = ⟨1, now⟩

/-- If there is a global limit, it denies the call itself, or counting the call leaves no mark. -/
def GlobalSpared (now : ℕ) (operation : String) (s : Store) : Prop :=
  ∀ config, s.globalRateLimit operation = some config →
    Exhausted now config ((globalState operation).get s) ∨
      Idle now config ((globalState operation).get s)

theorem checkLimit_denied
    (h : Runs (checkLimit (some config) k.state : Call Store ε Bool) env s false s') :
    Exhausted env.ledger.timestamp config (k.state.get s) ∧
      (s' = s ∨ (k.state.get s).lastReset + config.windowSeconds ≤ env.ledger.timestamp ∧
        s' = k.state.set ⟨0, env.ledger.timestamp⟩ s) := by
  rcases checkLimit_cases h with ⟨hover, ⟨-, hlimit, rfl⟩ | ⟨hno, -⟩⟩ |
    ⟨hopen, ⟨-, hlimit, rfl⟩ | ⟨hno, -⟩⟩
  · refine ⟨?_, Or.inr ⟨hover, rfl⟩⟩
    rw [Exhausted, if_pos hover]
    exact hlimit
  · cases hno
  · refine ⟨?_, Or.inl rfl⟩
    rw [Exhausted, if_neg (not_le.mpr hopen)]
    exact hlimit
  · cases hno

/-- A call that is let through is counted, and that shows unless the window has no length. -/
theorem checkLimit_counted
    (h : Runs (checkLimit (some config) k.state : Call Store ε Bool) env s true s')
    (hconfig : k.config s = some config) :
    ¬ Exhausted env.ledger.timestamp config (k.state.get s) ∧
      (Unspent env.ledger.timestamp s s' k ↔
        Idle env.ledger.timestamp config (k.state.get s)) := by
  rcases checkLimit_cases h with ⟨hover, ⟨hno, -⟩ | ⟨-, hlimit, rfl⟩⟩ |
    ⟨hopen, ⟨hno, -⟩ | ⟨-, hlimit, rfl⟩⟩
  · cases hno
  · refine ⟨?_, ?_⟩
    · rw [Exhausted, if_pos hover]
      omega
    · rw [Unspent, state_get_set]
      constructor
      · rintro (heq | ⟨_, -, -, heq⟩)
        · rw [← heq] at hover ⊢
          refine ⟨?_, rfl⟩
          change env.ledger.timestamp + config.windowSeconds ≤ env.ledger.timestamp at hover
          omega
        · cases heq
      · rintro ⟨-, hstate⟩
        exact Or.inl hstate.symm
  · cases hno
  · refine ⟨?_, ?_⟩
    · rw [Exhausted, if_neg (not_le.mpr hopen)]
      omega
    · rw [Unspent, state_get_set]
      refine iff_of_false ?_ ?_
      · rintro (heq | ⟨config', hconfig', hover, -⟩)
        · have hcount := congrArg RateLimitState.count heq
          simp only at hcount
          omega
        · rw [hconfig] at hconfig'
          cases hconfig'
          omega
      · rintro ⟨hwidth, hstate⟩
        rw [hstate, hwidth] at hopen
        change env.ledger.timestamp < env.ledger.timestamp + 0 at hopen
        omega

/-- A limit that denies a call leaves every counter unspent. -/
theorem unspent_of_denied
    (h : Runs (checkLimit (k.config s) k.state : Call Store ε Bool) env s false s') (k' : Key) :
    Unspent env.ledger.timestamp s s' k' := by
  cases hconfig : k.config s with
  | none =>
    rw [hconfig, checkLimit, runs_pure] at h
    cases h.1
  | some config =>
    rw [hconfig] at h
    rcases (checkLimit_denied h).2 with rfl | ⟨hover, rfl⟩
    · exact Or.inl rfl
    · by_cases hk : k' = k
      · subst hk
        exact Or.inr ⟨config, hconfig, hover, state_get_set k' _ s⟩
      · exact Or.inl (state_get_set_of_ne hk _ s)

theorem onlyCounts_state (h : OnlyCounts k s s') {k' : Key} (hne : k' ≠ k) :
    k'.state.get s' = k'.state.get s := by
  rcases h with rfl | ⟨x, rfl⟩
  · rfl
  · exact state_get_set_of_ne hne x s

theorem unspent_congr {s₁ : Store} (hstate : k.state.get s₁ = k.state.get s)
    (hconfig : k.config s₁ = k.config s) : Unspent now s₁ s' k ↔ Unspent now s s' k := by
  unfold Unspent
  rw [hstate, hconfig]

/-- A global limit that lets the call through leaves its counter unspent only where it is spared. -/
theorem global_unspent_iff
    (h : Runs (checkLimit (s.globalRateLimit operation) (globalState operation) :
      Call Store ε Bool) env s true s') :
    Unspent env.ledger.timestamp s s' (.global operation) ↔
      GlobalSpared env.ledger.timestamp operation s := by
  cases hconfig : s.globalRateLimit operation with
  | none =>
    rw [hconfig, checkLimit, runs_pure] at h
    rw [h.2]
    refine iff_of_true (Or.inl rfl) fun config hsome => ?_
    rw [hconfig] at hsome
    cases hsome
  | some config =>
    rw [hconfig] at h
    obtain ⟨hnot, hiff⟩ := checkLimit_counted (k := .global operation) h hconfig
    rw [hiff]
    constructor
    · intro hidle config' hconfig'
      rw [hconfig] at hconfig'
      cases hconfig'
      exact Or.inr hidle
    · intro hspared
      exact (hspared config hconfig).resolve_left hnot

/-- After a denial for the address only the global counter can have been spent. -/
theorem all_unspent_iff {a : Address} {s₁ : Store}
    (hglobal : OnlyCounts (.global operation) s s₁)
    (hdenied : Runs (checkLimit (s₁.addressRateLimit a operation) (addressState a operation) :
      Call Store ε Bool) env s₁ false s') :
    (∀ k, Unspent env.ledger.timestamp s s' k) ↔
      Unspent env.ledger.timestamp s s₁ (.global operation) := by
  have hsecond := runs_checkLimit_onlyCounts (k := .perAddress a operation) hdenied
  have hlast := unspent_of_denied (k := .perAddress a operation) hdenied
  have hother : ∀ k ≠ .perAddress a operation, Unspent env.ledger.timestamp s s' k ↔
      Unspent env.ledger.timestamp s s₁ k := by
    intro k hk
    unfold Unspent
    rw [onlyCounts_state hsecond hk]
  constructor
  · intro hall
    exact (hother _ (by simp)).mp (hall _)
  · intro hunspent k
    by_cases hk : k = .perAddress a operation
    · subst hk
      exact (unspent_congr (onlyCounts_state hglobal (by simp)) (hglobal.configs _)).mp (hlast _)
    · rw [hother k hk]
      by_cases hg : k = .global operation
      · rwa [hg]
      · exact Or.inl (onlyCounts_state hglobal hg)

/-- A denied call leaves all counters unspent exactly if the global one is spared: otherwise the
call is denied for its address after the global limit has counted it. -/
theorem denied_unspent_iff (h : Runs (checkRateLimit address operation) env i false i') :
    (∀ k, Unspent env.ledger.timestamp i.limits i'.limits k) ↔
      GlobalSpared env.ledger.timestamp operation i.limits := by
  obtain ⟨s', hcheck, rfl⟩ := runs_within.mp h
  change Runs (internalCheckRateLimit address operation : Call Store _ Bool) env i.limits false s'
    at hcheck
  change (∀ k, Unspent env.ledger.timestamp i.limits s' k) ↔ _
  obtain ⟨first, s₁, hglobal, ⟨rfl, hfirst, -⟩ | ⟨rfl, a, rfl, haddress⟩⟩ :=
    internalCheckRateLimit_cases hcheck
  · subst hfirst
    refine iff_of_true (unspent_of_denied (k := .global operation) hglobal) ?_
    intro config hconfig
    rw [hconfig] at hglobal
    exact Or.inl (checkLimit_denied (k := .global operation) hglobal).1
  · have honly := runs_checkLimit_onlyCounts (k := .global operation) hglobal
    exact (all_unspent_iff honly haddress).trans (global_unspent_iff hglobal)

/-- A contract administered by account 1, without limits. -/
def unlimited : World Instance where
  ledger := Ledger.ofNat 1 9
  self := ⟨100⟩
  store := ⟨invoke (Admin.setAdmin ⟨1⟩) ⟨Ledger.ofNat 1 9, ⟨100⟩, [], true, []⟩ Admin.Store.empty,
    Store.empty⟩

/-- Account 2 may mint once, and has. -/
def mintedOnce : List (Label Op) :=
  [.call [⟨1⟩] [] (.setAddressRateLimit ⟨1⟩ ⟨2⟩ "mint" 1 10),
   .call [] [] (.checkRateLimit (some ⟨2⟩) "mint")]

/-- As before, with two mints for everyone together. -/
def mintedOnceOfTwo : List (Label Op) :=
  .call [⟨1⟩] [] (.setGlobalRateLimit ⟨1⟩ "mint" 2 10) :: mintedOnce

theorem mintedOnce_unspent : ∃ i',
    Runs (checkRateLimit (some ⟨2⟩) "mint") ((unlimited.run exec mintedOnce).env [] [])
      (unlimited.run exec mintedOnce).store false i' ∧
    ∀ k, Unspent 9 (unlimited.run exec mintedOnce).store.limits i'.limits k := by
  have hdenied : ∃ i', Runs (checkRateLimit (some ⟨2⟩) "mint")
      ((unlimited.run exec mintedOnce).env [] []) (unlimited.run exec mintedOnce).store false i' :=
    runs_of_value (by decide +kernel)
  obtain ⟨i', hrun⟩ := hdenied
  refine ⟨i', hrun, (denied_unspent_iff hrun).mpr ?_⟩
  intro config hconfig
  have hnone : ((unlimited.run exec mintedOnce).store.limits.globalRateLimit "mint").isNone =
      true := by
    decide +kernel
  rw [hconfig] at hnone
  cases hnone

/-- The second mint of account 2 is denied, and takes the last one from everyone else. -/
theorem mintedOnceOfTwo_spent : ∃ i',
    Runs (checkRateLimit (some ⟨2⟩) "mint") ((unlimited.run exec mintedOnceOfTwo).env [] [])
      (unlimited.run exec mintedOnceOfTwo).store false i' ∧
    ¬ Unspent 9 (unlimited.run exec mintedOnceOfTwo).store.limits i'.limits (.global "mint") ∧
    allows (some ⟨3⟩) "mint" ((unlimited.run exec mintedOnceOfTwo).env [] [])
      (unlimited.run exec mintedOnceOfTwo).store = true ∧
    allows (some ⟨3⟩) "mint" ((unlimited.run exec mintedOnceOfTwo).env [] []) i' = false := by
  have hresult : (checkRateLimit (some ⟨2⟩) "mint" ((unlimited.run exec mintedOnceOfTwo).env [] [])
      (unlimited.run exec mintedOnceOfTwo).store).toOption.map (fun d => (d.value,
        ((globalState "mint").get d.store.limits).count,
        allows (some ⟨3⟩) "mint" ((unlimited.run exec mintedOnceOfTwo).env [] []) d.store)) =
      some (false, 2, false) := by
    decide +kernel
  have hbefore : ((globalState "mint").get
      (unlimited.run exec mintedOnceOfTwo).store.limits).count = 1 := by
    decide +kernel
  obtain ⟨d, hd, hafter⟩ := Option.map_eq_some_iff.mp hresult
  simp only [Prod.mk.injEq] at hafter
  obtain ⟨hvalue, hcount, hdenied⟩ := hafter
  refine ⟨d.store, ⟨d.requested, ?_⟩, ?_, by decide +kernel, hdenied⟩
  · rw [← hvalue]
    cases he : checkRateLimit (some ⟨2⟩) "mint" ((unlimited.run exec mintedOnceOfTwo).env [] [])
        (unlimited.run exec mintedOnceOfTwo).store with
    | ok d' =>
      rw [he] at hd
      cases hd
      rfl
    | error e =>
      rw [he] at hd
      cases hd
  · change ¬ ((globalState "mint").get d.store.limits = _ ∨ _)
    rintro (heq | ⟨config, -, -, heq⟩)
    · have hsame := congrArg RateLimitState.count heq
      change _ = ((globalState "mint").get _).count at hsame
      omega
    · have hsame := congrArg RateLimitState.count heq
      change ((globalState "mint").get d.store.limits).count = 0 at hsame
      omega

end BcForge.RateLimit
