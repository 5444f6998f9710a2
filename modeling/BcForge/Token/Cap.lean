import BcForge.Token.Conservation
import BcForge.Token.Frame

/-! The supply cap: checked where the supply grows, and movable at any time. -/
namespace BcForge.BcForgeToken

open Soroban Call Admin

/-- The cap has not moved, and a supply under it stays under it. -/
structure Capped (s s' : Store) : Prop where
  cap : s'.maxSupply = s.maxSupply
  under : s.supply ≤ s.maxSupply → s'.supply ≤ s'.maxSupply

instance : IsPreorder Store Capped where
  refl _ := ⟨rfl, fun h => h⟩
  trans _ _ _ h h' := ⟨h'.cap.trans h.cap, fun hs => h'.under (h.under hs)⟩

variable {α : Type} {ws : List Part} {src dst : Address} {x : ℤ} {env : Env} {s s' : Store}

/-- A call that writes neither the supply nor its cap. -/
theorem capped_of_writes {y : TokenCall α} (h : Writes parts ws y) (hs : .supply ∉ ws)
    (hm : .maxSupply ∉ ws) : Respects Capped y := by
  intro env s a s' hr
  have hsupply : s'.supply = s.supply := h env s a s' hr _ hs
  have hmax : s'.maxSupply = s.maxSupply := h env s a s' hr _ hm
  refine ⟨hmax, fun hle => ?_⟩
  rw [hsupply, hmax]
  exact hle

/-- The checks every call on the books opens with. -/
theorem capped_aside {y : TokenCall α} (h : Writes parts [.rateLimit, .allowance] y) :
    Respects Capped y :=
  capped_of_writes h (by decide) (by decide)

theorem capped_reentrancyGuard {g : Guard} {y : TokenCall α} (h : Respects Capped y) :
    Respects Capped (reentrancyGuard g y) :=
  respects_guarded (fun _ _ => ⟨rfl, fun hs => hs⟩) h

/-- Minting stops at the cap. -/
theorem capped_internalMint : Respects Capped (internalMint dst x) := by
  intro env s a s' h
  simp only [internalMint, writeBalance, writeSupply, runs_gets_bind, runs_failIf_bind,
    runs_i128_bind, runs_modify_bind, runs_modify, not_lt, not_le] at h
  obtain ⟨-, -, hcap, -, rfl⟩ := h
  exact ⟨rfl, fun _ => hcap⟩

theorem capped_mint (minter : Address) : Respects Capped (mint minter dst x) :=
  (respects_failIf _ _).bind fun _ => capped_reentrancyGuard <|
    (capped_aside writes_ensureInitialized).bind fun _ =>
    (capped_aside writes_ensureNotPaused).bind fun _ =>
    (capped_aside (writes_requireRole _ _)).bind fun _ =>
    (capped_aside (writes_checkRateLimit (by decide) _ _)).bind fun _ => capped_internalMint

/-- Every iteration of a batch is checked against the supply the one before left. -/
theorem capped_mintAll (minter : Address) (recipients : List Recipient) :
    Respects Capped (mintAll minter recipients) := by
  induction recipients with
  | nil => exact respects_pure _
  | cons r rest ih =>
    exact (capped_aside (writes_checkRateLimit (by decide) _ _)).bind fun _ =>
      capped_internalMint.bind fun _ => ih

theorem capped_batchMint (minter : Address) (recipients : List Recipient) :
    Respects Capped (batchMint minter recipients) :=
  capped_reentrancyGuard <| (capped_aside writes_ensureInitialized).bind fun _ =>
    (capped_aside writes_ensureNotPaused).bind fun _ => (respects_failIf _ _).bind fun _ =>
    (capped_aside (writes_requireRole _ _)).bind fun _ => capped_mintAll minter recipients

/-- Burning lowers the supply. -/
theorem capped_burnt (hx : 0 < x) (hm : s'.maxSupply = s.maxSupply)
    (hs : s'.supply = s.supply - x) : Capped s s' := by
  refine ⟨hm, fun hle => ?_⟩
  rw [hm, hs]
  omega

theorem capped_burn : Respects Capped (burn src x) := by
  refine (capped_aside writes_ensureInitialized).bind fun _ =>
    (capped_aside writes_ensureNotPaused).bind fun _ => (respects_requireAuth _).bind fun _ =>
    respects_failIf_bind fun hx =>
    (capped_aside (writes_checkRateLimit (by decide) _ _)).bind fun _ => ?_
  intro env s a s' h
  simp only [writeBalance, writeSupply, runs_gets_bind, runs_failIf_bind, runs_i128_bind,
    runs_modify_bind, runs_modify] at h
  obtain ⟨-, -, -, rfl⟩ := h
  exact capped_burnt (not_le.mp hx) rfl rfl

theorem capped_burnFrom (spender : Address) : Respects Capped (burnFrom spender src x) := by
  refine (capped_aside writes_ensureInitialized).bind fun _ =>
    (capped_aside writes_ensureNotPaused).bind fun _ => (respects_requireAuth _).bind fun _ =>
    respects_failIf_bind fun hx =>
    (capped_aside (writes_checkRateLimit (by decide) _ _)).bind fun _ =>
    (capped_aside (writes_allowanceAmount (by decide))).bind fun _ =>
    (respects_failIf _ _).bind fun _ =>
    (capped_aside (writes_readAllowanceData (by decide))).bind fun _ => ?_
  intro env s a s' h
  simp only [writeBalance, writeSupply, writeAllowance, runs_gets_bind, runs_failIf_bind,
    runs_i128_bind, runs_modify_bind, runs_modify] at h
  obtain ⟨-, -, -, -, rfl⟩ := h
  exact capped_burnt (not_le.mp hx) rfl rfl

theorem runs_setMaxSupply {caller : Address} {m : ℤ} {u : Unit}
    (h : Runs (setMaxSupply caller m) env s u s') : s' = { s with maxSupply := m } := by
  simp only [setMaxSupply, admin, requireMinter, runs_ensureInitialized_bind,
    runs_requireRole_bind, runs_failIf_bind] at h
  obtain ⟨-, -, -, -, h⟩ := h
  exact runs_modify.mp h

/-- After initialization, only `set_max_supply` can leave the supply over its cap. -/
theorem exec_capped (op : Op) (hop : ∀ c m, op ≠ .setMaxSupply c m)
    (hinit : ∀ a d n m, op ≠ .initializeToken a d n m) : Respects Capped (exec op) := by
  by_cases hs : .supply ∈ op.writes
  · cases op with
    | initializeToken a d n m => exact absurd rfl (hinit a d n m)
    | mint minter dst amount => exact capped_mint minter
    | batchMint minter recipients => exact capped_batchMint minter recipients
    | burn src amount => exact capped_burn
    | burnFrom spender src amount => exact capped_burnFrom spender
    | _ => simp [Op.writes] at hs
  · have hm : .maxSupply ∉ op.writes := by
      cases op with
      | setMaxSupply c m => exact absurd rfl (hop c m)
      | initializeToken a d n m => exact absurd rfl (hinit a d n m)
      | _ => simp [Op.writes]
    exact capped_of_writes (exec_writes op) hs hm

/-- A new cap is not below the supply there is. -/
def CapsAbove (w : World Store) (op : Op) : Prop :=
  ∀ c m, op = .setMaxSupply c m → w.store.supply ≤ m

variable {w : World Store} {l : Label Op} {ls : List (Label Op)}

theorem exec_capped_iff {signers : List Address} {uploaded : List BytesN32} {op : Op}
    (hle : w.store.supply ≤ w.store.maxSupply)
    (h : Runs (exec op) (w.env signers uploaded) w.store () s') :
    s'.supply ≤ s'.maxSupply ↔ CapsAbove w op := by
  by_cases hop : ∃ c m, op = .setMaxSupply c m
  · obtain ⟨c, m, rfl⟩ := hop
    have hs : s' = { w.store with maxSupply := m } := runs_setMaxSupply h
    rw [hs]
    constructor
    · rintro hm c' m' he
      cases he
      exact hm
    · intro hcap
      exact hcap c m rfl
  · have hne : ∀ c m, op ≠ .setMaxSupply c m := fun c m he => hop ⟨c, m, he⟩
    have hinit : ∀ a d n m, op ≠ .initializeToken a d n m := by
      rintro a d n m rfl
      exact not_runs_initializeToken h
    have hcapped := exec_capped op hne hinit _ _ _ _ h
    exact ⟨fun _ c m he => absurd he (hne c m), fun _ => hcapped.under hle⟩

theorem next_capped_iff (hle : w.store.supply ≤ w.store.maxSupply) :
    (w.next exec l).store.supply ≤ (w.next exec l).store.maxSupply ↔
      World.OnSuccess exec CapsAbove w l :=
  World.next_store_iff (P := fun s : Store => s.supply ≤ s.maxSupply) hle
    fun _ _ _ _ hr => exec_capped_iff hle hr

theorem capped_deployed (h : Deployed w) : w.store.supply ≤ w.store.maxSupply := by
  obtain ⟨_, _, access, decimal, name, symbol, foreign, -, hs⟩ := deployed_store h
  have hmax : (0 : ℤ) ≤ I128.MAX := by decide
  rw [hs]
  exact hmax

/-- The supply stays under the cap in every state of a run exactly when no call of the run lowers
the cap below the supply it finds. -/
theorem supply_capped_iff (h : Deployed w) (ls : List (Label Op)) :
    w.EveryState exec (fun w => w.store.supply ≤ w.store.maxSupply) ls ↔
      w.EveryStep exec (World.OnSuccess exec CapsAbove) ls :=
  World.everyState_iff_everyStep (I := fun _ => True) trivial (fun _ _ _ => trivial)
    (capped_deployed h) fun _ _ _ hle => next_capped_iff hle

/-- The cap is lowered to the supply, which stops the last mint. -/
def cappedRun : List (Label Op) :=
  [.call [⟨1⟩] [] (.mint ⟨1⟩ ⟨2⟩ 1000),
   .call [⟨1⟩] [] (.setMaxSupply ⟨1⟩ 1000),
   .call [⟨1⟩] [] (.batchMint ⟨1⟩ [⟨⟨2⟩, 1⟩])]

theorem supply_capped_cappedRun :
    genesis.EveryState exec (fun w => w.store.supply ≤ w.store.maxSupply) cappedRun := by
  refine (supply_capped_iff genesis_deployed cappedRun).mpr ⟨?_, ?_, ?_, trivial⟩
  · intro s' _ c m he
    cases he
  · intro s' _ c m he
    cases he
    decide +kernel
  · intro s' _ c m he
    cases he

/-- Half of the supply is over the new cap. -/
def loweredCap : List (Label Op) :=
  [.call [⟨1⟩] [] (.mint ⟨1⟩ ⟨2⟩ 1000),
   .call [⟨1⟩] [] (.setMaxSupply ⟨1⟩ 500)]

theorem loweredCap_exceeded :
    ¬ genesis.EveryState exec (fun w => w.store.supply ≤ w.store.maxSupply) loweredCap := by
  decide +kernel

end BcForge.BcForgeToken
