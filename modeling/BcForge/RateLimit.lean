import BcForge.Soroban.Arith

/-! Fixed-window rate limits, global and per address, that token operations are checked against. -/
namespace BcForge.RateLimit

open Soroban Call

structure RateLimitConfig where
  limit : ℕ
  windowSeconds : ℕ

structure RateLimitState where
  count : ℕ
  lastReset : ℕ

structure Store where
  globalRateLimit : String → Option RateLimitConfig
  addressRateLimit : Address → String → Option RateLimitConfig
  globalCount : String → Option RateLimitState
  addressCount : Address → String → Option RateLimitState

def Store.empty : Store where
  globalRateLimit _ := none
  addressRateLimit _ _ := none
  globalCount _ := none
  addressCount _ _ := none

variable {ε : Type}

def globalState (operation : String) : Lens Store RateLimitState where
  get s := (s.globalCount operation).getD ⟨0, 0⟩
  set x s := { s with globalCount := Function.update s.globalCount operation (some x) }

def addressState (a : Address) (operation : String) : Lens Store RateLimitState where
  get s := (s.addressCount a operation).getD ⟨0, 0⟩
  set x s := { s with
    addressCount := Function.update s.addressCount a
      (Function.update (s.addressCount a) operation (some x)) }

/-- Whether the window that started at `lastReset` is over. -/
def windowElapsed (config : RateLimitConfig) (state : RateLimitState) : Call Store ε Bool := do
  let ledger ← Call.ledger
  let windowEnd ← u64 (state.lastReset + config.windowSeconds)
  pure (decide (windowEnd ≤ ledger.timestamp))

def resetIfNeeded (config : RateLimitConfig) (key : Lens Store RateLimitState) :
    Call Store ε RateLimitState := do
  let state ← gets key.get
  let elapsed ← windowElapsed config state
  if elapsed = true then
    let ledger ← Call.ledger
    modify (key.set ⟨0, ledger.timestamp⟩)
    pure ⟨0, ledger.timestamp⟩
  else pure state

/-- One limit: its window is restarted when over, then the operation counts against it. -/
def checkLimit (config : Option RateLimitConfig) (key : Lens Store RateLimitState) :
    Call Store ε Bool :=
  match config with
  | none => pure true
  | some config => do
    let state ← resetIfNeeded config key
    if config.limit ≤ state.count then pure false
    else
      let count ← u64 (state.count + 1)
      modify (key.set { state with count := count })
      pure true

/-- The global limit is counted first, also when the address limit then rejects. -/
def internalCheckRateLimit (address : Option Address) (operation : String) :
    Call Store ε Bool := do
  let globalConfig ← gets (·.globalRateLimit operation)
  let allowed ← checkLimit globalConfig (globalState operation)
  if allowed = false then pure false
  else
    match address with
    | none => pure true
    | some a =>
      let addressConfig ← gets (·.addressRateLimit a operation)
      checkLimit addressConfig (addressState a operation)

def internalSetGlobalRateLimit (operation : String) (limit windowSeconds : ℕ) :
    Call Store ε Unit :=
  modify fun s => { s with
    globalRateLimit := Function.update s.globalRateLimit operation (some ⟨limit, windowSeconds⟩) }

def internalSetAddressRateLimit (a : Address) (operation : String) (limit windowSeconds : ℕ) :
    Call Store ε Unit :=
  modify fun s => { s with
    addressRateLimit := Function.update s.addressRateLimit a
      (Function.update (s.addressRateLimit a) operation (some ⟨limit, windowSeconds⟩)) }

end BcForge.RateLimit
