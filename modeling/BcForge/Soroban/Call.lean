import Mathlib.Algebra.Group.Nat.Defs
import Mathlib.Data.Nat.Basic
import Mathlib.Logic.Function.Basic
import Mathlib.Logic.Unique

/-! Contract calls on a Soroban host: a store, the invocation's environment, and failures. -/
namespace Soroban

/-- Addresses are opaque to contracts, which only compare them. -/
structure Address where
  id : ℕ
deriving DecidableEq, Repr

/-- A 32-byte value such as a WASM hash. -/
abbrev BytesN32 := BitVec 256

/-- The closed ledger a call executes in: a `u32` sequence number and a `u64` close time. -/
structure Ledger where
  sequence : ℕ
  timestamp : ℕ
  sequence_lt : sequence < 2 ^ 32
  timestamp_lt : timestamp < 2 ^ 64

/-- The ledger with these numbers, taken as a `u32` and a `u64`. -/
def Ledger.ofNat (sequence timestamp : ℕ) : Ledger where
  sequence := sequence % 2 ^ 32
  timestamp := timestamp % 2 ^ 64
  sequence_lt := Nat.mod_lt _ (by decide)
  timestamp_lt := Nat.mod_lt _ (by decide)

/-- What one invocation can learn from the host. -/
structure Env where
  ledger : Ledger
  self : Address
  /-- The accounts that authorized this invocation. -/
  signers : List Address
  /-- A contract cannot sign for itself, except in the invocation that deploys it. -/
  deploying : Bool
  /-- WASM hashes uploaded to the ledger so far. -/
  uploaded : List BytesN32

def Env.Authorized (env : Env) (a : Address) : Prop :=
  if a = env.self then env.deploying = true else a ∈ env.signers

instance (env : Env) (a : Address) : Decidable (env.Authorized a) := by
  unfold Env.Authorized
  infer_instance

/-- Failures without a contract error code. -/
inductive Trap where
  | overflow
  | unauthorized
  | host
  | panic (message : String)
deriving DecidableEq, Repr

/-- `error` stands for both a returned `Err` and `panic_with_error!`. -/
inductive Failure (ε : Type) where
  | error (e : ε)
  | trap (t : Trap)
deriving DecidableEq, Repr

/-- A finished call: its value, its store, and the addresses whose authorization it asked for. -/
structure Done (σ α : Type) where
  value : α
  store : σ
  requested : List Address

def Call (σ ε α : Type) : Type := Env → σ → Except (Failure ε) (Done σ α)

namespace Call

variable {σ τ ε δ α β : Type}

def bind (x : Call σ ε α) (f : α → Call σ ε β) : Call σ ε β := fun env s =>
  match x env s with
  | .error e => .error e
  | .ok d =>
    match f d.value env d.store with
    | .error e => .error e
    | .ok d' => .ok ⟨d'.value, d'.store, d.requested ++ d'.requested⟩

instance : Monad (Call σ ε) where
  pure a := fun _ s => .ok ⟨a, s, []⟩
  bind := Call.bind

def fail (e : ε) : Call σ ε α := fun _ _ => .error (.error e)

def trap (t : Trap) : Call σ ε α := fun _ _ => .error (.trap t)

/-- The guard `if c { return Err(e) }`. -/
def failIf (c : Prop) [Decidable c] (e : ε) : Call σ ε Unit :=
  if c then fail e else pure ()

def trapIf (c : Prop) [Decidable c] (t : Trap) : Call σ ε Unit :=
  if c then trap t else pure ()

def gets (f : σ → α) : Call σ ε α := fun _ s => .ok ⟨f s, s, []⟩

def modify (f : σ → σ) : Call σ ε Unit := fun _ s => .ok ⟨(), f s, []⟩

def ledger : Call σ ε Ledger := fun env s => .ok ⟨env.ledger, s, []⟩

def self : Call σ ε Address := fun env s => .ok ⟨env.self, s, []⟩

def requireAuth (a : Address) : Call σ ε Unit := fun env s =>
  if env.Authorized a then .ok ⟨(), s, [a]⟩ else .error (.trap .unauthorized)

/-- `ok_or`: the value of an option, or a contract error. -/
def okOr (o : Option α) (e : ε) : Call σ ε α :=
  match o with
  | some a => pure a
  | none => fail e

/-- `expect`: the value of an option, or a panic. -/
def expect (o : Option α) (t : Trap) : Call σ ε α :=
  match o with
  | some a => pure a
  | none => trap t

/-- The host rejects a WASM update to a hash that was never uploaded. -/
def requireUploaded (hash : BytesN32) : Call σ ε Unit := fun env s =>
  if hash ∈ env.uploaded then .ok ⟨(), s, []⟩ else .error (.trap .host)

/-- Access to a part of a store. -/
structure Lens (σ τ : Type) where
  get : σ → τ
  set : τ → σ → σ

/-- A library call on a part of the store; its errors are reported through `wrap`. -/
def within (l : Lens σ τ) (wrap : δ → ε) (x : Call τ δ α) : Call σ ε α := fun env s =>
  match x env (l.get s) with
  | .ok d => .ok ⟨d.value, l.set d.store s, d.requested⟩
  | .error (.error e) => .error (.error (wrap e))
  | .error (.trap t) => .error (.trap t)

/-- A reentrancy flag held around `body`; it is released when the guard goes out of scope. -/
def guarded (flag : Lens σ Bool) (message : String) (body : Call σ ε α) : Call σ ε α := do
  let entered ← gets flag.get
  trapIf (entered = true) (.panic message)
  modify (flag.set true)
  let a ← body
  modify (flag.set false)
  pure a

variable {γ : Type}

theorem pure_bind (a : α) (f : α → Call σ ε β) : (pure a : Call σ ε α) >>= f = f a := by
  funext env s
  change Call.bind _ f env s = _
  unfold Call.bind
  cases h : f a env s with
  | error e => simp [pure, h]
  | ok d => simp [pure, h]

theorem bind_assoc (x : Call σ ε α) (f : α → Call σ ε β) (g : β → Call σ ε γ) :
    (x >>= f) >>= g = x >>= fun a => f a >>= g := by
  funext env s
  change Call.bind (Call.bind x f) g env s = Call.bind x (fun a => Call.bind (f a) g) env s
  unfold Call.bind
  cases x env s with
  | error e => rfl
  | ok d =>
    dsimp only
    cases f d.value env d.store with
    | error e => rfl
    | ok d' =>
      dsimp only
      cases g d'.value env d'.store with
      | error e => rfl
      | ok d'' => simp only [List.append_assoc]

end Call

variable {σ τ ε δ α β γ : Type}

/-- The call succeeds with value `a` and leaves the store `s'`. -/
def Runs (x : Call σ ε α) (env : Env) (s : σ) (a : α) (s' : σ) : Prop :=
  ∃ log, x env s = .ok ⟨a, s', log⟩

variable {env : Env} {s s' s'' : σ} {a : α} {b : β} {u : Unit}

theorem runs_ok_iff {x : Call σ ε α} {d : Done σ α} (h : x env s = .ok d) :
    Runs x env s a s' ↔ a = d.value ∧ s' = d.store := by
  constructor
  · rintro ⟨log, hl⟩
    rw [h] at hl
    cases hl
    exact ⟨rfl, rfl⟩
  · rintro ⟨rfl, rfl⟩
    exact ⟨d.requested, h⟩

/-- Calls are deterministic. -/
theorem Runs.unique {x : Call σ ε α} {a' : α} (h : Runs x env s a s') (h' : Runs x env s a' s'') :
    a' = a ∧ s'' = s' := by
  obtain ⟨log, hx⟩ := h
  exact (runs_ok_iff hx).mp h'

theorem runs_error {x : Call σ ε α} {e : Failure ε} (h : x env s = .error e) :
    ¬ Runs x env s a s' := by
  rintro ⟨log, hl⟩
  rw [h] at hl
  cases hl

theorem runs_bind {x : Call σ ε α} {f : α → Call σ ε β} :
    Runs (x >>= f) env s b s'' ↔ ∃ a s', Runs x env s a s' ∧ Runs (f a) env s' b s'' := by
  constructor
  · rintro ⟨log, h⟩
    change Call.bind x f env s = _ at h
    unfold Call.bind at h
    split at h
    · cases h
    · rename_i d hd
      split at h
      · cases h
      · rename_i d' hd'
        cases h
        exact ⟨d.value, d.store, ⟨_, hd⟩, ⟨_, hd'⟩⟩
  · rintro ⟨a, s', ⟨l, hx⟩, ⟨l', hf⟩⟩
    refine ⟨l ++ l', ?_⟩
    change Call.bind x f env s = _
    simp [Call.bind, hx, hf]

@[simp] theorem runs_bind_assoc {x : Call σ ε α} {f : α → Call σ ε β} {g : β → Call σ ε γ}
    {c : γ} : Runs ((x >>= f) >>= g) env s c s' ↔ Runs (x >>= fun a => f a >>= g) env s c s' := by
  simp only [runs_bind]
  grind

@[simp] theorem runs_pure {a' : α} :
    Runs (pure a' : Call σ ε α) env s a s' ↔ a = a' ∧ s' = s :=
  runs_ok_iff (d := ⟨a', s, []⟩) rfl

@[simp] theorem runs_fail {e : ε} : ¬ Runs (Call.fail e : Call σ ε α) env s a s' :=
  runs_error rfl

@[simp] theorem runs_trap {t : Trap} : ¬ Runs (Call.trap t : Call σ ε α) env s a s' :=
  runs_error rfl

@[simp] theorem runs_gets {f : σ → α} :
    Runs (Call.gets f : Call σ ε α) env s a s' ↔ a = f s ∧ s' = s :=
  runs_ok_iff (d := ⟨f s, s, []⟩) rfl

@[simp] theorem runs_modify {f : σ → σ} :
    Runs (Call.modify f : Call σ ε Unit) env s u s' ↔ s' = f s := by
  simpa using runs_ok_iff (x := (Call.modify f : Call σ ε Unit)) (a := u)
    (d := ⟨(), f s, []⟩) rfl

@[simp] theorem runs_ledger {l : Ledger} :
    Runs (Call.ledger : Call σ ε Ledger) env s l s' ↔ l = env.ledger ∧ s' = s :=
  runs_ok_iff (d := ⟨env.ledger, s, []⟩) rfl

@[simp] theorem runs_self {x : Address} :
    Runs (Call.self : Call σ ε Address) env s x s' ↔ x = env.self ∧ s' = s :=
  runs_ok_iff (d := ⟨env.self, s, []⟩) rfl

@[simp] theorem runs_ite {c : Prop} {_ : Decidable c} {x y : Call σ ε α} :
    Runs (if c then x else y) env s a s' ↔ (c ∧ Runs x env s a s') ∨ (¬c ∧ Runs y env s a s') := by
  split <;> simp_all

@[simp] theorem runs_failIf {c : Prop} {_ : Decidable c} {e : ε} :
    Runs (Call.failIf c e : Call σ ε Unit) env s u s' ↔ ¬c ∧ s' = s := by
  simp [Call.failIf]

@[simp] theorem runs_trapIf {c : Prop} {_ : Decidable c} {t : Trap} :
    Runs (Call.trapIf c t : Call σ ε Unit) env s u s' ↔ ¬c ∧ s' = s := by
  simp [Call.trapIf]

@[simp] theorem runs_requireAuth {x : Address} :
    Runs (Call.requireAuth x : Call σ ε Unit) env s u s' ↔ env.Authorized x ∧ s' = s := by
  by_cases h : env.Authorized x <;> simp [Runs, Call.requireAuth, h, eq_comm]

@[simp] theorem runs_requireUploaded {hash : BytesN32} :
    Runs (Call.requireUploaded hash : Call σ ε Unit) env s u s' ↔ hash ∈ env.uploaded ∧ s' = s := by
  by_cases h : hash ∈ env.uploaded <;> simp [Runs, Call.requireUploaded, h, eq_comm]

@[simp] theorem runs_okOr {o : Option α} {e : ε} :
    Runs (Call.okOr o e : Call σ ε α) env s a s' ↔ o = some a ∧ s' = s := by
  cases o <;> simp [Call.okOr, eq_comm]

@[simp] theorem runs_expect {o : Option α} {t : Trap} :
    Runs (Call.expect o t : Call σ ε α) env s a s' ↔ o = some a ∧ s' = s := by
  cases o <;> simp [Call.expect, eq_comm]

@[simp] theorem runs_within {l : Call.Lens σ τ} {wrap : δ → ε} {x : Call τ δ α} :
    Runs (Call.within l wrap x) env s a s' ↔ ∃ t, Runs x env (l.get s) a t ∧ s' = l.set t s := by
  constructor
  · rintro ⟨log, h⟩
    unfold Call.within at h
    split at h <;> cases h
    rename_i d hd
    exact ⟨d.store, ⟨_, hd⟩, rfl⟩
  · rintro ⟨t, ⟨log, h⟩, rfl⟩
    exact ⟨log, by simp [Call.within, h]⟩

/-! Sequencing: a step that cannot branch is absorbed without an intermediate store. -/

@[simp] theorem runs_pure_bind {k : α → Call σ ε β} :
    Runs (pure a >>= k) env s b s' ↔ Runs (k a) env s b s' := by
  simp [runs_bind, and_assoc]

@[simp] theorem runs_gets_bind {f : σ → α} {k : α → Call σ ε β} :
    Runs (Call.gets f >>= k) env s b s' ↔ Runs (k (f s)) env s b s' := by
  simp [runs_bind, and_assoc]

@[simp] theorem runs_ledger_bind {k : Ledger → Call σ ε β} :
    Runs (Call.ledger >>= k) env s b s' ↔ Runs (k env.ledger) env s b s' := by
  simp [runs_bind, and_assoc]

@[simp] theorem runs_self_bind {k : Address → Call σ ε β} :
    Runs (Call.self >>= k) env s b s' ↔ Runs (k env.self) env s b s' := by
  simp [runs_bind, and_assoc]

@[simp] theorem runs_modify_bind {f : σ → σ} {k : Unit → Call σ ε β} :
    Runs (Call.modify f >>= k) env s b s' ↔ Runs (k ()) env (f s) b s' := by
  simp [runs_bind, Unique.exists_iff]

@[simp] theorem runs_failIf_bind {c : Prop} {_ : Decidable c} {e : ε} {k : Unit → Call σ ε β} :
    Runs (Call.failIf c e >>= k) env s b s' ↔ ¬c ∧ Runs (k ()) env s b s' := by
  simp [runs_bind, and_assoc, Unique.exists_iff]

@[simp] theorem runs_trapIf_bind {c : Prop} {_ : Decidable c} {t : Trap} {k : Unit → Call σ ε β} :
    Runs (Call.trapIf c t >>= k) env s b s' ↔ ¬c ∧ Runs (k ()) env s b s' := by
  simp [runs_bind, and_assoc, Unique.exists_iff]

@[simp] theorem runs_requireAuth_bind {x : Address} {k : Unit → Call σ ε β} :
    Runs (Call.requireAuth x >>= k) env s b s' ↔ env.Authorized x ∧ Runs (k ()) env s b s' := by
  simp [runs_bind, and_assoc, Unique.exists_iff]

@[simp] theorem runs_requireUploaded_bind {hash : BytesN32} {k : Unit → Call σ ε β} :
    Runs (Call.requireUploaded hash >>= k) env s b s' ↔
      hash ∈ env.uploaded ∧ Runs (k ()) env s b s' := by
  simp [runs_bind, and_assoc, Unique.exists_iff]

@[simp] theorem runs_okOr_bind {o : Option α} {e : ε} {k : α → Call σ ε β} :
    Runs (Call.okOr o e >>= k) env s b s' ↔ ∃ a, o = some a ∧ Runs (k a) env s b s' := by
  simp [runs_bind, and_assoc]

@[simp] theorem runs_expect_bind {o : Option α} {t : Trap} {k : α → Call σ ε β} :
    Runs (Call.expect o t >>= k) env s b s' ↔ ∃ a, o = some a ∧ Runs (k a) env s b s' := by
  simp [runs_bind, and_assoc]

@[simp] theorem runs_ite_bind {c : Prop} {_ : Decidable c} {x y : Call σ ε α} {k : α → Call σ ε β} :
    Runs ((if c then x else y) >>= k) env s b s' ↔
      (c ∧ Runs (x >>= k) env s b s') ∨ (¬c ∧ Runs (y >>= k) env s b s') := by
  split <;> simp_all

/-- A call made for its effect: the value is dropped. -/
theorem runs_discarded {x : Call σ ε α} :
    Runs (x >>= fun _ => pure ()) env s u s' ↔ ∃ a, Runs x env s a s' := by
  simp [runs_bind]

theorem runs_guarded {flag : Call.Lens σ Bool} {message : String} {body : Call σ ε α} :
    Runs (Call.guarded flag message body) env s a s' ↔
      flag.get s = false ∧ ∃ t, Runs body env (flag.set true s) a t ∧ s' = flag.set false t := by
  simp only [Call.guarded, runs_gets_bind, runs_trapIf_bind, runs_modify_bind, Bool.not_eq_true]
  constructor
  · rintro ⟨hfree, hrest⟩
    obtain ⟨b, t, hbody, hrelease⟩ := runs_bind.mp hrest
    rw [runs_modify_bind, runs_pure] at hrelease
    obtain ⟨rfl, rfl⟩ := hrelease
    exact ⟨hfree, t, hbody, rfl⟩
  · rintro ⟨hfree, t, hbody, rfl⟩
    exact ⟨hfree, runs_bind.mpr ⟨a, t, hbody, by simp⟩⟩

end Soroban
