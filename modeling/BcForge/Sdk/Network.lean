import Mathlib.Data.Int.Order.Basic
import Mathlib.Data.List.Nodup
import Mathlib.Logic.Function.Basic

/-! The network behind the RPC server, as far as it decides which transactions execute: one
sequence number an account, each used once. -/
namespace BcForge.Sdk

structure Invocation where
  contractId : String
  method : String
  /-- Each argument by its XDR. -/
  args : List String
  deriving DecidableEq, Repr

/-- A signed transaction with one invocation. -/
structure Envelope where
  source : String
  sequence : ℤ
  fee : ℕ
  /-- The passphrase the signature is made for. -/
  network : String
  invocation : Invocation
  deriving DecidableEq, Repr

structure Network where
  passphrase : String
  /-- The last sequence number an account used. -/
  sequence : String → ℤ
  /-- The envelopes that reached the network. -/
  received : List Envelope
  /-- Those that executed successfully. -/
  executed : List Envelope

/-- A network that has not heard of the client yet. -/
def Network.fresh (passphrase : String) (sequence : String → ℤ) : Network :=
  ⟨passphrase, sequence, [], []⟩

def Network.receive (n : Network) (e : Envelope) : Network :=
  { n with received := e :: n.received }

/-- A ledger closes with a transaction: one the client submitted, which executes successfully or
fails, or somebody else's, which uses up a sequence number of its account. -/
inductive Inclusion where
  | submitted (e : Envelope) (success : Bool)
  | foreign (source : String)

def Network.use (n : Network) (source : String) : Network :=
  { n with sequence := Function.update n.sequence source (n.sequence source + 1) }

/-- A signature for another network and any sequence number but the next one are rejected. -/
def Network.record (n : Network) : Inclusion → Network
  | .submitted e success =>
    if e ∈ n.received ∧ e.network = n.passphrase ∧ e.sequence = n.sequence e.source + 1 then
      if success then { n.use e.source with executed := e :: n.executed } else n.use e.source
    else n
  | .foreign source => n.use source

def Network.recordAll (n : Network) (l : List Inclusion) : Network := l.foldl Network.record n

/-- How often an invocation executed. -/
def Network.executions (n : Network) (i : Invocation) : ℕ :=
  (n.executed.filter fun e => e.invocation = i).length

/-- Only envelopes in `A` reached the network, and no envelope executed twice: the sequence
numbers of the executed ones are used up. -/
structure Network.Within (A : Envelope → Prop) (n : Network) : Prop where
  received : ∀ e ∈ n.received, A e
  executed : ∀ e ∈ n.executed, A e ∧ e.network = n.passphrase ∧ e.sequence ≤ n.sequence e.source
  nodup : n.executed.Nodup

section Within
variable {A B : Envelope → Prop} {n : Network} {e : Envelope} {i : Invocation}

theorem within_fresh (passphrase : String) (sequence : String → ℤ) :
    (Network.fresh passphrase sequence).Within A := by
  constructor <;> simp [Network.fresh]

theorem Network.Within.mono (h : n.Within A) (hab : ∀ e, A e → B e) : n.Within B where
  received e he := hab e (h.received e he)
  executed e he := ⟨hab e (h.executed e he).1, (h.executed e he).2⟩
  nodup := h.nodup

theorem within_receive (h : n.Within A) (he : A e) : (n.receive e).Within A where
  received := by
    intro e' he'
    obtain rfl | he' := List.mem_cons.mp he'
    · exact he
    · exact h.received e' he'
  executed := h.executed
  nodup := h.nodup

theorem sequence_le_use (n : Network) (source a : String) :
    n.sequence a ≤ (n.use source).sequence a := by
  by_cases ha : a = source
  · subst ha
    simp only [Network.use, Function.update_self]
    omega
  · simp [Network.use, ha]

theorem within_use (h : n.Within A) (source : String) : (n.use source).Within A where
  received := h.received
  executed e he :=
    have hk := h.executed e he
    ⟨hk.1, hk.2.1, le_trans hk.2.2 (sequence_le_use n source e.source)⟩
  nodup := h.nodup

theorem within_record (h : n.Within A) (l : Inclusion) : (n.record l).Within A := by
  cases l with
  | foreign source => exact within_use h source
  | submitted e success =>
    simp only [Network.record]
    split
    case isFalse => exact h
    case isTrue hacc =>
      obtain ⟨hmem, hnet, hseq⟩ := hacc
      have hu := within_use h e.source
      cases success with
      | false => exact hu
      | true =>
        -- the number of `e` was free, those of the executed envelopes are not
        have hnew : e ∉ n.executed := by
          intro he
          have := (h.executed e he).2.2
          omega
        refine ⟨hu.received, ?_, List.nodup_cons.mpr ⟨hnew, h.nodup⟩⟩
        intro e' he'
        obtain rfl | he' := List.mem_cons.mp he'
        · refine ⟨h.received _ hmem, hnet, ?_⟩
          simp [Network.use, hseq]
        · exact hu.executed e' he'

theorem within_recordAll (h : n.Within A) (l : List Inclusion) : (n.recordAll l).Within A := by
  induction l generalizing n with
  | nil => exact h
  | cons x l ih => exact ih (within_record h x)

/-- For each network there is one envelope in `A` that asks for the invocation. -/
def OnlyOne (A : Envelope → Prop) (i : Invocation) : Prop :=
  ∀ e e', A e → A e' → e.network = e'.network → e.invocation = i → e'.invocation = i → e = e'

theorem executions_le_one (h : n.Within A) (hone : OnlyOne A i) : n.executions i ≤ 1 := by
  have hnodup := h.nodup.filter fun e => e.invocation = i
  have heq : ∀ e ∈ n.executed.filter (fun e => e.invocation = i),
      ∀ e' ∈ n.executed.filter (fun e => e.invocation = i), e = e' := by
    intro e he e' he'
    obtain ⟨hm, hi⟩ := List.mem_filter.mp he
    obtain ⟨hm', hi'⟩ := List.mem_filter.mp he'
    obtain ⟨ha, hn, _⟩ := h.executed e hm
    obtain ⟨ha', hn', _⟩ := h.executed e' hm'
    exact hone e e' ha ha' (hn.trans hn'.symm) (of_decide_eq_true hi) (of_decide_eq_true hi')
  unfold Network.executions
  generalize n.executed.filter (fun e => e.invocation = i) = l at hnodup heq
  match l with
  | [] => exact Nat.zero_le 1
  | [_] => exact Nat.le_refl 1
  | e :: e' :: _ =>
    have : e = e' := heq e (by simp) e' (by simp)
    simp [this] at hnodup

end Within

section Execute
variable {n : Network} {e e' : Envelope} {i : Invocation}

/-- The network after it received and executed the envelope. -/
def Network.execute (n : Network) (e : Envelope) : Network :=
  (n.receive e).record (.submitted e true)

@[simp] theorem passphrase_execute (n : Network) (e : Envelope) :
    (n.execute e).passphrase = n.passphrase := by
  unfold Network.execute Network.record
  dsimp only
  split
  · rfl
  · rfl

theorem sequence_execute (hp : e.network = n.passphrase)
    (hs : e.sequence = n.sequence e.source + 1) :
    (n.execute e).sequence = Function.update n.sequence e.source e.sequence := by
  simp [Network.execute, Network.receive, Network.record, Network.use, hp, hs]

theorem executions_execute (hp : e.network = n.passphrase)
    (hs : e.sequence = n.sequence e.source + 1) (hi : e.invocation = i) :
    (n.execute e).executions i = n.executions i + 1 := by
  simp [Network.execute, Network.receive, Network.record, Network.executions, hp, hs, hi,
    Network.use]

theorem executions_execute_execute {passphrase : String} {sequence : String → ℤ}
    (hp : e.network = passphrase) (hs : e.sequence = sequence e.source + 1)
    (hi : e.invocation = i) (hp' : e'.network = passphrase)
    (hs' : e'.sequence = Function.update sequence e.source e.sequence e'.source + 1)
    (hi' : e'.invocation = i) :
    (((Network.fresh passphrase sequence).execute e).execute e').executions i = 2 := by
  have hone : ((Network.fresh passphrase sequence).execute e).executions i = 1 :=
    executions_execute hp hs hi
  rw [executions_execute _ _ hi', hone]
  · rw [passphrase_execute]
    exact hp'
  · rw [sequence_execute hp hs]
    exact hs'

end Execute

end BcForge.Sdk
