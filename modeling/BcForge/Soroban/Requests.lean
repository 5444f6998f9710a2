import BcForge.Soroban.Sep41

/-! The authorizations a call asks for, read off its steps. The host answers for an address once in
a frame, so a call that asks for one twice cannot succeed on it. -/
namespace Soroban

open Call

variable {σ τ ε δ α β γ : Type} {env : Env} {s : σ} {P : List Address → Prop}

/-- If the call gets through, what it has asked for is as `P` says. -/
def Asks (x : Call σ ε α) (env : Env) (s : σ) (P : List Address → Prop) : Prop :=
  ∀ d, x env s = .ok d → P d.requested

theorem asks_ok_iff {x : Call σ ε α} {d : Done σ α} (h : x env s = .ok d) :
    Asks x env s P ↔ P d.requested := by
  constructor
  · intro hx
    exact hx d h
  · intro hp d' hd'
    cases h.symm.trans hd'
    exact hp

theorem asks_error {x : Call σ ε α} {e : Failure ε} (h : x env s = .error e) : Asks x env s P := by
  intro d hd
  cases h.symm.trans hd

theorem Asks.mono {x : Call σ ε α} {Q : List Address → Prop} (h : Asks x env s P)
    (hpq : ∀ asked, P asked → Q asked) : Asks x env s Q :=
  fun d hd => hpq d.requested (h d hd)

theorem asks_bind {x : Call σ ε α} {f : α → Call σ ε β} : Asks (x >>= f) env s P ↔
    ∀ d, x env s = .ok d → Asks (f d.value) env d.store fun asked => P (d.requested ++ asked) := by
  constructor
  · intro h d hd d' hd'
    refine h ⟨d'.value, d'.store, d.requested ++ d'.requested⟩ ?_
    change Call.bind x f env s = _
    simp [Call.bind, hd, hd']
  · intro h d'' hd''
    change Call.bind x f env s = _ at hd''
    unfold Call.bind at hd''
    split at hd''
    · cases hd''
    · rename_i d hd
      split at hd''
      · cases hd''
      · rename_i d' hd'
        cases hd''
        exact h d hd d' hd'

/-- The first part asks for exactly `asked`, whatever it leaves behind. -/
theorem Asks.bind {x : Call σ ε α} {f : α → Call σ ε β} {asked : List Address}
    (hx : Asks x env s (· = asked)) (hf : ∀ a s', Asks (f a) env s' fun more => P (asked ++ more)) :
    Asks (x >>= f) env s P := by
  rw [asks_bind]
  intro d hd
  rw [hx d hd]
  exact hf d.value d.store

@[simp] theorem asks_bind_assoc {x : Call σ ε α} {f : α → Call σ ε β} {g : β → Call σ ε γ} :
    Asks ((x >>= f) >>= g) env s P ↔ Asks (x >>= fun a => f a >>= g) env s P := by
  have hassoc : (x >>= f) >>= g = x >>= fun a => f a >>= g := by
    funext env s
    change Call.bind (Call.bind x f) g env s = Call.bind x (fun a => Call.bind (f a) g) env s
    unfold Call.bind
    cases x env s with
    | error e => rfl
    | ok d =>
      dsimp only
      cases f d.value env d.store with
      | error e => rfl
      | ok d' =>
        dsimp only
        cases g d'.value env d'.store with
        | error e => rfl
        | ok d'' => simp
  rw [hassoc]

@[simp] theorem asks_pure {a : α} : Asks (pure a : Call σ ε α) env s P ↔ P [] :=
  asks_ok_iff (d := ⟨a, s, []⟩) rfl

@[simp] theorem asks_fail {e : ε} : Asks (fail e : Call σ ε α) env s P :=
  asks_error rfl

@[simp] theorem asks_gets {f : σ → α} : Asks (gets f : Call σ ε α) env s P ↔ P [] :=
  asks_ok_iff (d := ⟨f s, s, []⟩) rfl

@[simp] theorem asks_modify {f : σ → σ} : Asks (modify f : Call σ ε Unit) env s P ↔ P [] :=
  asks_ok_iff (d := ⟨(), f s, []⟩) rfl

@[simp] theorem asks_requireAuth {a : Address} :
    Asks (requireAuth a : Call σ ε Unit) env s P ↔ (env.Authorized a → P [a]) := by
  by_cases h : env.Authorized a
  · rw [asks_ok_iff (d := ⟨(), s, [a]⟩) (by simp [requireAuth, h])]
    exact ⟨fun hp _ => hp, fun hp => hp h⟩
  · refine iff_of_true (asks_error (e := .trap .unauthorized) ?_) (fun ha => absurd ha h)
    simp [requireAuth, h]

@[simp] theorem asks_ite {c : Prop} {_ : Decidable c} {x y : Call σ ε α} :
    Asks (if c then x else y) env s P ↔ (c → Asks x env s P) ∧ (¬ c → Asks y env s P) := by
  split <;> simp_all

@[simp] theorem asks_failIf {c : Prop} {_ : Decidable c} {e : ε} :
    Asks (failIf c e : Call σ ε Unit) env s P ↔ (¬ c → P []) := by
  simp [failIf]

@[simp] theorem asks_within {l : Lens σ τ} {wrap : δ → ε} {x : Call τ δ α} :
    Asks (within l wrap x) env s P ↔ Asks x env (l.get s) P := by
  cases h : x env (l.get s) with
  | ok d => rw [asks_ok_iff h, asks_ok_iff (d := ⟨d.value, l.set d.store s, d.requested⟩)
      (by simp [within, h])]
  | error e =>
    cases e with
    | error e => exact iff_of_true (asks_error (by simp [within, h]; rfl)) (asks_error h)
    | trap t => exact iff_of_true (asks_error (by simp [within, h]; rfl)) (asks_error h)

/-! Sequencing: a step that asks for nothing drops out. -/

section Sequencing

variable {k : α → Call σ ε β} {k' : Unit → Call σ ε β}

theorem asks_ok_bind {x : Call σ ε α} {d : Done σ α} (h : x env s = .ok d) :
    Asks (x >>= k) env s P ↔
      Asks (k d.value) env d.store fun asked => P (d.requested ++ asked) := by
  rw [asks_bind]
  constructor
  · intro hk
    exact hk d h
  · intro hk d' hd'
    cases h.symm.trans hd'
    exact hk

theorem asks_error_bind {x : Call σ ε α} {e : Failure ε} (h : x env s = .error e) :
    Asks (x >>= k) env s P := by
  rw [asks_bind]
  intro d hd
  cases h.symm.trans hd

@[simp] theorem asks_pure_bind {a : α} : Asks (pure a >>= k) env s P ↔ Asks (k a) env s P :=
  asks_ok_bind (d := ⟨a, s, []⟩) rfl

@[simp] theorem asks_gets_bind {f : σ → α} :
    Asks (gets f >>= k) env s P ↔ Asks (k (f s)) env s P :=
  asks_ok_bind (d := ⟨f s, s, []⟩) rfl

@[simp] theorem asks_ledger_bind {k : Ledger → Call σ ε β} :
    Asks (ledger >>= k) env s P ↔ Asks (k env.ledger) env s P :=
  asks_ok_bind (d := ⟨env.ledger, s, []⟩) rfl

@[simp] theorem asks_self_bind {k : Address → Call σ ε β} :
    Asks (self >>= k) env s P ↔ Asks (k env.self) env s P :=
  asks_ok_bind (d := ⟨env.self, s, []⟩) rfl

@[simp] theorem asks_modify_bind {f : σ → σ} :
    Asks (modify f >>= k') env s P ↔ Asks (k' ()) env (f s) P :=
  asks_ok_bind (d := ⟨(), f s, []⟩) rfl

@[simp] theorem asks_requireAuth_bind {a : Address} : Asks (requireAuth a >>= k') env s P ↔
    (env.Authorized a → Asks (k' ()) env s fun asked => P (a :: asked)) := by
  by_cases h : env.Authorized a
  · rw [asks_ok_bind (d := ⟨(), s, [a]⟩) (by simp [requireAuth, h])]
    exact ⟨fun hk _ => hk, fun hk => hk h⟩
  · refine iff_of_true (asks_error_bind (e := .trap .unauthorized) ?_) (fun ha => absurd ha h)
    simp [requireAuth, h]

@[simp] theorem asks_requireUploaded_bind {hash : BytesN32} :
    Asks (requireUploaded hash >>= k') env s P ↔
      (hash ∈ env.uploaded → Asks (k' ()) env s P) := by
  by_cases h : hash ∈ env.uploaded
  · rw [asks_ok_bind (d := ⟨(), s, []⟩) (by simp [requireUploaded, h])]
    exact ⟨fun hk _ => hk, fun hk => hk h⟩
  · refine iff_of_true (asks_error_bind (e := .trap .host) ?_) (fun ha => absurd ha h)
    simp [requireUploaded, h]

@[simp] theorem asks_fail_bind {e : ε} : Asks ((fail e : Call σ ε α) >>= k) env s P :=
  asks_error_bind rfl

@[simp] theorem asks_trap_bind {t : Trap} : Asks ((trap t : Call σ ε α) >>= k) env s P :=
  asks_error_bind rfl

@[simp] theorem asks_ite_bind {c : Prop} {_ : Decidable c} {x y : Call σ ε α} :
    Asks ((if c then x else y) >>= k) env s P ↔
      (c → Asks (x >>= k) env s P) ∧ (¬ c → Asks (y >>= k) env s P) := by
  split <;> simp_all

@[simp] theorem asks_failIf_bind {c : Prop} {_ : Decidable c} {e : ε} :
    Asks (failIf c e >>= k') env s P ↔ (¬ c → Asks (k' ()) env s P) := by
  simp [failIf]

@[simp] theorem asks_trapIf_bind {c : Prop} {_ : Decidable c} {t : Trap} :
    Asks (trapIf c t >>= k') env s P ↔ (¬ c → Asks (k' ()) env s P) := by
  simp [trapIf]

@[simp] theorem asks_okOr_bind {o : Option α} {e : ε} :
    Asks (okOr o e >>= k) env s P ↔ ∀ a, o = some a → Asks (k a) env s P := by
  cases o <;> simp [okOr]

@[simp] theorem asks_expect_bind {o : Option α} {t : Trap} :
    Asks (expect o t >>= k) env s P ↔ ∀ a, o = some a → Asks (k a) env s P := by
  cases o <;> simp [expect]

@[simp] theorem asks_i128_bind {x : ℤ} {k : ℤ → Call σ ε β} :
    Asks (i128 x >>= k) env s P ↔ (I128.InRange x → Asks (k x) env s P) := by
  simp [i128]

@[simp] theorem asks_u64_bind {x : ℕ} {k : ℕ → Call σ ε β} :
    Asks (u64 x >>= k) env s P ↔ (x < 2 ^ 64 → Asks (k x) env s P) := by
  simp [u64]

/-- The token's own frame is not the caller's. -/
@[simp] theorem asks_commit_bind {l : Lens σ Token} {f : Token → Option Token} :
    Asks (TokenClient.commit l f >>= k') env s P ↔
      ∀ t, f (l.get s) = some t → Asks (k' ()) env (l.set t s) P := by
  simp [TokenClient.commit]

@[simp] theorem asks_commit {l : Lens σ Token} {f : Token → Option Token} :
    Asks (TokenClient.commit l f : Call σ ε Unit) env s P ↔
      ∀ t, f (l.get s) = some t → P [] := by
  simp [TokenClient.commit]

@[simp] theorem asks_guarded {flag : Lens σ Bool} {message : String} {body : Call σ ε α} :
    Asks (guarded flag message body) env s P ↔
      (flag.get s = false → Asks body env (flag.set true s) P) := by
  simp only [guarded, asks_gets_bind, asks_trapIf_bind, asks_modify_bind, Bool.not_eq_true]
  refine imp_congr_right fun _ => ?_
  rw [asks_bind]
  simp only [asks_modify_bind, asks_pure, List.append_nil]
  rfl

end Sequencing

end Soroban
