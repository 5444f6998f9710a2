import BcForge.Wrapper.Standard

/-! A holder that signs nothing keeps its shares, but for its allowances, and its queued exit. -/
namespace BcForge.Wrapper

open Soroban Call Admin

variable {env : Env} {s s' : Store} {op : Op} {a c : Address} {n m issued : ℤ} {u : Unit}
  {l : Ledger} {w : World Store}

/-- How many of the shares of `a` may still be drawn by `sp`. -/
def drawable (w : World Store) (a sp : Address) : ℤ := max 0 (readAllowance w.ledger a sp w.store)

/-- Whatever a call does in the name of a holder, the holder has signed for. -/
theorem holder_signed (h : Runs (exec op) env s u s') :
    ∀ o ∈ op.standard l issued, o.holder = some a → env.Authorized a := by
  intro o ho ha
  cases op with
  | unwrap caller wrappedAmount =>
    obtain rfl := List.mem_singleton.mp ho
    obtain rfl := Option.some.inj ha
    exact (runs_unwrap h).2.1
  | withdraw caller shares =>
    obtain ⟨m, hr⟩ := runs_discarded.mp h
    have hsigned : env.Authorized caller := (runs_withdraw hr).2.1
    rw [Op.standard] at ho
    split at ho
    · cases ho
    · obtain rfl := List.mem_singleton.mp ho
      obtain rfl := Option.some.inj ha
      exact hsigned
  | approve owner spender amount expiry =>
    obtain rfl := List.mem_singleton.mp ho
    obtain rfl := Option.some.inj ha
    exact (leaves_approve h).1
  | transfer src dst amount =>
    obtain rfl := List.mem_singleton.mp ho
    obtain rfl := Option.some.inj ha
    exact (leaves_transfer h).1
  | burn owner amount =>
    obtain rfl := List.mem_singleton.mp ho
    obtain rfl := Option.some.inj ha
    exact (leaves_burn h).1
  | wrap caller amount =>
    obtain rfl := List.mem_singleton.mp ho
    cases ha
  | deposit caller assets =>
    obtain rfl := List.mem_singleton.mp ho
    cases ha
  | transferFrom spender src dst amount =>
    obtain rfl := List.mem_singleton.mp ho
    cases ha
  | burnFrom spender owner amount =>
    obtain rfl := List.mem_singleton.mp ho
    cases ha
  | _ => cases ho

theorem holder_step (w : World Store) (l : Label Op) :
    ∀ o ∈ standardSteps w l, o.holder = some a → l.SignedBy a := by
  intro o ho ha
  cases l with
  | close l =>
    obtain rfl := List.mem_singleton.mp ho
    cases ha
  | call signers uploaded op =>
    rcases World.call_cases exec w signers uploaded op with hr | ⟨hfail, -⟩
    · rw [standardSteps, if_pos (isOk_of_runs hr)] at ho
      have hsigned := holder_signed hr o ho ha
      rw [World.env_authorized] at hsigned
      exact hsigned.2
    · rw [standardSteps, if_neg hfail] at ho
      cases ho

/-- Only its owner queues an exit, and only its owner is paid one. -/
theorem queue_unsigned (hv : ∀ c, env.Authorized c → c ≠ env.self) (ha : ¬ env.Authorized a)
    (h : Runs (exec op) env s u s') : s'.queuedWithdrawal a = s.queuedWithdrawal a := by
  cases exec_effect hv h with
  | enter c n m t hop hl hc => rfl
  | unwrap c n x t hop hl hc => rfl
  | enqueue c n x windows hop hl hc =>
    have hne : a ≠ c := fun he => ha (he ▸ hc)
    exact Function.update_of_ne hne _ _
  | pay c n x windows t hop hl hc => rfl
  | claim c q t hop hl hc =>
    have hne : a ≠ c := fun he => ha (he ▸ hc)
    exact Function.update_of_ne hne _ _
  | move => rfl
  | destroy => rfl
  | aside _ hop hsame haside => exact congrFun haside.queue a

theorem queue_next {l : Label Op} (hl : ¬ l.SignedBy a) :
    (w.next exec l).store.queuedWithdrawal a = w.store.queuedWithdrawal a := by
  cases l with
  | close l => rw [World.next_close_store]
  | call signers uploaded op =>
    rcases World.call_cases exec w signers uploaded op with hr | ⟨-, hs⟩
    · refine queue_unsigned World.authorized_ne_self ?_ hr
      intro ha
      rw [World.env_authorized] at ha
      exact hl ha.2
    · rw [hs]

theorem queue_run {ls : List (Label Op)} (hls : w.EveryStep exec (fun _ l => ¬ l.SignedBy a) ls) :
    (w.run exec ls).store.queuedWithdrawal a = w.store.queuedWithdrawal a := by
  induction ls generalizing w with
  | nil => rfl
  | cons l ls ih => exact (ih hls.2).trans (queue_next hls.1)

theorem drawable_seen {t : Token} {sp : Address} (h : Seen w.ledger w.store t) :
    drawable w a sp = t.drawable a sp := by
  rw [drawable, Token.drawable, h.allowance]

/-- From any reachable state on, a holder that signs none of the calls keeps its shares but for
what is drawn on the allowances it had given by then, none of which grows, and the exit it has
queued stays queued, for the same amount and the same ledger. -/
theorem unsigned_holder_keeps (h : Deployed w) (ls₀ ls : List (Label Op)) (a : Address)
    (hls : (w.run exec ls₀).EveryStep exec (fun _ l => ¬ l.SignedBy a) ls) :
    (∀ sp, drawable ((w.run exec ls₀).run exec ls) a sp ≤ drawable (w.run exec ls₀) a sp) ∧
      (∀ S : Finset Address, (∀ sp, sp ∉ S → drawable (w.run exec ls₀) a sp = 0) →
        (w.run exec ls₀).store.balance a - ((w.run exec ls₀).run exec ls).store.balance a ≤
          ∑ sp ∈ S, (drawable (w.run exec ls₀) a sp -
            drawable ((w.run exec ls₀).run exec ls) a sp)) ∧
      ((w.run exec ls₀).run exec ls).store.queuedWithdrawal a =
        (w.run exec ls₀).store.queuedWithdrawal a := by
  obtain ⟨t, -, ht⟩ := explains_wrapper.run trivial (seen_deployed h) ls₀
  obtain ⟨t', ht', hkeeps⟩ := explains_wrapper.keeps holder_step trivial ht hls
  simp only [drawable_seen ht, drawable_seen ht', ← ht.balance, ← ht'.balance]
  exact ⟨hkeeps.drawable_le, hkeeps.balance, queue_run hls⟩

/-- Account 2 has nothing allowed to anybody and some of its shares in the queue; account 3 joins,
leaves, and tries to take from account 2. -/
def bystander : List (Label Op) :=
  fundedDeposit ⟨3⟩ 500000000 ++
    [.call [⟨3⟩] [] (.transferFrom ⟨3⟩ ⟨2⟩ ⟨3⟩ 1),
     .call [⟨3⟩] [] (.claimWithdrawal ⟨2⟩),
     .call [⟨3⟩] [] (.withdraw ⟨3⟩ 500000000)]

theorem bystander_keeps :
    500000000 - ((genesis.run exec mixedRun).run exec bystander).store.balance ⟨2⟩ ≤ 0 ∧
      ((genesis.run exec mixedRun).run exec bystander).store.queuedWithdrawal ⟨2⟩ =
        (genesis.run exec mixedRun).store.queuedWithdrawal ⟨2⟩ := by
  have hunsigned : (genesis.run exec mixedRun).EveryStep exec
      (fun _ l => ¬ l.SignedBy ⟨2⟩) bystander :=
    ⟨by decide, by decide, by decide, by decide, by decide, by decide, trivial⟩
  have hnone : ∀ sp, sp ∉ (∅ : Finset Address) →
      drawable (genesis.run exec mixedRun) ⟨2⟩ sp = 0 := fun _ _ => rfl
  obtain ⟨-, hkept, hqueue⟩ :=
    unsigned_holder_keeps genesis_deployed mixedRun bystander ⟨2⟩ hunsigned
  have hbefore : (genesis.run exec mixedRun).store.balance ⟨2⟩ = 500000000 := by decide
  have hle := hkept ∅ hnone
  rw [Finset.sum_empty, hbefore] at hle
  exact ⟨hle, hqueue⟩

end BcForge.Wrapper
