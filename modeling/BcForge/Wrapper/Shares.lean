import BcForge.Wrapper.Solvency

/-! The shares themselves: that they are conserved, and what a deposit lockup keeps in place. -/
namespace BcForge.Wrapper

open Soroban Call Admin

variable {env : Env} {s s' : Store} {w : World Store} {l : Label Op} {ls : List (Label Op)}
  {u : Address} {op : Op}

section Conservation

/-- The supply is the sum of all balances, none of which is negative. -/
def SharesConserved (s : Store) : Prop :=
  HasTotal s.balance s.supply ∧ ∀ a, 0 ≤ s.balance a

/-- Behind its check, the plain arithmetic on balances and supply neither overflows nor goes
below zero. -/
def InBounds (s : Store) : Prop :=
  ∀ src dst n, 0 < n → n ≤ s.balance src →
    (0 ≤ s.balance src - n ∧ I128.InRange (s.balance src - n)) ∧
      (0 ≤ s.supply - n ∧ I128.InRange (s.supply - n)) ∧
      (src ≠ dst → 0 ≤ s.balance dst + n ∧ I128.InRange (s.balance dst + n))

theorem inRange_of_nonneg {x : ℤ} (h : 0 ≤ x) (hle : x ≤ I128.MAX) : I128.InRange x := by
  have hmin : I128.MIN ≤ 0 := by decide
  exact ⟨hmin.trans h, hle⟩

theorem inBounds_of_conserved (h : SharesConserved s) (hmax : s.supply ≤ I128.MAX) :
    InBounds s := by
  intro src dst n hn hb
  have hsrc := h.1.le h.2 src
  refine ⟨⟨by omega, inRange_of_nonneg (by omega) (by omega)⟩,
    ⟨by omega, inRange_of_nonneg (by omega) (by omega)⟩, fun hd => ?_⟩
  have hdst := h.2 dst
  have hboth := h.1.add_le h.2 hd
  exact ⟨by omega, inRange_of_nonneg (by omega) (by omega)⟩

/-- Only an entry raises the supply, and it checks the sum. -/
theorem supply_le_effect (hmax : s.supply ≤ I128.MAX) (h : Effect env s op s') :
    s'.supply ≤ I128.MAX := by
  cases h with
  | enter c n m t hop hl ha hn hm ht hr => exact hr.2
  | unwrap c n x t hop hl ha hfree hn hb hx hpos ht =>
    change s.supply - n ≤ I128.MAX
    omega
  | enqueue c n x windows hop hl ha hfree hn hb hq hx hpos hcap he =>
    change s.supply - n ≤ I128.MAX
    omega
  | pay c n x windows t hop hl ha hfree hn hb hq hx hpos hcap he ht =>
    change s.supply - n ≤ I128.MAX
    omega
  | claim c q t hop hl ha hq hr ht => exact hmax
  | move src dst n allowance expiry hop hn hb => exact hmax
  | destroy c n allowance expiry hop hn hb =>
    change s.supply - n ≤ I128.MAX
    omega
  | aside _ hop hsame haside hfund => exact haside.supply ▸ hmax

theorem supply_le_next (hmax : w.store.supply ≤ I128.MAX) :
    (w.next exec l).store.supply ≤ I128.MAX := by
  have hstep : ∀ signers uploaded op s', Runs (exec op) (w.env signers uploaded) w.store () s' →
      s'.supply ≤ I128.MAX :=
    fun _ _ _ _ hr => supply_le_effect hmax (exec_effect World.authorized_ne_self hr)
  exact World.next_store (P := fun s : Store => s.supply ≤ I128.MAX) hmax hstep

theorem supply_le_deployed (h : Deployed w) : w.store.supply ≤ I128.MAX := by
  obtain ⟨access, token, decimal, underlying, foreign, -, hs⟩ := h.store_eq
  rw [hs]
  exact (by decide : (0 : ℤ) ≤ I128.MAX)

theorem supply_le_run (h : Deployed w) (ls : List (Label Op)) :
    (w.run exec ls).store.supply ≤ I128.MAX :=
  World.run_induction (P := fun w : World Store => w.store.supply ≤ I128.MAX)
    (supply_le_deployed h) fun _ _ => supply_le_next

/-- In every state of every run the shares add up, and no exit, burn or transfer can overflow. -/
theorem shares_conserved (h : Deployed w) :
    w.EveryState exec (fun w => SharesConserved w.store ∧ InBounds w.store) ls := by
  have hinv : w.EveryState exec (fun w => Ready w ∧ w.store.supply ≤ I128.MAX) ls :=
    World.everyState_of_invariant ⟨ready_deployed h, supply_le_deployed h⟩
      fun _ _ hw => ⟨ready_next hw.1, supply_le_next hw.2⟩
  refine World.everyState_mono ?_ hinv
  rintro w ⟨hw, hmax⟩
  have hcons : SharesConserved w.store := ⟨hw.balanced.shares_total, hw.balanced.shares_nonneg⟩
  exact ⟨hcons, inBounds_of_conserved hcons hmax⟩

/-- Entries at both prices, a transfer to oneself and to another, a burn and a queued exit. -/
def mixedRun : List (Label Op) :=
  fundedDeposit ⟨2⟩ 1000000000 ++
    [.call [⟨2⟩] [] (.transfer ⟨2⟩ ⟨2⟩ 400000000),
     .call [⟨2⟩] [] (.transfer ⟨2⟩ ⟨3⟩ 300000000),
     .call [⟨3⟩] [] (.burn ⟨3⟩ 100000000),
     .call [⟨1⟩] [] (.setCooldownConfig ⟨1⟩ ⟨true, 10, 0, 0⟩),
     .call [⟨2⟩] [] (.withdraw ⟨2⟩ 200000000)]

theorem shares_conserved_mixedRun :
    genesis.EveryState exec (fun w => SharesConserved w.store ∧ InBounds w.store) mixedRun ∧
      (genesis.run exec mixedRun).store.supply = 700000000 :=
  ⟨shares_conserved genesis_deployed, by decide⟩

end Conservation

section Lockup

/-- What `set_unlock_time` leaves behind. -/
theorem unlockTime_setUnlockTime {caller : Address} {unlock : ℕ}
    (h : Runs (exec (.setUnlockTime caller u unlock)) env s () s') :
    s'.unlockTime u = some unlock := by
  simp only [exec, setUnlockTime, runs_ensureInitialized_bind, runs_requireAdmin_bind,
    runs_modify] at h
  obtain ⟨-, -, -, rfl⟩ := h
  exact Function.update_self ..

/-- The calls through which value can leave a position. -/
def Op.isExit : Op → Bool
  | .unwrap _ _ => true
  | .withdraw _ _ => true
  | .transfer _ _ _ => true
  | .transferFrom _ _ _ _ => true
  | _ => false

/-- While the lockup runs, no exit call takes from the user's shares. -/
def HeldUntil (u : Address) (unlock : ℕ) (w : World Store) (l : Label Op) : Prop :=
  ∀ signers uploaded op, l = .call signers uploaded op → op.isExit = true →
    w.ledger.timestamp < unlock → w.store.balance u ≤ (w.next exec l).store.balance u

/-- The call hands no shares of the locked user to anybody else. -/
def HandsNoneOn (u : Address) (unlock : ℕ) (w : World Store) : Op → Prop
  | .transfer src dst _ => w.ledger.timestamp < unlock → src = u → dst = u
  | .transferFrom _ src dst _ => w.ledger.timestamp < unlock → src = u → dst = u
  | _ => True

/-- The lockup of `u` is neither replaced nor lifted. -/
def KeepsLockup (u : Address) (_ : World Store) (op : Op) : Prop :=
  ∀ unlock, op.relocks ≠ some (u, unlock)

theorem unlockTime_effect {unlock : ℕ} (hu : s.unlockTime u = some unlock)
    (hk : ∀ unlock, op.relocks ≠ some (u, unlock)) (h : Effect env s op s') :
    s'.unlockTime u = some unlock := by
  cases h with
  | aside _ hop hsame haside hfund =>
    rw [haside.unlockTime]
    cases hr : op.relocks with
    | none => exact hu
    | some change =>
      obtain ⟨user, v⟩ := change
      have hne : u ≠ user := by
        rintro rfl
        exact hk v hr
      change Function.update s.unlockTime user v u = some unlock
      rw [Function.update_of_ne hne, hu]
  | _ => exact hu

theorem unlockTime_next {unlock : ℕ} (hu : w.store.unlockTime u = some unlock)
    (hk : World.OnSuccess exec (KeepsLockup u) w l) :
    (w.next exec l).store.unlockTime u = some unlock := by
  rcases World.next_cases exec w l with ⟨hs, -⟩ | ⟨signers, uploaded, op, rfl, hr⟩
  · rw [hs]
    exact hu
  · exact unlockTime_effect hu (hk _ hr) (exec_effect World.authorized_ne_self hr)

/-- A locked user passes neither of the guarded exits. -/
theorem balance_debit_locked {c : Address} {n : ℤ} {unlock : ℕ}
    (hu : s.unlockTime u = some unlock) (hlt : env.ledger.timestamp < unlock)
    (hfree : ∀ t, s.unlockTime c = some t → t ≤ env.ledger.timestamp) :
    (debit c n s).balance u = s.balance u := by
  have hne : u ≠ c := by
    rintro rfl
    have hle := hfree unlock hu
    omega
  exact Function.update_of_ne hne ..

theorem balance_pay_ge {src dst : Address} {n : ℤ} (hn : 0 < n) (hs : src ≠ u) :
    s.balance u ≤ Book.pay src dst n s.balance u := by
  by_cases hd : u = dst
  · subst hd
    rw [Book.pay_dst]
    omega
  · unfold Book.pay
    rw [Function.update_of_ne hd, Function.update_of_ne hs.symm]

theorem balance_exit_ge {unlock : ℕ} (hu : s.unlockTime u = some unlock)
    (hlt : env.ledger.timestamp < unlock) (hop : op.isExit = true)
    (hon : ∀ src dst n, (op = .transfer src dst n ∨ ∃ spender, op = .transferFrom spender src dst n)
      → src = u → dst = u) (h : Effect env s op s') : s.balance u ≤ s'.balance u := by
  cases h with
  | enter c n m t he hl ha hn hm ht hr => obtain rfl | rfl := he <;> cases hop
  | unwrap c n x t he hl ha hfree hn hb hx hpos ht =>
    exact (balance_debit_locked hu hlt hfree).ge
  | enqueue c n x windows he hl ha hfree hn hb hq hx hpos hcap hon =>
    exact (balance_debit_locked hu hlt hfree).ge
  | pay c n x windows t he hl ha hfree hn hb hq hx hpos hcap hoff ht =>
    exact (balance_debit_locked hu hlt hfree).ge
  | claim c q t he hl ha hq hr ht => exact le_rfl
  | move src dst n allowance expiry he hn hb =>
    dsimp only
    split
    · exact le_rfl
    · rename_i hd
      refine balance_pay_ge hn ?_
      rintro rfl
      exact hd (hon src dst n he rfl).symm
  | destroy c n allowance expiry he hn hb => obtain rfl | ⟨_, rfl⟩ := he <;> cases hop
  | aside _ he hsame haside hfund => rw [haside.balance]

/-- Handing shares on takes them from the balance. -/
theorem balance_handed_lt {src dst : Address} {n : ℤ}
    (hop : op = .transfer src dst n ∨ ∃ spender, op = .transferFrom spender src dst n)
    (hd : dst ≠ src) (h : Effect env s op s') : s'.balance src < s.balance src := by
  cases h with
  | move src' dst' n' allowance expiry he hn hb =>
    have hsame : src' = src ∧ dst' = dst := by
      rcases hop with rfl | ⟨_, rfl⟩ <;> rcases he with he | ⟨_, he⟩ <;> cases he <;>
        exact ⟨rfl, rfl⟩
    obtain ⟨rfl, rfl⟩ := hsame
    change (if src' = dst' then s.balance else Book.pay src' dst' n' s.balance) src' <
      s.balance src'
    rw [if_neg hd.symm, Book.pay_src hd.symm]
    omega
  | aside _ he hsame haside hfund => obtain rfl | ⟨_, rfl⟩ := hop <;> cases he
  | enter c n m t he hl ha hn hm ht hr =>
    obtain rfl | ⟨_, rfl⟩ := hop <;> obtain he | he := he <;> cases he
  | claim c q t he hl ha hq hr ht =>
    obtain rfl | ⟨_, rfl⟩ := hop <;> obtain he | he := he <;> cases he
  | destroy c n allowance expiry he hn hb =>
    obtain rfl | ⟨_, rfl⟩ := hop <;> obtain he | ⟨_, he⟩ := he <;> cases he
  | unwrap c n x t he hl ha hfree hn hb hx hpos ht =>
    obtain rfl | ⟨_, rfl⟩ := hop <;> cases he
  | enqueue c n x windows he hl ha hfree hn hb hq hx hpos hcap hon =>
    obtain rfl | ⟨_, rfl⟩ := hop <;> cases he
  | pay c n x windows t he hl ha hfree hn hb hq hx hpos hcap hoff ht =>
    obtain rfl | ⟨_, rfl⟩ := hop <;> cases he

theorem heldUntil_iff {unlock : ℕ} (hu : w.store.unlockTime u = some unlock) :
    HeldUntil u unlock w l ↔ World.OnSuccess exec (HandsNoneOn u unlock) w l := by
  cases l with
  | close l => exact ⟨fun _ => trivial, fun _ _ _ _ h => nomatch h⟩
  | call signers uploaded op =>
    rcases World.call_cases exec w signers uploaded op with hr | ⟨hfail, hs⟩
    · have heff := exec_effect World.authorized_ne_self hr
      constructor
      · intro hheld s' _
        have hkept : op.isExit = true → w.ledger.timestamp < unlock →
            w.store.balance u ≤ (w.next exec (.call signers uploaded op)).store.balance u :=
          hheld signers uploaded op rfl
        cases op with
        | transfer src dst n =>
          rintro hlt rfl
          by_contra hd
          have hless := balance_handed_lt (Or.inl rfl) hd heff
          have hle := hkept rfl hlt
          omega
        | transferFrom spender src dst n =>
          rintro hlt rfl
          by_contra hd
          have hless := balance_handed_lt (Or.inr ⟨spender, rfl⟩) hd heff
          have hle := hkept rfl hlt
          omega
        | _ => trivial
      · intro hon
        rintro _ _ _ ⟨rfl, rfl, rfl⟩ hexit hlt
        refine balance_exit_ge hu hlt hexit ?_ heff
        rintro src dst n (rfl | ⟨_, rfl⟩) hsrc
        · exact hon _ hr hlt hsrc
        · exact hon _ hr hlt hsrc
    · refine ⟨fun _ s' hr => absurd (isOk_of_runs hr) hfail, fun _ _ _ _ _ _ _ => ?_⟩
      rw [hs]

/-- After `set_unlock_time`, and as long as the lockup is not changed again, the locked shares stay
where they are until it ends exactly when none of them is handed on. -/
theorem lockup_held_iff {caller : Address} {signers : List Address} {uploaded : List BytesN32}
    {unlock : ℕ}
    (hset : Runs (exec (.setUnlockTime caller u unlock)) (w.env signers uploaded) w.store () s')
    (hkeep : World.EveryStep exec (World.OnSuccess exec (KeepsLockup u)) { w with store := s' } ls) :
    World.EveryStep exec (HeldUntil u unlock) { w with store := s' } ls ↔
      World.EveryStep exec (World.OnSuccess exec (HandsNoneOn u unlock)) { w with store := s' } ls :=
  World.everyStep_congr (I := fun w => w.store.unlockTime u = some unlock)
    (unlockTime_setUnlockTime hset) (fun _ _ hu hk => unlockTime_next hu hk)
    (fun _ _ hu _ => heldUntil_iff hu) hkeep

/-- Account 2 has deposited, and its deposit is about to be locked. -/
def deposited : World Store := genesis.run exec (fundedDeposit ⟨2⟩ 1000000000)

/-- The locked deposit, until one second after the genesis ledger's time. -/
def lockedDeposit : World Store :=
  deposited.next exec (.call [⟨1⟩] [] (.setUnlockTime ⟨1⟩ ⟨2⟩ 1700000001))

theorem lockedDeposit_runs : Runs (exec (.setUnlockTime ⟨1⟩ ⟨2⟩ 1700000001))
    (deposited.env [⟨1⟩] []) deposited.store () lockedDeposit.store :=
  runs_invoke (by decide)

/-- The guarded exits fail, and a transfer to oneself moves nothing. -/
def guardedExits : List (Label Op) :=
  [.call [⟨2⟩] [] (.unwrap ⟨2⟩ 1000000000), .call [⟨2⟩] [] (.withdraw ⟨2⟩ 1000000000),
   .call [⟨2⟩] [] (.transfer ⟨2⟩ ⟨2⟩ 1000000000)]

theorem guardedExits_held :
    World.EveryStep exec (HeldUntil ⟨2⟩ 1700000001) lockedDeposit guardedExits := by
  refine (lockup_held_iff lockedDeposit_runs ?_).mpr ?_
  · exact ⟨fun _ _ _ => nofun, fun _ _ _ => nofun, fun _ _ _ => nofun, trivial⟩
  · exact ⟨fun _ _ => trivial, fun _ _ => trivial, fun _ _ _ _ => rfl, trivial⟩

/-- The locked account passes its shares to a fresh one, which withdraws them. -/
def handedOn : List (Label Op) :=
  [.call [⟨2⟩] [] (.transfer ⟨2⟩ ⟨3⟩ 1000000000), .call [⟨3⟩] [] (.withdraw ⟨3⟩ 1000000000)]

theorem handedOn_not_held :
    ¬ World.EveryStep exec (HeldUntil ⟨2⟩ 1700000001) lockedDeposit handedOn ∧
      (lockedDeposit.run exec handedOn).store.underlying.balance ⟨3⟩ = 1000000000 := by
  refine ⟨fun h => ?_, by decide⟩
  have hle := h.1 [⟨2⟩] [] _ rfl rfl (by decide)
  revert hle
  decide

end Lockup

end BcForge.Wrapper
