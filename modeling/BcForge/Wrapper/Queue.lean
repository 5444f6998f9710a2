import BcForge.Wrapper.ProRata

/-! What becomes of the queued withdrawals. -/
namespace BcForge.Wrapper

open Soroban Call Admin

variable {env : Env} {s s' : Store} {w : World Store} {l : Label Op} {ls : List (Label Op)}
  {u c : Address} {op : Op} {n x : ℤ}

/-- The calls by which `u` claims a queued withdrawal. -/
def Op.claims (u : Address) : Op → Bool
  | .claimWithdrawal c => c = u
  | .withdraw c n => c = u ∧ n = 0
  | _ => false

/-- What a claim by `u` brought into the account. -/
def paidByClaim (u : Address) (w : World Store) (l : Label Op) : ℤ :=
  match l with
  | .call _ _ op =>
    if op.claims u = true then
      (w.next exec l).store.underlying.balance u - w.store.underlying.balance u
    else 0
  | .close _ => 0

/-- The payout a withdrawal by `u` fixed for later, if it succeeded in cooldown mode. -/
def fixedForLater (u : Address) (w : World Store) : Label Op → ℤ
  | .call signers uploaded (.withdraw c n) =>
    if c = u ∧ n ≠ 0 ∧ (readCooldownConfig w.store).enabled = true ∧
        (exec (.withdraw c n) (w.env signers uploaded) w.store).isOk = true then
      (convertToAssets n w.store.supply (w.store.underlying.balance w.self)).getD 0
    else 0
  | _ => 0

/-- A pending entry stays as it is until it is paid, in full and not before its release ledger;
nothing else is paid; a new entry is made by a withdrawal that finds none. -/
structure QueueKept (u : Address) (w : World Store) (l : Label Op) : Prop where
  pending : ∀ q, w.store.queuedWithdrawal u = some q →
    (w.next exec l).store.queuedWithdrawal u = some q ∨
      ((w.next exec l).store.queuedWithdrawal u = none ∧ paidByClaim u w l = q.amount ∧
        q.releaseLedger ≤ w.ledger.sequence)
  paid : paidByClaim u w l ≠ 0 → ∃ q, w.store.queuedWithdrawal u = some q ∧
    (w.next exec l).store.queuedWithdrawal u = none
  fresh : w.store.queuedWithdrawal u = none →
    ∀ q, (w.next exec l).store.queuedWithdrawal u = some q → q.amount = fixedForLater u w l ∧
      q.releaseLedger = saturatingU32
        (w.ledger.sequence + (readCooldownConfig w.store).cooldownLedgers)

/-- How one step changes the queue entry of `u`, together with what it paid and fixed. -/
inductive QueueStep (u : Address) (w : World Store) (l : Label Op) : Prop
  | keep (hq : (w.next exec l).store.queuedWithdrawal u = w.store.queuedWithdrawal u)
      (hp : paidByClaim u w l = 0) (hf : fixedForLater u w l = 0)
  | queue (q : QueuedWithdrawal) (hnone : w.store.queuedWithdrawal u = none)
      (hq : (w.next exec l).store.queuedWithdrawal u = some q) (hp : paidByClaim u w l = 0)
      (hf : fixedForLater u w l = q.amount)
      (hr : q.releaseLedger = saturatingU32
        (w.ledger.sequence + (readCooldownConfig w.store).cooldownLedgers))
  | claim (q : QueuedWithdrawal) (hsome : w.store.queuedWithdrawal u = some q)
      (hq : (w.next exec l).store.queuedWithdrawal u = none)
      (hp : paidByClaim u w l = q.amount) (hf : fixedForLater u w l = 0)
      (hr : q.releaseLedger ≤ w.ledger.sequence)

variable {signers : List Address} {uploaded : List BytesN32}

theorem paidByClaim_of_not_claims (h : op.claims u = false) :
    paidByClaim u w (.call signers uploaded op) = 0 := by
  simp [paidByClaim, h]

theorem fixedForLater_of_ne (h : ∀ n, op ≠ .withdraw u n) :
    fixedForLater u w (.call signers uploaded op) = 0 := by
  cases op with
  | withdraw c n =>
    have hc : c ≠ u := by
      rintro rfl
      exact h n rfl
    simp [fixedForLater, hc]
  | _ => rfl

theorem queueStep_keep (hclaims : op.claims u = false) (hop : ∀ n, op ≠ .withdraw u n)
    (hq : (w.next exec (.call signers uploaded op)).store.queuedWithdrawal u =
      w.store.queuedWithdrawal u) : QueueStep u w (.call signers uploaded op) :=
  .keep hq (paidByClaim_of_not_claims hclaims) (fixedForLater_of_ne hop)

/-- A failed call neither pays nor fixes anything. -/
theorem queueStep_failed (hfail : ¬ (exec op (w.env signers uploaded) w.store).isOk = true)
    (hs : w.next exec (.call signers uploaded op) = w) :
    QueueStep u w (.call signers uploaded op) := by
  refine .keep (by rw [hs]) ?_ ?_
  · unfold paidByClaim
    dsimp only
    rw [hs]
    split <;> omega
  · cases op with
    | withdraw c n => simp [fixedForLater, hfail]
    | _ => rfl

theorem queueStep_enqueued (hc : c ≠ u ∨ w.store.queuedWithdrawal u = none)
    (hn : n ≠ 0) (hon : (readCooldownConfig w.store).enabled = true)
    (hok : (exec (.withdraw c n) (w.env signers uploaded) w.store).isOk = true)
    (hx : convertToAssets n w.store.supply (w.store.underlying.balance w.self) = some x)
    (hq : (w.next exec (.call signers uploaded (.withdraw c n))).store.queuedWithdrawal =
      Function.update w.store.queuedWithdrawal c (some ⟨n, x, saturatingU32
        (w.ledger.sequence + (readCooldownConfig w.store).cooldownLedgers)⟩)) :
    QueueStep u w (.call signers uploaded (.withdraw c n)) := by
  have hclaims : (Op.withdraw c n).claims u = false := by
    simp [Op.claims, hn]
  by_cases hu : u = c
  · subst hu
    have hnone := hc.resolve_left (fun hne => hne rfl)
    refine .queue _ hnone (hq ▸ Function.update_self ..) (paidByClaim_of_not_claims hclaims) ?_ rfl
    simp [fixedForLater, hn, hon, hok, hx]
  · refine queueStep_keep hclaims ?_ (by rw [hq, Function.update_of_ne hu])
    rintro n' ⟨⟩
    exact hu rfl

theorem queueStep_claimed {q : QueuedWithdrawal} {t : Token}
    (hop : op = .claimWithdrawal c ∨ op = .withdraw c 0) (hc : c ≠ w.self)
    (hsome : w.store.queuedWithdrawal c = some q) (hr : q.releaseLedger ≤ w.ledger.sequence)
    (ht : w.store.underlying.transfer w.self c q.amount = some t)
    (hs : (w.next exec (.call signers uploaded op)).store =
      settle t (removeQueuedWithdrawal c w.store)) :
    QueueStep u w (.call signers uploaded op) := by
  have hfixed : fixedForLater u w (.call signers uploaded op) = 0 := by
    obtain rfl | rfl := hop
    · rfl
    · simp [fixedForLater]
  have hqueue : (w.next exec (.call signers uploaded op)).store.queuedWithdrawal =
      Function.update w.store.queuedWithdrawal c none := by
    rw [hs]
    rfl
  by_cases hu : u = c
  · subst hu
    have hclaims : op.claims u = true := by
      obtain rfl | rfl := hop <;> simp [Op.claims]
    refine .claim q hsome (by rw [hqueue, Function.update_self]) ?_ hfixed hr
    have hpaid := transfer_balance ht hc
    unfold paidByClaim
    dsimp only
    rw [if_pos hclaims, hs]
    change t.balance u - _ = _
    omega
  · have hclaims : op.claims u = false := by
      obtain rfl | rfl := hop <;> simp [Op.claims, Ne.symm hu]
    exact .keep (by rw [hqueue, Function.update_of_ne hu]) (paidByClaim_of_not_claims hclaims)
      hfixed

theorem queueStep (u : Address) (w : World Store) (l : Label Op) : QueueStep u w l := by
  cases l with
  | close l =>
    refine .keep ?_ rfl rfl
    rw [World.next_close_store]
  | call signers uploaded op =>
    rcases World.call_cases exec w signers uploaded op with hr | ⟨hfail, hs⟩
    · have hok : (exec op (w.env signers uploaded) w.store).isOk = true := isOk_of_runs hr
      have heff := exec_effect World.authorized_ne_self hr
      generalize hnext : (w.next exec (.call signers uploaded op)).store = s' at heff
      cases heff with
      | enter c n m t hop hl ha hn hm ht hr =>
        obtain rfl | rfl := hop
        · exact queueStep_keep rfl nofun (by rw [hnext]; rfl)
        · exact queueStep_keep rfl nofun (by rw [hnext]; rfl)
      | unwrap c n x t hop hl ha hfree hn hb hx hpos ht =>
        subst hop
        exact queueStep_keep rfl nofun (by rw [hnext]; rfl)
      | enqueue c n x windows hop hl ha hfree hn hb hq hx hpos hcap hon =>
        subst hop
        refine queueStep_enqueued ?_ hn.ne' hon hok hx (by rw [hnext]; rfl)
        by_cases hc : c = u
        · exact Or.inr (hc ▸ hq)
        · exact Or.inl hc
      | pay c n x windows t hop hl ha hfree hn hb hq hx hpos hcap hoff ht =>
        subst hop
        refine .keep (by rw [hnext]; rfl) (paidByClaim_of_not_claims ?_) ?_
        · simp [Op.claims, hn.ne']
        · simp [fixedForLater, hoff]
      | claim c q t hop hl ha hq hr ht =>
        exact queueStep_claimed hop (World.authorized_ne_self c ha) hq hr ht hnext
      | move src dst n allowance expiry hop hn hb =>
        obtain rfl | ⟨_, rfl⟩ := hop
        · exact queueStep_keep rfl nofun (by rw [hnext])
        · exact queueStep_keep rfl nofun (by rw [hnext])
      | destroy c n allowance expiry hop hn hb =>
        obtain rfl | ⟨_, rfl⟩ := hop
        · exact queueStep_keep rfl nofun (by rw [hnext]; rfl)
        · exact queueStep_keep rfl nofun (by rw [hnext]; rfl)
      | aside _ hop hsame haside hfund =>
        refine queueStep_keep ?_ ?_ (by rw [hnext, haside.queue])
        · cases op <;> first | rfl | cases hop
        · rintro n rfl
          cases hop
    · exact queueStep_failed hfail hs

theorem queueKept (u : Address) (w : World Store) (l : Label Op) : QueueKept u w l := by
  cases queueStep u w l with
  | keep hq hp hf =>
    refine ⟨fun q hsome => Or.inl (hq.trans hsome), fun hne => absurd hp hne,
      fun hnone q hsome => ?_⟩
    rw [hq, hnone] at hsome
    cases hsome
  | queue q hnone hq hp hf hr =>
    refine ⟨fun q' hsome => ?_, fun hne => absurd hp hne, fun _ q' hsome => ?_⟩
    · rw [hnone] at hsome
      cases hsome
    · obtain rfl : q = q' := Option.some.inj (hq.symm.trans hsome)
      exact ⟨hf.symm, hr⟩
  | claim q hsome hq hp hf hr =>
    refine ⟨fun q' hsome' => ?_, fun _ => ⟨q, hsome, hq⟩, fun hnone => ?_⟩
    · obtain rfl : q = q' := Option.some.inj (hsome.symm.trans hsome')
      exact Or.inr ⟨hq, hp, hr⟩
    · rw [hsome] at hnone
      cases hnone

/-- What a step pays and what stays owed come from what was owed and what the step fixes. -/
theorem owed_step : paidByClaim u w l + (w.next exec l).store.book.owed u =
    w.store.book.owed u + fixedForLater u w l := by
  unfold Book.owed
  change _ + ((w.next exec l).store.queuedWithdrawal u).elim 0 _ =
    (w.store.queuedWithdrawal u).elim 0 _ + _
  cases queueStep u w l with
  | keep hq hp hf =>
    rw [hq, hp, hf]
    omega
  | queue q hnone hq hp hf hr =>
    rw [hnone, hq, hp, hf]
    exact (zero_add _).trans (zero_add _).symm
  | claim q hsome hq hp hf hr =>
    rw [hsome, hq, hp, hf]
    rfl

theorem owed_run (ls : List (Label Op)) :
    w.sumSteps exec (paidByClaim u) ls + (w.run exec ls).store.book.owed u =
      w.store.book.owed u + w.sumSteps exec (fixedForLater u) ls := by
  induction ls generalizing w with
  | nil => simp [World.sumSteps]
  | cons l ls ih =>
    have hstep : paidByClaim u w l + (w.next exec l).store.book.owed u =
      w.store.book.owed u + fixedForLater u w l := owed_step
    have hrest := ih (w := w.next exec l)
    simp only [World.sumSteps, World.run_cons]
    omega

/-- Whatever the queue ever promised a user has been paid by claims or is still pending, and every
entry is kept until its release and paid once. -/
theorem queue_exact (h : Deployed w) (u : Address) (ls : List (Label Op)) :
    w.sumSteps exec (paidByClaim u) ls + (w.run exec ls).store.book.owed u =
        w.sumSteps exec (fixedForLater u) ls ∧
      w.EveryStep exec (QueueKept u) ls := by
  constructor
  · have howed : w.store.book.owed u = 0 := by
      obtain ⟨access, token, decimal, underlying, foreign, -, hs⟩ := h.store_eq
      rw [hs]
      rfl
    rw [owed_run, howed, zero_add]
  · exact World.everyStep_of_forall (queueKept u)

/-- Two queued exits of account 2 with a switch of the mode in between; the first one is claimed
through `withdraw` with no shares, the second one is still pending. -/
def switchedModes : List (Label Op) :=
  cooldownOn ++
    [.call [⟨2⟩] [] (.withdraw ⟨2⟩ 100000000), .call [⟨2⟩] [] (.withdraw ⟨2⟩ 100000000),
     .call [⟨1⟩] [] (.setCooldownConfig ⟨1⟩ ⟨false, 0, 0, 0⟩),
     .call [⟨2⟩] [] (.withdraw ⟨2⟩ 0), .call [⟨2⟩] [] (.withdraw ⟨2⟩ 100000000),
     .call [⟨1⟩] [] (.setCooldownConfig ⟨1⟩ ⟨true, 10, 0, 0⟩),
     .call [⟨2⟩] [] (.withdraw ⟨2⟩ 200000000), .call [⟨2⟩] [] (.claimWithdrawal ⟨2⟩)]

theorem queue_exact_switchedModes :
    genesis.sumSteps exec (paidByClaim ⟨2⟩) switchedModes +
        (genesis.run exec switchedModes).store.book.owed ⟨2⟩ =
      genesis.sumSteps exec (fixedForLater ⟨2⟩) switchedModes ∧
    genesis.EveryStep exec (QueueKept ⟨2⟩) switchedModes ∧
    genesis.sumSteps exec (paidByClaim ⟨2⟩) switchedModes = 100000000 :=
  ⟨(queue_exact genesis_deployed ⟨2⟩ switchedModes).1,
    (queue_exact genesis_deployed ⟨2⟩ switchedModes).2, by decide +kernel⟩

end BcForge.Wrapper
