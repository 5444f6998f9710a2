import BcForge.Admin.Roster
import BcForge.Soroban.Ignores
import BcForge.Split.Records

/-! What the creation of an invoice means for the invoices already there. -/
namespace BcForge.Split

open Soroban Call Admin

variable {w : World Store} {l : Label Op} {ls : List (Label Op)} {s s' t : Store} {env : Env}
  {id j : ℕ} {token here c : Address} {x : ℤ} {rs : List Recipient} {u : Unit}

/-- The store with the invoice `id` and the administration of `s'` put in. -/
def joined (id : ℕ) (s' t : Store) : Store :=
  { t with invoice := Function.update t.invoice id (s'.invoice id), access := s'.access }

theorem joined_invoice (h : j ≠ id) : (joined id s' t).invoice j = t.invoice j :=
  Function.update_of_ne h _ _

section Ignored

theorem ignores_onTokens (f : Tokens → Option Tokens) : Ignores (joined id s') (onTokens f) :=
  Ignores.bind (ignores_gets fun _ => rfl) fun _ => (ignores_expect _ _).bind fun _ =>
    ignores_modify fun _ => rfl

theorem ignores_tryTransfer (token src dst : Address) (x : ℤ) :
    Ignores (joined id s') (tryTransfer token src dst x) :=
  Ignores.bind (ignores_gets fun _ => rfl) fun _ => (ignores_expect _ _).bind fun _ =>
    ignores_ite (ignores_pure _) ((ignores_onTokens _).bind fun _ => ignores_pure _)

theorem ignores_payRecipients (p : Progress) :
    Ignores (joined id s') (payRecipients j token here rs p) := by
  induction rs generalizing p with
  | nil => exact ignores_pure p
  | cons r rest ih =>
    refine Ignores.bind (ignores_gets fun _ => rfl) fun _ => ignores_ite (ih p) ?_
    refine (ignores_tryTransfer _ _ _ _).bind fun _ => ignores_ite ?_ ?_
    · exact (ignores_i128 _).bind fun _ => ih _
    · exact (ignores_u32 _).bind fun _ => (ignores_u32 _).bind fun _ =>
        Ignores.bind (ignores_modify fun _ => rfl) fun _ => ih _

theorem requireSuperAdmin_eq : admin (requireSuperAdmin c) env t =
    if hasRole t.access .superAdmin c = true then
      if env.Authorized c then .ok ⟨(), t, [c]⟩ else .error (.trap .unauthorized)
    else .error (.error (.access .unauthorizedRole)) := by
  by_cases hrole : hasRole t.access .superAdmin c = true <;> by_cases hauth : env.Authorized c <;>
    simp [admin, within, requireSuperAdmin, requireRoleGuard, Bind.bind, Call.bind, gets, failIf,
      fail, pure, requireAuth, accessLens, hrole, hauth]

/-- Only the caller's role is read of the administration. -/
theorem ignoresAt_requireSuperAdmin
    (h : hasRole s'.access .superAdmin c = hasRole t.access .superAdmin c) :
    IgnoresAt (joined id s') (admin (requireSuperAdmin c)) env t := by
  unfold IgnoresAt
  rw [requireSuperAdmin_eq, requireSuperAdmin_eq]
  change (if hasRole s'.access .superAdmin c = true then _ else _) = _
  rw [h]
  split
  · split <;> rfl
  · rfl

theorem ignores_ensureInvoiceExists (hne : j ≠ id) :
    Ignores (joined id s') (ensureInvoiceExists j) :=
  Ignores.bind (ignores_gets fun _ => joined_invoice hne) fun _ => ignores_failIf _ _

theorem ignores_readInvoice (hne : j ≠ id) : Ignores (joined id s') (readInvoice j) :=
  Ignores.bind (ignores_gets fun _ => joined_invoice hne) fun _ => ignores_okOr _ _

theorem ignores_writeInvoice {inv : Invoice} (hne : inv.invoiceId ≠ id) :
    Ignores (joined id s') (modify (writeInvoice inv) : SplitCall Unit) := by
  refine ignores_modify fun t => ?_
  simp only [writeInvoice, joined]
  rw [Function.update_comm hne]

theorem ignoresAt_releasePaymentInner (hne : j ≠ id)
    (hl : ∀ inv, t.invoice j = some inv → inv.invoiceId = j) :
    IgnoresAt (joined id s') (releasePaymentInner j) env t := by
  refine IgnoresAt.bind (ignoresAt_gets rfl) fun token t₁ htoken => ?_
  obtain ⟨-, rfl⟩ := runs_gets.mp htoken
  refine (ignores_okOr _ _ env t₁).bind fun token t₂ hsome => ?_
  obtain ⟨-, rfl⟩ := runs_okOr.mp hsome
  refine (ignores_readInvoice hne env t₂).bind fun inv t₃ hread => ?_
  simp only [readInvoice, runs_gets_bind, runs_okOr] at hread
  obtain ⟨hinv, rfl⟩ := hread
  -- The invoice is written back under the id it was read from.
  have hid : inv.invoiceId ≠ id := by
    rw [hl inv hinv]
    exact hne
  have hrest : Ignores (joined id s') (do
      failIf (inv.status ≠ .pending) SplitError.invoiceAlreadyCompleted
      let self ← Call.self
      let p ← payRecipients j token self inv.recipients ⟨0, 0, false⟩
      if p.invoiceUpdated = true then
        modify (writeInvoice { inv with
          releasedAmount := p.totalToRelease, status := releasedStatus inv p })
      else pure ()) :=
    (ignores_failIf _ _).bind fun _ => ignores_self.bind fun _ =>
      (ignores_payRecipients _).bind fun _ =>
      ignores_ite (ignores_writeInvoice hid) (ignores_pure _)
  exact hrest env t₃

theorem ignores_retryFailedPayoutInner (dst : Address) (hne : j ≠ id) :
    Ignores (joined id s') (retryFailedPayoutInner j dst) := by
  refine (ignores_ensureInvoiceExists hne).bind fun _ =>
    Ignores.bind (ignores_gets fun _ => rfl) fun _ => (ignores_okOr _ _).bind fun _ =>
    (ignores_failIf _ _).bind fun _ => Ignores.bind (ignores_gets fun _ => rfl) fun _ =>
    (ignores_okOr _ _).bind fun _ => ignores_self.bind fun _ =>
    (ignores_tryTransfer _ _ _ _).bind fun _ => ignores_ite (ignores_modify fun _ => rfl) ?_
  exact (ignores_u32 _).bind fun _ => Ignores.bind (ignores_modify fun _ => rfl) fun _ =>
    ignores_fail _

/-- A call for invoice `j` behind its guard and the caller's role. -/
theorem ignoresAt_gated {g : Guard} {body : SplitCall Unit}
    (hrole : ∀ r a, hasRole s'.access r a = hasRole s.access r a)
    (hbody : IgnoresAt (joined id s') body env ((guardLens g).set true s)) :
    IgnoresAt (joined id s') (reentrancyGuard g (admin (requireSuperAdmin c) >>= fun _ => body))
      env s := by
  refine ignoresAt_guarded (fun _ => rfl) (fun _ _ => rfl) ?_
  refine IgnoresAt.bind (ignoresAt_requireSuperAdmin ?_) fun _ t ht => ?_
  · exact hrole _ _
  · rw [(runs_requireSuperAdmin.mp ht).2]
    exact hbody

theorem ignoresAt_releasePayment (hrole : ∀ r a, hasRole s'.access r a = hasRole s.access r a)
    (hne : j ≠ id) (hl : AllListed s) : IgnoresAt (joined id s') (releasePayment j c) env s :=
  ignoresAt_gated hrole (ignoresAt_releasePaymentInner hne fun inv hinv => (hl j inv hinv).id_eq)

theorem ignoresAt_retryFailedPayout (dst : Address)
    (hrole : ∀ r a, hasRole s'.access r a = hasRole s.access r a) (hne : j ≠ id) :
    IgnoresAt (joined id s') (retryFailedPayout j dst c) env s :=
  ignoresAt_gated hrole (ignores_retryFailedPayoutInner dst hne _ _)

end Ignored

/-- A call that pays for another invoice than `id`, or something others do on the tokens. -/
def Op.Elsewhere (id : ℕ) : Op → Prop
  | .releasePayment j _ | .retryFailedPayout j _ _ => j ≠ id
  | .tokenMint _ _ _ | .tokenTransfer _ _ _ _ | .tokenSetRefusals _ _ => True
  | _ => False

/-- Time passes, or a call is made elsewhere. -/
def Elsewhere (id : ℕ) : Label Op → Prop
  | .call _ _ op => op.Elsewhere id
  | .close _ => True

theorem ignoresAt_elsewhere {op : Op} (hop : op.Elsewhere id)
    (hrole : ∀ r a, hasRole s'.access r a = hasRole s.access r a) (hl : AllListed s) :
    IgnoresAt (joined id s') (exec op) env s := by
  cases op with
  | releasePayment j c => exact ignoresAt_releasePayment hrole hop hl
  | retryFailedPayout j dst c => exact ignoresAt_retryFailedPayout dst hrole hop
  | tokenMint token dst amount => exact ignores_onTokens (·.mint token dst amount) env s
  | tokenTransfer token src dst amount =>
    exact ((ignores_requireAuth _).bind fun _ => ignores_onTokens _) env s
  | tokenSetRefusals token refuses => exact ignores_onTokens (·.setRefusals token refuses) env s
  | _ => cases hop

theorem access_onTokens {f : Tokens → Option Tokens} (h : Runs (onTokens f) env s u s') :
    s'.access = s.access := by
  obtain ⟨n, -, rfl⟩ := runs_onTokens.mp h
  rfl

/-- Payments and tokens leave the administration alone. -/
theorem access_elsewhere {op : Op} (hop : op.Elsewhere id) (h : Runs (exec op) env s u s') :
    s'.access = s.access := by
  cases op with
  | releasePayment j c =>
    obtain ⟨token, inv, ps, s₁, guard, -, -, -, -, hp, -, ⟨-, rfl⟩ | ⟨-, rfl⟩⟩ :=
      runs_releasePayment h
    · change s₁.access = s.access
      rw [hp.only]
    · change s₁.access = s.access
      rw [hp.only]
  | retryFailedPayout j dst c =>
    obtain ⟨token, inv, fp, n, guard, -, -, -, -, -, -, -, rfl⟩ := runs_retryFailedPayout h
    rfl
  | tokenMint token dst amount => exact access_onTokens (f := (·.mint token dst amount)) h
  | tokenTransfer token src dst amount => exact access_onTokens (runs_requireAuth_bind.mp h).2
  | tokenSetRefusals token refuses =>
    exact access_onTokens (f := (·.setRefusals token refuses)) h
  | _ => cases hop

/-- Runs that stay elsewhere go the same way with the new invoice as without it. -/
theorem ignored_elsewhere (hl : AllListed w.store)
    (hrole : ∀ r a, hasRole s'.access r a = hasRole w.store.access r a)
    (h : ∀ l ∈ ls, Elsewhere id l) :
    w.EveryStep exec (World.Ignored exec (joined id s')) ls := by
  have hsteps : w.EveryStep exec (fun _ l => True ∧ Elsewhere id l) ls :=
    World.everyStep_and_forall (World.everyStep_of_forall fun _ _ => trivial) h
  refine World.everyStep_mono (I := fun w => AllListed w.store ∧
    ∀ r a, hasRole s'.access r a = hasRole w.store.access r a) ⟨hl, hrole⟩ ?_ ?_ hsteps
  · rintro w l ⟨hl, hrole⟩ ⟨-, hlabel⟩
    refine ⟨allListed_next hl, ?_⟩
    cases l with
    | close l =>
      rw [World.next_close_store]
      exact hrole
    | call signers uploaded op =>
      rcases World.call_cases exec w signers uploaded op with hr | ⟨-, hs⟩
      · have hsame : (w.next exec (.call signers uploaded op)).store.access = w.store.access :=
          access_elsewhere hlabel hr
        rw [hsame]
        exact hrole
      · rw [hs]
        exact hrole
  · rintro w l ⟨hl, hrole⟩ ⟨-, hlabel⟩
    cases l with
    | close l => trivial
    | call signers uploaded op => exact ignoresAt_elsewhere hlabel hrole hl

/-- The roles an address holds are those the roster spells out. -/
theorem hasRole_roster {access : Admin.Store} {r : Role} {a : Address} :
    hasRole access r a = (decide (a ≠ zeroAddress) &&
      (decide (r ≠ .admin) && access.roster.holds .admin a || access.roster.holds r a)) := by
  unfold hasRole Admin.Store.roster
  by_cases ha : a = zeroAddress <;> by_cases hr : r = .admin <;> simp [ha, hr]

/-- Putting the administrator in charge again changes nothing. -/
theorem reassign_self {f : Roster} (hadmin : f.admin = some c)
    (hholds : f.holds .admin c = true) : f.reassign c = f := by
  obtain ⟨stored, holds⟩ := f
  simp only at hadmin hholds
  subst hadmin
  have hback : Function.update (holds .admin) c true = holds .admin := by
    rw [← hholds, Function.update_eq_self]
  simp only [Roster.reassign, Roster.put, Function.update_self, Function.update_idem, hback,
    Function.update_eq_self]

/-- Nothing but the record of the new invoice is added, and payments of the others go on as they
would have gone. -/
structure Isolated (id : ℕ) (w : World Store) (s' : Store) : Prop where
  fresh : w.store.invoice id = none
  others : ∀ j, j ≠ id → s'.invoice j = w.store.invoice j
  records : s'.failedPayout = w.store.failedPayout
  token : ∀ j inv, w.store.invoice j = some inv → s'.token = w.store.token
  admin : s'.access.admin = w.store.access.admin
  roles : ∀ r a, hasRole s'.access r a = hasRole w.store.access r a
  payouts : ∀ j inv, w.store.invoice j = some inv → ∀ ls, (∀ l ∈ ls, Elsewhere id l) →
    World.outcomes exec { w with store := s' } ls = World.outcomes exec w ls ∧
      ({ w with store := s' } : World Store).run exec ls = (w.run exec ls).mapStore (joined id s')

/-- The id is new, the invoices there are paid in the same token, and the caller is the stored
administrator and holds the role. -/
def Separate (w : World Store) : Op → Prop
  | .createInvoice c id _ _ token => w.store.invoice id = none ∧
    (∀ j inv, w.store.invoice j = some inv → w.store.token = some token) ∧
    w.store.access.admin = some c ∧ hasRole w.store.access .admin c = true
  | _ => True

/-- The store after the creation is the one before it with the invoice put in. -/
theorem eq_joined {now : ℕ} {access : Admin.Store} (h : s.token = some token)
    (hs : s' = { writeInvoice (newInvoice id x rs now) s with
      token := some token, access := access }) : s' = joined id s' s := by
  have hinvoice : s'.invoice id = some (newInvoice id x rs now) := by
    rw [hs]
    exact Function.update_self _ _ _
  rw [joined, hinvoice, hs, ← h]
  rfl

theorem isolated_iff {signers : List Address} {uploaded : List BytesN32} (hl : AllListed w.store)
    (h : Runs (createInvoice c id x rs token) (w.env signers uploaded) w.store () s') :
    Isolated id w s' ↔ Separate w (.createInvoice c id x rs token) := by
  obtain ⟨-, -, -, access, hset, hs⟩ := runs_createInvoice h
  obtain ⟨hc, hroster⟩ := roster_setAdmin hset
  have haccess : s'.access = access := by rw [hs]
  have htoken : s'.token = some token := by rw [hs]
  have hadmin : s'.access.admin = some c := by
    rw [haccess]
    exact congrArg Roster.admin hroster
  have hrole : hasRole s'.access .admin c = true := by
    rw [haccess, hasRole_roster, hroster]
    simp [Roster.reassign, hc]
  constructor
  · intro hi
    refine ⟨hi.fresh, ?_, hi.admin.symm.trans hadmin, (hi.roles .admin c).symm.trans hrole⟩
    intro j inv hj
    exact (hi.token j inv hj).symm.trans htoken
  · rintro ⟨hfresh, hsame, hstored, hheld⟩
    have hbit : w.store.access.roster.holds .admin c = true := by
      rw [hasRole_roster] at hheld
      simpa [hc] using hheld
    have hkept : s'.access.roster = w.store.access.roster := by
      rw [haccess, hroster]
      exact reassign_self hstored hbit
    have hroles : ∀ r a, hasRole s'.access r a = hasRole w.store.access r a := by
      intro r a
      rw [hasRole_roster, hasRole_roster, hkept]
    refine ⟨hfresh, ?_, ?_, ?_, hadmin.trans hstored.symm, hroles, ?_⟩
    · intro j hne
      rw [hs]
      exact Function.update_of_ne hne _ _
    · rw [hs]
      rfl
    · intro j inv hj
      rw [htoken, hsame j inv hj]
    · intro j inv hj ls hls
      have hworld : ({ w with store := s' } : World Store) = w.mapStore (joined id s') :=
        congrArg (World.mk w.ledger w.self) (eq_joined (hsame j inv hj) hs)
      obtain ⟨hrun, hout⟩ := World.run_mapStore (ignored_elsewhere hl hroles hls)
      rw [hworld]
      exact ⟨hout, hrun⟩

/-- Every creation that goes through isolates its invoice exactly if it is separate. -/
def CreationLaw (w : World Store) : Label Op → Prop
  | .call signers uploaded (.createInvoice c id x rs token) => ∀ s',
    Runs (createInvoice c id x rs token) (w.env signers uploaded) w.store () s' →
      (Isolated id w s' ↔ Separate w (.createInvoice c id x rs token))
  | _ => True

/-- In every reachable state. -/
theorem invoices_isolated_iff (hw : Blank w) (ls : List (Label Op)) :
    w.EveryStep exec CreationLaw ls := by
  refine World.everyStep_of_invariant (I := fun w => AllListed w.store) (allListed_blank hw)
    (fun _ _ => allListed_next) ?_
  intro w l hl
  cases l with
  | close l => trivial
  | call signers uploaded op =>
    cases op with
    | createInvoice c id x rs token => exact fun s' hr => isolated_iff hl hr
    | _ => trivial

/-- One invoice, to be paid in the token at 50. -/
def oneInvoice : World Store :=
  genesis.next exec (.call [⟨1⟩] [] (.createInvoice ⟨1⟩ 1 100 [⟨⟨2⟩, 100⟩] ⟨50⟩))

theorem oneInvoice_separate : Separate oneInvoice (.createInvoice ⟨1⟩ 2 70 [⟨⟨3⟩, 70⟩] ⟨50⟩) :=
  ⟨by decide +kernel, fun _ _ _ => by decide +kernel, by decide +kernel, by decide +kernel⟩

theorem oneInvoice_isolated :
    Runs (exec (.createInvoice ⟨1⟩ 2 70 [⟨⟨3⟩, 70⟩] ⟨50⟩)) (oneInvoice.env [⟨1⟩] []) oneInvoice.store
        () (invoke (exec (.createInvoice ⟨1⟩ 2 70 [⟨⟨3⟩, 70⟩] ⟨50⟩)) (oneInvoice.env [⟨1⟩] [])
          oneInvoice.store) ∧
      Isolated 2 oneInvoice (invoke (exec (.createInvoice ⟨1⟩ 2 70 [⟨⟨3⟩, 70⟩] ⟨50⟩))
        (oneInvoice.env [⟨1⟩] []) oneInvoice.store) := by
  have hr : Runs (exec (.createInvoice ⟨1⟩ 2 70 [⟨⟨3⟩, 70⟩] ⟨50⟩)) (oneInvoice.env [⟨1⟩] [])
      oneInvoice.store () (invoke (exec (.createInvoice ⟨1⟩ 2 70 [⟨⟨3⟩, 70⟩] ⟨50⟩))
        (oneInvoice.env [⟨1⟩] []) oneInvoice.store) :=
    runs_invoke (by decide +kernel)
  have hlaw := invoices_isolated_iff genesis_blank
    [.call [⟨1⟩] [] (.createInvoice ⟨1⟩ 1 100 [⟨⟨2⟩, 100⟩] ⟨50⟩),
      .call [⟨1⟩] [] (.createInvoice ⟨1⟩ 2 70 [⟨⟨3⟩, 70⟩] ⟨50⟩)]
  exact ⟨hr, (hlaw.2.1 _ hr).mpr oneInvoice_separate⟩

/-- A used id is accepted again, and a second invoice changes the token of the first. -/
theorem oneInvoice_disturbed :
    (∃ s', Runs (exec (.createInvoice ⟨1⟩ 1 70 [⟨⟨3⟩, 70⟩] ⟨50⟩)) (oneInvoice.env [⟨1⟩] [])
      oneInvoice.store () s' ∧ ¬ Isolated 1 oneInvoice s') ∧
    ∃ s', Runs (exec (.createInvoice ⟨1⟩ 2 70 [⟨⟨3⟩, 70⟩] ⟨60⟩)) (oneInvoice.env [⟨1⟩] [])
      oneInvoice.store () s' ∧ ¬ Isolated 2 oneInvoice s' := by
  have hinvoice : (oneInvoice.store.invoice 1).isSome = true := by decide +kernel
  have hr : Runs (exec (.createInvoice ⟨1⟩ 2 70 [⟨⟨3⟩, 70⟩] ⟨60⟩)) (oneInvoice.env [⟨1⟩] [])
      oneInvoice.store () (invoke (exec (.createInvoice ⟨1⟩ 2 70 [⟨⟨3⟩, 70⟩] ⟨60⟩))
        (oneInvoice.env [⟨1⟩] []) oneInvoice.store) :=
    runs_invoke (by decide +kernel)
  refine ⟨⟨_, runs_invoke (by decide +kernel), ?_⟩, _, hr, ?_⟩
  · intro hi
    rw [hi.fresh] at hinvoice
    cases hinvoice
  · intro hi
    obtain ⟨inv, hinv⟩ := Option.isSome_iff_exists.mp hinvoice
    have hbefore : oneInvoice.store.token = some ⟨50⟩ := by decide +kernel
    have hafter : (invoke (exec (.createInvoice ⟨1⟩ 2 70 [⟨⟨3⟩, 70⟩] ⟨60⟩))
        (oneInvoice.env [⟨1⟩] []) oneInvoice.store).token = some ⟨60⟩ := by
      decide +kernel
    have hsame := hi.token 1 inv hinv
    rw [hafter, hbefore] at hsame
    cases hsame

end BcForge.Split
