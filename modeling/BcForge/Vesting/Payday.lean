import BcForge.Vesting.Releases

/-! Nobody has to hurry: as long as the token carries out what the vault can cover, all
beneficiaries are paid, in whatever order they come. -/
namespace BcForge.Vesting

open Soroban Call Admin

variable {env : Env} {s s' : Store} {w : World Store} {l : Label Op} {ls : List (Label Op)}
  {id : ℕ} {q : ℤ} {r : ℕ → ℤ} {a b : Address} {bs : List Address} {op : Op}

/-- What a release brings `b` now. -/
def claimable (b : Address) (w : World Store) : ℤ :=
  w.store.overSchedules b (w.store.gain w.ledger.sequence)

/-- The vested amounts of the schedules of `b` can be computed now. -/
def FitsNow (b : Address) (w : World Store) : Prop :=
  ∀ id ∈ w.store.beneficiarySchedules b, ∀ stored ∈ w.store.schedule id,
    Fits stored (effectiveLedger stored w.ledger.sequence)

/-- One release by each of the beneficiaries, in the order given. In between the token may change
what it refuses, as one with a pause, a transfer limit or locks does. -/
inductive Payday : List Address → List (Label Op) → Prop where
  | ended : Payday [] []
  | release (b : Address) {bs : List Address} {day : List (Label Op)} (h : Payday bs day) :
      Payday (b :: bs) (.call [b] [] (.release b) :: day)
  | refusals (signers : List Address) (uploaded : List BytesN32)
      (refuses : Address → Address → ℤ → Bool) {bs : List Address} {day : List (Label Op)}
      (h : Payday bs day) : Payday bs (.call signers uploaded (.tokenSetRefusals refuses) :: day)

/-- The token does not refuse the transfer that a release asks for. -/
def GoesThrough (w : World Store) : Label Op → Prop
  | .call _ _ (.release b) => w.store.refuses w.self b (claimable b w) = false
  | _ => True

theorem initialized_call (hr : Runs (exec op) env s () s') :
    s'.access = s.access ∧ s'.tokenId = s.tokenId := by
  have hreleases : ∀ {b v}, ReleasesTo env b v s s' →
      s'.access = s.access ∧ s'.tokenId = s.tokenId := by
    rintro b v ⟨s₁, t, guard, hreleased, rfl, -, -⟩
    change s₁.access = s.access ∧ s₁.tokenId = s.tokenId
    rw [hreleased.only]
    exact ⟨rfl, rfl⟩
  cases op with
  | createVesting b x m n revocable =>
    obtain ⟨id, hcreate⟩ := runs_discarded.mp hr
    obtain ⟨-, -, -, -, t, -, rfl⟩ := runs_createVesting hcreate
    exact ⟨rfl, rfl⟩
  | release b =>
    obtain ⟨v, hrelease⟩ := runs_discarded.mp hr
    exact hreleases (runs_release hrelease).2
  | revoke id =>
    obtain ⟨v, hrevoke⟩ := runs_discarded.mp hr
    obtain ⟨stored, -, -, -, t, -, rfl⟩ := runs_revoke hrevoke
    exact ⟨rfl, rfl⟩
  | setMilestones id ms =>
    obtain ⟨stored, -, -, -, rfl⟩ := runs_setMilestones hr
    exact ⟨rfl, rfl⟩
  | authorizeClaimer b c authorize =>
    obtain ⟨s₁, hbody, rfl⟩ := runs_reentrancyGuard hr
    simp only [runs_ensureInitialized_bind, runs_requireAuth_bind, runs_modify] at hbody
    obtain ⟨-, -, rfl⟩ := hbody
    exact ⟨rfl, rfl⟩
  | claimOnBehalfOf c b =>
    obtain ⟨v, hclaim⟩ := runs_discarded.mp hr
    exact hreleases (runs_claimOnBehalfOf hclaim).2.2
  | tokenMint dst amount =>
    obtain ⟨t, -, rfl⟩ := TokenClient.runs_commit.mp hr
    exact ⟨rfl, rfl⟩
  | tokenTransfer src dst amount =>
    obtain ⟨-, hrest⟩ := runs_requireAuth_bind.mp hr
    obtain ⟨-, t, -, rfl⟩ := runs_tokenTransfer.mp hrest
    exact ⟨rfl, rfl⟩
  | tokenSetRefusals refuses =>
    obtain rfl := runs_modify.mp hr
    exact ⟨rfl, rfl⟩

/-- A contract that can pay: initialized, in order, and funded. -/
structure Solid (w : World Store) : Prop where
  initialized : hasAdmin w.store.access = true ∧ w.store.tokenId.isSome = true
  regular : Regular w.self w.store
  funded : ∃ r, Funded w r

theorem solid_deployed (h : Deployed w) : Solid w := by
  refine ⟨?_, regular_deployed h, 0, funded_deployed h⟩
  obtain ⟨env, adminAddress, token, ledger, refuses, -, hr⟩ := h
  simp only [initializeVesting, runs_self_bind, runs_requireAuth_bind, runs_gets_bind,
    runs_failIf_bind, runs_modify_bind, Vesting.admin, runs_within] at hr
  obtain ⟨-, -, access, hadmin, hstore⟩ := hr
  rw [hstore]
  refine ⟨?_, rfl⟩
  change hasAdmin access = true
  simp [hasAdmin, (runs_setAdmin hadmin).rules.admin]

theorem solid_next (h : Solid w) (hk : World.OnSuccess exec KeepsRefund w l) :
    Solid (w.next exec l) := by
  obtain ⟨r, hfunded⟩ := h.funded
  refine ⟨?_, regular_next h.regular, _, funded_next hfunded hk⟩
  refine World.next_store (P := fun s : Store =>
    hasAdmin s.access = true ∧ s.tokenId.isSome = true) h.initialized ?_
  intro signers uploaded op s' hr
  obtain ⟨haccess, htoken⟩ := initialized_call hr
  rw [haccess, htoken]
  exact h.initialized

theorem solid_run (h : Solid w)
    (hc : w.EveryStep exec (World.OnSuccess exec KeepsRefund) ls) : Solid (w.run exec ls) := by
  induction ls generalizing w with
  | nil => exact h
  | cons l ls ih => exact ih (solid_next h hc.1) hc.2

theorem due_nonneg (h : Funded w r) (id : ℕ) : 0 ≤ w.store.due r id := by
  cases hs : w.store.schedule id with
  | none => simp [Store.due, hs, h.absent id hs]
  | some stored =>
    have hle := (h.kept id stored hs).released_le
    simp only [Store.due, hs, Option.elim_some]
    omega

/-- A release finds no more to pay out for a schedule than is still due on it. -/
theorem gain_le_due (h : Funded w r) (id : ℕ) :
    w.store.gain w.ledger.sequence id ≤ w.store.due r id := by
  refine max_le (due_nonneg h id) ?_
  cases hs : w.store.schedule id with
  | none => simp [Store.vestedOf, releasedOf, Store.due, hs, h.absent id hs]
  | some stored =>
    have hkept := h.kept id stored hs
    have hvested := hkept.vested_le
    simp only [Store.vestedOf, releasedOf, Store.due, hs, Option.elim_some, Store.vested,
      hkept.id_eq]
    omega

theorem claimable_le (h : Solid w) (b : Address) :
    claimable b w ≤ w.store.token.balance w.self := by
  obtain ⟨r, hfunded⟩ := h.funded
  obtain ⟨q, hq, hle⟩ := hfunded.backed
  calc claimable b w ≤ ((w.store.beneficiarySchedules b).map (w.store.due r)).sum :=
        List.sum_le_sum fun id _ => gain_le_due hfunded id
    _ ≤ q := hq.sum_map_le (due_nonneg hfunded) (h.regular.nodup b)
    _ ≤ w.store.token.balance w.self := hle

/-- Whoever signs for its release gets it. -/
theorem pays_release (h : Solid w) (hfits : FitsNow b w)
    (haccepts : w.store.refuses w.self b (claimable b w) = false) (hb : b ≠ w.self) :
    Pays false (w.env [b] []) b (claimable b w) w.store
      (w.next exec (.call [b] [] (.release b))).store := by
  have hnonneg : 0 ≤ claimable b w := gains_nonneg ..
  have hle := claimable_le h b
  obtain ⟨t, ht⟩ : ∃ t, claimable b w = 0 ∧ t = w.store.token ∨
      claimable b w ≠ 0 ∧ w.store.refuses w.self b (claimable b w) = false ∧
        w.store.token.transfer w.self b (claimable b w) = some t := by
    by_cases hz : claimable b w = 0
    · exact ⟨_, Or.inl ⟨hz, rfl⟩⟩
    · have hsome : (w.store.token.transfer w.self b (claimable b w)).isSome :=
        Token.transfer_isSome.mpr ⟨hnonneg, hle⟩
      obtain ⟨t, ht⟩ := Option.isSome_iff_exists.mp hsome
      exact ⟨t, Or.inr ⟨hz, haccepts, ht⟩⟩
  have hpays : Pays false (w.env [b] []) b (claimable b w) w.store
      { w.store.topUp w.ledger.sequence (w.store.beneficiarySchedules b) with token := t } := by
    refine ⟨?_, hle.trans (w.store.token.balance_le _), rfl, t, ht, rfl⟩
    intro id hid
    obtain ⟨stored, hs, -⟩ := (h.regular.listed b id).mp hid
    exact ⟨stored, hs, nofun, hfits id hid stored hs⟩
  have hauth : (w.env [b] []).Authorized b := by simp [hb]
  have hrun := (runs_release_iff h.regular).mpr ⟨h.initialized, hauth, hpays⟩
  have hexec : Runs (exec (.release b)) (w.env [b] []) w.store () _ :=
    runs_discarded.mpr ⟨_, hrun⟩
  have hnext := invoke_of_runs hexec
  rw [← hnext] at hpays
  exact hpays

theorem balance_pays_other {v : ℤ} {delegated : Bool} (h : Pays delegated env b v s s')
    (hb : b ≠ env.self) (ha : a ≠ env.self) (hab : a ≠ b) :
    s'.token.balance a = s.token.balance a := by
  obtain ⟨t, ht, rfl⟩ := h.sent
  change t.balance a = _
  rcases ht with ⟨-, rfl⟩ | ⟨-, -, ht⟩
  · rfl
  · rw [(Token.transfer_spec ht hb.symm).2.2, Function.update_of_ne hab, Function.update_of_ne ha]

theorem claimable_untouched {v : World Store} (hu : Untouched a w.ledger.sequence w.store v.store)
    (hlisted : v.store.beneficiarySchedules a = w.store.beneficiarySchedules a)
    (hledger : v.ledger = w.ledger) :
    claimable a v = claimable a w ∧ (FitsNow a w → FitsNow a v) := by
  constructor
  · unfold claimable
    rw [hledger]
    refine overSchedules_congr hlisted fun id hid => ?_
    rw [Store.gain, Store.gain, hu.vestedOf_eq hid, hu.releasedOf_eq hid]
  · intro hfits id hid stored hs
    rw [hlisted] at hid
    rw [hu.same id hid] at hs
    rw [hledger]
    exact hfits id hid stored hs

/-- A release by one beneficiary, as the others see it. -/
theorem release_next (h : Solid w) (hfits : FitsNow b w)
    (haccepts : w.store.refuses w.self b (claimable b w) = false) :
    let v := w.next exec (.call [b] [] (.release b))
    (∀ a, a ≠ w.self → v.store.token.balance a =
      w.store.token.balance a + if a = b then claimable b w else 0) ∧
    ∀ a, a ≠ b → claimable a v = claimable a w ∧ (FitsNow a w → FitsNow a v) := by
  by_cases hb : b = w.self
  · subst hb
    have hsame : w.next exec (.call [w.self] [] (.release w.self)) = w := by
      rcases World.call_cases exec w [w.self] [] (.release w.self) with hr | ⟨-, hsame⟩
      · obtain ⟨v, hrelease⟩ := runs_discarded.mp hr
        exact absurd rfl (World.authorized_ne_self _ (runs_release hrelease).1)
      · exact hsame
    dsimp only
    rw [hsame]
    refine ⟨fun a ha => ?_, fun a _ => ⟨rfl, id⟩⟩
    rw [if_neg ha, add_zero]
  · have hpays := pays_release h hfits haccepts hb
    constructor
    · intro a ha
      by_cases hab : a = b
      · subst hab
        rw [if_pos rfl]
        exact balance_pays hpays ha
      · rw [if_neg hab, add_zero]
        exact balance_pays_other hpays hb ha hab
    · intro a hab
      exact claimable_untouched (untouched_pays h.regular (Ne.symm hab) hpays)
        (congrFun (listed_pays hpays) a) rfl

theorem payday_paid {day : List (Label Op)} (h : Solid w) (hday : Payday bs day) (hnd : bs.Nodup)
    (hfits : ∀ b ∈ bs, FitsNow b w) (haccepts : w.EveryStep exec GoesThrough day) :
    ∀ a, a ≠ w.self → (w.run exec day).store.token.balance a =
      w.store.token.balance a + if a ∈ bs then claimable a w else 0 := by
  induction hday generalizing w with
  | ended =>
    intro a _
    simp
  | release b hday ih =>
    rename_i bs day
    intro a ha
    obtain ⟨hnot, hnd⟩ := List.nodup_cons.mp hnd
    obtain ⟨hfirst, hlater⟩ := haccepts
    obtain ⟨hbalance, hothers⟩ := release_next h (hfits b List.mem_cons_self) hfirst
    have hnext : Solid (w.next exec (.call [b] [] (.release b))) := solid_next h fun _ _ => trivial
    have hrest : ∀ c ∈ bs, FitsNow c (w.next exec (.call [b] [] (.release b))) := by
      intro c hc
      refine (hothers c ?_).2 (hfits c (List.mem_cons_of_mem b hc))
      rintro rfl
      exact hnot hc
    have hrun := ih hnext hnd hrest hlater a ha
    rw [World.run_cons]
    refine hrun.trans ?_
    rw [hbalance a ha]
    by_cases hab : a = b
    · subst hab
      simp [hnot]
    · rw [if_neg hab, (hothers a hab).1]
      simp [hab]
  | refusals signers uploaded refuses hday ih =>
    -- nothing that counts here reads what the token refuses
    have hnext : Solid (w.next exec (.call signers uploaded (.tokenSetRefusals refuses))) :=
      solid_next h fun _ _ => trivial
    exact ih hnext hnd hfits haccepts.2

/-- In every run that keeps its refunds, whoever comes for a release that the token does not refuse
is paid all that its curves say by now, whoever came before and in whatever order. -/
theorem everyone_can_be_paid {day : List (Label Op)} (h : Deployed w)
    (hc : w.EveryStep exec (World.OnSuccess exec KeepsRefund) ls) (hday : Payday bs day)
    (hnd : bs.Nodup) (hfits : ∀ b ∈ bs, FitsNow b (w.run exec ls))
    (haccepts : (w.run exec ls).EveryStep exec GoesThrough day) :
    ∀ a, a ≠ w.self →
      ((w.run exec ls).run exec day).store.token.balance a =
        (w.run exec ls).store.token.balance a +
          if a ∈ bs then claimable a (w.run exec ls) else 0 := by
  intro a ha
  exact payday_paid (solid_run (solid_deployed h) hc) hday hnd hfits haccepts a
    (by rwa [World.run_self])

/-- Both beneficiaries of two schedules, the later one first, over a token that then refuses to
send that one anything more. -/
def limitedDay : List (Label Op) :=
  [.call [⟨3⟩] [] (.release ⟨3⟩),
   .call [] [] (.tokenSetRefusals fun _ dst _ => dst = ⟨3⟩),
   .call [⟨2⟩] [] (.release ⟨2⟩)]

theorem everyone_can_be_paid_earlyRevoke :
    ((genesis.run exec earlyRevoke).run exec limitedDay).store.token.balance ⟨2⟩ = 100 ∧
      ((genesis.run exec earlyRevoke).run exec limitedDay).store.token.balance ⟨3⟩ = 100 := by
  have hkeeps : genesis.EveryStep exec (World.OnSuccess exec KeepsRefund) earlyRevoke :=
    ⟨fun _ _ => trivial, fun _ _ => trivial, trivial, fun _ _ => earlyRevoke_keepsRefund, trivial⟩
  have hday : Payday [⟨3⟩, ⟨2⟩] limitedDay := .release ⟨3⟩ (.refusals _ _ _ (.release ⟨2⟩ .ended))
  have hfits : ∀ b ∈ ([⟨3⟩, ⟨2⟩] : List Address), FitsNow b (genesis.run exec earlyRevoke) := by
    unfold FitsNow Fits
    decide +kernel
  have hfirst : GoesThrough (genesis.run exec earlyRevoke) (.call [⟨3⟩] [] (.release ⟨3⟩)) := by
    unfold GoesThrough
    decide +kernel
  have hsecond : GoesThrough ((genesis.run exec earlyRevoke).run exec (limitedDay.take 2))
      (.call [⟨2⟩] [] (.release ⟨2⟩)) := by
    unfold GoesThrough
    decide +kernel
  have hpaid := everyone_can_be_paid genesis_deployed hkeeps hday (by decide) hfits
    ⟨hfirst, trivial, hsecond, trivial⟩
  refine ⟨(hpaid ⟨2⟩ (by decide)).trans (by decide +kernel),
    (hpaid ⟨3⟩ (by decide)).trans (by decide +kernel)⟩

end BcForge.Vesting
