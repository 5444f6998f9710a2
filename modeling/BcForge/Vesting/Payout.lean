import BcForge.Vesting.Overflow

/-! What a release does to all schedules of a beneficiary at once, when it goes through, and when a
delegated claim does the same. -/
namespace BcForge.Vesting

open Soroban Call Admin

variable {env : Env} {s s' : Store} {stored : StoredVestingSchedule} {id L : ℕ} {ids : List ℕ}
  {v total : ℤ} {b c vault : Address} {delegated : Bool} {w : World Store}
  {signers signers' : List Address} {uploaded uploaded' : List BytesN32}

def Store.vestedOf (s : Store) (L id : ℕ) : ℤ := (s.schedule id).elim 0 (s.vested · L)

/-- What a release at ledger `L` finds to pay out for a schedule. -/
def Store.gain (s : Store) (L id : ℕ) : ℤ := max 0 (s.vestedOf L id - releasedOf s id)

/-- The listed schedules released up to what is vested, if they are not beyond it already. -/
def Store.topUp (s : Store) (L : ℕ) (ids : List ℕ) : Store :=
  { s with schedule := fun id =>
      if id ∈ ids then
        (s.schedule id).map fun stored =>
          withReleased stored (max stored.schedule.releasedAmount (s.vested stored L))
      else s.schedule id }

def AllAccepted (s : Store) : Prop :=
  ∀ id stored, s.schedule id = some stored → Accepted id (s.milestones id) stored

/-- The schedule is there, its vested amount can be computed, and if the claim is a delegated one
its cliff is reached. -/
def Releasable (delegated : Bool) (L : ℕ) (s : Store) (id : ℕ) : Prop :=
  ∃ stored, s.schedule id = some stored ∧
    (delegated = true → stored.schedule.cliffLedger ≤ L) ∧ Fits stored (effectiveLedger stored L)

section TopUp

theorem gain_nonneg (s : Store) (L id : ℕ) : 0 ≤ s.gain L id := le_max_left _ _

theorem gains_nonneg (s : Store) (L : ℕ) (ids : List ℕ) : 0 ≤ (ids.map (s.gain L)).sum := by
  refine List.sum_nonneg fun x hx => ?_
  obtain ⟨id, -, rfl⟩ := List.mem_map.mp hx
  exact gain_nonneg s L id

theorem gain_eq (hs : s.schedule id = some stored) :
    s.gain L id = max 0 (s.vested stored L - stored.schedule.releasedAmount) := by
  simp [Store.gain, Store.vestedOf, releasedOf, hs]

@[simp] theorem topUp_nil (s : Store) (L : ℕ) : s.topUp L [] = s := by
  simp [Store.topUp]

theorem schedule_topUp_of_notMem (hid : id ∉ ids) :
    (s.topUp L ids).schedule id = s.schedule id := if_neg hid

theorem schedule_topUp_of_mem (hid : id ∈ ids) (hs : s.schedule id = some stored) :
    (s.topUp L ids).schedule id =
      some (withReleased stored (max stored.schedule.releasedAmount (s.vested stored L))) := by
  simp [Store.topUp, hid, hs]

theorem schedule_topUp (hs : s.schedule id = some stored) (L : ℕ) (ids : List ℕ) :
    ∃ x, (s.topUp L ids).schedule id = some (withReleased stored x) := by
  by_cases hid : id ∈ ids
  · exact ⟨_, schedule_topUp_of_mem hid hs⟩
  · exact ⟨stored.schedule.releasedAmount, (schedule_topUp_of_notMem hid).trans hs⟩

theorem schedule_topUp_eq_none : (s.topUp L ids).schedule id = none ↔ s.schedule id = none := by
  by_cases hid : id ∈ ids
  · simp [Store.topUp, hid]
  · rw [schedule_topUp_of_notMem hid]

@[simp] theorem vested_topUp (L' : ℕ) :
    (s.topUp L ids).vested stored L' = s.vested stored L' := rfl

/-- Releases leave every curve as it is. -/
@[simp] theorem vestedOf_topUp (s : Store) (L : ℕ) (ids : List ℕ) :
    (s.topUp L ids).vestedOf = s.vestedOf := by
  funext L' id
  cases hs : s.schedule id with
  | none => simp [Store.vestedOf, hs, schedule_topUp_eq_none.mpr hs]
  | some stored =>
    obtain ⟨x, hx⟩ := schedule_topUp hs L ids
    simp only [Store.vestedOf, hs, hx]
    rfl

theorem released_topUp_of_mem (hid : id ∈ ids) (hs : s.schedule id = some stored) :
    releasedOf (s.topUp L ids) id = max (releasedOf s id) (s.vestedOf L id) := by
  simp only [releasedOf, Store.vestedOf, schedule_topUp_of_mem hid hs, hs]
  rfl

/-- What is booked as released is what is found to pay out. -/
theorem released_topUp (hid : id ∈ ids) (hs : s.schedule id = some stored) :
    releasedOf (s.topUp L ids) id = releasedOf s id + s.gain L id := by
  rw [released_topUp_of_mem hid hs, Store.gain, ← max_add_add_left, add_zero, add_sub_cancel]

theorem gain_topUp_of_notMem (hid : id ∉ ids) (L' : ℕ) :
    (s.topUp L ids).gain L' id = s.gain L' id := by
  rw [Store.gain, Store.gain, vestedOf_topUp, releasedOf, releasedOf, schedule_topUp_of_notMem hid]

theorem releasable_topUp :
    Releasable delegated L (s.topUp L ids) id ↔ Releasable delegated L s id := by
  constructor
  · rintro ⟨stored, hs, hready⟩
    cases hold : s.schedule id with
    | none =>
      rw [schedule_topUp_eq_none.mpr hold] at hs
      cases hs
    | some st =>
      obtain ⟨x, hx⟩ := schedule_topUp hold L ids
      rw [hx] at hs
      obtain rfl := Option.some.inj hs
      exact ⟨st, hold, hready⟩
  · rintro ⟨stored, hs, hready⟩
    obtain ⟨x, hx⟩ := schedule_topUp hs L ids
    exact ⟨_, hx, hready⟩

theorem AllAccepted.topUp (h : AllAccepted s) : AllAccepted (s.topUp L ids) := by
  intro id stored hst
  change Accepted id (s.milestones id) stored
  by_cases hid : id ∈ ids
  · cases hs : s.schedule id with
    | none =>
      rw [schedule_topUp_eq_none.mpr hs] at hst
      cases hst
    | some st =>
      rw [schedule_topUp_of_mem hid hs] at hst
      obtain rfl := Option.some.inj hst
      have ha := h id st hs
      rcases max_choice st.schedule.releasedAmount (s.vested st L) with hmax | hmax
      · rw [hmax]
        exact ha
      · rw [hmax]
        exact ha.topped
  · rw [schedule_topUp_of_notMem hid] at hst
    exact h id stored hst

theorem topUp_cons {rest : List ℕ} (hid : id ∉ rest) :
    s.topUp L (id :: rest) = (s.topUp L [id]).topUp L rest := by
  have hschedule : (s.topUp L (id :: rest)).schedule =
      ((s.topUp L [id]).topUp L rest).schedule := by
    funext i
    by_cases hi : i = id
    · subst hi
      simp [Store.topUp, hid]
    · simp only [Store.topUp, List.mem_cons, hi, false_or, List.not_mem_nil, if_false]
      rfl
  exact congrArg (fun f => { s with schedule := f }) hschedule

theorem topUp_of_lt (hs : s.schedule id = some stored)
    (h : stored.schedule.releasedAmount < s.vested stored L) :
    s.topUp L [id] = writeReleased id stored (s.vested stored L) s := by
  have hschedule : (s.topUp L [id]).schedule =
      (writeReleased id stored (s.vested stored L) s).schedule := by
    funext i
    by_cases hi : i = id
    · subst hi
      rw [schedule_topUp_of_mem (List.mem_singleton_self i) hs, max_eq_right h.le]
      simp [writeReleased, writeSchedule, withReleased]
    · rw [schedule_topUp_of_notMem (by simpa using hi)]
      simp [writeReleased, writeSchedule, Function.update_of_ne hi]
  exact congrArg (fun f => { s with schedule := f }) hschedule

theorem topUp_of_le (hs : s.schedule id = some stored)
    (h : s.vested stored L ≤ stored.schedule.releasedAmount) : s.topUp L [id] = s := by
  have hschedule : (s.topUp L [id]).schedule = s.schedule := by
    funext i
    by_cases hi : i = id
    · subst hi
      rw [schedule_topUp_of_mem (List.mem_singleton_self i) hs, max_eq_left h, hs]
      rfl
    · rw [schedule_topUp_of_notMem (by simpa using hi)]
  exact congrArg (fun f => { s with schedule := f }) hschedule

end TopUp

section Loop

/-- One schedule: its own gain is booked and added to the total. -/
theorem runs_releaseSchedules_cons {rest : List ℕ} (ha : AllAccepted s) (htotal : 0 ≤ total)
    (hmax : total ≤ I128.MAX) :
    Runs (releaseSchedules delegated L (id :: rest) total) env s v s' ↔
      Releasable delegated L s id ∧ total + s.gain L id ≤ I128.MAX ∧
        Runs (releaseSchedules delegated L rest (total + s.gain L id)) env (s.topUp L [id]) v
          s' := by
  have hmin : I128.MIN ≤ 0 := by decide
  simp only [releaseSchedules, runs_readSchedule_bind, runs_failIf_bind, not_and, not_lt,
    Releasable]
  constructor
  · rintro ⟨stored, hs, hcliff, hr⟩
    have hstored := ha id stored hs
    obtain ⟨hfits, hr⟩ := (runs_claimableAmount_bind_iff hstored).mp hr
    refine ⟨⟨stored, hs, hcliff, hfits⟩, ?_⟩
    rw [gain_eq hs]
    rw [runs_ite] at hr
    rcases hr with ⟨hpos, hr⟩ | ⟨hneg, hr⟩
    · rw [add_sub_cancel] at hr
      simp only [runs_i128_bind, runs_modify_bind] at hr
      rw [max_eq_right hpos.le, topUp_of_lt hs (by omega)]
      exact ⟨hr.2.1.2, hr.2.2⟩
    · rw [max_eq_left (by omega), add_zero, topUp_of_le hs (by omega)]
      exact ⟨hmax, hr⟩
  · rintro ⟨⟨stored, hs, hcliff, hfits⟩, hle, hr⟩
    have hstored := ha id stored hs
    have hvested := (curveLaw_of_accepted hstored).bounds L
    have hbound := hstored.total_le
    refine ⟨stored, hs, hcliff, (runs_claimableAmount_bind_iff hstored).mpr ⟨hfits, ?_⟩⟩
    rw [gain_eq hs] at hle hr
    rw [runs_ite]
    by_cases hpos : 0 < s.vested stored L - stored.schedule.releasedAmount
    · rw [max_eq_right hpos.le] at hle hr
      rw [topUp_of_lt hs (by omega)] at hr
      refine Or.inl ⟨hpos, ?_⟩
      rw [add_sub_cancel]
      simp only [runs_i128_bind, runs_modify_bind]
      exact ⟨⟨by omega, by omega⟩, ⟨by omega, hle⟩, hr⟩
    · rw [max_eq_left (by omega), add_zero, topUp_of_le hs (by omega)] at hr
      exact Or.inr ⟨hpos, hr⟩

/-- The whole loop: every schedule has to be releasable, and the gains have to add up within the
`i128` range. -/
theorem runs_releaseSchedules_iff (ha : AllAccepted s) (hids : ids.Nodup) (htotal : 0 ≤ total)
    (hmax : total ≤ I128.MAX) :
    Runs (releaseSchedules delegated L ids total) env s v s' ↔
      (∀ id ∈ ids, Releasable delegated L s id) ∧
        total + (ids.map (s.gain L)).sum ≤ I128.MAX ∧ v = total + (ids.map (s.gain L)).sum ∧
          s' = s.topUp L ids := by
  induction ids generalizing s total with
  | nil => simp [releaseSchedules, hmax]
  | cons id rest ih =>
    obtain ⟨hid, hrest⟩ := List.nodup_cons.mp hids
    have hgains : (rest.map ((s.topUp L [id]).gain L)).sum = (rest.map (s.gain L)).sum := by
      congr 1
      refine List.map_congr_left fun i hi => gain_topUp_of_notMem ?_ L
      rw [List.mem_singleton]
      rintro rfl
      exact hid hi
    have hnonneg := gain_nonneg s L id
    have htail := gains_nonneg s L rest
    rw [runs_releaseSchedules_cons ha htotal hmax, List.forall_mem_cons, List.map_cons,
      List.sum_cons, topUp_cons hid, ← add_assoc]
    constructor
    · rintro ⟨hfirst, hle, hr⟩
      obtain ⟨hall, hsum, rfl, rfl⟩ := (ih ha.topUp hrest (by omega) hle).mp hr
      rw [hgains] at hsum
      exact ⟨⟨hfirst, fun i hi => releasable_topUp.mp (hall i hi)⟩, hsum, by rw [hgains], rfl⟩
    · rintro ⟨⟨hfirst, hall⟩, hsum, rfl, rfl⟩
      refine ⟨hfirst, by omega, (ih ha.topUp hrest (by omega) (by omega)).mpr ?_⟩
      rw [hgains]
      exact ⟨fun i hi => releasable_topUp.mpr (hall i hi), hsum, rfl, rfl⟩

end Loop

section Payment

/-- The schedules of `b` are topped up, and what they gain is sent to `b`. -/
structure Pays (delegated : Bool) (env : Env) (b : Address) (v : ℤ) (s s' : Store) : Prop where
  releasable : ∀ id ∈ s.beneficiarySchedules b, Releasable delegated env.ledger.sequence s id
  fits : v ≤ I128.MAX
  value : v = ((s.beneficiarySchedules b).map (s.gain env.ledger.sequence)).sum
  sent : ∃ t, (v = 0 ∧ t = s.token ∨
      v ≠ 0 ∧ s.refuses env.self b v = false ∧ s.token.transfer env.self b v = some t) ∧
    s' = { s.topUp env.ledger.sequence (s.beneficiarySchedules b) with token := t }

theorem runs_transferFromVault_iff {u : Unit} (ht : s.tokenId.isSome = true) :
    Runs (transferFromVault b v) env s u s' ↔
      ∃ t, (v = 0 ∧ t = s.token ∨
          v ≠ 0 ∧ s.refuses env.self b v = false ∧ s.token.transfer env.self b v = some t) ∧
        s' = { s with token := t } := by
  obtain ⟨token, htoken⟩ := Option.isSome_iff_exists.mp ht
  simp only [transferFromVault, readToken, runs_tokenTransfer, runs_ite, runs_pure,
    runs_bind_assoc, runs_gets_bind, runs_expect_bind, runs_self_bind]
  constructor
  · rintro (⟨hz, -, rfl⟩ | ⟨hv, _, -, haccepts, t, ht, rfl⟩)
    · exact ⟨s'.token, Or.inl ⟨hz, rfl⟩, rfl⟩
    · exact ⟨t, Or.inr ⟨hv, haccepts, ht⟩, rfl⟩
  · rintro ⟨t, ⟨hz, rfl⟩ | ⟨hv, haccepts, ht⟩, rfl⟩
    · exact Or.inl ⟨hz, trivial, rfl⟩
    · exact Or.inr ⟨hv, token, htoken, haccepts, t, ht, rfl⟩

theorem runs_releaseAll_iff (ha : AllAccepted s) (hids : (s.beneficiarySchedules b).Nodup)
    (ht : s.tokenId.isSome = true) :
    Runs (releaseAll delegated b) env s v s' ↔ Pays delegated env b v s s' := by
  have hmax : (0 : ℤ) ≤ I128.MAX := by decide
  have hsend : ∀ u : Unit, Runs (transferFromVault b v) env
      (s.topUp env.ledger.sequence (s.beneficiarySchedules b)) u s' ↔ _ := fun u =>
    runs_transferFromVault_iff ht
  simp only [releaseAll, runs_ledger_bind, runs_gets_bind]
  constructor
  · intro hr
    obtain ⟨x, s₁, hloop, hrest⟩ := runs_bind.mp hr
    obtain ⟨hall, hle, hx, rfl⟩ := (runs_releaseSchedules_iff ha hids le_rfl hmax).mp hloop
    obtain ⟨u, s₂, htransfer, hpure⟩ := runs_bind.mp hrest
    obtain ⟨rfl, rfl⟩ := runs_pure.mp hpure
    rw [zero_add] at hle hx
    exact ⟨hall, hx ▸ hle, hx, (hsend u).mp htransfer⟩
  · rintro ⟨hall, hle, hv, hsent⟩
    refine runs_bind.mpr ⟨v, _, (runs_releaseSchedules_iff ha hids le_rfl hmax).mpr ?_,
      runs_bind.mpr ⟨(), s', (hsend ()).mpr hsent, by simp⟩⟩
    rw [zero_add, ← hv]
    exact ⟨hall, hle, rfl, rfl⟩

/-- The reentrancy flag is up during the payment and down again after it. -/
theorem pays_guarded {g : Guard} (hg : s.guard g = false) :
    (∃ s₁, Pays delegated env b v ((guardLens g).set true s) s₁ ∧
      s' = (guardLens g).set false s₁) ↔ Pays delegated env b v s s' := by
  have hdown : Function.update (Function.update s.guard g true) g false = s.guard := by
    rw [Function.update_idem, ← hg, Function.update_eq_self]
  constructor
  · rintro ⟨s₁, ⟨hall, hle, hv, t, ht, rfl⟩, rfl⟩
    refine ⟨hall, hle, hv, t, ht, ?_⟩
    simp only [guardLens, Store.topUp, hdown]
    rfl
  · rintro ⟨hall, hle, hv, t, ht, rfl⟩
    refine ⟨_, ⟨hall, hle, hv, t, ht, rfl⟩, ?_⟩
    simp only [guardLens, Store.topUp, hdown]
    rfl

theorem runs_guarded_releaseAll {g : Guard} (h : Regular vault s) (ht : s.tokenId.isSome = true) :
    (∃ s₁, Runs (releaseAll delegated b) env ((guardLens g).set true s) v s₁ ∧
      s' = (guardLens g).set false s₁) ↔ Pays delegated env b v s s' := by
  have hrun : ∀ s₁, Runs (releaseAll delegated b) env ((guardLens g).set true s) v s₁ ↔
      Pays delegated env b v ((guardLens g).set true s) s₁ := fun s₁ =>
    runs_releaseAll_iff (s := (guardLens g).set true s) h.accepted (h.nodup b) ht
  simp only [hrun]
  exact pays_guarded (h.unlocked g)

/-- When a release goes through, and what it does. -/
theorem runs_release_iff (h : Regular vault s) :
    Runs (release b) env s v s' ↔ (hasAdmin s.access = true ∧ s.tokenId.isSome = true) ∧
      env.Authorized b ∧ Pays false env b v s s' := by
  simp only [release, reentrancyGuard, runs_guarded, runs_ensureInitialized_bind,
    runs_requireAuth_bind]
  constructor
  · rintro ⟨-, s₁, ⟨hinit, ha, hr⟩, hs'⟩
    exact ⟨hinit, ha, (runs_guarded_releaseAll h hinit.2).mp ⟨s₁, hr, hs'⟩⟩
  · rintro ⟨hinit, ha, hpays⟩
    obtain ⟨s₁, hr, hs'⟩ := (runs_guarded_releaseAll h hinit.2).mpr hpays
    exact ⟨h.unlocked .release, s₁, ⟨hinit, ha, hr⟩, hs'⟩

theorem runs_claimOnBehalfOf_iff (h : Regular vault s) :
    Runs (claimOnBehalfOf c b) env s v s' ↔ (hasAdmin s.access = true ∧ s.tokenId.isSome = true) ∧
      env.Authorized c ∧ (c = b ∨ c ∈ s.claimDelegates b) ∧ Pays true env b v s s' := by
  simp only [claimOnBehalfOf, reentrancyGuard, runs_guarded, runs_ensureInitialized_bind,
    runs_requireAuth_bind, runs_gets_bind, runs_failIf_bind, not_and, not_not]
  constructor
  · rintro ⟨-, s₁, ⟨hinit, ha, hc, hr⟩, hs'⟩
    exact ⟨hinit, ha, or_iff_not_imp_left.mpr hc,
      (runs_guarded_releaseAll h hinit.2).mp ⟨s₁, hr, hs'⟩⟩
  · rintro ⟨hinit, ha, hc, hpays⟩
    obtain ⟨s₁, hr, hs'⟩ := (runs_guarded_releaseAll h hinit.2).mpr hpays
    exact ⟨h.unlocked .claimOnBehalf, s₁, ⟨hinit, ha, or_iff_not_imp_left.mp hc, hr⟩, hs'⟩

end Payment

section Delegated

def CliffsReached (b : Address) (w : World Store) : Prop :=
  ∀ id ∈ w.store.beneficiarySchedules b, ∀ stored ∈ w.store.schedule id,
    stored.schedule.cliffLedger ≤ w.ledger.sequence

instance : Decidable (CliffsReached b w) :=
  inferInstanceAs (Decidable (∀ id ∈ w.store.beneficiarySchedules b,
    ∀ stored ∈ w.store.schedule id, stored.schedule.cliffLedger ≤ w.ledger.sequence))

theorem releasable_delegated_iff : Releasable true L s id ↔ Releasable false L s id ∧
    ∀ stored, s.schedule id = some stored → stored.schedule.cliffLedger ≤ L := by
  constructor
  · rintro ⟨stored, hs, hcliff, hfits⟩
    refine ⟨⟨stored, hs, by simp, hfits⟩, ?_⟩
    intro st hst
    rw [hs] at hst
    exact Option.some.inj hst ▸ hcliff rfl
  · rintro ⟨⟨stored, hs, -, hfits⟩, hcliff⟩
    exact ⟨stored, hs, fun _ => hcliff stored hs, hfits⟩

theorem pays_delegated_iff (hpays : Pays false (w.env signers uploaded) b v w.store s') :
    Pays true (w.env signers' uploaded') b v w.store s' ↔ CliffsReached b w := by
  obtain ⟨hall, hle, hv, hsent⟩ := hpays
  constructor
  · intro h id hid
    exact (releasable_delegated_iff.mp (h.releasable id hid)).2
  · intro h
    exact ⟨fun id hid => releasable_delegated_iff.mpr ⟨hall id hid, h id hid⟩, hle, hv, hsent⟩

/-- In every reachable state a claim by the beneficiary or a delegate does what the release by the
beneficiary would do, provided that all cliffs are reached. -/
theorem delegated_claim_iff (h : Deployed w) (ls : List (Label Op))
    (hr : Runs (release b) ((w.run exec ls).env signers uploaded) (w.run exec ls).store v s')
    (ha : ((w.run exec ls).env signers' uploaded').Authorized c)
    (hc : c = b ∨ c ∈ (w.run exec ls).store.claimDelegates b) :
    Runs (claimOnBehalfOf c b) ((w.run exec ls).env signers' uploaded') (w.run exec ls).store v s' ↔
      CliffsReached b (w.run exec ls) := by
  have hregular := regular_run h ls
  obtain ⟨hinit, -, hpays⟩ := (runs_release_iff hregular).mp hr
  rw [runs_claimOnBehalfOf_iff hregular, ← pays_delegated_iff hpays]
  exact ⟨fun hclaim => hclaim.2.2.2, fun hdelegated => ⟨hinit, ha, hc, hdelegated⟩⟩

/-- Two schedules of one beneficiary, who lets account 4 claim; the second one has a cliff at
ledger 150. -/
def cliffAhead : List (Label Op) :=
  [.call [⟨1⟩] [] (.createVesting ⟨2⟩ 1000 0 100 true),
   .call [⟨1⟩] [] (.createVesting ⟨2⟩ 1000 50 100 true),
   .call [⟨2⟩] [] (.authorizeClaimer ⟨2⟩ ⟨4⟩ true)]

/-- Past the cliff the delegate gets the beneficiary the same amount. -/
theorem cliffAhead_claimed :
    ∃ s', Runs (claimOnBehalfOf ⟨4⟩ ⟨2⟩)
      ((genesis.run exec (cliffAhead ++ [.close (.ofNat 160 1700000300)])).env [⟨4⟩] [])
      (genesis.run exec (cliffAhead ++ [.close (.ofNat 160 1700000300)])).store 1200 s' := by
  obtain ⟨s', hr⟩ : ∃ s', Runs (release ⟨2⟩)
      ((genesis.run exec (cliffAhead ++ [.close (.ofNat 160 1700000300)])).env [⟨2⟩] [])
      (genesis.run exec (cliffAhead ++ [.close (.ofNat 160 1700000300)])).store 1200 s' :=
    runs_of_value (by decide +kernel)
  refine ⟨s', (delegated_claim_iff genesis_deployed _ hr (by decide +kernel)
    (Or.inr (by decide +kernel))).mpr (by decide +kernel)⟩

/-- Before it, half of the first schedule is released to the beneficiary, but the delegate is
turned away. -/
theorem cliffAhead_refused :
    Deployed genesis ∧
    (∃ s', Runs (release ⟨2⟩)
      ((genesis.run exec (cliffAhead ++ [.close (.ofNat 140 1700000200)])).env [⟨2⟩] [])
      (genesis.run exec (cliffAhead ++ [.close (.ofNat 140 1700000200)])).store 400 s') ∧
    ⟨4⟩ ∈ (genesis.run exec (cliffAhead ++
      [.close (.ofNat 140 1700000200)])).store.claimDelegates ⟨2⟩ ∧
    ((genesis.run exec (cliffAhead ++
      [.close (.ofNat 140 1700000200)])).env [⟨4⟩] []).Authorized ⟨4⟩ ∧
    (claimOnBehalfOf ⟨4⟩ ⟨2⟩
      ((genesis.run exec (cliffAhead ++ [.close (.ofNat 140 1700000200)])).env [⟨4⟩] [])
      (genesis.run exec (cliffAhead ++ [.close (.ofNat 140 1700000200)])).store).isOk = false :=
  ⟨genesis_deployed, runs_of_value (by decide +kernel), by decide +kernel, by decide +kernel,
    by decide +kernel⟩

end Delegated

end BcForge.Vesting
