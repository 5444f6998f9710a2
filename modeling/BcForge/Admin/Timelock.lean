import BcForge.Admin.Quorum

/-! The notice period of timelocked upgrades, and the window in which they can be executed. -/
namespace BcForge.Admin

open Soroban

/-- The legacy proposals a call executes after their timelock. -/
def Op.timelocked : Op → List ℕ
  | .executeUpgrade _ id _ => [id]
  | .executeUpgradeBatch _ ids _ => ids
  | _ => []

/-- The proposal has the approvals the threshold in force asks for. -/
def Quorate (s : Store) (id : ℕ) : Prop :=
  ∃ p, s.proposal id = some p ∧ getThreshold s ≤ p.approvals.length

/-- At every moment of the last 86,400 seconds of the run the proposal was quorate: in each state
that was not yet superseded when they began. -/
def FullNotice (w : World Store) (ls : List (Label Op)) (id : ℕ) : Prop :=
  ∀ a b, ls = a ++ b →
    (∀ l b', b = l :: b' → (w.run exec ls).ledger.timestamp <
      ((w.run exec a).next exec l).ledger.timestamp + timelockDelaySecs) →
    Quorate (w.run exec a).store id

/-- The threshold is not raised past the votes of a proposal whose clock is running, and the
clock of a vote does not saturate. -/
def NoticeKept (w : World Store) : Label Op → Prop
  | .call _ _ (.setAdminPool _ threshold) =>
    ∀ id p, w.store.proposalTimelock id ≠ none → w.store.proposal id = some p →
      p.executed = false → threshold ≤ p.approvals.length
  | .call _ _ op => op.votes = true → w.ledger.timestamp + timelockDelaySecs < 2 ^ 64
  | .close _ => True

variable {w : World Store} {l : Label Op} {ls ls' : List (Label Op)} {id u : ℕ} {p : Proposal}

/-- A proposal whose clock is running is quorate until it has been executed. -/
def ClockQuorate (s : Store) : Prop :=
  ∀ id u, s.proposalTimelock id = some u →
    ∃ p, s.proposal id = some p ∧ (p.executed = true ∨ getThreshold s ≤ p.approvals.length)

theorem clockQuorate_next (hs : Sound w) (hq : ClockQuorate w.store) (hk : NoticeKept w l) :
    ClockQuorate (w.next exec l).store := by
  intro id u hu
  rcases next_moves w l with he | ⟨signers, uploaded, op, rfl, hm | hr⟩
  · rw [he] at hu ⊢
    exact hq id u hu
  · rw [hm.rules.getThreshold_eq]
    rcases Flow.step_timelock hm.step hu with h | ⟨-, p, hp, ht⟩
    · obtain ⟨p, hp, hor⟩ := hq id u h
      obtain ⟨q, hpq, hl⟩ := (Flow.step_evolves hs.flow hm.step).proposal id p hp
      refine ⟨q, hpq, ?_⟩
      rcases hor with hx | ht
      · exact Or.inl (hl.executed hx)
      · exact Or.inr (Nat.le_trans ht hl.approvals.length_le)
    · exact ⟨p, hp, Or.inr ht⟩
  · have hf := hr.flow
    have hu' : w.store.proposalTimelock id = some u :=
      (congrFun (congrArg Flow.timelock hf) id).symm.trans hu
    obtain ⟨p, hp, hor⟩ := hq id u hu'
    have hp' : (w.next exec (.call signers uploaded op)).store.proposal id = some p :=
      (congrFun (congrArg Flow.proposal hf) id).trans hp
    refine ⟨p, hp', ?_⟩
    cases hr with
    | pool pool n hop hs' =>
      subst hop
      rcases hor with hx | ht
      · exact Or.inl hx
      · by_cases hx : p.executed = true
        · exact Or.inl hx
        · refine Or.inr ?_
          rw [hs']
          exact hk id p (by simp [hu']) hp (by simpa using hx)
    | admin c hop hs' =>
      have ht : getThreshold (w.next exec (.call signers uploaded op)).store =
          getThreshold w.store := by
        rw [getThreshold, getThreshold, hs'.rules.threshold]
      rw [ht]
      exact hor

/-- An unlock time that was not there before was written by a vote of the run. -/
theorem unlock_of_vote (hs : Sound w) (hn : w.store.proposalTimelock id = none)
    (hu : (w.run exec ls).store.proposalTimelock id = some u) :
    ∃ a signers uploaded op b, ls = a ++ .call signers uploaded op :: b ∧ op.votes = true ∧
      u = saturatingU64 ((w.run exec a).ledger.timestamp + timelockDelaySecs) := by
  induction ls generalizing w with
  | nil =>
    have hu' : w.store.proposalTimelock id = some u := hu
    rw [hn] at hu'
    cases hu'
  | cons l ls ih =>
    cases hv : (w.next exec l).store.proposalTimelock id with
    | none =>
      obtain ⟨a, signers, uploaded, op, b, rfl, hop, he⟩ := ih (sound_next hs) hv hu
      exact ⟨l :: a, signers, uploaded, op, b, rfl, hop, he⟩
    | some v =>
      have hvu : v = u := by
        have hk := (evolves_run (sound_next (l := l) hs) ls).timelock id v hv
        exact Option.some.inj (hk.symm.trans hu)
      rcases next_moves w l with he | ⟨signers, uploaded, op, rfl, hm | hr⟩
      · rw [he, hn] at hv
        cases hv
      · refine ⟨[], signers, uploaded, op, ls, rfl, ?_, ?_⟩
        · by_contra hop
          have he := congrFun (hm.timelock (by simpa using hop)) id
          have hv' : (w.next exec (.call signers uploaded op)).store.flow.timelock id = some v := hv
          rw [he] at hv'
          cases hn.symm.trans hv'
        · rcases Flow.step_timelock hm.step hv with h | ⟨h, -⟩
          · cases hn.symm.trans h
          · exact hvu.symm.trans h
      · have he := congrFun (congrArg Flow.timelock hr.flow) id
        have hv' : (w.next exec (.call signers uploaded op)).store.flow.timelock id = some v := hv
        rw [he] at hv'
        cases hn.symm.trans hv'

theorem timelocked_upgradable {env : Env} {s s' : Store} {op : Op}
    (h : Runs (exec op) env s () s') (hid : id ∈ op.timelocked) : Upgradable env.ledger s id := by
  cases op with
  | executeUpgrade x i hash =>
    rw [List.mem_singleton.mp hid]
    obtain ⟨-, -, -, -, p, hp, hl, hu, -⟩ := runs_executeUpgrade.mp h
    exact ⟨p, hp, hl, hu⟩
  | executeUpgradeBatch x ids hashes => exact (runs_executeUpgradeBatch h).1 id hid
  | _ => cases hid

theorem NoticeKept.not_saturated {signers : List Address} {uploaded : List BytesN32} {op : Op}
    (h : NoticeKept w (.call signers uploaded op)) (hv : op.votes = true) :
    saturatingU64 (w.ledger.timestamp + timelockDelaySecs) =
      w.ledger.timestamp + timelockDelaySecs := by
  have hlt : w.ledger.timestamp + timelockDelaySecs < 2 ^ 64 := by
    cases op with
    | setAdminPool pool n => cases hv
    | _ => exact h hv
  unfold saturatingU64
  omega

theorem clockQuorate_run (h : w.store = Store.empty) (hk : w.EveryStep exec NoticeKept ls) :
    ClockQuorate (w.run exec ls).store := by
  have hstart : ClockQuorate w.store := by
    intro id u hu
    rw [h] at hu
    cases hu
  have hstates : w.EveryState exec (fun v => Sound v ∧ ClockQuorate v.store) ls := by
    refine World.everyState_of_everyStep ⟨sound_empty h, hstart⟩ ?_ hk
    intro v l hv hc
    exact ⟨sound_next hv.1, clockQuorate_next hv.1 hv.2 hc⟩
  exact hstates.run.2

/-- In runs that keep the notice, every timelocked upgrade had its votes for the full delay. -/
theorem upgrade_after_full_notice {signers : List Address} {uploaded : List BytesN32} {op : Op}
    {s' : Store} (h : w.store = Store.empty) (hk : w.EveryStep exec NoticeKept ls)
    (hid : id ∈ op.timelocked)
    (hr : Runs (exec op) ((w.run exec ls).env signers uploaded) (w.run exec ls).store () s') :
    FullNotice w ls id := by
  intro a b hab hforce
  obtain ⟨p, hp, hl, unlock, hu, hle⟩ := timelocked_upgradable hr hid
  subst hab
  have hs : Sound (w.run exec a) := sound_run h a
  have hq : ClockQuorate (w.run exec a).store :=
    clockQuorate_run h (World.everyStep_append.mp hk).1
  rw [World.run_append] at hu hp hforce hle
  cases ha : (w.run exec a).store.proposalTimelock id with
  | some v =>
    obtain ⟨r, hr, hor⟩ := hq id v ha
    rcases hor with hx | ht
    · obtain ⟨q, hq, hlater⟩ := (evolves_run hs b).proposal id r hr
      cases hq.symm.trans hp
      have := hlater.executed hx
      rw [hl.executed] at this
      cases this
    · exact ⟨r, hr, ht⟩
  | none =>
    -- the clock started after this state, too late to have run out
    obtain ⟨c, sg, up, vote, d, rfl, hv, he⟩ := unlock_of_vote hs ha hu
    have hkept : NoticeKept ((w.run exec a).run exec c) (.call sg up vote) :=
      (World.everyStep_append.mp (World.everyStep_append.mp hk).2).2.1
    rw [hkept.not_saturated hv] at he
    have hbound : unlock ≤ ((w.run exec a).run exec (c ++ .call sg up vote :: d)).ledger.timestamp :=
      hle
    cases c with
    | nil =>
      have hf := hforce _ _ rfl
      have ht : ((w.run exec a).next exec (.call sg up vote)).ledger.timestamp =
          (w.run exec a).ledger.timestamp := rfl
      rw [ht] at hf
      have he' : unlock = (w.run exec a).ledger.timestamp + timelockDelaySecs := he
      omega
    | cons l c =>
      have hf := hforce _ _ rfl
      have hm := (World.run_ledger_mono exec ((w.run exec a).next exec l) c).2
      have he' : unlock = (((w.run exec a).next exec l).run exec c).ledger.timestamp +
          timelockDelaySecs := he
      omega

def dayLater : Ledger := .ofNat 1002 1700086400

/-- Two votes of two, and a day until the execution. -/
def noticedRun : List (Label Op) :=
  [.call [⟨1⟩] [] (.setAdmin ⟨1⟩),
   .call [⟨1⟩] [] (.setAdminPool [⟨1⟩, ⟨2⟩, ⟨3⟩] 2),
   .call [⟨1⟩] [] (.createProposal ⟨1⟩ "upgrade"),
   .call [⟨2⟩] [] (.approveProposal ⟨2⟩ 0),
   .close dayLater]

theorem noticedRun_full_notice : FullNotice deployed noticedRun 0 := by
  have hr : Runs (exec (.executeUpgrade ⟨1⟩ 0 7)) ((deployed.run exec noticedRun).env [⟨1⟩] [7])
      (deployed.run exec noticedRun).store () _ := runs_invoke (by decide)
  refine upgrade_after_full_notice rfl ⟨?_, ?_, ?_, ?_, trivial, trivial⟩ (by decide) hr
  · intro hv
    cases hv
  · intro id p hid
    exact absurd rfl hid
  · intro _
    decide
  · intro _
    decide

/-- The threshold is raised past the votes at once; the missing vote comes a second before the
clock runs out. -/
def raisedRun : List (Label Op) :=
  [.call [⟨1⟩] [] (.setAdmin ⟨1⟩),
   .call [⟨1⟩] [] (.setAdminPool [⟨1⟩, ⟨2⟩, ⟨3⟩] 2),
   .call [⟨1⟩] [] (.createProposal ⟨1⟩ "upgrade"),
   .call [⟨2⟩] [] (.approveProposal ⟨2⟩ 0),
   .call [⟨1⟩] [] (.setAdminPool [⟨1⟩, ⟨2⟩, ⟨3⟩] 3),
   .close (.ofNat 1001 1700086399),
   .call [⟨3⟩] [] (.approveProposal ⟨3⟩ 0),
   .close dayLater]

theorem raisedRun_short_notice :
    (∃ s', Runs (exec (.executeUpgrade ⟨1⟩ 0 7)) ((deployed.run exec raisedRun).env [⟨1⟩] [7])
      (deployed.run exec raisedRun).store () s') ∧ ¬ FullNotice deployed raisedRun 0 := by
  refine ⟨⟨_, runs_invoke (by decide)⟩, ?_⟩
  intro h
  obtain ⟨p, hp, hq⟩ := h (raisedRun.take 5) (raisedRun.drop 5) (by rfl) (by
    rintro l b' ⟨⟩
    decide)
  cases hp
  revert hq
  decide

/-! The two windows never meet: 600 ledgers of six seconds are an hour, the delay is a day. -/

/-- Consecutive ledgers close at most six seconds apart. -/
def SixSecondClock (w : World Store) : Label Op → Prop
  | .close next => next.sequence = w.ledger.sequence + 1 ∧
      w.ledger.timestamp ≤ next.timestamp ∧ next.timestamp ≤ w.ledger.timestamp + 6
  | .call _ _ _ => True

/-- After the run a pool member can execute the proposal as an upgrade. -/
def CanUpgrade (w : World Store) (id : ℕ) : Prop :=
  ∃ signers uploaded executor hash s',
    Runs (exec (.executeUpgrade executor id hash)) (w.env signers uploaded) w.store () s'

/-- Some later ledger of a six-second clock, a full delay after the present one, admits the
upgrade. -/
def ExecutableAfterDelay (w : World Store) (id : ℕ) : Prop :=
  ∃ ls, w.EveryStep exec SixSecondClock ls ∧ CanUpgrade (w.run exec ls) id ∧
    w.ledger.timestamp + timelockDelaySecs ≤ (w.run exec ls).ledger.timestamp

theorem sixSecondClock_run (hc : w.EveryStep exec SixSecondClock ls) :
    w.ledger.sequence ≤ (w.run exec ls).ledger.sequence ∧
      (w.run exec ls).ledger.timestamp ≤ w.ledger.timestamp +
        6 * ((w.run exec ls).ledger.sequence - w.ledger.sequence) := by
  induction ls generalizing w with
  | nil => exact ⟨le_rfl, by simp⟩
  | cons l ls ih =>
    obtain ⟨hseq, htime⟩ := ih hc.2
    cases l with
    | call signers uploaded op => exact ⟨hseq, htime⟩
    | close next =>
      obtain ⟨hs, ht, ht'⟩ := hc.1
      have hn : (w.next exec (.close next)).ledger = next := by
        simp only [World.next]
        rw [if_pos ⟨by omega, ht⟩]
      rw [hn] at hseq htime
      rw [World.run_cons]
      constructor
      · omega
      · omega

/-- An upgrade happens within 600 ledgers of its proposal. -/
theorem canUpgrade_sequence (hs : Sound w) {expiry : ℕ} (hp : w.store.proposal id = some p)
    (he : p.expiryLedger = some expiry) (hu : CanUpgrade (w.run exec ls) id) :
    (w.run exec ls).ledger.sequence ≤ expiry := by
  obtain ⟨signers, uploaded, executor, hash, s', hr⟩ := hu
  obtain ⟨-, -, -, -, q, hq, hl, -⟩ := runs_executeUpgrade.mp hr
  obtain ⟨r, hr', hlater⟩ := (evolves_run hs ls).proposal id p hp
  cases hr'.symm.trans hq
  have hx := hl.expired
  rw [proposalExpired, hlater.expiry, he] at hx
  exact not_lt.mp (of_decide_eq_false hx)

theorem createProposal_next {signers : List Address} {uploaded : List BytesN32} {creator : Address}
    {description : String} {s₁ : Store}
    (hc : Runs (createProposal creator description) (w.env signers uploaded) w.store id s₁) :
    (w.next exec (.call signers uploaded (.createProposal creator description))).store.proposal id =
      some (Flow.newProposal w.ledger creator description) := by
  have hs : (w.next exec (.call signers uploaded
      (.createProposal creator description))).store = s₁ := by
    apply invoke_of_runs (a := ())
    simp only [exec, runs_bind, runs_pure]
    exact ⟨id, s₁, hc, trivial, rfl⟩
  obtain ⟨-, -, hid, hf, -, -⟩ := runs_createProposal hc
  have hp : s₁.flow.proposal id = some (Flow.newProposal w.ledger creator description) := by
    rw [hf, hid]
    simp [Flow.create, Flow.write, Store.flow]
  rw [hs]
  exact hp

/-- On a six-second clock a proposal made now expires before its delay can have passed. -/
theorem expires_before_delay (hs : Sound w) {creator : Address} {description : String}
    (hp : w.store.proposal id = some (Flow.newProposal w.ledger creator description))
    (hc : w.EveryStep exec SixSecondClock ls) (hu : CanUpgrade (w.run exec ls) id) :
    (w.run exec ls).ledger.timestamp < w.ledger.timestamp + timelockDelaySecs := by
  have hseq := canUpgrade_sequence hs hp rfl hu
  have hclock := sixSecondClock_run hc
  have hexp : saturatingU32 (w.ledger.sequence + proposalExpiryLedgers) ≤
      w.ledger.sequence + proposalExpiryLedgers := Nat.min_le_left _ _
  have hdelay : timelockDelaySecs = 86400 := rfl
  have hledgers : proposalExpiryLedgers = 600 := rfl
  omega

/-- A proposal's clock cannot have started before the proposal was made. -/
theorem unlock_after_creation {signers : List Address} {uploaded : List BytesN32}
    {creator : Address} {description : String} {s₁ : Store} (hs : Sound w)
    (hc : Runs (createProposal creator description) (w.env signers uploaded) w.store id s₁)
    (hu : (w.run exec (.call signers uploaded (.createProposal creator description) ::
      ls)).store.proposalTimelock id = some u) :
    saturatingU64 (w.ledger.timestamp + timelockDelaySecs) ≤ u := by
  obtain ⟨-, -, hid, -⟩ := runs_createProposal hc
  have hn : w.store.proposalTimelock id = none := by
    rw [hid]
    exact (hs.flow.fresh _ le_rfl).2.1
  obtain ⟨a, sg, up, op, b, -, -, he⟩ := unlock_of_vote hs hn hu
  have hm := (World.run_ledger_mono exec w a).2
  rw [he]
  unfold saturatingU64
  omega

/-- No proposal can be upgraded to on a six-second clock: not after the delay, and, short of the
end of the `u64` clock, not at all. -/
theorem never_executableAfterDelay {signers : List Address} {uploaded : List BytesN32}
    {creator : Address} {description : String} {s₁ : Store} (h : w.store = Store.empty)
    (hc : Runs (createProposal creator description) ((w.run exec ls).env signers uploaded)
      (w.run exec ls).store id s₁) :
    ¬ ExecutableAfterDelay (w.run exec
        (ls ++ [.call signers uploaded (.createProposal creator description)])) id ∧
      ((w.run exec ls).ledger.timestamp + timelockDelaySecs < 2 ^ 64 →
        ∀ ls', (w.run exec (ls ++ [.call signers uploaded
            (.createProposal creator description)])).EveryStep exec SixSecondClock ls' →
          ¬ CanUpgrade (w.run exec (ls ++ .call signers uploaded
            (.createProposal creator description) :: ls')) id) := by
  have hs : Sound (w.run exec ls) := sound_run h ls
  have hcreated := createProposal_next hc
  have hafter : ∀ ls', w.run exec (ls ++ .call signers uploaded
      (.createProposal creator description) :: ls') = ((w.run exec ls).next exec
        (.call signers uploaded (.createProposal creator description))).run exec ls' := by
    intro ls'
    rw [World.run_append, World.run_cons]
  have hs₁ : Sound ((w.run exec ls).next exec
    (.call signers uploaded (.createProposal creator description))) := sound_next hs
  constructor
  · rintro ⟨ls', hclock, hu, hle⟩
    rw [hafter] at hclock hu hle
    have hlt := expires_before_delay hs₁ hcreated hclock hu
    exact absurd hle (not_le.mpr hlt)
  · intro hlate ls' hclock hu
    rw [hafter] at hclock
    have hu' := hu
    rw [hafter] at hu'
    have hlt := expires_before_delay hs₁ hcreated hclock hu'
    obtain ⟨sg, up, executor, hash, s', hr⟩ := hu
    obtain ⟨-, -, -, -, -, -, -, ⟨unlock, hul, hle⟩, -⟩ := runs_executeUpgrade.mp hr
    rw [World.run_append] at hul
    have hfrom := unlock_after_creation hs hc hul
    have hsat : saturatingU64 ((w.run exec ls).ledger.timestamp + timelockDelaySecs) =
        (w.run exec ls).ledger.timestamp + timelockDelaySecs := by
      unfold saturatingU64
      omega
    have hle' : unlock ≤ (((w.run exec ls).next exec (.call signers uploaded
        (.createProposal creator description))).run exec ls').ledger.timestamp := by
      rw [← hafter]
      exact hle
    have hnow : ((w.run exec ls).next exec (.call signers uploaded
        (.createProposal creator description))).ledger.timestamp =
          (w.run exec ls).ledger.timestamp := rfl
    omega

/-- A sole admin: the proposal is quorate as soon as it is made. -/
def soleAdmin : List (Label Op) := [.call [⟨1⟩] [] (.setAdmin ⟨1⟩)]

theorem never_executableAfterDelay_soleAdmin :
    ¬ ExecutableAfterDelay (deployed.run exec
      (soleAdmin ++ [.call [⟨1⟩] [] (.createProposal ⟨1⟩ "upgrade")])) 0 := by
  have hc : ∃ s₁, Runs (createProposal ⟨1⟩ "upgrade") ((deployed.run exec soleAdmin).env [⟨1⟩] [])
      (deployed.run exec soleAdmin).store 0 s₁ := runs_of_value (by decide)
  obtain ⟨s₁, hc⟩ := hc
  exact (never_executableAfterDelay rfl hc).1

theorem soleAdmin_quorate_unexecutable :
    Quorate (deployed.run exec
      (soleAdmin ++ [.call [⟨1⟩] [] (.createProposal ⟨1⟩ "upgrade")])).store 0 ∧
    ¬ ExecutableAfterDelay (deployed.run exec
      (soleAdmin ++ [.call [⟨1⟩] [] (.createProposal ⟨1⟩ "upgrade")])) 0 := by
  refine ⟨⟨_, rfl, by decide⟩, ?_⟩
  rintro ⟨ls, hclock, hu, hle⟩
  have hs := sound_run (w := deployed) rfl
    (soleAdmin ++ [.call [⟨1⟩] [] (.createProposal ⟨1⟩ "upgrade")])
  have hlt := expires_before_delay hs rfl hclock hu
  exact absurd hle (not_le.mpr hlt)

end BcForge.Admin
