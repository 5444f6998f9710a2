import BcForge.Soroban.Window
import BcForge.Wrapper.ProRata

/-! How much the emergency cap lets through. -/
namespace BcForge.Wrapper

open Soroban Call Admin

variable {env : Env} {s s' : Store} {w : World Store} {l : Label Op} {ls : List (Label Op)}
  {u c : Address} {op : Op} {n x : ℤ}

/-- The calls by which `u` leaves the vault. -/
def Op.exits (u : Address) : Op → Bool
  | .withdraw c _ => c = u
  | .unwrap c _ => c = u
  | _ => false

/-- What `u` got or has queued by leaving. -/
def exitOf (u : Address) (w : World Store) (l : Label Op) : ℤ :=
  match l with
  | .call _ _ op => if op.exits u = true then given u w.store (w.next exec l).store else 0
  | .close _ => 0

/-- The exits of `u` in a run, with the ledgers they were made in. -/
def exits (u : Address) (w : World Store) (ls : List (Label Op)) : Spending :=
  w.collectSteps exec (fun w l =>
    if exitOf u w l = 0 then [] else [(w.ledger.sequence, exitOf u w l)]) ls

/-- The step is a withdrawal of `u` that restarts the cap's window. -/
def Restarts (u : Address) (w : World Store) : Label Op → Prop
  | .call signers uploaded (.withdraw c n) =>
    c = u ∧ n ≠ 0 ∧ (exec (.withdraw c n) (w.env signers uploaded) w.store).isOk = true ∧
      ∃ state, w.store.userEmergencyState u = some state ∧
        saturatingU32 (state.windowStartLedger +
          (readCooldownConfig w.store).emergencyWindowLedgers) ≤ w.ledger.sequence
  | _ => False

/-- A restart comes no sooner than a whole window after each of the user's earlier exits. -/
def RestartsLate (u : Address) (w : World Store) (ls : List (Label Op)) : Prop :=
  ∀ pre l post, ls = pre ++ l :: post → Restarts u (w.run exec pre) l →
    ∀ e ∈ exits u w pre, e.1 + (readCooldownConfig (w.run exec pre).store).emergencyWindowLedgers ≤
      (w.run exec pre).ledger.sequence

/-- Windows are only touched by the cap check of their owner's withdrawals. -/
theorem windows_effect (hv : ∀ c, env.Authorized c → c ≠ env.self) (h : Effect env s op s') :
    s'.userEmergencyState = s.userEmergencyState ∨ ∃ c n, op = .withdraw c n ∧ n ≠ 0 ∧
      0 < given c s s' ∧ CapSpent env.ledger (readCooldownConfig s) c (given c s s')
        s.userEmergencyState s'.userEmergencyState := by
  by_cases hop : ∃ c n, op = .withdraw c n ∧ n ≠ 0
  · obtain ⟨c, n, rfl, hn⟩ := hop
    obtain ⟨-, hpos, hcap⟩ := withdraw_given hv hn h
    exact Or.inr ⟨c, n, rfl, hn, hpos, hcap⟩
  · left
    cases h with
    | enqueue c n x windows he hl ha hfree hn hb hq hx hpos hcap hon =>
      exact absurd ⟨c, n, he, hn.ne'⟩ hop
    | pay c n x windows t he hl ha hfree hn hb hq hx hpos hcap hoff ht =>
      exact absurd ⟨c, n, he, hn.ne'⟩ hop
    | aside _ he hsame haside hfund => exact haside.windows
    | _ => rfl

/-- A window counts from a ledger that has closed, and never below zero. -/
def WindowsSound (w : World Store) : Prop :=
  ∀ u state, w.store.userEmergencyState u = some state →
    0 ≤ state.amountWithdrawn ∧ state.windowStartLedger ≤ w.ledger.sequence

theorem currentWindow_sound {ledger : Ledger} {config : CooldownConfig}
    {stored : Option UserEmergencyState}
    (h : ∀ state, stored = some state →
      0 ≤ state.amountWithdrawn ∧ state.windowStartLedger ≤ ledger.sequence) :
    0 ≤ (currentWindow ledger config stored).amountWithdrawn ∧
      (currentWindow ledger config stored).windowStartLedger ≤ ledger.sequence := by
  cases stored with
  | none => exact ⟨le_rfl, le_rfl⟩
  | some state =>
    simp only [currentWindow]
    split
    · exact ⟨le_rfl, le_rfl⟩
    · exact h state rfl

theorem windowsSound_capSpent {config : CooldownConfig}
    {new : Address → Option UserEmergencyState} (h : WindowsSound w) (hx : 0 < x)
    (hcap : CapSpent w.ledger config c x w.store.userEmergencyState new) :
    ∀ u state, new u = some state →
      0 ≤ state.amountWithdrawn ∧ state.windowStartLedger ≤ w.ledger.sequence := by
  unfold CapSpent at hcap
  split at hcap
  · obtain ⟨-, rfl⟩ := hcap
    intro u state hu
    by_cases huc : u = c
    · subst huc
      have hw : 0 ≤ (currentWindow w.ledger config (w.store.userEmergencyState u)).amountWithdrawn ∧
        _ := currentWindow_sound (h u)
      rw [Function.update_self, Option.some.injEq] at hu
      rw [← hu]
      exact ⟨by dsimp only; omega, hw.2⟩
    · rw [Function.update_of_ne huc] at hu
      exact h u state hu
  · rw [hcap]
    exact h

theorem windowsSound_next (h : WindowsSound w) : WindowsSound (w.next exec l) := by
  have hmono := (World.next_ledger_mono exec w l).1
  cases l with
  | close l =>
    intro u state hu
    rw [World.next_close_store] at hu
    obtain ⟨hpos, hle⟩ := h u state hu
    exact ⟨hpos, by omega⟩
  | call signers uploaded op =>
    rcases World.call_cases exec w signers uploaded op with hr | ⟨-, hs⟩
    · rcases windows_effect World.authorized_ne_self (exec_effect World.authorized_ne_self hr) with
        hsame | ⟨c, n, -, -, hpos, hcap⟩
      · intro u state hu
        exact h u state (hsame ▸ hu)
      · have hnew := windowsSound_capSpent h hpos hcap
        exact hnew
    · rw [hs]
      exact h

theorem windowsSound_run (h : Deployed w) (ls : List (Label Op)) :
    WindowsSound (w.run exec ls) := by
  refine World.run_induction ?_ fun _ _ => windowsSound_next
  obtain ⟨access, token, decimal, underlying, foreign, -, hs⟩ := h.store_eq
  intro u state hu
  rw [hs] at hu
  cases hu

/-- The stored window of `u` accounts for the exits so far. -/
def Tracked (config : CooldownConfig) (u : Address) (w : World Store) (h : Spending) : Prop :=
  match w.store.userEmergencyState u with
  | some state => h.Counted config.emergencyCap config.emergencyWindowLedgers
      state.windowStartLedger state.amountWithdrawn
  | none => h = []

theorem tracked_start {config : CooldownConfig} (hcap : 0 < config.emergencyCap)
    (h : WindowsSound w) : Tracked config u w [] := by
  unfold Tracked
  split
  · rename_i state hu
    exact Spending.counted_nil hcap.le (h u state hu).1
  · rfl

/-- A withdrawal that passes the cap check is counted, in a window that is old enough. -/
theorem tracked_spend {config : CooldownConfig} {h : Spending} {w' : World Store}
    (hcap : 0 < config.emergencyCap) (hwidth : 0 < config.emergencyWindowLedgers)
    (hsound : WindowsSound w) (ht : Tracked config u w h) (hx : 0 < x)
    (hspent : CapSpent w.ledger config u x w.store.userEmergencyState w'.store.userEmergencyState)
    (hlate : ∀ state, w.store.userEmergencyState u = some state →
      saturatingU32 (state.windowStartLedger + config.emergencyWindowLedgers) ≤
        w.ledger.sequence → ∀ e ∈ h, e.1 + config.emergencyWindowLedgers ≤ w.ledger.sequence) :
    Tracked config u w' (h ++ [(w.ledger.sequence, x)]) := by
  unfold CapSpent at hspent
  rw [if_pos hcap] at hspent
  obtain ⟨hle, hnew⟩ := hspent
  unfold Tracked at ht ⊢
  rw [hnew, Function.update_self]
  cases hu : w.store.userEmergencyState u with
  | none =>
    simp only [hu] at ht hle ⊢
    rw [ht]
    exact (Spending.counted_nil hcap.le le_rfl).spend le_rfl hx.le hle
  | some state =>
    simp only [hu, currentWindow] at ht hle ⊢
    by_cases hr : 0 < config.emergencyWindowLedgers ∧
        saturatingU32 (state.windowStartLedger + config.emergencyWindowLedgers) ≤ w.ledger.sequence
    · simp only [if_pos hr, zero_add] at hle ⊢
      exact ht.restart (hlate state hu hr.2) hwidth hx.le hle
    · simp only [if_neg hr] at hle ⊢
      exact ht.spend (hsound u state hu).2 hx.le hle

variable {signers : List Address} {uploaded : List BytesN32}

/-- The user's exits through anything but `withdraw` with shares are worth nothing here. -/
theorem exitOf_eq_zero (hr : Runs (exec op) (w.env signers uploaded) w.store ()
      (w.next exec (.call signers uploaded op)).store)
    (hunwrap : ∀ n, op ≠ .unwrap u n) (hop : ¬ ∃ n, op = .withdraw u n ∧ n ≠ 0) :
    exitOf u w (.call signers uploaded op) = 0 := by
  unfold exitOf
  dsimp only
  split
  · rename_i hexit
    cases op with
    | unwrap c n =>
      obtain rfl : c = u := by simpa [Op.exits] using hexit
      exact absurd rfl (hunwrap n)
    | withdraw c n =>
      obtain rfl : c = u := by simpa [Op.exits] using hexit
      obtain rfl : n = 0 := by
        by_contra hn
        exact hop ⟨n, rfl, hn⟩
      have heff := exec_effect World.authorized_ne_self hr
      generalize (w.next exec (.call signers uploaded (.withdraw c 0))).store = s' at heff ⊢
      cases heff with
      | claim c' q t he hl ha hq hrel ht =>
        obtain he | he := he
        · cases he
        · cases he
          exact given_claimed ht (World.authorized_ne_self _ ha) hq
      | enter c' n m t he hl ha hn hm ht hr => obtain he | he := he <;> cases he
      | unwrap c' n x t he hl ha hfree hn hb hx hpos ht => cases he
      | enqueue c' n x windows he hl ha hfree hn hb hq hx hpos hcap hon =>
        cases he
        exact absurd hn (lt_irrefl 0)
      | pay c' n x windows t he hl ha hfree hn hb hq hx hpos hcap hoff ht =>
        cases he
        exact absurd hn (lt_irrefl 0)
      | move src dst n allowance expiry he hn hb => obtain he | ⟨_, he⟩ := he <;> cases he
      | destroy c' n allowance expiry he hn hb => obtain he | ⟨_, he⟩ := he <;> cases he
      | aside _ he hsame haside hfund => cases he
    | _ => cases hexit
  · rfl

/-- A step either leaves the user's window and exits alone, or is a withdrawal of the user that
the cap check has counted. -/
theorem exit_cases (hunwrap : World.OnSuccess exec (fun _ op => ∀ n, op ≠ .unwrap u n) w l) :
    (exitOf u w l = 0 ∧
      (w.next exec l).store.userEmergencyState u = w.store.userEmergencyState u) ∨
    ∃ signers uploaded n, l = .call signers uploaded (.withdraw u n) ∧ n ≠ 0 ∧
      (exec (.withdraw u n) (w.env signers uploaded) w.store).isOk = true ∧ 0 < exitOf u w l ∧
      CapSpent w.ledger (readCooldownConfig w.store) u (exitOf u w l)
        w.store.userEmergencyState (w.next exec l).store.userEmergencyState := by
  cases l with
  | close l =>
    refine Or.inl ⟨rfl, ?_⟩
    rw [World.next_close_store]
  | call signers uploaded op =>
    rcases World.call_cases exec w signers uploaded op with hr | ⟨-, hs⟩
    · have hok : (exec op (w.env signers uploaded) w.store).isOk = true := isOk_of_runs hr
      have heffect := exec_effect World.authorized_ne_self hr
      have hwindows := windows_effect World.authorized_ne_self heffect
      by_cases hop : ∃ n, op = .withdraw u n ∧ n ≠ 0
      · obtain ⟨n, rfl, hn⟩ := hop
        obtain ⟨-, hpos, hcap⟩ := withdraw_given_of_runs hn hr
        have hexit : exitOf u w (.call signers uploaded (.withdraw u n)) =
            given u w.store (w.next exec (.call signers uploaded (.withdraw u n))).store := by
          simp [exitOf, Op.exits]
        refine Or.inr ⟨signers, uploaded, n, rfl, hn, hok, ?_, ?_⟩
        · rw [hexit]
          exact hpos
        · rw [hexit]
          exact hcap
      · refine Or.inl ⟨exitOf_eq_zero hr (hunwrap _ hr) hop, ?_⟩
        rcases hwindows with hsame | ⟨c, n, rfl, hn, -, hcap⟩
        · exact congrFun hsame u
        · have huc : u ≠ c := by
            rintro rfl
            exact hop ⟨n, rfl, hn⟩
          unfold CapSpent at hcap
          split at hcap
          · exact (congrFun hcap.2 u).trans (Function.update_of_ne huc ..)
          · exact congrFun hcap u
    · refine Or.inl ⟨?_, by rw [hs]⟩
      unfold exitOf given
      dsimp only
      rw [hs]
      split <;> omega

theorem tracked_next {config : CooldownConfig} {h : Spending} (hcap : 0 < config.emergencyCap)
    (hwidth : 0 < config.emergencyWindowLedgers) (hconfig : readCooldownConfig w.store = config)
    (hsound : WindowsSound w)
    (hunwrap : World.OnSuccess exec (fun _ op => ∀ n, op ≠ .unwrap u n) w l)
    (hlate : Restarts u w l →
      ∀ e ∈ h, e.1 + config.emergencyWindowLedgers ≤ w.ledger.sequence)
    (ht : Tracked config u w h) :
    Tracked config u (w.next exec l)
      (h ++ if exitOf u w l = 0 then [] else [(w.ledger.sequence, exitOf u w l)]) := by
  rcases exit_cases hunwrap with ⟨hzero, hsame⟩ | ⟨signers, uploaded, n, rfl, hn, hok, hpos, hspent⟩
  · rw [if_pos hzero, List.append_nil]
    unfold Tracked at ht ⊢
    rwa [hsame]
  · rw [if_neg hpos.ne']
    rw [hconfig] at hspent
    refine tracked_spend hcap hwidth hsound ht hpos hspent fun state hu hr => ?_
    refine hlate ⟨rfl, hn, hok, state, hu, ?_⟩
    rwa [hconfig]

theorem tracked_run {config : CooldownConfig} (hcap : 0 < config.emergencyCap)
    (hwidth : 0 < config.emergencyWindowLedgers) (hsound : WindowsSound w)
    (hfixed : w.EveryState exec (fun w => readCooldownConfig w.store = config) ls)
    (hunwrap : w.EveryStep exec (World.OnSuccess exec fun _ op => ∀ n, op ≠ .unwrap u n) ls)
    (hlate : RestartsLate u w ls) : Tracked config u (w.run exec ls) (exits u w ls) := by
  induction ls using List.reverseRecOn with
  | nil => exact tracked_start hcap hsound
  | append_singleton ls l ih =>
    obtain ⟨hfixed, hlast⟩ := World.everyState_append.mp hfixed
    obtain ⟨hunwrap, hstep⟩ := World.everyStep_append.mp hunwrap
    have hprefix : RestartsLate u w ls := by
      intro pre l' post hsplit
      refine hlate pre l' (post ++ [l]) ?_
      rw [hsplit, List.append_assoc, List.cons_append]
    have hconfig : readCooldownConfig (w.run exec ls).store = config := hlast.1
    have hrestart : Restarts u (w.run exec ls) l → ∀ e ∈ exits u w ls,
        e.1 + config.emergencyWindowLedgers ≤ (w.run exec ls).ledger.sequence := by
      intro hr
      have hl := hlate ls l [] rfl hr
      rwa [hconfig] at hl
    have hsound' : WindowsSound (w.run exec ls) :=
      World.run_induction hsound fun _ _ => windowsSound_next
    have hnext := tracked_next hcap hwidth hconfig hsound' hstep.1 hrestart
      (ih hfixed hunwrap hprefix)
    have hexits : exits u w (ls ++ [l]) = exits u w ls ++
        if exitOf u (w.run exec ls) l = 0 then []
        else [((w.run exec ls).ledger.sequence, exitOf u (w.run exec ls) l)] := by
      unfold exits
      rw [World.collectSteps_append]
      simp [World.collectSteps]
    rw [hexits, World.run_append]
    exact hnext

/-- Under a fixed configuration no user leaves with more than the cap in any window's worth of
consecutive ledgers, as long as the user does not unwrap and the window is not restarted within
reach of an earlier exit. -/
theorem emergency_cap_kept {config : CooldownConfig} (h : Deployed w) (ls₀ : List (Label Op))
    (hcap : 0 < config.emergencyCap) (hwidth : 0 < config.emergencyWindowLedgers)
    (hfixed : (w.run exec ls₀).EveryState exec
      (fun w => readCooldownConfig w.store = config) ls)
    (hunwrap : (w.run exec ls₀).EveryStep exec
      (World.OnSuccess exec fun _ op => ∀ n, op ≠ .unwrap u n) ls)
    (hlate : RestartsLate u (w.run exec ls₀) ls) (k : ℕ) :
    (exits u (w.run exec ls₀) ls).within k config.emergencyWindowLedgers ≤
      config.emergencyCap := by
  have ht := tracked_run hcap hwidth (windowsSound_run h ls₀) hfixed hunwrap hlate
  unfold Tracked at ht
  split at ht
  · exact ht.bounded k
  · rw [ht]
    exact hcap.le

/-- At most 500000000 units per user in 100 ledgers, without a cooldown. -/
def capConfig : CooldownConfig := ⟨false, 0, 500000000, 100⟩

/-- Account 2 has deposited 1000000000 units, and the cap is in force. -/
def cappedDeposit : List (Label Op) :=
  fundedDeposit ⟨2⟩ 1000000000 ++ [.call [⟨1⟩] [] (.setCooldownConfig ⟨1⟩ capConfig)]

/-- Two withdrawals, the second one in a new window. -/
def spacedExits : List (Label Op) :=
  [.call [⟨2⟩] [] (.withdraw ⟨2⟩ 300000000),
   .close (.ofNat 200 1700000500),
   .call [⟨2⟩] [] (.withdraw ⟨2⟩ 500000000)]

theorem spacedExits_late :
    RestartsLate ⟨2⟩ (genesis.run exec cappedDeposit) spacedExits := by
  intro pre l post hsplit hr
  rcases pre with _ | ⟨_, _ | ⟨_, _ | ⟨_, pre⟩⟩⟩
  · exact fun e he => absurd he List.not_mem_nil
  · cases hsplit
    cases hr
  · cases hsplit
    decide +kernel
  · have hlen := congrArg List.length hsplit
    simp [spacedExits] at hlen

theorem spacedExits_kept :
    (exits ⟨2⟩ (genesis.run exec cappedDeposit) spacedExits).within 150 100 ≤ 500000000 ∧
      (exits ⟨2⟩ (genesis.run exec cappedDeposit) spacedExits).within 150 100 = 500000000 := by
  have hfixed : (genesis.run exec cappedDeposit).EveryState exec
      (fun w => readCooldownConfig w.store = capConfig) spacedExits := by decide +kernel
  have hunwrap : (genesis.run exec cappedDeposit).EveryStep exec
      (World.OnSuccess exec fun _ op => ∀ n, op ≠ .unwrap ⟨2⟩ n) spacedExits :=
    ⟨fun _ _ _ => nofun, trivial, fun _ _ _ => nofun, trivial⟩
  exact ⟨emergency_cap_kept genesis_deployed cappedDeposit (by decide) (by decide) hfixed hunwrap
    spacedExits_late 150, by decide +kernel⟩

/-- The whole deposit leaves in one ledger, the second half through `unwrap`. -/
def unwrapAround : List (Label Op) :=
  [.call [⟨2⟩] [] (.withdraw ⟨2⟩ 500000000), .call [⟨2⟩] [] (.unwrap ⟨2⟩ 500000000)]

/-- A full cap's worth right after the restart, when the last window's end was just used up. -/
def aroundRestart : List (Label Op) :=
  [.call [⟨2⟩] [] (.withdraw ⟨2⟩ 100000000),
   .close (.ofNat 199 1700000500),
   .call [⟨2⟩] [] (.withdraw ⟨2⟩ 400000000),
   .close (.ofNat 200 1700000505),
   .call [⟨2⟩] [] (.withdraw ⟨2⟩ 500000000)]

theorem emergency_cap_exceeded :
    ((genesis.run exec cappedDeposit).EveryState exec
        (fun w => readCooldownConfig w.store = capConfig) unwrapAround ∧
      capConfig.emergencyCap < (exits ⟨2⟩ (genesis.run exec cappedDeposit) unwrapAround).within 100
        capConfig.emergencyWindowLedgers) ∧
    (genesis.run exec cappedDeposit).EveryState exec
        (fun w => readCooldownConfig w.store = capConfig) aroundRestart ∧
      capConfig.emergencyCap < (exits ⟨2⟩ (genesis.run exec cappedDeposit) aroundRestart).within 199
        capConfig.emergencyWindowLedgers := by
  refine ⟨⟨?_, ?_⟩, ?_, ?_⟩
  all_goals decide +kernel

end BcForge.Wrapper
