import BcForge.Split.Contract

/-! What each entry point of the split contract pays, and the records it leaves. -/
namespace BcForge.Split

open Soroban Call Admin

variable {env : Env} {s s' : Store} {α : Type} {a : α} {u : Unit} {id k : ℕ} {n : Tokens}
  {token here dst c : Address} {x : ℤ} {r : Recipient} {rs ps : List Recipient} {p p' : Progress}

@[simp] theorem runs_onTokens {f : Tokens → Option Tokens} :
    Runs (onTokens f) env s u s' ↔ ∃ n, f s.tokens = some n ∧ s' = { s with tokens := n } := by
  simp [onTokens]

@[simp] theorem runs_onTokens_bind {f : Tokens → Option Tokens} {k : Unit → SplitCall α} :
    Runs (onTokens f >>= k) env s a s' ↔
      ∃ n, f s.tokens = some n ∧ Runs (k ()) env { s with tokens := n } a s' := by
  simp [onTokens]

@[simp] theorem runs_requireSuperAdmin : Runs (admin (requireSuperAdmin c)) env s u s' ↔
    (hasRole s.access .superAdmin c = true ∧ env.Authorized c) ∧ s' = s := by
  simp [admin, requireSuperAdmin, accessLens, and_assoc]

@[simp] theorem runs_requireSuperAdmin_bind {k : Unit → SplitCall α} :
    Runs (admin (requireSuperAdmin c) >>= k) env s a s' ↔
      (hasRole s.access .superAdmin c = true ∧ env.Authorized c) ∧ Runs (k ()) env s a s' := by
  simp [runs_bind, and_assoc, Unique.exists_iff]

theorem runs_reentrancyGuard {g : Guard} {body : SplitCall α}
    (h : Runs (reentrancyGuard g body) env s a s') :
    ∃ t, Runs body env ((guardLens g).set true s) a t ∧ s' = (guardLens g).set false t :=
  (runs_guarded.mp h).2

theorem runs_tryTransfer {b : Bool} :
    Runs (tryTransfer token here dst x) env s b s' ↔
      ∃ balance, s.tokens.balance token here = some balance ∧
        ((balance < x ∨ x ≤ 0) ∧ b = false ∧ s' = s ∨
          ¬ (balance < x ∨ x ≤ 0) ∧ b = true ∧ ∃ n,
            s.tokens.transfer ⟨token, here, dst, x⟩ = some n ∧ s' = { s with tokens := n }) := by
  simp only [tryTransfer, runs_gets_bind, runs_expect_bind, runs_ite, runs_pure,
    runs_onTokens_bind]
  grind

/-- Whether this share is the one the records ask to be retried. -/
def awaiting (records : Address → Option FailedPayout) (r : Recipient) : ℕ :=
  if (records r.dst).any (·.amount = r.amount) then 1 else 0

theorem awaiting_none (h : s.failedPayout id r.dst = none) :
    awaiting (s.failedPayout id) r = 0 := by
  simp [awaiting, h]

theorem awaiting_setFailedPayout_of_ne {fp : Option FailedPayout} (h : r.dst ≠ dst) :
    awaiting ((setFailedPayout id dst fp s).failedPayout id) r =
      awaiting (s.failedPayout id) r := by
  simp [awaiting, setFailedPayout, Function.update_of_ne h]

/-- The shares `ps` out of `rs` were paid, and nothing but the records of the invoice changed
besides. -/
structure Paid (id : ℕ) (token here : Address) (rs ps : List Recipient) (s s' : Store) : Prop where
  sub : ps.Sublist rs
  only : s' = { s with
    failedPayout := Function.update s.failedPayout id (s'.failedPayout id), tokens := s'.tokens }
  transfers : s'.tokens.transfers =
    s.tokens.transfers ++ ps.map fun r => ⟨token, here, r.dst, r.amount⟩

theorem paid_nil : Paid id token here [] [] s s where
  sub := List.Sublist.refl []
  only := by simp
  transfers := by simp

theorem paid_skip (h : Paid id token here rs ps s s') : Paid id token here (r :: rs) ps s s' where
  sub := h.sub.cons r
  only := h.only
  transfers := h.transfers

theorem paid_pay (ht : s.tokens.transfer ⟨token, here, r.dst, r.amount⟩ = some n)
    (h : Paid id token here rs ps { s with tokens := n } s') :
    Paid id token here (r :: rs) (r :: ps) s s' where
  sub := h.sub.cons_cons r
  only := h.only
  transfers := by
    have htail := h.transfers
    have hhead := Tokens.transfers_transfer ht
    simp only at htail
    rw [htail, hhead]
    simp

theorem paid_fail (h : Paid id token here rs ps (writeFailedPayout ⟨id, r.dst, r.amount, k⟩ s) s') :
    Paid id token here (r :: rs) ps s s' where
  sub := h.sub.cons r
  only := by
    have honly := h.only
    simpa [writeFailedPayout, setFailedPayout] using honly
  transfers := h.transfers

/-- How the loop of a release fares with a share. -/
inductive Fate where
  | paid
  | failed
  | skipped
deriving DecidableEq

/-- The fate of each share, as far as the funds and the records go. -/
def fates (here : Address) : ℤ → (Address → ℕ) → List Recipient → List (Recipient × Fate)
  | _, _, [] => []
  | funds, tries, r :: rest =>
    if 3 ≤ tries r.dst then (r, .skipped) :: fates here funds tries rest
    else if funds < r.amount ∨ r.amount ≤ 0 then
      (r, .failed) :: fates here funds (Function.update tries r.dst (tries r.dst + 1)) rest
    else (r, .paid) :: fates here (if r.dst = here then funds else funds - r.amount) tries rest

def withFate (f : Fate) (fs : List (Recipient × Fate)) : List Recipient :=
  (fs.filter (·.2 = f)).map (·.1)

/-- What a record asks for, and how often it was tried. -/
def recorded (records : Address → Option FailedPayout) (a : Address) : ℤ :=
  (records a).elim 0 (·.amount)

def tried (records : Address → Option FailedPayout) (a : Address) : ℕ :=
  (records a).elim 0 (·.retryCount)

/-- The records once each of the shares has failed in its turn: the later one stands, with one more
try. -/
def stored (id : ℕ) (records : Address → Option FailedPayout) (rs : List Recipient) :
    Address → Option FailedPayout :=
  rs.foldl (fun records r => Function.update records r.dst
    (some ⟨id, r.dst, r.amount, tried records r.dst + 1⟩)) records

/-- What a release starting from `s` does with the shares `rs`. -/
def faring (id : ℕ) (token here : Address) (s : Store) (rs : List Recipient) :
    List (Recipient × Fate) :=
  fates here ((s.tokens.balance token here).getD 0) (tried (s.failedPayout id)) rs

theorem faring_skip (h : 3 ≤ tried (s.failedPayout id) r.dst) :
    faring id token here s (r :: rs) = (r, .skipped) :: faring id token here s rs := by
  simp [faring, fates, h]

theorem failedPayout_writeFailedPayout : (writeFailedPayout ⟨id, dst, x, k⟩ s).failedPayout id =
    Function.update (s.failedPayout id) dst (some ⟨id, dst, x, k⟩) :=
  Function.update_self _ _ _

theorem tried_writeFailedPayout :
    tried ((writeFailedPayout ⟨id, r.dst, r.amount, k⟩ s).failedPayout id) =
      Function.update (tried (s.failedPayout id)) r.dst k := by
  rw [failedPayout_writeFailedPayout]
  funext a
  by_cases ha : a = r.dst
  · subst ha
    simp [tried]
  · simp [tried, Function.update_of_ne ha]

theorem faring_fail {funds : ℤ} (h : ¬ 3 ≤ tried (s.failedPayout id) r.dst)
    (hfunds : s.tokens.balance token here = some funds) (hlow : funds < r.amount ∨ r.amount ≤ 0) :
    faring id token here s (r :: rs) = (r, .failed) :: faring id token here (writeFailedPayout
      ⟨id, r.dst, r.amount, tried (s.failedPayout id) r.dst + 1⟩ s) rs := by
  have htokens : (writeFailedPayout
      ⟨id, r.dst, r.amount, tried (s.failedPayout id) r.dst + 1⟩ s).tokens = s.tokens := rfl
  simp only [faring, tried_writeFailedPayout, htokens, fates, if_neg h, hfunds, Option.getD_some,
    if_pos hlow]

theorem faring_pay {funds : ℤ} (h : ¬ 3 ≤ tried (s.failedPayout id) r.dst)
    (hfunds : s.tokens.balance token here = some funds)
    (henough : ¬ (funds < r.amount ∨ r.amount ≤ 0))
    (hn : s.tokens.transfer ⟨token, here, r.dst, r.amount⟩ = some n) :
    faring id token here s (r :: rs) =
      (r, .paid) :: faring id token here { s with tokens := n } rs := by
  simp only [faring, fates, if_neg h, hfunds, Option.getD_some, if_neg henough,
    Tokens.balance_transfer hn, Option.map_some]

/-- Every share has a fate. -/
theorem map_fates {funds : ℤ} {tries : Address → ℕ} :
    (fates here funds tries rs).map (·.1) = rs := by
  induction rs generalizing funds tries with
  | nil => rfl
  | cons r rest ih =>
    unfold fates
    split
    · simp [ih]
    · split <;> simp [ih]

theorem map_faring : (faring id token here s rs).map (·.1) = rs := map_fates

theorem withFate_cons {f g : Fate} {fs : List (Recipient × Fate)} :
    withFate f ((r, g) :: fs) = if g = f then r :: withFate f fs else withFate f fs := by
  unfold withFate
  rw [List.filter_cons]
  by_cases h : g = f <;> simp [h]

/-- Every share has one of the three fates. -/
theorem perm_fates (fs : List (Recipient × Fate)) :
    (fs.map (·.1)).Perm (withFate .paid fs ++ (withFate .failed fs ++ withFate .skipped fs)) := by
  induction fs with
  | nil => exact List.Perm.refl _
  | cons q fs ih =>
    obtain ⟨r, f⟩ := q
    cases f with
    | paid => exact ih.cons r
    | failed => exact (ih.cons r).trans List.perm_middle.symm
    | skipped =>
      simp only [withFate_cons, reduceCtorEq, if_false, if_true]
      rw [← List.append_assoc] at ih ⊢
      exact (ih.cons r).trans List.perm_middle.symm

/-- No share goes to an account whose record is used up. -/
theorem not_paid_of_tried {funds : ℤ} {tries : Address → ℕ} {a : Address} (h : 3 ≤ tries a)
    (ha : r.dst = a) : r ∉ withFate .paid (fates here funds tries rs) := by
  induction rs generalizing funds tries with
  | nil => simp [fates, withFate]
  | cons q rest ih =>
    unfold fates
    split
    · rw [withFate_cons, if_neg (by decide)]
      exact ih h
    · rename_i hq
      have hne : q.dst ≠ a := by
        rintro rfl
        exact hq h
      split
      · rw [withFate_cons, if_neg (by decide)]
        refine ih ?_
        rwa [Function.update_of_ne hne.symm]
      · rw [withFate_cons, if_pos rfl, List.mem_cons, not_or]
        refine ⟨?_, ih h⟩
        rintro rfl
        exact hne ha

/-- A share is skipped once its account was tried three times, the failures before it included. -/
theorem tried_of_skipped {funds : ℤ} {tries : Address → ℕ}
    (h : r ∈ withFate .skipped (fates here funds tries rs)) : 3 ≤ tries r.dst +
      ((withFate .failed (fates here funds tries rs)).filter (·.dst = r.dst)).length := by
  induction rs generalizing funds tries with
  | nil => simp [fates, withFate] at h
  | cons q rest ih =>
    unfold fates at h ⊢
    split
    · rename_i hq
      rw [if_pos hq, withFate_cons, if_pos rfl, List.mem_cons] at h
      rw [withFate_cons, if_neg (by decide)]
      rcases h with rfl | h
      · omega
      · exact ih h
    · rename_i hq
      rw [if_neg hq] at h
      split
      · rename_i hlow
        rw [if_pos hlow, withFate_cons, if_neg (by decide)] at h
        rw [withFate_cons, if_pos rfl, List.filter_cons]
        have hrest := ih h
        by_cases hdst : q.dst = r.dst
        · rw [hdst, Function.update_self] at hrest
          rw [if_pos (by simpa using hdst), List.length_cons]
          rw [hdst]
          omega
        · rw [Function.update_of_ne (Ne.symm hdst)] at hrest
          rw [if_neg (by simpa using hdst)]
          exact hrest
      · rename_i hlow
        rw [if_neg hlow, withFate_cons, if_neg (by decide)] at h
        rw [withFate_cons, if_neg (by decide)]
        exact ih h

theorem stored_append {records : Address → Option FailedPayout} : stored id records (rs ++ [r]) =
    Function.update (stored id records rs) r.dst
      (some ⟨id, r.dst, r.amount, tried (stored id records rs) r.dst + 1⟩) := by
  simp [stored]

/-- An account without a failed share keeps the record it had. -/
theorem stored_of_none {a : Address} {records : Address → Option FailedPayout}
    (h : rs.filter (·.dst = a) = []) : stored id records rs a = records a := by
  induction rs using List.reverseRecOn with
  | nil => rfl
  | append_singleton rs r ih =>
    rw [List.filter_append, List.append_eq_nil_iff] at h
    have hne : a ≠ r.dst := by
      rintro rfl
      simp at h
    rw [stored_append, Function.update_of_ne hne]
    exact ih h.1

/-- Of several failed shares the last one is on record, and all of them count as tries. -/
theorem stored_of_last {qs : List Recipient} {a : Address}
    {records : Address → Option FailedPayout} (h : rs.filter (·.dst = a) = qs ++ [r]) :
    stored id records rs a = some ⟨id, a, r.amount, tried records a + (qs.length + 1)⟩ := by
  induction rs using List.reverseRecOn generalizing qs r with
  | nil => simp at h
  | append_singleton rs q ih =>
    rw [stored_append]
    by_cases hq : q.dst = a
    · have hlast : rs.filter (·.dst = a) ++ [q] = qs ++ [r] := by
        rw [← h, List.filter_append]
        simp [hq]
      obtain ⟨hqs, hqr⟩ := List.append_inj' hlast rfl
      obtain rfl : q = r := by simpa using hqr
      have htried : tried (stored id records rs) a = tried records a + qs.length := by
        rcases List.eq_nil_or_concat qs with rfl | ⟨qs', r', rfl⟩
        · rw [tried, stored_of_none hqs]
          rfl
        · rw [List.concat_eq_append] at hqs
          rw [tried, ih hqs]
          simp
      rw [← hq, Function.update_self, hq, htried]
      rfl
    · rw [Function.update_of_ne (Ne.symm hq)]
      apply ih
      rw [← h, List.filter_append]
      simp [hq]

/-- A record is used up after three tries. -/
theorem any_retryCount {a : Address} {records : Address → Option FailedPayout} :
    (records a).any (3 ≤ ·.retryCount) = true ↔ 3 ≤ tried records a := by
  cases h : records a <;> simp [tried, h]

theorem elim_retryCount {a : Address} {records : Address → Option FailedPayout} :
    (records a).elim 1 (·.retryCount + 1) = tried records a + 1 := by
  cases h : records a <;> simp [tried, h]

section Turns
variable {funds : ℤ}

/-- The turn of a share whose record is used up. -/
theorem runs_payRecipients_skip (h : 3 ≤ tried (s.failedPayout id) r.dst) :
    Runs (payRecipients id token here (r :: rs) p) env s p' s' ↔
      Runs (payRecipients id token here rs p) env s p' s' := by
  simp [payRecipients, readFailedPayout, any_retryCount, h]

theorem runs_payRecipients_live (h : ¬ 3 ≤ tried (s.failedPayout id) r.dst) :
    Runs (payRecipients id token here (r :: rs) p) env s p' s' ↔
      ∃ b t, Runs (tryTransfer token here r.dst r.amount) env s b t ∧
        (b = true ∧ I128.InRange (p.totalToRelease + r.amount) ∧
            Runs (payRecipients id token here rs
              { p with totalToRelease := p.totalToRelease + r.amount, invoiceUpdated := true })
              env t p' s' ∨
          b = false ∧ p.failedCount + 1 < 2 ^ 32 ∧
            Runs (payRecipients id token here rs { p with failedCount := p.failedCount + 1 }) env
              (writeFailedPayout ⟨id, r.dst, r.amount, tried (s.failedPayout id) r.dst + 1⟩ t)
              p' s') := by
  have hretries : tried (s.failedPayout id) r.dst + 1 < 2 ^ 32 := by omega
  simp only [payRecipients, readFailedPayout, runs_gets_bind, runs_ite, any_retryCount, h,
    false_and, not_false_eq_true, true_and, false_or]
  rw [runs_bind]
  refine exists_congr fun b => exists_congr fun t => and_congr_right fun _ => ?_
  cases b with
  | true => simp
  | false =>
    simp only [Bool.false_eq_true, if_false, runs_u32_bind, runs_modify_bind, elim_retryCount,
      hretries, true_and, false_and, false_or]

/-- The turn of a share beyond the funds. -/
theorem runs_payRecipients_fail (h : ¬ 3 ≤ tried (s.failedPayout id) r.dst)
    (hfunds : s.tokens.balance token here = some funds) (hlow : funds < r.amount ∨ r.amount ≤ 0) :
    Runs (payRecipients id token here (r :: rs) p) env s p' s' ↔
      p.failedCount + 1 < 2 ^ 32 ∧
        Runs (payRecipients id token here rs { p with failedCount := p.failedCount + 1 }) env
          (writeFailedPayout ⟨id, r.dst, r.amount, tried (s.failedPayout id) r.dst + 1⟩ s)
          p' s' := by
  rw [runs_payRecipients_live h]
  constructor
  · rintro ⟨b, t, htry, hrest⟩
    obtain ⟨balance, hbalance, ⟨-, rfl, rfl⟩ | ⟨henough, -⟩⟩ := runs_tryTransfer.mp htry
    · simpa using hrest
    · rw [hfunds] at hbalance
      cases hbalance
      exact absurd hlow henough
  · intro hrest
    exact ⟨false, s, runs_tryTransfer.mpr ⟨funds, hfunds, Or.inl ⟨hlow, rfl, rfl⟩⟩,
      Or.inr ⟨rfl, hrest⟩⟩

/-- The turn of a share within the funds. -/
theorem runs_payRecipients_pay (h : ¬ 3 ≤ tried (s.failedPayout id) r.dst)
    (hfunds : s.tokens.balance token here = some funds)
    (henough : ¬ (funds < r.amount ∨ r.amount ≤ 0)) :
    Runs (payRecipients id token here (r :: rs) p) env s p' s' ↔
      ∃ n, s.tokens.transfer ⟨token, here, r.dst, r.amount⟩ = some n ∧
        I128.InRange (p.totalToRelease + r.amount) ∧
        Runs (payRecipients id token here rs
          { p with totalToRelease := p.totalToRelease + r.amount, invoiceUpdated := true }) env
          { s with tokens := n } p' s' := by
  rw [runs_payRecipients_live h]
  constructor
  · rintro ⟨b, t, htry, hrest⟩
    obtain ⟨balance, hbalance, ⟨hlow, -⟩ | ⟨-, rfl, n, hn, rfl⟩⟩ := runs_tryTransfer.mp htry
    · rw [hfunds] at hbalance
      cases hbalance
      exact absurd hlow henough
    · exact ⟨n, hn, by simpa using hrest⟩
  · rintro ⟨n, hn, hrest⟩
    exact ⟨true, _, runs_tryTransfer.mpr ⟨funds, hfunds, Or.inr ⟨henough, rfl, n, hn, rfl⟩⟩,
      Or.inl ⟨rfl, hrest⟩⟩

end Turns

variable {fs : List (Recipient × Fate)}

theorem stored_of_one {a : Address} {records : Address → Option FailedPayout}
    (h : rs.filter (·.dst = a) = [r]) :
    stored id records rs a = some ⟨id, a, r.amount, tried records a + 1⟩ :=
  stored_of_last (List.nil_append [r] ▸ h)

/-- What the loop adds up and records when the shares fare as `fs` says. -/
structure Fared (id : ℕ) (fs : List (Recipient × Fate)) (p p' : Progress) (s s' : Store) :
    Prop where
  total : p'.totalToRelease = p.totalToRelease + ((withFate .paid fs).map (·.amount)).sum
  failedCount : p'.failedCount = p.failedCount + (withFate .failed fs).length
  updated : p'.invoiceUpdated = true ↔ p.invoiceUpdated = true ∨ withFate .paid fs ≠ []
  records : s'.failedPayout id = stored id (s.failedPayout id) (withFate .failed fs)

theorem fared_nil : Fared id [] p p s s := by
  constructor <;> simp [withFate, stored]

theorem fared_skip (h : Fared id fs p p' s s') : Fared id ((r, .skipped) :: fs) p p' s s' :=
  ⟨h.total, h.failedCount, h.updated, h.records⟩

theorem fared_fail (h : Fared id fs { p with failedCount := p.failedCount + 1 } p'
      (writeFailedPayout ⟨id, r.dst, r.amount, tried (s.failedPayout id) r.dst + 1⟩ s) s') :
    Fared id ((r, .failed) :: fs) p p' s s' := by
  refine ⟨h.total, ?_, h.updated, ?_⟩
  · have hcount := h.failedCount
    simp only [withFate, List.filter_cons, decide_true, if_true, List.map_cons,
      List.length_cons] at hcount ⊢
    omega
  · have hrecords := h.records
    rw [failedPayout_writeFailedPayout] at hrecords
    exact hrecords

theorem fared_pay (h : Fared id fs
      { p with totalToRelease := p.totalToRelease + r.amount, invoiceUpdated := true } p'
      { s with tokens := n } s') : Fared id ((r, .paid) :: fs) p p' s s' := by
  refine ⟨?_, h.failedCount, ?_, h.records⟩
  · have htotal := h.total
    simp only [withFate, List.filter_cons, decide_true, if_true, List.map_cons,
      List.sum_cons] at htotal ⊢
    omega
  · have hup := h.updated
    simp [withFate] at hup ⊢
    exact hup

theorem runs_payRecipients (h : Runs (payRecipients id token here rs p) env s p' s') :
    Paid id token here rs (withFate .paid (faring id token here s rs)) s s' ∧
      Fared id (faring id token here s rs) p p' s s' := by
  induction rs generalizing s p with
  | nil =>
    obtain ⟨rfl, rfl⟩ := runs_pure.mp h
    exact ⟨paid_nil, fared_nil⟩
  | cons r rest ih =>
    by_cases hdone : 3 ≤ tried (s.failedPayout id) r.dst
    · obtain ⟨hpaid, hfared⟩ := ih ((runs_payRecipients_skip hdone).mp h)
      rw [faring_skip hdone]
      exact ⟨paid_skip hpaid, fared_skip hfared⟩
    obtain ⟨funds, hfunds⟩ : ∃ funds, s.tokens.balance token here = some funds := by
      obtain ⟨b, t, htry, -⟩ := (runs_payRecipients_live hdone).mp h
      obtain ⟨funds, hfunds, -⟩ := runs_tryTransfer.mp htry
      exact ⟨funds, hfunds⟩
    by_cases hlow : funds < r.amount ∨ r.amount ≤ 0
    · obtain ⟨-, hrest⟩ := (runs_payRecipients_fail hdone hfunds hlow).mp h
      obtain ⟨hpaid, hfared⟩ := ih hrest
      rw [faring_fail hdone hfunds hlow]
      exact ⟨paid_fail hpaid, fared_fail hfared⟩
    · obtain ⟨n, hn, -, hrest⟩ := (runs_payRecipients_pay hdone hfunds hlow).mp h
      obtain ⟨hpaid, hfared⟩ := ih hrest
      rw [faring_pay hdone hfunds hlow hn]
      exact ⟨paid_pay hn hpaid, fared_pay hfared⟩

theorem paid_guard {guard : Guard → Bool}
    (h : Paid id token here rs ps { s with guard := guard } s') :
    Paid id token here rs ps s { s' with guard := s.guard } where
  sub := h.sub
  only := by
    have honly := h.only
    rw [honly]
    simp
  transfers := h.transfers

section Operations

/-- The status of a released invoice of which `x` went out. -/
def statusFor (inv : Invoice) (x : ℤ) : InvoiceStatus :=
  if x = inv.totalAmount then .fullyReleased else .partiallyReleased

theorem statusFor_ne_pending (inv : Invoice) (x : ℤ) : statusFor inv x ≠ .pending := by
  unfold statusFor
  split <;> simp

/-- Not every share failed when one was paid. -/
theorem releasedStatus_eq (inv : Invoice) (hfs : fs.map (·.1) = inv.recipients)
    (h : Fared id fs ⟨0, 0, false⟩ p s s') (hne : withFate .paid fs ≠ []) :
    releasedStatus inv p = statusFor inv ((withFate .paid fs).map (·.amount)).sum := by
  have hpaid : 0 < (withFate .paid fs).length := List.length_pos_iff.mpr hne
  have hsum : (withFate .paid fs).length + (withFate .failed fs).length ≤ fs.length := by
    clear h hne hfs hpaid
    induction fs with
    | nil => simp [withFate]
    | cons q fs ih =>
      obtain ⟨r, f⟩ := q
      simp only [withFate, List.length_map] at ih
      cases f <;> simp [withFate] <;> omega
  have hcount : p.failedCount ≠ inv.recipients.length := by
    rw [h.failedCount, ← hfs, List.length_map]
    simp only
    omega
  rw [releasedStatus, if_neg hcount, h.total]
  simp [statusFor]

theorem runs_releasePayment (h : Runs (releasePayment id c) env s u s') :
    ∃ token inv ps s₁ guard, s.token = some token ∧ s.invoice id = some inv ∧
      inv.status = .pending ∧ ps = withFate .paid (faring id token env.self s inv.recipients) ∧
      Paid id token env.self inv.recipients ps s s₁ ∧
      s₁.failedPayout id = stored id (s.failedPayout id)
        (withFate .failed (faring id token env.self s inv.recipients)) ∧
      (ps = [] ∧ s' = { s₁ with guard := guard } ∨
        ps ≠ [] ∧ s' = { writeInvoice { inv with
            releasedAmount := (ps.map (·.amount)).sum
            status := statusFor inv (ps.map (·.amount)).sum } s₁ with guard := guard }) := by
  obtain ⟨t, hbody, rfl⟩ := runs_reentrancyGuard h
  simp only [releasePaymentInner, readInvoice, runs_requireSuperAdmin_bind, runs_gets_bind,
    runs_okOr_bind, runs_bind_assoc, runs_failIf_bind, runs_self_bind, not_not] at hbody
  obtain ⟨-, token, htoken, inv, hinv, hpending, hloop⟩ := hbody
  obtain ⟨p, s₁, hpay, hrest⟩ := runs_bind.mp hloop
  obtain ⟨hpaid, hfared⟩ := runs_payRecipients hpay
  have hup := hfared.updated
  have hstatus := releasedStatus_eq inv map_faring hfared
  have htotal := hfared.total
  simp only [Bool.false_eq_true, false_or, zero_add] at hup htotal
  simp only [runs_ite, hup, runs_modify, runs_pure, true_and, htotal] at hrest
  refine ⟨token, inv, _, { s₁ with guard := s.guard },
    Function.update s₁.guard .releasePayment false, htoken, hinv, hpending, rfl,
    paid_guard hpaid, hfared.records, ?_⟩
  rcases hrest with ⟨hne, rfl⟩ | ⟨heq, rfl⟩
  · rw [hstatus hne]
    exact Or.inr ⟨hne, rfl⟩
  · exact Or.inl ⟨not_not.mp heq, rfl⟩

/-- A retry goes through if its record is live and the token pays the recorded share. -/
theorem runs_retryFailedPayout_iff : Runs (retryFailedPayout id dst c) env s u s' ↔
    s.guard .retryFailedPayout = false ∧
      (hasRole s.access .superAdmin c = true ∧ env.Authorized c) ∧
      ∃ token inv fp n, s.token = some token ∧ s.invoice id = some inv ∧
        s.failedPayout id dst = some fp ∧ fp.retryCount < 3 ∧ 0 < fp.amount ∧
        s.tokens.Covers token env.self fp.amount ∧
        s.tokens.transfer ⟨token, env.self, dst, fp.amount⟩ = some n ∧
        s' = (guardLens .retryFailedPayout).set false
          { removeFailedPayout id dst ((guardLens .retryFailedPayout).set true s) with
            tokens := n } := by
  rw [retryFailedPayout, reentrancyGuard, runs_guarded]
  refine and_congr Iff.rfl ?_
  simp only [retryFailedPayoutInner, ensureInvoiceExists, readFailedPayout,
    runs_requireSuperAdmin_bind, runs_gets_bind, runs_okOr_bind, runs_bind_assoc, runs_failIf_bind,
    runs_self_bind, not_le, Bool.not_eq_false, Option.isSome_iff_exists]
  constructor
  · rintro ⟨t, ⟨hcaller, ⟨inv, hinv⟩, fp, hfp, hlive, token, htoken, hrest⟩, rfl⟩
    obtain ⟨b, s₁, htry, hend⟩ := runs_bind.mp hrest
    obtain ⟨funds, hfunds, ⟨-, rfl, rfl⟩ | ⟨henough, rfl, n, hn, rfl⟩⟩ := runs_tryTransfer.mp htry
    · simp [runs_bind] at hend
    · simp only [if_true, runs_modify] at hend
      subst hend
      exact ⟨hcaller, token, inv, fp, n, htoken, hinv, hfp, hlive, by omega,
        ⟨funds, hfunds, by omega⟩, hn, rfl⟩
  · rintro ⟨hcaller, token, inv, fp, n, htoken, hinv, hfp, hlive, hpos, ⟨funds, hfunds, hle⟩, hn,
      rfl⟩
    refine ⟨_, ⟨hcaller, ⟨inv, hinv⟩, fp, hfp, hlive, token, htoken, ?_⟩, rfl⟩
    refine runs_bind.mpr ⟨true, _, runs_tryTransfer.mpr
      ⟨funds, hfunds, Or.inr ⟨by omega, rfl, n, hn, rfl⟩⟩, ?_⟩
    rw [if_pos rfl, runs_modify]
    rfl

/-- A retry that does not fail pays the recorded share and drops its record. -/
theorem runs_retryFailedPayout (h : Runs (retryFailedPayout id dst c) env s u s') :
    ∃ token inv fp n guard, s.token = some token ∧ s.invoice id = some inv ∧
      s.failedPayout id dst = some fp ∧ fp.retryCount < 3 ∧ 0 < fp.amount ∧
      s.tokens.Covers token env.self fp.amount ∧
      s.tokens.transfer ⟨token, env.self, dst, fp.amount⟩ = some n ∧
      s' = { removeFailedPayout id dst s with tokens := n, guard := guard } := by
  obtain ⟨-, -, token, inv, fp, n, htoken, hinv, hfp, hlive, hpos, hfunds, hn, rfl⟩ :=
    runs_retryFailedPayout_iff.mp h
  exact ⟨token, inv, fp, n, _, htoken, hinv, hfp, hlive, hpos, hfunds, hn, rfl⟩

theorem runs_recipientAmounts {v total : ℤ} (h : Runs (recipientAmounts rs total) env s v s') :
    s' = s ∧ (∀ r ∈ rs, 0 < r.amount) ∧ v = total + (rs.map (·.amount)).sum := by
  induction rs generalizing total with
  | nil =>
    obtain ⟨rfl, rfl⟩ := runs_pure.mp h
    simp
  | cons r rest ih =>
    simp only [recipientAmounts, runs_failIf_bind, runs_okOr_bind, I128.checkedAdd,
      I128.checked_eq_some, not_le] at h
    obtain ⟨hr, _, ⟨-, rfl⟩, hrest⟩ := h
    obtain ⟨hs, hpos, hv⟩ := ih hrest
    refine ⟨hs, List.forall_mem_cons.mpr ⟨hr, hpos⟩, ?_⟩
    rw [hv, List.map_cons, List.sum_cons, add_assoc]

/-- The invoice `create_invoice` writes at ledger `now`. -/
def newInvoice (id : ℕ) (x : ℤ) (rs : List Recipient) (now : ℕ) : Invoice :=
  ⟨id, x, 0, .pending, rs, now⟩

theorem runs_createInvoice (h : Runs (createInvoice c id x rs token) env s u s') :
    0 < x ∧ (∀ r ∈ rs, 0 < r.amount) ∧ x = (rs.map (·.amount)).sum ∧ ∃ access,
      Runs (setAdmin c) env s.access () access ∧
      s' = { writeInvoice (newInvoice id x rs env.ledger.sequence) s with
        token := some token, access := access } := by
  simp only [createInvoice, runs_requireSuperAdmin_bind, runs_failIf_bind, not_le] at h
  obtain ⟨-, hx, h⟩ := h
  obtain ⟨v, s₁, hamounts, hrest⟩ := runs_bind.mp h
  obtain ⟨rfl, hpos, rfl⟩ := runs_recipientAmounts hamounts
  simp only [runs_failIf_bind, not_not, runs_ledger_bind, runs_modify_bind, zero_add] at hrest
  obtain ⟨hsum, hrest⟩ := hrest
  obtain ⟨_, s₂, hadmin, hwrite⟩ := runs_bind.mp hrest
  obtain ⟨access, hset, rfl⟩ := runs_within.mp hadmin
  rw [runs_modify] at hwrite
  exact ⟨hx, hpos, hsum.symm, access, hset, hwrite⟩

end Operations

end BcForge.Split
