import BcForge.Split.Bookkeeping

/-! What a release leaves unpaid, against the records it leaves behind. -/
namespace BcForge.Split

open Soroban Call Admin

variable {w : World Store} {l : Label Op} {ls : List (Label Op)}
  {rs failed skipped : List Recipient} {fs : List (Recipient × Fate)} {a : Address}
  {r : Recipient} {id : ℕ} {records : Address → Option FailedPayout}

/-- What the shares come to for one account. -/
def owed (rs : List Recipient) (a : Address) : ℤ := ((rs.filter (·.dst = a)).map (·.amount)).sum

theorem owed_cons : owed (r :: rs) =
    Function.update (owed rs) r.dst (owed rs r.dst + r.amount) := by
  funext a
  by_cases ha : a = r.dst
  · subst ha
    simp [owed, add_comm]
  · simp [owed, Function.update_of_ne ha, Ne.symm ha]

/-- Account by account the shares come to their total. -/
theorem hasTotal_owed (rs : List Recipient) : HasTotal (owed rs) (rs.map (·.amount)).sum := by
  induction rs with
  | nil => exact hasTotal_zero
  | cons r rest ih =>
    rw [owed_cons, List.map_cons, List.sum_cons]
    convert ih.update r.dst (owed rest r.dst + r.amount) using 1
    ring

/-- A share that is not paid failed or was skipped. -/
theorem owed_fates (fs : List (Recipient × Fate)) (a : Address) : owed (fs.map (·.1)) a =
    owed (withFate .paid fs) a + owed (withFate .failed fs) a + owed (withFate .skipped fs) a := by
  induction fs with
  | nil => rfl
  | cons q fs ih =>
    obtain ⟨r, fate⟩ := q
    cases fate <;> by_cases ha : r.dst = a <;>
      simp [owed, withFate, ha] at ih ⊢ <;> omega

theorem owed_nonneg (h : ∀ r ∈ rs, 0 < r.amount) (a : Address) : 0 ≤ owed rs a := by
  apply List.sum_nonneg
  intro x hx
  obtain ⟨r, hr, rfl⟩ := List.mem_map.mp hx
  exact (h r (List.mem_of_mem_filter hr)).le

theorem amount_le_owed (h : ∀ r ∈ rs, 0 < r.amount) (hr : r ∈ rs.filter (·.dst = a)) :
    r.amount ≤ owed rs a := by
  apply List.single_le_sum
  · intro x hx
    obtain ⟨q, hq, rfl⟩ := List.mem_map.mp hx
    exact (h q (List.mem_of_mem_filter hq)).le
  · exact List.mem_map.mpr ⟨r, hr, rfl⟩

/-- Positive shares come to nothing only if there are none. -/
theorem owed_eq_zero (h : ∀ r ∈ rs, 0 < r.amount) :
    owed rs a = 0 ↔ rs.filter (·.dst = a) = [] := by
  constructor
  · intro hzero
    rw [List.filter_eq_nil_iff]
    intro r hr ha
    have hle := amount_le_owed h (List.mem_filter.mpr ⟨hr, ha⟩)
    have hpos := h r hr
    omega
  · intro hnil
    rw [owed, hnil]
    rfl

theorem withFate_subset {fate : Fate} (h : r ∈ withFate fate fs) : r ∈ fs.map (·.1) := by
  obtain ⟨q, hq, rfl⟩ := List.mem_map.mp h
  exact List.mem_map.mpr ⟨q, List.mem_of_mem_filter hq, rfl⟩

theorem fate_pos (hfs : fs.map (·.1) = rs) (hpos : ∀ r ∈ rs, 0 < r.amount) (fate : Fate) :
    ∀ r ∈ withFate fate fs, 0 < r.amount := by
  intro r hr
  have hmem := withFate_subset hr
  rw [hfs] at hmem
  exact hpos r hmem

/-- Either none of the account's shares fails and it has nothing on record, or one fails and its
record was tried once at most. None is skipped. -/
def Settled (fs : List (Recipient × Fate)) (records : Address → Option FailedPayout)
    (a : Address) : Prop :=
  (withFate .skipped fs).filter (·.dst = a) = [] ∧
    ((withFate .failed fs).filter (·.dst = a) = [] ∧ recorded records a = 0 ∨
      ((withFate .failed fs).filter (·.dst = a)).length = 1 ∧ tried records a < 2)

/-- The records after a release ask for just what failed or was skipped, if one share failed, or
if the record there was happened to ask for it. -/
theorem recorded_stored_iff (hf : ∀ r ∈ failed, 0 < r.amount)
    (hs : ∀ r ∈ skipped, 0 < r.amount) :
    recorded (stored id records failed) a = owed failed a + owed skipped a ↔
      (failed.filter (·.dst = a)).length = 1 ∧ skipped.filter (·.dst = a) = [] ∨
        failed.filter (·.dst = a) = [] ∧ recorded records a = owed skipped a := by
  rcases List.eq_nil_or_concat (failed.filter (·.dst = a)) with hnil | ⟨qs, r, hlast⟩
  · have hzero := (owed_eq_zero hf).mpr hnil
    have hsame : recorded (stored id records failed) a = recorded records a := by
      rw [recorded, stored_of_none hnil]
      rfl
    rw [hsame, hnil, hzero]
    simp
  · rw [List.concat_eq_append] at hlast
    have hsum : owed failed a = (qs.map (·.amount)).sum + r.amount := by
      rw [owed, hlast]
      simp
    have hskip := owed_nonneg hs a
    have hamount : recorded (stored id records failed) a = r.amount := by
      rw [recorded, stored_of_last hlast]
      rfl
    rw [hamount, hlast, ← owed_eq_zero hs, hsum]
    constructor
    · intro heq
      have hpos : ∀ x ∈ qs.map (·.amount), 0 < x := by
        intro x hx
        obtain ⟨q, hq, rfl⟩ := List.mem_map.mp hx
        have hmem : q ∈ failed.filter (·.dst = a) := by
          rw [hlast]
          exact List.mem_append_left _ hq
        exact hf q (List.mem_of_mem_filter hmem)
      have hqs : qs = [] := by
        by_contra hne
        have hsum := List.sum_pos _ hpos (by simpa using hne)
        omega
      subst hqs
      refine Or.inl ⟨rfl, ?_⟩
      simp only [List.map_nil, List.sum_nil] at heq
      omega
    · rintro (⟨hone, hzero⟩ | ⟨hnil, -⟩)
      · obtain rfl : qs = [] := by simpa using hone
        simp [hzero]
      · simp at hnil

/-- Of the invoice's total, what was not released is on record, and each account that is left
unpaid has a record that can be retried and asks for all of it. -/
structure NothingLost (total released : ℤ) (unpaid : Address → ℤ)
    (records : Address → Option FailedPayout) : Prop where
  total_eq : ∃ t, HasTotal (recorded records) t ∧ released + t = total
  retriable : ∀ a, 0 < unpaid a →
    ∃ fp, records a = some fp ∧ fp.retryCount < 3 ∧ unpaid a ≤ fp.amount

/-- The two halves of the statement come to the same account by account. -/
theorem nothingLost_iff {total released : ℤ} {unpaid : Address → ℤ}
    {records : Address → Option FailedPayout} (h : HasTotal unpaid (total - released))
    (hrecords : ∀ a, 0 ≤ recorded records a) : NothingLost total released unpaid records ↔
      ∀ a, recorded records a = unpaid a ∧ (0 < unpaid a → tried records a < 3) := by
  constructor
  · rintro ⟨⟨t, ht, hsum⟩, hretriable⟩ a
    have hle : ∀ a, unpaid a ≤ recorded records a := by
      intro a
      by_cases hpos : 0 < unpaid a
      · obtain ⟨fp, hfp, -, hle⟩ := hretriable a hpos
        rw [recorded, hfp]
        exact hle
      · have hnonneg := hrecords a
        omega
    have hsame : t = total - released := by omega
    rw [hsame] at ht
    refine ⟨(congrFun (h.eq_of_le ht hle) a).symm, fun hpos => ?_⟩
    obtain ⟨fp, hfp, htries, -⟩ := hretriable a hpos
    rw [tried, hfp]
    exact htries
  · intro heach
    have hfun : recorded records = unpaid := funext fun a => (heach a).1
    refine ⟨⟨total - released, ?_, by omega⟩, fun a hpos => ?_⟩
    · rw [hfun]
      exact h
    · obtain ⟨hamount, htries⟩ := heach a
      cases hfp : records a with
      | none =>
        have hzero : recorded records a = 0 := by
          rw [recorded, hfp]
          rfl
        omega
      | some fp =>
        have hlive := htries hpos
        rw [recorded, hfp] at hamount
        rw [tried, hfp] at hlive
        exact ⟨fp, rfl, hlive, hamount.ge⟩

/-- What is unpaid of an account is on record and can be retried exactly if it is settled. -/
theorem retriable_iff {funds : ℤ} {here : Address} {unpaid : ℤ}
    (hfs : fs = fates here funds (tried records) rs) (hpos : ∀ r ∈ rs, 0 < r.amount)
    (hunpaid : unpaid = owed (withFate .failed fs) a + owed (withFate .skipped fs) a) :
    recorded (stored id records (withFate .failed fs)) a = unpaid ∧
        (0 < unpaid → tried (stored id records (withFate .failed fs)) a < 3) ↔
      Settled fs records a := by
  have hmap : fs.map (·.1) = rs := by
    rw [hfs]
    exact map_fates
  have hfate := fate_pos hmap hpos
  have hskipped := owed_eq_zero (a := a) (hfate .skipped)
  rw [hunpaid, recorded_stored_iff (hfate .failed) (hfate .skipped)]
  constructor
  · rintro ⟨⟨hone, hskip⟩ | ⟨hnone, hrecord⟩, hlive⟩
    · obtain ⟨r, hr⟩ := List.length_eq_one_iff.mp hone
      refine ⟨hskip, Or.inr ⟨hone, ?_⟩⟩
      have hunpaid : 0 < owed (withFate .failed fs) a + owed (withFate .skipped fs) a := by
        have hmem : r ∈ (withFate .failed fs).filter (·.dst = a) := by
          rw [hr]
          exact List.mem_singleton_self r
        have hle := amount_le_owed (hfate .failed) hmem
        have hr := hfate .failed r (List.mem_of_mem_filter hmem)
        rw [hskipped.mpr hskip]
        omega
      have htries := hlive hunpaid
      have htried : tried (stored id records (withFate .failed fs)) a = tried records a + 1 := by
        rw [tried, stored_of_one hr]
        rfl
      omega
    · -- A record that is there for what is skipped is used up.
      have hskip : (withFate .skipped fs).filter (·.dst = a) = [] := by
        by_contra hne
        obtain ⟨r, hr⟩ := List.exists_mem_of_ne_nil _ hne
        obtain ⟨hmem, hdst⟩ := List.mem_filter.mp hr
        have hra : r.dst = a := by simpa using hdst
        have hused : 3 ≤ tried records a := by
          rw [hfs] at hmem
          have htried := tried_of_skipped hmem
          rw [← hfs, hra, hnone] at htried
          exact htried
        have hpositive : 0 < owed (withFate .skipped fs) a := by
          have hle := amount_le_owed (hfate .skipped) hr
          have hr := hfate .skipped r hmem
          omega
        have hzero := (owed_eq_zero (hfate .failed)).mpr hnone
        have htries := hlive (by omega)
        rw [tried, stored_of_none hnone] at htries
        exact absurd htries (not_lt.mpr hused)
      rw [hskipped.mpr hskip] at hrecord
      exact ⟨hskip, Or.inl ⟨hnone, hrecord⟩⟩
  · rintro ⟨hskip, ⟨hnone, hrecord⟩ | ⟨hone, htries⟩⟩
    · have hzero := (owed_eq_zero (hfate .failed)).mpr hnone
      rw [hskipped.mpr hskip]
      exact ⟨Or.inr ⟨hnone, hrecord⟩, fun hpos => by omega⟩
    · obtain ⟨r, hr⟩ := List.length_eq_one_iff.mp hone
      refine ⟨Or.inl ⟨hone, hskip⟩, fun _ => ?_⟩
      have htried : tried (stored id records (withFate .failed fs)) a = tried records a + 1 := by
        rw [tried, stored_of_one hr]
        rfl
      omega

/-- Records that ask for no more than is unpaid cannot make up for one account with another. -/
theorem totals_iff {total released : ℤ} {unpaid : Address → ℤ}
    {records : Address → Option FailedPayout} (h : HasTotal unpaid (total - released))
    (hle : ∀ a, recorded records a ≤ unpaid a) :
    (∃ t, HasTotal (recorded records) t ∧ released + t = total) ↔
      ∀ a, recorded records a = unpaid a := by
  constructor
  · rintro ⟨t, ht, hsum⟩ a
    have hsame : t = total - released := by omega
    rw [hsame] at ht
    exact congrFun (ht.eq_of_le h hle) a
  · intro heq
    have hfun : recorded records = unpaid := funext heq
    refine ⟨total - released, ?_, by omega⟩
    rw [hfun]
    exact h

/-- Without a record to begin with, no account is on record for more than is left unpaid to it. -/
theorem recorded_stored_le (hf : ∀ r ∈ failed, 0 < r.amount) (hs : ∀ r ∈ skipped, 0 < r.amount)
    (hnone : records a = none) :
    recorded (stored id records failed) a ≤ owed failed a + owed skipped a := by
  have hfailed := owed_nonneg hf a
  have hskipped := owed_nonneg hs a
  rcases List.eq_nil_or_concat (failed.filter (·.dst = a)) with hnil | ⟨qs, r, hlast⟩
  · rw [recorded, stored_of_none hnil, hnone]
    exact add_nonneg hfailed hskipped
  · rw [List.concat_eq_append] at hlast
    have hmem : r ∈ failed.filter (·.dst = a) := by
      rw [hlast]
      simp
    have hle := amount_le_owed hf hmem
    rw [recorded, stored_of_last hlast]
    simp only [Option.elim_some]
    omega

/-- A first release, which finds no record, leaves a share of each settled account at most. -/
theorem settled_first_iff {funds : ℤ} {here : Address}
    (hfs : fs = fates here funds (tried records) rs) (hpos : ∀ r ∈ rs, 0 < r.amount)
    (hnone : records a = none) :
    recorded (stored id records (withFate .failed fs)) a =
        owed (withFate .failed fs) a + owed (withFate .skipped fs) a ↔ Settled fs records a := by
  have hmap : fs.map (·.1) = rs := by
    rw [hfs]
    exact map_fates
  have hfate := fate_pos hmap hpos
  have hzero : recorded records a = 0 := by
    rw [recorded, hnone]
    rfl
  have htried : tried records a < 2 := by
    rw [tried, hnone]
    decide
  rw [recorded_stored_iff (hfate .failed) (hfate .skipped), hzero, Settled, hzero,
    eq_comm (a := (0 : ℤ)), owed_eq_zero (hfate .skipped)]
  tauto

/-- The shares a step pays, to be compared with the list of the invoice. -/
def paidNow (w : World Store) (l : Label Op) : List Recipient :=
  (sent w l).map fun t => ⟨t.dst, t.amount⟩

/-- Every release that goes through loses nothing exactly if every account is settled. A first
release, which finds no record, cannot make up for one account with another: the totals decide. -/
def ReleaseLaw (w : World Store) : Label Op → Prop
  | .call signers uploaded (.releasePayment id c) =>
    ∀ s', Runs (releasePayment id c) (w.env signers uploaded) w.store () s' →
      ∃ token inv inv', w.store.token = some token ∧ w.store.invoice id = some inv ∧
        s'.invoice id = some inv' ∧
        (NothingLost inv.totalAmount inv'.releasedAmount
            (owed inv.recipients - owed (paidNow w (.call signers uploaded (.releasePayment id c))))
            (s'.failedPayout id) ↔
          ∀ a, Settled (faring id token w.self w.store inv.recipients)
            (w.store.failedPayout id) a) ∧
        ((∀ a, w.store.failedPayout id a = none) →
          ((∃ t, HasTotal (recorded (s'.failedPayout id)) t ∧
              inv'.releasedAmount + t = inv.totalAmount) ↔
            ∀ a, Settled (faring id token w.self w.store inv.recipients)
              (w.store.failedPayout id) a))
  | _ => True

/-- What a release leaves unpaid failed or was skipped. -/
theorem unpaid_eq (fs : List (Recipient × Fate)) (a : Address) :
    (owed (fs.map (·.1)) - owed (withFate .paid fs)) a =
      owed (withFate .failed fs) a + owed (withFate .skipped fs) a := by
  rw [Pi.sub_apply, owed_fates]
  omega

/-- After a release the invoice says what was paid for it, also when that is nothing. -/
theorem released_of_release {id : ℕ} {inv : Invoice} {ps : List Recipient} {s s' : Store}
    (h : Listed id inv) (hinv : s.invoice id = some inv) (hpending : inv.status = .pending)
    (hcase : ps = [] ∧ s'.invoice = s.invoice ∨
      ps ≠ [] ∧ s'.invoice = Function.update s.invoice id (some { inv with
        releasedAmount := (ps.map (·.amount)).sum
        status := statusFor inv (ps.map (·.amount)).sum })) :
    ∃ inv', s'.invoice id = some inv' ∧ inv'.releasedAmount = (ps.map (·.amount)).sum := by
  rcases hcase with ⟨hnil, hs⟩ | ⟨-, hs⟩
  · refine ⟨inv, by rw [hs, hinv], ?_⟩
    rw [h.released_eq hpending, hnil]
    rfl
  · exact ⟨_, by rw [hs, Function.update_self], rfl⟩

theorem paidNow_releasePayment {signers : List Address} {uploaded : List BytesN32} {id : ℕ}
    {c token : Address} {ps : List Recipient}
    (hr : Runs (releasePayment id c) (w.env signers uploaded) w.store () s')
    (ht : s'.tokens.transfers = w.store.tokens.transfers ++
      ps.map (fun r => ⟨token, w.self, r.dst, r.amount⟩)) :
    paidNow w (.call signers uploaded (.releasePayment id c)) = ps := by
  have hnext : (w.next exec (.call signers uploaded (.releasePayment id c))).store = s' :=
    invoke_of_runs hr
  rw [paidNow, sent, hnext, ht, List.drop_left, List.map_map]
  exact List.map_id' ps

/-- No record asks for less than nothing. -/
def AllOwed (s : Store) : Prop := ∀ id a, 0 ≤ recorded (s.failedPayout id) a

theorem recorded_stored_nonneg (hf : ∀ r ∈ failed, 0 < r.amount) (h : 0 ≤ recorded records a) :
    0 ≤ recorded (stored id records failed) a := by
  rcases List.eq_nil_or_concat (failed.filter (·.dst = a)) with hnil | ⟨qs, r, hlast⟩
  · rw [recorded, stored_of_none hnil]
    exact h
  · rw [List.concat_eq_append] at hlast
    have hmem : r ∈ failed.filter (·.dst = a) := by
      rw [hlast]
      simp
    rw [recorded, stored_of_last hlast]
    exact (hf r (List.mem_of_mem_filter hmem)).le

theorem allOwed_call {signers : List Address} {uploaded : List BytesN32} {op : Op} {s' : Store}
    (hl : AllListed w.store) (h : AllOwed w.store)
    (hr : Runs (exec op) (w.env signers uploaded) w.store () s') : AllOwed s' := by
  cases op with
  | createInvoice c id x rs token =>
    obtain ⟨-, -, -, access, -, rfl⟩ := runs_createInvoice hr
    exact h
  | releasePayment id c =>
    obtain ⟨token, inv, ps, s₁, guard, -, hinv, -, -, hp, hrecords, hcase⟩ :=
      runs_releasePayment hr
    have hpos := (hl id inv hinv).amount_pos
    have hreleased : AllOwed s₁ := by
      intro i a
      by_cases hi : i = id
      · subst hi
        rw [hrecords]
        exact recorded_stored_nonneg (fate_pos map_faring hpos .failed) (h i a)
      · rw [hp.only]
        simp only [Function.update_of_ne hi]
        exact h i a
    rcases hcase with ⟨-, rfl⟩ | ⟨-, rfl⟩
    · exact hreleased
    · exact hreleased
  | retryFailedPayout id dst c =>
    obtain ⟨token, inv, fp, n, guard, -, -, -, -, -, -, -, rfl⟩ := runs_retryFailedPayout hr
    intro i a
    by_cases hi : i = id
    · subst hi
      by_cases ha : a = dst
      · subst ha
        simp [recorded, removeFailedPayout, setFailedPayout]
      · simpa [recorded, removeFailedPayout, setFailedPayout, Function.update_of_ne ha] using h i a
    · simpa [recorded, removeFailedPayout, setFailedPayout, Function.update_of_ne hi] using h i a
  | _ =>
    obtain ⟨-, hf⟩ := exec_aside hr rfl (by simp)
    intro i a
    rw [hf]
    exact h i a

theorem releaseLaw_release {signers : List Address} {uploaded : List BytesN32} {id : ℕ}
    {c : Address} (h : AllListed w.store) (ho : AllOwed w.store) :
    ReleaseLaw w (.call signers uploaded (.releasePayment id c)) := by
  intro s' hr
  obtain ⟨token, inv, ps, htoken, hinv, hpending, hps, ht, hrecords, hcase⟩ :=
    invoice_releasePayment h hr
  have hl := h id inv hinv
  have hmap : (faring id token w.self w.store inv.recipients).map (·.1) = inv.recipients :=
    map_faring
  have hnow := paidNow_releasePayment hr ht
  obtain ⟨inv', hinv', hreleased⟩ := released_of_release hl hinv hpending hcase
  have htotal : HasTotal (owed inv.recipients - owed ps)
      (inv.totalAmount - inv'.releasedAmount) := by
    rw [hreleased, hl.total_eq]
    exact (hasTotal_owed _).sub (hasTotal_owed _)
  have hunpaid : ∀ a, (owed inv.recipients - owed ps) a =
      owed (withFate .failed (faring id token w.self w.store inv.recipients)) a +
        owed (withFate .skipped (faring id token w.self w.store inv.recipients)) a := by
    intro a
    rw [← unpaid_eq, hmap, hps]
    rfl
  have hfate := fate_pos hmap hl.amount_pos
  have hexec : Runs (exec (.releasePayment id c)) (w.env signers uploaded) w.store () s' := hr
  have hnonneg : ∀ a, 0 ≤ recorded (s'.failedPayout id) a := allOwed_call h ho hexec id
  refine ⟨token, inv, inv', htoken, hinv, hinv', ?_, ?_⟩
  · rw [hnow, nothingLost_iff htotal hnonneg]
    refine forall_congr' fun a => ?_
    rw [hrecords]
    exact retriable_iff rfl hl.amount_pos (hunpaid a)
  · intro hfirst
    have hle : ∀ a, recorded (s'.failedPayout id) a ≤ (owed inv.recipients - owed ps) a := by
      intro a
      rw [hunpaid, hrecords]
      exact recorded_stored_le (hfate .failed) (hfate .skipped) (hfirst a)
    rw [totals_iff htotal hle]
    refine forall_congr' fun a => ?_
    rw [hunpaid, hrecords]
    exact settled_first_iff rfl hl.amount_pos (hfirst a)

theorem releaseLaw_step (h : AllListed w.store) (ho : AllOwed w.store) : ReleaseLaw w l := by
  cases l with
  | close l => trivial
  | call signers uploaded op =>
    cases op with
    | releasePayment id c => exact releaseLaw_release h ho
    | _ => trivial

theorem allListed_next (h : AllListed w.store) : AllListed (w.next exec l).store :=
  World.next_store h fun _ _ _ _ hr => allListed_books h (books_call h hr)

/-- What every run keeps of the invoices and the records. -/
structure Orderly (s : Store) : Prop where
  listed : AllListed s
  owed : AllOwed s

theorem orderly_blank (hw : Blank w) : Orderly w.store where
  listed := allListed_blank hw
  owed := by
    intro id a
    rw [recorded, hw.failedPayout]
    exact le_refl 0

theorem orderly_next (h : Orderly w.store) : Orderly (w.next exec l).store :=
  World.next_store h fun _ _ _ _ hr =>
    ⟨allListed_books h.listed (books_call h.listed hr), allOwed_call h.listed h.owed hr⟩

/-- In every run, whatever was created, released and retried before. -/
theorem shares_recorded_iff (hw : Blank w) (ls : List (Label Op)) :
    w.EveryStep exec ReleaseLaw ls :=
  World.everyStep_of_invariant (I := fun w => Orderly w.store) (orderly_blank hw)
    (fun _ _ => orderly_next) fun _ _ h => releaseLaw_step h.listed h.owed

theorem releaseThenRetry_recorded : genesis.EveryStep exec ReleaseLaw releaseThenRetry ∧
    (exec (.releasePayment 1 ⟨1⟩) ((genesis.run exec (releaseThenRetry.take 2)).env [⟨1⟩] [])
      (genesis.run exec (releaseThenRetry.take 2)).store).isOk = true :=
  ⟨shares_recorded_iff genesis_blank releaseThenRetry, by decide +kernel⟩

/-- One account has two shares, and there are no funds. -/
def twoShares : World Store :=
  genesis.next exec (.call [⟨1⟩] [] (.createInvoice ⟨1⟩ 1 200 [⟨⟨2⟩, 100⟩, ⟨⟨2⟩, 100⟩] ⟨50⟩))

theorem twoShares_unrecorded (a : Address) : twoShares.store.failedPayout 1 a = none := by
  have hr : Runs (exec (.createInvoice ⟨1⟩ 1 200 [⟨⟨2⟩, 100⟩, ⟨⟨2⟩, 100⟩] ⟨50⟩))
      (genesis.env [⟨1⟩] []) genesis.store () twoShares.store :=
    runs_invoke (by decide +kernel)
  obtain ⟨-, -, -, access, -, hs⟩ := runs_createInvoice hr
  rw [hs]
  rfl

/-- The second of the two shares takes the place of the first on record. -/
theorem twoShares_lost : Blank genesis ∧ ∃ s' inv',
    Runs (exec (.releasePayment 1 ⟨1⟩)) (twoShares.env [⟨1⟩] []) twoShares.store () s' ∧
      s'.invoice 1 = some inv' ∧
      ¬ ∃ t, HasTotal (recorded (s'.failedPayout 1)) t ∧
        inv'.releasedAmount + t = inv'.totalAmount := by
  have hr : Runs (exec (.releasePayment 1 ⟨1⟩)) (twoShares.env [⟨1⟩] []) twoShares.store ()
      (invoke (exec (.releasePayment 1 ⟨1⟩)) (twoShares.env [⟨1⟩] []) twoShares.store) :=
    runs_invoke (by decide +kernel)
  have hready : Orderly twoShares.store := orderly_next (orderly_blank genesis_blank)
  have hlaw : ReleaseLaw twoShares (.call [⟨1⟩] [] (.releasePayment 1 ⟨1⟩)) :=
    releaseLaw_step hready.listed hready.owed
  obtain ⟨token, inv, inv', htoken, hinv, hinv', -, hfirst⟩ := hlaw _ hr
  refine ⟨genesis_blank, _, inv', hr, hinv', ?_⟩
  have hinvoice : (twoShares.store.invoice 1).map (fun inv => (inv.totalAmount, inv.recipients)) =
      some (200, [⟨⟨2⟩, 100⟩, ⟨⟨2⟩, 100⟩]) := by
    decide +kernel
  rw [hinv, Option.map_some, Option.some.injEq, Prod.mk.injEq] at hinvoice
  have htotal : ((invoke (exec (.releasePayment 1 ⟨1⟩)) (twoShares.env [⟨1⟩] [])
      twoShares.store).invoice 1).map (·.totalAmount) = some 200 := by
    decide +kernel
  rw [hinv', Option.map_some, Option.some.injEq] at htotal
  have hstored : twoShares.store.token = some ⟨50⟩ := by decide +kernel
  obtain rfl : token = ⟨50⟩ := Option.some.inj (htoken.symm.trans hstored)
  have hfailed : (withFate .failed (faring 1 ⟨50⟩ twoShares.self twoShares.store
      [⟨⟨2⟩, 100⟩, ⟨⟨2⟩, 100⟩])).filter (·.dst = ⟨2⟩) = [⟨⟨2⟩, 100⟩, ⟨⟨2⟩, 100⟩] := by
    decide +kernel
  rw [htotal, ← hinvoice.1, hfirst twoShares_unrecorded, hinvoice.2]
  intro hsettled
  rcases (hsettled ⟨2⟩).2 with ⟨hnone, -⟩ | ⟨hone, -⟩
  · rw [hfailed] at hnone
    cases hnone
  · rw [hfailed] at hone
    cases hone

end BcForge.Split
