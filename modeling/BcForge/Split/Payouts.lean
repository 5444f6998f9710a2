import BcForge.Split.Spec
import BcForge.Soroban.Run
import Mathlib.Algebra.Order.BigOperators.Group.Multiset

/-! What the split contract pays out for an invoice, against the shares the invoice lists. -/
namespace BcForge.Split

open Soroban Call Admin

/-- The invoice a call pays for. -/
def Op.paysFor : Op → Option ℕ
  | .releasePayment id _ => some id
  | .retryFailedPayout id _ _ => some id
  | _ => none

/-- The transfers the tokens carry out during a step. -/
def sent (w : World Store) (l : Label Op) : List Transfer :=
  (w.next exec l).store.tokens.transfers.drop w.store.tokens.transfers.length

/-- The shares a step pays, invoice by invoice. -/
def paidBy (w : World Store) : Label Op → ℕ → Multiset Recipient
  | .call signers uploaded op =>
    match op.paysFor with
    | some id => Function.update (0 : ℕ → Multiset Recipient) id
        ((sent w (.call signers uploaded op)).map fun t => Recipient.mk t.dst t.amount)
    | none => 0
  | .close _ => 0

def paid (w : World Store) (ls : List (Label Op)) : ℕ → Multiset Recipient :=
  w.sumSteps exec paidBy ls

/-- The shares of one account. -/
def sharesOf (inv : Invoice) (a : Address) : Multiset Recipient :=
  (inv.recipients.filter (·.dst = a) : List Recipient)

/-- After the payments `before`, an invoice id is used once, a release finds nothing paid for the
invoice yet, and a retry some share of the account not yet paid. -/
def PaysOnce (before : ℕ → Multiset Recipient) (w : World Store) : Op → Prop
  | .createInvoice _ id _ _ _ => w.store.invoice id = none
  | .releasePayment id _ => before id = 0
  | .retryFailedPayout id dst _ => ∀ inv, w.store.invoice id = some inv →
    ¬ sharesOf inv dst ≤ before id
  | _ => True

/-- A contract without invoices, whoever administers it and whatever the tokens hold. -/
structure Blank (w : World Store) : Prop where
  invoice : ∀ id, w.store.invoice id = none
  failedPayout : ∀ id a, w.store.failedPayout id a = none

/-- Either all shares of the account are paid, or its record asks for one that is not. -/
def Awaits (records : Address → Option FailedPayout) (paid : Multiset Recipient) (inv : Invoice)
    (a : Address) : Prop :=
  sharesOf inv a ≤ paid ∨
    ∀ r, r.dst = a → paid.count r + awaiting records r ≤ inv.recipients.count r

/-- An invoice of which `paid` has gone out: no share is paid or awaited more often than listed. -/
structure Kept (id : ℕ) (records : Address → Option FailedPayout) (paid : Multiset Recipient)
    (inv : Invoice) : Prop where
  id_eq : inv.invoiceId = id
  amount_pos : ∀ r ∈ inv.recipients, 0 < r.amount
  total_eq : inv.totalAmount = (inv.recipients.map (·.amount)).sum
  within : paid ≤ inv.recipients
  awaits : ∀ a, Awaits records paid inv a

structure Tracked (s : Store) (paid : ℕ → Multiset Recipient) : Prop where
  kept : ∀ id inv, s.invoice id = some inv → Kept id (s.failedPayout id) (paid id) inv
  unpaid : ∀ id, s.invoice id = none → paid id = 0
  unrecorded : ∀ id a, s.invoice id = none → s.failedPayout id a = none

variable {w : World Store} {l : Label Op} {ls : List (Label Op)} {s s' : Store} {env : Env}
  {paidOut : ℕ → Multiset Recipient} {id : ℕ} {records : Address → Option FailedPayout}
  {m : Multiset Recipient} {inv : Invoice}

theorem Kept.sum_le (h : Kept id records m inv) : (m.map (·.amount)).sum ≤ inv.totalAmount := by
  obtain ⟨rest, hrest⟩ := Multiset.le_iff_exists_add.mp h.within
  have htotal : inv.totalAmount = ((inv.recipients : Multiset Recipient).map (·.amount)).sum := by
    rw [h.total_eq]
    rfl
  have hnonneg : 0 ≤ (rest.map (·.amount)).sum := by
    apply Multiset.sum_nonneg
    intro x hx
    obtain ⟨r, hr, rfl⟩ := Multiset.mem_map.mp hx
    have hmem : r ∈ (inv.recipients : Multiset Recipient) := by
      rw [hrest]
      exact Multiset.mem_add.mpr (Or.inr hr)
    exact (h.amount_pos r (Multiset.mem_coe.mp hmem)).le
  rw [htotal, hrest, Multiset.map_add, Multiset.sum_add]
  omega

theorem tracked_blank (h : Blank w) : Tracked w.store 0 where
  kept id inv hinv := by
    rw [h.invoice] at hinv
    cases hinv
  unpaid _ _ := rfl
  unrecorded id a _ := h.failedPayout id a

/-- Invoices and records are all that counts. -/
theorem tracked_frame (h : Tracked s paidOut) (hi : s'.invoice = s.invoice)
    (hf : s'.failedPayout = s.failedPayout) : Tracked s' paidOut where
  kept := by
    rw [hi, hf]
    exact h.kept
  unpaid := by
    rw [hi]
    exact h.unpaid
  unrecorded := by
    rw [hi, hf]
    exact h.unrecorded

/-- Only invoice `id` is touched, and afterwards it is kept. -/
theorem tracked_at (h : Tracked s paidOut)
    (hupd : s'.invoice = Function.update s.invoice id (some inv))
    (hkept : Kept id (s'.failedPayout id) (paidOut id + m) inv)
    (hf : ∀ i, i ≠ id → s'.failedPayout i = s.failedPayout i) :
    Tracked s' (paidOut + Function.update (0 : ℕ → Multiset Recipient) id m) := by
  have hother : ∀ i, i ≠ id →
      (paidOut + Function.update (0 : ℕ → Multiset Recipient) id m) i = paidOut i := by
    intro i hne
    simp [Function.update_of_ne hne]
  have hnone : ∀ i, s'.invoice i = none → i ≠ id ∧ s.invoice i = none := by
    intro i hi
    rw [hupd] at hi
    by_cases hne : i = id
    · subst hne
      rw [Function.update_self] at hi
      cases hi
    · rw [Function.update_of_ne hne] at hi
      exact ⟨hne, hi⟩
  refine ⟨?_, ?_, ?_⟩
  · intro i inv₁ hinv₁
    rw [hupd] at hinv₁
    by_cases hne : i = id
    · subst hne
      rw [Function.update_self] at hinv₁
      obtain rfl := Option.some.inj hinv₁
      simpa using hkept
    · rw [Function.update_of_ne hne] at hinv₁
      rw [hother i hne, hf i hne]
      exact h.kept i inv₁ hinv₁
  · intro i hi
    obtain ⟨hne, hold⟩ := hnone i hi
    rw [hother i hne]
    exact h.unpaid i hold
  · intro i a hi
    obtain ⟨hne, hold⟩ := hnone i hi
    rw [hf i hne]
    exact h.unrecorded i a hold

theorem tracked_createInvoice {u : Unit} {c token : Address} {x : ℤ} {rs : List Recipient}
    (h : Tracked s paidOut) (hr : Runs (createInvoice c id x rs token) env s u s')
    (hfresh : s.invoice id = none) : Tracked s' paidOut := by
  obtain ⟨-, hpos, htotal, access, -, rfl⟩ := runs_createInvoice hr
  have hzero := h.unpaid id hfresh
  suffices hat : Tracked _ (paidOut + Function.update (0 : ℕ → Multiset Recipient) id 0) by
    simpa using hat
  have hnone : paidOut id + 0 = 0 := by
    rw [hzero, add_zero]
  refine tracked_at h rfl ⟨rfl, hpos, htotal, ?_, ?_⟩ fun _ _ => rfl
  · rw [hnone]
    exact Multiset.zero_le _
  · intro a
    refine Or.inr fun r _ => ?_
    have hawait : awaiting (s.failedPayout id) r = 0 :=
      awaiting_none (h.unrecorded id r.dst hfresh)
    change (paidOut id + 0).count r + awaiting (s.failedPayout id) r ≤ _
    rw [hnone, hawait]
    simp

section Release
variable {token here : Address} {fs : List (Recipient × Fate)} {a : Address}

/-- Where no share of an account failed or was skipped, all of them were paid. -/
theorem sharesOf_le_paid (hfs : fs.map (·.1) = inv.recipients)
    (hfailed : (withFate .failed fs).filter (·.dst = a) = [])
    (hskipped : (withFate .skipped fs).filter (·.dst = a) = []) :
    sharesOf inv a ≤ (withFate .paid fs : List Recipient) := by
  have hperm := (perm_fates fs).filter (fun r => decide (r.dst = a))
  rw [hfs, List.filter_append, List.filter_append, hfailed, hskipped, List.append_nil,
    List.append_nil] at hperm
  rw [sharesOf, Multiset.coe_eq_coe.mpr hperm]
  exact List.filter_sublist.subperm

/-- The share on record after a failure is one that was not paid. -/
theorem awaiting_le_of_failed {q : Recipient} {qs : List Recipient}
    (hfs : fs.map (·.1) = inv.recipients)
    (hlast : (withFate .failed fs).filter (·.dst = a) = qs ++ [q])
    (hrecords : records = stored id (s.failedPayout id) (withFate .failed fs)) {r : Recipient}
    (hr : r.dst = a) :
    (withFate .paid fs).count r + awaiting records r ≤ inv.recipients.count r := by
  have hcount := (perm_fates fs).count_eq r
  rw [hfs, List.count_append, List.count_append] at hcount
  have hmem : q ∈ (withFate .failed fs).filter (·.dst = a) := by
    rw [hlast]
    simp
  obtain ⟨hq, hdst⟩ := List.mem_filter.mp hmem
  have hrecord : stored id (s.failedPayout id) (withFate .failed fs) a =
      some ⟨id, a, q.amount, tried (s.failedPayout id) a + (qs.length + 1)⟩ := stored_of_last hlast
  rw [← hrecords, ← hr] at hrecord
  by_cases hx : q.amount = r.amount
  · have hqr : q = r := by
      cases q
      cases r
      simp_all
    subst hqr
    have hpos := List.count_pos_iff.mpr hq
    have hone : awaiting records q ≤ 1 := by
      unfold awaiting
      split <;> omega
    omega
  · have hnot : awaiting records r = 0 := by
      simp [awaiting, hrecord, hx]
    omega

/-- The first payment of an invoice: each share is paid at most once, and a record that is left
asks for an unpaid one, unless all shares of its account were paid. -/
theorem Kept.pay {ps : List Recipient} (h : Kept id (s.failedPayout id) 0 inv)
    (hps : ps = withFate .paid (faring id token here s inv.recipients))
    (hrecords : records = stored id (s.failedPayout id)
      (withFate .failed (faring id token here s inv.recipients))) (a : Address) :
    Awaits records ps inv a := by
  have hfs : (faring id token here s inv.recipients).map (·.1) = inv.recipients := map_faring
  subst hps
  rcases List.eq_nil_or_concat ((withFate .failed (faring id token here s inv.recipients)).filter
    (·.dst = a)) with hnone | ⟨qs, q, hlast⟩
  · rcases List.eq_nil_or_concat ((withFate .skipped
      (faring id token here s inv.recipients)).filter (·.dst = a)) with hskip | ⟨qs, q, hskip⟩
    · exact Or.inl (sharesOf_le_paid hfs hnone hskip)
    · -- The record was used up before, so that it stays and nothing is paid.
      have hmem : q ∈ (withFate .skipped (faring id token here s inv.recipients)).filter
          (·.dst = a) := by
        rw [hskip]
        simp
      obtain ⟨hq, hdst⟩ := List.mem_filter.mp hmem
      have hqa : q.dst = a := by simpa using hdst
      have htried : 3 ≤ tried (s.failedPayout id) a + ((withFate .failed
          (faring id token here s inv.recipients)).filter (·.dst = a)).length :=
        hqa ▸ tried_of_skipped hq
      rw [hnone, List.length_nil, add_zero] at htried
      refine Or.inr fun r hr => ?_
      have hunpaid : (withFate .paid (faring id token here s inv.recipients)).count r = 0 :=
        List.count_eq_zero_of_not_mem (not_paid_of_tried htried hr)
      have hsame : awaiting records r = awaiting (s.failedPayout id) r := by
        rw [awaiting, awaiting, hrecords, hr, stored_of_none hnone]
      rw [Multiset.coe_count, hunpaid, hsame]
      rcases h.awaits a with hall | hle
      · have hlisted : q ∈ sharesOf inv a := by
          have hin : q ∈ inv.recipients := by
            rw [← hfs]
            exact (perm_fates _).mem_iff.mpr (by simp [hq])
          exact List.mem_filter.mpr ⟨hin, hdst⟩
        exact absurd (Multiset.mem_of_le hall hlisted) (Multiset.notMem_zero q)
      · simpa using hle r hr
  · rw [List.concat_eq_append] at hlast
    exact Or.inr fun r hr => by
      rw [Multiset.coe_count]
      exact awaiting_le_of_failed hfs hlast hrecords hr

end Release

theorem tracked_releasePayment {u : Unit} {c : Address} (h : Tracked s paidOut)
    (hr : Runs (releasePayment id c) env s u s') (hc : paidOut id = 0) :
    ∃ ps : List Recipient, (∃ token, s'.tokens.transfers = s.tokens.transfers ++
        ps.map fun r => ⟨token, env.self, r.dst, r.amount⟩) ∧
      Tracked s' (paidOut + Function.update (0 : ℕ → Multiset Recipient) id ps) := by
  obtain ⟨token, inv, ps, s₁, guard, htoken, hinv, -, hps, hp, hrecords, hcase⟩ :=
    runs_releasePayment hr
  have hkept := h.kept id inv hinv
  rw [hc] at hkept
  have hwithin : (ps : Multiset Recipient) ≤ inv.recipients := hp.sub.subperm
  have hawaits := hkept.pay hps hrecords
  have hinvoice : s₁.invoice = s.invoice := by
    rw [hp.only]
  have hothers : ∀ i, i ≠ id → s₁.failedPayout i = s.failedPayout i := by
    intro i hne
    rw [hp.only]
    exact Function.update_of_ne hne _ _
  rcases hcase with ⟨rfl, rfl⟩ | ⟨hne, rfl⟩
  · refine ⟨[], ⟨token, hp.transfers⟩, ?_⟩
    have hupd : s₁.invoice = Function.update s.invoice id (some inv) := by
      rw [hinvoice, ← hinv, Function.update_eq_self]
    refine tracked_at h hupd ?_ hothers
    rw [hc, zero_add]
    exact ⟨hkept.id_eq, hkept.amount_pos, hkept.total_eq, hwithin, hawaits⟩
  · refine ⟨ps, ⟨token, hp.transfers⟩, ?_⟩
    have hupd : ∀ inv' : Invoice, Function.update s₁.invoice inv.invoiceId (some inv') =
        Function.update s.invoice id (some inv') := by
      intro inv'
      rw [hinvoice, hkept.id_eq]
    refine tracked_at h (hupd _) ?_ hothers
    rw [hc, zero_add]
    exact ⟨hkept.id_eq, hkept.amount_pos, hkept.total_eq, hwithin, hawaits⟩

theorem awaiting_record {r : Recipient} {fp : FailedPayout}
    (h : s.failedPayout id r.dst = some fp) : awaiting (s.failedPayout id) r =
      Multiset.count r ({⟨r.dst, fp.amount⟩} : Multiset Recipient) := by
  obtain ⟨dst, x⟩ := r
  by_cases hx : fp.amount = x
  · simp [awaiting, h, hx]
  · simp [awaiting, h, hx, Ne.symm hx]

/-- A retry moves one share from the records to what is paid. -/
theorem Kept.retry {dst : Address} {fp : FailedPayout} (h : Kept id (s.failedPayout id) m inv)
    (hfp : s.failedPayout id dst = some fp) (hc : ¬ sharesOf inv dst ≤ m) :
    Kept id ((setFailedPayout id dst none s).failedPayout id) (m + {⟨dst, fp.amount⟩}) inv := by
  have hawaited : ∀ r, r.dst = dst → m.count r + Multiset.count r {⟨dst, fp.amount⟩} ≤
      inv.recipients.count r := by
    intro r hr
    have hle := (h.awaits dst).resolve_left hc r hr
    subst hr
    rwa [awaiting_record hfp] at hle
  have hother : ∀ r : Recipient, r.dst ≠ dst →
      Multiset.count r ({⟨dst, fp.amount⟩} : Multiset Recipient) = 0 := by
    intro r hr
    rw [Multiset.count_singleton, if_neg]
    rintro rfl
    exact hr rfl
  refine ⟨h.id_eq, h.amount_pos, h.total_eq, ?_, fun a => ?_⟩
  · rw [Multiset.le_iff_count]
    intro r
    rw [Multiset.count_add, Multiset.coe_count]
    by_cases hr : r.dst = dst
    · exact hawaited r hr
    · rw [hother r hr, add_zero, ← Multiset.coe_count]
      exact Multiset.le_iff_count.mp h.within r
  · by_cases ha : a = dst
    · subst ha
      refine Or.inr fun r hr => ?_
      have hgone : awaiting ((setFailedPayout id a none s).failedPayout id) r = 0 :=
        awaiting_none (by simp [setFailedPayout, hr])
      rw [Multiset.count_add, hgone, add_zero]
      exact hawaited r hr
    · rcases h.awaits a with hall | hle
      · exact Or.inl (hall.trans (Multiset.le_add_right _ _))
      · refine Or.inr fun r hr => ?_
        have hrd : r.dst ≠ dst := by rwa [hr]
        rw [Multiset.count_add, hother r hrd, add_zero, awaiting_setFailedPayout_of_ne hrd]
        exact hle r hr

theorem tracked_retryFailedPayout {u : Unit} {c dst : Address} (h : Tracked s paidOut)
    (hr : Runs (retryFailedPayout id dst c) env s u s')
    (hc : ∀ inv, s.invoice id = some inv → ¬ sharesOf inv dst ≤ paidOut id) :
    ∃ x, (∃ token, s'.tokens.transfers = s.tokens.transfers ++ [⟨token, env.self, dst, x⟩]) ∧
      Tracked s' (paidOut + Function.update (0 : ℕ → Multiset Recipient) id {⟨dst, x⟩}) := by
  obtain ⟨token, inv, fp, n, guard, -, hinv, hfp, -, -, -, hn, rfl⟩ := runs_retryFailedPayout hr
  refine ⟨fp.amount, ⟨token, Tokens.transfers_transfer hn⟩, ?_⟩
  have hupd : s.invoice = Function.update s.invoice id (some inv) := by
    rw [← hinv, Function.update_eq_self]
  refine tracked_at h hupd ((h.kept id inv hinv).retry hfp (hc inv hinv)) ?_
  intro i hne
  exact Function.update_of_ne hne _ _

/-- A payment that goes through counts what the tokens have sent. -/
theorem paidBy_of_transfers {signers : List Address} {uploaded : List BytesN32} {op : Op}
    {ts : List Transfer} (hop : op.paysFor = some id)
    (hr : Runs (exec op) (w.env signers uploaded) w.store () s')
    (ht : s'.tokens.transfers = w.store.tokens.transfers ++ ts) :
    paidBy w (.call signers uploaded op) = Function.update (0 : ℕ → Multiset Recipient) id
      (ts.map fun t => Recipient.mk t.dst t.amount) := by
  have hnext : (w.next exec (.call signers uploaded op)).store = s' := invoke_of_runs hr
  have hsent : sent w (.call signers uploaded op) = ts := by
    rw [sent, hnext, ht, List.drop_left]
  simp only [paidBy, hop, hsent]

theorem paidBy_of_fails {signers : List Address} {uploaded : List BytesN32} {op : Op}
    (hsame : invoke (exec op) (w.env signers uploaded) w.store = w.store) :
    paidBy w (.call signers uploaded op) = 0 := by
  have hsent : sent w (.call signers uploaded op) = [] := by
    simp [sent, World.next, hsame]
  simp only [paidBy, hsent]
  split
  · simp
  · rfl

theorem aside_admin {α : Type} {a : α} {x : AdminCall α} (hr : Runs (admin x) env s a s') :
    s'.invoice = s.invoice ∧ s'.failedPayout = s.failedPayout := by
  obtain ⟨access, -, rfl⟩ := runs_within.mp hr
  exact ⟨rfl, rfl⟩

theorem aside_onTokens {u : Unit} {f : Tokens → Option Tokens}
    (hr : Runs (onTokens f) env s u s') :
    s'.invoice = s.invoice ∧ s'.failedPayout = s.failedPayout := by
  obtain ⟨n, -, rfl⟩ := runs_onTokens.mp hr
  exact ⟨rfl, rfl⟩

/-- Administration and what others do on the tokens leave invoices and records alone. -/
theorem exec_aside {op : Op} (hr : Runs (exec op) env s () s')
    (hop : op.paysFor = none) (hcreate : ∀ c id x rs token, op ≠ .createInvoice c id x rs token) :
    s'.invoice = s.invoice ∧ s'.failedPayout = s.failedPayout := by
  cases op with
  | createInvoice c id x rs token => exact absurd rfl (hcreate c id x rs token)
  | releasePayment id c => cases hop
  | retryFailedPayout id dst c => cases hop
  | upgrade upgrader hash => exact aside_admin (runs_requireSuperAdmin_bind.mp hr).2
  | setAdminPool pool threshold => exact aside_admin hr
  | createProposal creator description =>
    obtain ⟨_, hpropose⟩ := runs_discarded.mp hr
    exact aside_admin hpropose
  | approveProposal c id => exact aside_admin hr
  | executeUpgrade executor id hash => exact aside_admin hr
  | tokenMint token dst amount => exact aside_onTokens (f := (·.mint token dst amount)) hr
  | tokenTransfer token src dst amount => exact aside_onTokens (runs_requireAuth_bind.mp hr).2
  | tokenSetRefusals token refuses =>
    exact aside_onTokens (f := (·.setRefusals token refuses)) hr

theorem tracked_call {signers : List Address} {uploaded : List BytesN32} {op : Op}
    (h : Tracked w.store paidOut) (hr : Runs (exec op) (w.env signers uploaded) w.store () s')
    (hc : PaysOnce paidOut w op) : Tracked s' (paidOut + paidBy w (.call signers uploaded op)) := by
  cases op with
  | createInvoice c id x rs token => simpa [paidBy, Op.paysFor] using tracked_createInvoice h hr hc
  | releasePayment id c =>
    obtain ⟨ps, ⟨token, ht⟩, htracked⟩ := tracked_releasePayment h hr hc
    rw [paidBy_of_transfers rfl hr ht]
    simpa [Function.comp_def] using htracked
  | retryFailedPayout id dst c =>
    obtain ⟨x, ⟨token, ht⟩, htracked⟩ := tracked_retryFailedPayout h hr hc
    rw [paidBy_of_transfers rfl hr ht]
    exact htracked
  | _ =>
    obtain ⟨hi, hf⟩ := exec_aside hr rfl (by simp)
    simpa [paidBy, Op.paysFor] using tracked_frame h hi hf

/-- A step that is no successful call changes and pays nothing. -/
theorem step_cases (w : World Store) (l : Label Op) :
    ((w.next exec l).store = w.store ∧ paidBy w l = 0 ∧ ∀ C, World.OnSuccess exec C w l) ∨
      ∃ signers uploaded op, l = .call signers uploaded op ∧
        Runs (exec op) (w.env signers uploaded) w.store () (w.next exec l).store := by
  rcases World.next_cases exec w l with ⟨hs, hc⟩ | hr
  · refine Or.inl ⟨hs, ?_, hc⟩
    cases l with
    | close l => rfl
    | call signers uploaded op => exact paidBy_of_fails hs
  · exact Or.inr hr

theorem tracked_next (h : Tracked w.store paidOut)
    (hc : World.OnSuccess exec (PaysOnce paidOut) w l) :
    Tracked (w.next exec l).store (paidOut + paidBy w l) := by
  rcases step_cases w l with ⟨hs, hp, -⟩ | ⟨signers, uploaded, op, rfl, hr⟩
  · rw [hs, hp, add_zero]
    exact h
  · exact tracked_call h hr (hc _ hr)

/-- Every successful call of the run keeps to `PaysOnce`, after the payments `before` and those of
the run so far. -/
def PaysOnceAlong : (ℕ → Multiset Recipient) → World Store → List (Label Op) → Prop
  | _, _, [] => True
  | before, w, l :: ls => World.OnSuccess exec (PaysOnce before) w l ∧
    PaysOnceAlong (before + paidBy w l) (w.next exec l) ls

theorem paysOnceAlong_append {rest : List (Label Op)} : PaysOnceAlong paidOut w (ls ++ rest) ↔
    PaysOnceAlong paidOut w ls ∧ PaysOnceAlong (paidOut + paid w ls) (w.run exec ls) rest := by
  induction ls generalizing w paidOut with
  | nil => simp [PaysOnceAlong, paid, World.sumSteps]
  | cons l ls ih =>
    simp only [List.cons_append, PaysOnceAlong, ih, and_assoc, paid, World.sumSteps, add_assoc,
      World.run_cons]

theorem tracked_run (h : Tracked w.store paidOut) (hc : PaysOnceAlong paidOut w ls) :
    Tracked (w.run exec ls).store (paidOut + paid w ls) := by
  induction ls generalizing w paidOut with
  | nil => simpa [paid, World.sumSteps] using h
  | cons l ls ih =>
    have hrest := ih (tracked_next h hc.1) hc.2
    rwa [add_assoc] at hrest

/-- The shares paid so far are among those the invoice lists, each one at most as often as it is
listed, and they add up to no more than the invoice's total. -/
def PaidWithin (w : World Store) (ls : List (Label Op)) : Prop :=
  ∀ id inv, (w.run exec ls).store.invoice id = some inv →
    paid w ls id ≤ inv.recipients ∧ ((paid w ls id).map (·.amount)).sum ≤ inv.totalAmount

/-- At every point of a run that keeps to `PaysOnce`, no share has been paid twice. -/
theorem shares_paid_once (hw : Blank w) (hc : PaysOnceAlong 0 w ls) :
    ∀ done, done <+: ls → PaidWithin w done := by
  rintro done ⟨rest, rfl⟩ id inv hinv
  have htracked := tracked_run (tracked_blank hw) (paysOnceAlong_append.mp hc).1
  rw [zero_add] at htracked
  have h := htracked.kept id inv hinv
  exact ⟨h.within, h.sum_le⟩

/-- A split contract at address 400, with account 1 as its administrator and a token at 50. -/
def genesis : World Store where
  ledger := .ofNat 100 1700000000
  self := ⟨400⟩
  store :=
    { access := invoke (setAdmin ⟨1⟩)
        ⟨.ofNat 100 1700000000, ⟨400⟩, [], true, []⟩ Admin.Store.empty
      token := none
      invoice := fun _ => none
      failedPayout := fun _ _ => none
      guard := fun _ => false
      tokens := ⟨fun a => if a = ⟨50⟩ then some ⟨Token.empty 7, fun _ _ _ => false⟩ else none, []⟩ }

theorem genesis_blank : Blank genesis where
  invoice _ := rfl
  failedPayout _ _ := rfl

/-- Two shares, of which the funds at first cover one; the other one is retried later. -/
def releaseThenRetry : List (Label Op) :=
  [.call [⟨1⟩] [] (.createInvoice ⟨1⟩ 1 500 [⟨⟨2⟩, 200⟩, ⟨⟨3⟩, 300⟩] ⟨50⟩),
   .call [] [] (.tokenMint ⟨50⟩ ⟨400⟩ 200),
   .call [⟨1⟩] [] (.releasePayment 1 ⟨1⟩),
   .call [] [] (.tokenMint ⟨50⟩ ⟨400⟩ 300),
   .call [⟨1⟩] [] (.retryFailedPayout 1 ⟨3⟩ ⟨1⟩)]

/-- A release without funds leaves the invoice pending and a record behind: the retry pays the
share, and the next release pays it again. -/
def retryThenRelease : List (Label Op) :=
  [.call [⟨1⟩] [] (.createInvoice ⟨1⟩ 1 100 [⟨⟨2⟩, 100⟩] ⟨50⟩),
   .call [⟨1⟩] [] (.releasePayment 1 ⟨1⟩),
   .call [] [] (.tokenMint ⟨50⟩ ⟨400⟩ 200),
   .call [⟨1⟩] [] (.retryFailedPayout 1 ⟨2⟩ ⟨1⟩),
   .call [⟨1⟩] [] (.releasePayment 1 ⟨1⟩)]

theorem releaseThenRetry_once : PaysOnceAlong 0 genesis releaseThenRetry := by
  have hunpaid : paid genesis (releaseThenRetry.take 2) 1 = 0 := by decide +kernel
  have hpaid : paid genesis (releaseThenRetry.take 4) 1 = {⟨⟨2⟩, 200⟩} := by decide +kernel
  have hlisted : ((genesis.run exec (releaseThenRetry.take 4)).store.invoice 1).map
      (·.recipients) = some [⟨⟨2⟩, 200⟩, ⟨⟨3⟩, 300⟩] := by
    decide +kernel
  have hcreated : PaysOnceAlong 0 genesis (releaseThenRetry.take 2) :=
    ⟨fun _ _ => rfl, fun _ _ => trivial, trivial⟩
  have hreleased : PaysOnceAlong 0 genesis (releaseThenRetry.take 2 ++
      (releaseThenRetry.drop 2).take 2) := by
    refine paysOnceAlong_append.mpr ⟨hcreated, fun _ _ => ?_, fun _ _ => trivial, trivial⟩
    rw [zero_add]
    exact hunpaid
  have hretried : PaysOnceAlong (0 + paid genesis (releaseThenRetry.take 4))
      (genesis.run exec (releaseThenRetry.take 4)) (releaseThenRetry.drop 4) := by
    refine ⟨fun _ _ inv hinv hle => ?_, trivial⟩
    rw [hinv, Option.map_some, Option.some.injEq] at hlisted
    have hmem : Recipient.mk ⟨3⟩ 300 ∈ sharesOf inv ⟨3⟩ := by
      simp [sharesOf, hlisted]
    have hcovered := Multiset.mem_of_le hle hmem
    rw [zero_add, hpaid] at hcovered
    exact absurd hcovered (by decide)
  have hall : PaysOnceAlong 0 genesis (releaseThenRetry.take 4 ++ releaseThenRetry.drop 4) :=
    paysOnceAlong_append.mpr ⟨hreleased, hretried⟩
  exact hall

theorem releaseThenRetry_paid_once : PaidWithin genesis releaseThenRetry ∧
    paid genesis releaseThenRetry 1 = {⟨⟨2⟩, 200⟩, ⟨⟨3⟩, 300⟩} :=
  ⟨shares_paid_once genesis_blank releaseThenRetry_once _ (List.prefix_refl _), by decide +kernel⟩

theorem retryThenRelease_paid_twice : Blank genesis ∧ ¬ PaidWithin genesis retryThenRelease ∧
    paid genesis retryThenRelease 1 = {⟨⟨2⟩, 100⟩, ⟨⟨2⟩, 100⟩} := by
  have hpaid : paid genesis retryThenRelease 1 = {⟨⟨2⟩, 100⟩, ⟨⟨2⟩, 100⟩} := by decide +kernel
  refine ⟨genesis_blank, ?_, hpaid⟩
  intro h
  have htotal : ((genesis.run exec retryThenRelease).store.invoice 1).map (·.totalAmount) =
      some 100 := by
    decide +kernel
  obtain ⟨inv, hinv, hamount⟩ := Option.map_eq_some_iff.mp htotal
  have hle := (h 1 inv hinv).2
  rw [hpaid, hamount] at hle
  exact absurd hle (by decide)

end BcForge.Split
