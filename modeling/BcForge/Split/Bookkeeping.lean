import BcForge.Split.Payouts

/-! What an invoice says was released, against what was paid for it. -/
namespace BcForge.Split

open Soroban Call Admin

variable {w : World Store} {l : Label Op} {ls : List (Label Op)} {s s' : Store} {env : Env}
  {paidOut : ℕ → Multiset Recipient} {id : ℕ} {inv : Invoice} {m : Multiset Recipient} {u : Unit}

/-- What every stored invoice keeps of its creation. -/
structure Listed (id : ℕ) (inv : Invoice) : Prop where
  id_eq : inv.invoiceId = id
  amount_pos : ∀ r ∈ inv.recipients, 0 < r.amount
  total_eq : inv.totalAmount = (inv.recipients.map (·.amount)).sum
  total_pos : 0 < inv.totalAmount
  released_eq : inv.status = .pending → inv.releasedAmount = 0

def AllListed (s : Store) : Prop := ∀ id inv, s.invoice id = some inv → Listed id inv

theorem allListed_blank (hw : Blank w) : AllListed w.store := by
  intro id inv hinv
  rw [hw.invoice] at hinv
  cases hinv

/-- Only invoice `id` is written, and it is listed. -/
theorem allListed_update (h : AllListed s) (hinv : Listed id inv)
    (hs : s'.invoice = Function.update s.invoice id (some inv)) : AllListed s' := by
  intro i inv₁ hi
  rw [hs] at hi
  by_cases hne : i = id
  · subst hne
    rw [Function.update_self] at hi
    obtain rfl := Option.some.inj hi
    exact hinv
  · rw [Function.update_of_ne hne] at hi
    exact h i inv₁ hi

/-- A release touches the invoice only if it pays for it. -/
theorem invoice_releasePayment {c : Address} (h : AllListed s)
    (hr : Runs (releasePayment id c) env s u s') : ∃ token inv ps, s.token = some token ∧
      s.invoice id = some inv ∧ inv.status = .pending ∧
      ps = withFate .paid (faring id token env.self s inv.recipients) ∧
      s'.tokens.transfers = s.tokens.transfers ++
        ps.map (fun r => ⟨token, env.self, r.dst, r.amount⟩) ∧
      s'.failedPayout id = stored id (s.failedPayout id)
        (withFate .failed (faring id token env.self s inv.recipients)) ∧
      (ps = [] ∧ s'.invoice = s.invoice ∨
        ps ≠ [] ∧ s'.invoice = Function.update s.invoice id (some { inv with
          releasedAmount := (ps.map (·.amount)).sum
          status := statusFor inv (ps.map (·.amount)).sum })) := by
  obtain ⟨token, inv, ps, s₁, guard, htoken, hinv, hpending, hps, hp, hrecords, hcase⟩ :=
    runs_releasePayment hr
  have hid := (h id inv hinv).id_eq
  have hinvoice : s₁.invoice = s.invoice := by
    rw [hp.only]
  refine ⟨token, inv, ps, htoken, hinv, hpending, hps, ?_⟩
  rcases hcase with ⟨rfl, rfl⟩ | ⟨hne, rfl⟩
  · exact ⟨hp.transfers, hrecords, Or.inl ⟨rfl, hinvoice⟩⟩
  · refine ⟨hp.transfers, hrecords, Or.inr ⟨hne, ?_⟩⟩
    simp only [writeInvoice, hid, hinvoice]

/-- What a successful call does to the invoices, and the shares it pays. -/
inductive Books (op : Op) (here : Address) (s s' : Store) (now : ℕ → Multiset Recipient) : Prop
  | aside (hop : ∀ id dst c, op ≠ .retryFailedPayout id dst c) (hs : s'.invoice = s.invoice)
      (hnow : now = 0)
  | create (id : ℕ) (inv : Invoice) (hfresh : ∃ c x rs token, op = .createInvoice c id x rs token)
      (hinv : Listed id inv) (hpending : inv.status = .pending)
      (hs : s'.invoice = Function.update s.invoice id (some inv)) (hnow : now = 0)
  | release (id : ℕ) (inv : Invoice) (ps : List Recipient)
      (hop : ∀ id dst c, op ≠ .retryFailedPayout id dst c) (hinv : s.invoice id = some inv)
      (hpending : inv.status = .pending)
      (hs : s'.invoice = Function.update s.invoice id (some { inv with
        releasedAmount := (ps.map (·.amount)).sum
        status := statusFor inv (ps.map (·.amount)).sum }))
      (hnow : now = Function.update (0 : ℕ → Multiset Recipient) id ps)
  | retry (id : ℕ) (inv : Invoice) (dst c token : Address) (fp : FailedPayout)
      (hop : op = .retryFailedPayout id dst c) (hinv : s.invoice id = some inv)
      (hrecord : s.token = some token ∧ s.failedPayout id dst = some fp)
      (hpos : 0 < fp.amount) (hfunds : s.tokens.Covers token here fp.amount)
      (hs : s'.invoice = s.invoice)
      (hnow : now = Function.update (0 : ℕ → Multiset Recipient) id {⟨dst, fp.amount⟩})

theorem books_call {signers : List Address} {uploaded : List BytesN32} {op : Op}
    (h : AllListed w.store) (hr : Runs (exec op) (w.env signers uploaded) w.store () s') :
    Books op w.self w.store s' (paidBy w (.call signers uploaded op)) := by
  cases op with
  | createInvoice c id x rs token =>
    obtain ⟨hx, hpos, htotal, access, -, rfl⟩ := runs_createInvoice hr
    exact .create id _ ⟨c, x, rs, token, rfl⟩ ⟨rfl, hpos, htotal, hx, fun _ => rfl⟩ rfl rfl rfl
  | releasePayment id c =>
    obtain ⟨token, inv, ps, -, hinv, hpending, -, ht, -, hcase⟩ := invoice_releasePayment h hr
    have hnow := paidBy_of_transfers rfl hr ht
    simp only [List.map_map, Function.comp_def, List.map_id'] at hnow
    rcases hcase with ⟨rfl, hs⟩ | ⟨-, hs⟩
    · refine .aside (by simp) hs ?_
      rw [hnow]
      simp
    · exact .release id inv ps (by simp) hinv hpending hs hnow
  | retryFailedPayout id dst c =>
    obtain ⟨token, inv, fp, n, guard, htoken, hinv, hfp, -, hpos, hfunds, hn, rfl⟩ :=
      runs_retryFailedPayout hr
    have hnow := paidBy_of_transfers rfl hr (Tokens.transfers_transfer hn)
    exact .retry id inv dst c token fp rfl hinv ⟨htoken, hfp⟩ hpos hfunds rfl hnow
  | _ =>
    refine .aside (by simp) (exec_aside hr rfl (by simp)).1 ?_
    simp [paidBy, Op.paysFor]

variable {op : Op} {here : Address} {now : ℕ → Multiset Recipient}

theorem allListed_books (h : AllListed s) (hb : Books op here s s' now) : AllListed s' := by
  cases hb with
  | aside _ hs _ =>
    intro id inv hinv
    rw [hs] at hinv
    exact h id inv hinv
  | create id inv _ hinv _ hs _ => exact allListed_update h hinv hs
  | release id inv ps _ hinv _ hs _ =>
    have hl := h id inv hinv
    refine allListed_update h ?_ hs
    exact ⟨hl.id_eq, hl.amount_pos, hl.total_eq, hl.total_pos,
      fun hp => absurd hp (statusFor_ne_pending _ _)⟩
  | retry id inv dst c token fp _ _ _ _ _ hs _ =>
    intro i inv₁ hinv
    rw [hs] at hinv
    exact h i inv₁ hinv

/-- An invoice id stands for nothing before its invoice is created. -/
structure Ready (s : Store) (m : ℕ → Multiset Recipient) : Prop where
  listed : AllListed s
  unpaid : ∀ id, s.invoice id = none → m id = 0

theorem ready_books (h : Ready s paidOut) (hb : Books op here s s' now) :
    Ready s' (paidOut + now) := by
  refine ⟨allListed_books h.listed hb, ?_⟩
  intro i hi
  cases hb with
  | aside _ hs hnow =>
    rw [hs] at hi
    simp [hnow, h.unpaid i hi]
  | create id inv _ _ _ hs hnow =>
    rw [hs] at hi
    by_cases hne : i = id
    · subst hne
      simp at hi
    · rw [Function.update_of_ne hne] at hi
      simp [hnow, h.unpaid i hi]
  | release id inv ps _ _ _ hs hnow =>
    rw [hs] at hi
    by_cases hne : i = id
    · subst hne
      simp at hi
    · rw [Function.update_of_ne hne] at hi
      simp [hnow, h.unpaid i hi, Function.update_of_ne hne]
  | retry id inv dst c token fp _ hinv _ _ _ hs hnow =>
    rw [hs] at hi
    have hne : i ≠ id := by
      rintro rfl
      rw [hinv] at hi
      cases hi
    simp [hnow, h.unpaid i hi, Function.update_of_ne hne]

/-- The total of shares paid. -/
def worth (m : Multiset Recipient) : ℤ := (m.map (·.amount)).sum

/-- The invoice says what was paid for it, and is fully released if that is all of it. -/
structure Balanced (inv : Invoice) (m : Multiset Recipient) : Prop where
  released : inv.releasedAmount = worth m
  full : inv.status = .fullyReleased ↔ worth m = inv.totalAmount

def Booked (s : Store) (m : ℕ → Multiset Recipient) : Prop :=
  ∀ id inv, s.invoice id = some inv → Balanced inv (m id)

/-- Only invoice `id` is written or paid for. -/
theorem booked_update (h : Booked s paidOut) (hinv : Balanced inv (paidOut id + m))
    (hs : s'.invoice = Function.update s.invoice id (some inv)) :
    Booked s' (paidOut + Function.update (0 : ℕ → Multiset Recipient) id m) := by
  intro i inv₁ hi
  rw [hs] at hi
  by_cases hne : i = id
  · subst hne
    rw [Function.update_self] at hi
    obtain rfl := Option.some.inj hi
    simpa using hinv
  · rw [Function.update_of_ne hne] at hi
    simpa [Function.update_of_ne hne] using h i inv₁ hi

theorem worth_coe (ps : List Recipient) : worth (ps : Multiset Recipient) =
    (ps.map (·.amount)).sum := rfl

theorem booked_release {ps : List Recipient} (h : Booked s paidOut) (hl : AllListed s)
    (hinv : s.invoice id = some inv) (hpending : inv.status = .pending)
    (hs : s'.invoice = Function.update s.invoice id (some { inv with
      releasedAmount := (ps.map (·.amount)).sum
      status := statusFor inv (ps.map (·.amount)).sum })) :
    Booked s' (paidOut + Function.update (0 : ℕ → Multiset Recipient) id ps) := by
  refine booked_update h ?_ hs
  have hzero : worth (paidOut id) = 0 := by
    rw [← (h id inv hinv).released]
    exact (hl id inv hinv).released_eq hpending
  have hworth : worth (paidOut id + ps) = (ps.map (·.amount)).sum := by
    rw [← worth_coe, worth, Multiset.map_add, Multiset.sum_add]
    change worth (paidOut id) + _ = _
    rw [hzero, zero_add]
    rfl
  refine ⟨hworth.symm, ?_⟩
  rw [hworth]
  simp only [statusFor]
  split <;> simp_all

theorem booked_create (h : Booked s paidOut) (hunpaid : paidOut id = 0) (hinv : Listed id inv)
    (hpending : inv.status = .pending)
    (hs : s'.invoice = Function.update s.invoice id (some inv)) : Booked s' paidOut := by
  suffices hat : Booked s' (paidOut + Function.update (0 : ℕ → Multiset Recipient) id 0) by
    simpa using hat
  refine booked_update h ?_ hs
  have hzero : worth (paidOut id + 0) = 0 := by
    rw [hunpaid]
    rfl
  have hpos := hinv.total_pos
  refine ⟨?_, ?_⟩
  · rw [hzero]
    exact hinv.released_eq hpending
  · rw [hzero, hpending]
    constructor
    · intro hfull
      cases hfull
    · intro htotal
      omega

/-- A retry pays, and the invoice does not say so. -/
theorem not_booked_retry {dst : Address} {x : ℤ} (h : Booked s paidOut)
    (hinv : s.invoice id = some inv) (hx : 0 < x) (hs : s'.invoice = s.invoice) :
    ¬ Booked s' (paidOut + Function.update (0 : ℕ → Multiset Recipient) id {⟨dst, x⟩}) := by
  intro hafter
  have hold := (h id inv hinv).released
  have hnew := (hafter id inv (by rw [hs]; exact hinv)).released
  have hmore : worth (paidOut id + {⟨dst, x⟩}) = worth (paidOut id) + x := by
    simp [worth]
  simp only [Pi.add_apply, Function.update_self] at hnew
  omega

/-- Invoices are created under new ids. -/
def FreshId (w : World Store) : Op → Prop
  | .createInvoice _ id _ _ _ => w.store.invoice id = none
  | _ => True

/-- A retry finds less than the recorded amount in the contract. -/
def Unfunded (w : World Store) : Op → Prop
  | .retryFailedPayout id dst _ => ∀ token fp, w.store.token = some token →
    w.store.failedPayout id dst = some fp → ¬ w.store.tokens.Covers token w.self fp.amount
  | _ => True

theorem unfunded_of_ne (h : ∀ id dst c, op ≠ .retryFailedPayout id dst c) : Unfunded w op := by
  cases op with
  | retryFailedPayout id dst c => exact absurd rfl (h id dst c)
  | _ => trivial

/-- A successful call keeps the books straight exactly if it is no retry. -/
theorem booked_call_iff (hr : Ready w.store paidOut) (h : Booked w.store paidOut)
    (hb : Books op w.self w.store s' now) (hfresh : FreshId w op) :
    Booked s' (paidOut + now) ↔ Unfunded w op := by
  cases hb with
  | aside hop hs hnow =>
    refine iff_of_true ?_ (unfunded_of_ne hop)
    intro id inv hinv
    rw [hs] at hinv
    simpa [hnow] using h id inv hinv
  | create id inv hop hinv hpending hs hnow =>
    obtain ⟨c, x, rs, token, rfl⟩ := hop
    refine iff_of_true ?_ trivial
    rw [hnow, add_zero]
    exact booked_create h (hr.unpaid id hfresh) hinv hpending hs
  | release id inv ps hop hinv hpending hs hnow =>
    refine iff_of_true ?_ (unfunded_of_ne hop)
    rw [hnow]
    exact booked_release h hr.listed hinv hpending hs
  | retry id inv dst c token fp hop hinv hrecord hpos hfunds hs hnow =>
    subst hop
    refine iff_of_false ?_ ?_
    · rw [hnow]
      exact not_booked_retry h hinv hpos hs
    · intro hc
      exact hc token fp hrecord.1 hrecord.2 hfunds

theorem ready_next (h : Ready w.store paidOut) :
    Ready (w.next exec l).store (paidOut + paidBy w l) := by
  rcases step_cases w l with ⟨hs, hp, -⟩ | ⟨signers, uploaded, op, rfl, hr⟩
  · rw [hs, hp, add_zero]
    exact h
  · exact ready_books h (books_call h.listed hr)

theorem booked_next_iff (hr : Ready w.store paidOut) (h : Booked w.store paidOut)
    (hf : World.OnSuccess exec FreshId w l) :
    Booked (w.next exec l).store (paidOut + paidBy w l) ↔ World.OnSuccess exec Unfunded w l := by
  rcases step_cases w l with ⟨hs, hp, hc⟩ | ⟨signers, uploaded, op, rfl, hrun⟩
  · rw [hs, hp, add_zero]
    exact iff_of_true h (hc _)
  · rw [booked_call_iff hr h (books_call hr.listed hrun) (hf _ hrun)]
    exact ⟨fun hu _ _ => hu, fun hu => hu _ hrun⟩

/-- Along a run that never reuses an id, every invoice says what was paid for it exactly if no
retry finds the funds to pay. -/
theorem released_matches_paid_iff (hw : Blank w)
    (hf : w.EveryStep exec (World.OnSuccess exec FreshId) ls) :
    (∀ done, done <+: ls → Booked (w.run exec done).store (paid w done)) ↔
      w.EveryStep exec (World.OnSuccess exec Unfunded) ls := by
  have hready : Ready w.store 0 := ⟨allListed_blank hw, fun _ _ => rfl⟩
  have hbooked : Booked w.store 0 := by
    intro id inv hinv
    rw [hw.invoice] at hinv
    cases hinv
  have hiff := World.along_iff_everyStep (J := fun w m => Booked w.store m)
    (K := fun w m => Ready w.store m) hready (fun _ _ _ hr _ => ready_next hr) hbooked
    (fun _ _ _ hr hd hb => booked_next_iff hr hb hd) hf
  simpa only [paid, zero_add] using hiff

/-- The release of `releaseThenRetry`, and a retry before the funds for it are there. -/
def releaseThenWait : List (Label Op) :=
  releaseThenRetry.take 3 ++ [.call [⟨1⟩] [] (.retryFailedPayout 1 ⟨3⟩ ⟨1⟩)]

theorem releaseThenWait_booked :
    (∀ done, done <+: releaseThenWait → Booked (genesis.run exec done).store (paid genesis done)) ∧
      ((genesis.run exec releaseThenWait).store.invoice 1).map
        (fun inv => (inv.releasedAmount, inv.status)) = some (200, .partiallyReleased) := by
  have hfails : (exec (.retryFailedPayout 1 ⟨3⟩ ⟨1⟩)
      ((genesis.run exec (releaseThenRetry.take 3)).env [⟨1⟩] [])
      (genesis.run exec (releaseThenRetry.take 3)).store).isOk = false := by
    decide +kernel
  have hfresh : genesis.EveryStep exec (World.OnSuccess exec FreshId) releaseThenWait :=
    ⟨fun _ _ => rfl, fun _ _ => trivial, fun _ _ => trivial, fun _ _ => trivial, trivial⟩
  have hunfunded : genesis.EveryStep exec (World.OnSuccess exec Unfunded) releaseThenWait := by
    refine ⟨fun _ _ => trivial, fun _ _ => trivial, fun _ _ => trivial, fun _ hr => ?_, trivial⟩
    have hok := isOk_of_runs hr
    exact absurd (hok.symm.trans hfails) (by decide)
  exact ⟨(released_matches_paid_iff genesis_blank hfresh).mpr hunfunded, by decide +kernel⟩

/-- After the retry the invoice is paid in full, and still says that 200 were released. -/
theorem releaseThenRetry_not_booked : Blank genesis ∧
    genesis.EveryStep exec (World.OnSuccess exec FreshId) releaseThenRetry ∧
    ¬ Booked (genesis.run exec releaseThenRetry).store (paid genesis releaseThenRetry) ∧
    ((genesis.run exec releaseThenRetry).store.invoice 1).map
      (fun inv => (inv.releasedAmount, inv.status, inv.totalAmount)) =
        some (200, .partiallyReleased, 500) ∧
    worth (paid genesis releaseThenRetry 1) = 500 := by
  have hinvoice : ((genesis.run exec releaseThenRetry).store.invoice 1).map
      (fun inv => (inv.releasedAmount, inv.status, inv.totalAmount)) =
        some (200, .partiallyReleased, 500) := by
    decide +kernel
  have hworth : worth (paid genesis releaseThenRetry 1) = 500 := by decide +kernel
  refine ⟨genesis_blank, ⟨fun _ _ => rfl, fun _ _ => trivial, fun _ _ => trivial,
    fun _ _ => trivial, fun _ _ => trivial, trivial⟩, ?_, hinvoice, hworth⟩
  intro h
  obtain ⟨inv, hinv, hamounts⟩ := Option.map_eq_some_iff.mp hinvoice
  have hreleased := (h 1 inv hinv).released
  simp only [Prod.mk.injEq] at hamounts
  rw [hworth, hamounts.1] at hreleased
  cases hreleased

end BcForge.Split
