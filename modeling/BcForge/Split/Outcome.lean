import BcForge.Split.Records

/-! Whether a release goes on past a share that the token rejects, and the status it leaves. -/
namespace BcForge.Split

open Soroban Call Admin

variable {w : World Store} {l : Label Op} {ls : List (Label Op)} {s s' : Store} {env : Env}
  {id : ℕ} {token here a : Address} {funds : ℤ} {tries : Address → ℕ} {r : Recipient}
  {rs : List Recipient} {p p' : Progress} {c : TokenContract} {refuses : Recipient → Bool}

section Rejections

/-- What a token thinks of the shares paid from `here`. -/
def rejects (c : TokenContract) (here : Address) (r : Recipient) : Bool :=
  c.refuses here r.dst r.amount

/-- A share within the funds is paid when the token accepts it. -/
theorem transfer_isSome_iff (hc : s.tokens.contract token = some c) (hpos : 0 < r.amount)
    (hfunds : r.amount ≤ c.ledger.balance here) :
    (∃ n, s.tokens.transfer ⟨token, here, r.dst, r.amount⟩ = some n) ↔
      rejects c here r = false := by
  have hledger : (c.ledger.transfer here r.dst r.amount).isSome :=
    Token.transfer_isSome.mpr ⟨hpos.le, hfunds⟩
  obtain ⟨t, ht⟩ := Option.isSome_iff_exists.mp hledger
  unfold rejects
  cases hr : c.refuses here r.dst r.amount <;>
    simp [Tokens.transfer, TokenContract.transfer, hc, hr, ht]

/-- A token keeps its mind during a release. -/
theorem contract_transfer {n : Tokens} (hc : s.tokens.contract token = some c)
    (hn : s.tokens.transfer ⟨token, here, r.dst, r.amount⟩ = some n) :
    ∃ t, n.contract token = some { c with ledger := t } := by
  obtain ⟨c', t, hc', -, -, rfl⟩ := Tokens.transfer_eq_some hn
  simp only at hc'
  rw [hc] at hc'
  cases hc'
  exact ⟨t, by simp⟩

/-- The loop comes to its end exactly if the token rejects none of the shares it is handed. -/
theorem payRecipients_returns_iff (hc : s.tokens.contract token = some c)
    (hpos : ∀ r ∈ rs, 0 < r.amount) (htotal : 0 ≤ p.totalToRelease)
    (hsum : p.totalToRelease + (rs.map (·.amount)).sum ≤ I128.MAX)
    (hcount : p.failedCount + rs.length < 2 ^ 32) :
    (∃ p' s', Runs (payRecipients id token here rs p) env s p' s') ↔
      ∀ r ∈ withFate .paid (faring id token here s rs), rejects c here r = false := by
  induction rs generalizing s p c with
  | nil =>
    simp [payRecipients, faring, fates, withFate]
  | cons r rest ih =>
    have hr : 0 < r.amount := hpos r List.mem_cons_self
    have hrest : ∀ r ∈ rest, 0 < r.amount := fun q hq => hpos q (List.mem_cons_of_mem r hq)
    have hnonneg : 0 ≤ (rest.map (·.amount)).sum := by
      apply List.sum_nonneg
      intro x hx
      obtain ⟨q, hq, rfl⟩ := List.mem_map.mp hx
      exact (hrest q hq).le
    rw [List.map_cons, List.sum_cons] at hsum
    rw [List.length_cons] at hcount
    have hbalance : s.tokens.balance token here = some (c.ledger.balance here) := by
      simp [Tokens.balance, hc]
    have hsum' : p.totalToRelease + (rest.map (·.amount)).sum ≤ I128.MAX := by omega
    have hcount' : p.failedCount + 1 + rest.length < 2 ^ 32 := by omega
    by_cases hdone : 3 ≤ tried (s.failedPayout id) r.dst
    · simp only [runs_payRecipients_skip hdone, faring_skip hdone, withFate_cons]
      exact ih hc hrest htotal hsum' (by omega)
    by_cases hlow : c.ledger.balance here < r.amount ∨ r.amount ≤ 0
    · have hroom : p.failedCount + 1 < 2 ^ 32 := by omega
      simp only [runs_payRecipients_fail hdone hbalance hlow, faring_fail hdone hbalance hlow,
        withFate_cons, hroom, true_and]
      exact ih hc hrest htotal hsum' hcount'
    · have hfunds : r.amount ≤ c.ledger.balance here := by omega
      have haccept := transfer_isSome_iff hc hr hfunds
      have htotal' : 0 ≤ p.totalToRelease + r.amount := by omega
      have hsum'' : p.totalToRelease + r.amount + (rest.map (·.amount)).sum ≤ I128.MAX := by omega
      have hlater : ∀ n, s.tokens.transfer ⟨token, here, r.dst, r.amount⟩ = some n →
          ((∃ p' s', Runs (payRecipients id token here rest
            { p with totalToRelease := p.totalToRelease + r.amount, invoiceUpdated := true }) env
            { s with tokens := n } p' s') ↔
          ∀ q ∈ withFate .paid (faring id token here { s with tokens := n } rest),
            rejects c here q = false) := by
        intro n hn
        obtain ⟨t, ht⟩ := contract_transfer hc hn
        exact ih (c := { c with ledger := t }) (s := { s with tokens := n }) (p := { p with
          totalToRelease := p.totalToRelease + r.amount, invoiceUpdated := true }) ht hrest htotal'
          hsum'' (by dsimp only; omega)
      simp only [runs_payRecipients_pay hdone hbalance hlow]
      constructor
      · rintro ⟨p', s', n, hn, -, hrun⟩
        rw [faring_pay hdone hbalance hlow hn, withFate_cons, if_pos rfl]
        exact List.forall_mem_cons.mpr ⟨haccept.mp ⟨n, hn⟩, (hlater n hn).mp ⟨p', s', hrun⟩⟩
      · intro hall
        have hmem : r ∈ withFate .paid (faring id token here s (r :: rest)) := by
          simp [faring, fates, hdone, hbalance, hlow, withFate_cons]
        obtain ⟨n, hn⟩ := haccept.mpr (hall r hmem)
        rw [faring_pay hdone hbalance hlow hn, withFate_cons, if_pos rfl] at hall
        have hrange : I128.InRange (p.totalToRelease + r.amount) :=
          I128.inRange_of_le htotal' (by omega) ⟨by decide, le_refl I128.MAX⟩
        obtain ⟨p', s', hrun⟩ := (hlater n hn).mpr
          fun q hq => hall q (List.mem_cons_of_mem r hq)
        exact ⟨p', s', n, hn, hrange, hrun⟩

end Rejections

section Isolation

/-- How the shares should fare: one that the token rejects, or that the funds left do not cover,
fails alone, and every other one is paid. -/
def isolatedFates (refuses : Recipient → Bool) (here : Address) :
    ℤ → List Recipient → List (Recipient × Fate)
  | _, [] => []
  | funds, r :: rest =>
    if refuses r = true ∨ funds < r.amount then
      (r, .failed) :: isolatedFates refuses here funds rest
    else
      (r, .paid) ::
        isolatedFates refuses here (if r.dst = here then funds else funds - r.amount) rest

/-- Every share finds its account's record fit for another try, and those that the funds left cover
find a token that accepts them. -/
def Unhindered (refuses : Recipient → Bool) (here : Address) :
    ℤ → (Address → ℕ) → List Recipient → Prop
  | _, _, [] => True
  | funds, tries, r :: rest => tries r.dst < 3 ∧
    if r.amount ≤ funds then
      refuses r = false ∧
        Unhindered refuses here (if r.dst = here then funds else funds - r.amount) tries rest
    else Unhindered refuses here funds (Function.update tries r.dst (tries r.dst + 1)) rest

/-- The shares that the funds left do not cover. -/
def beyond (here : Address) : ℤ → List Recipient → List Recipient
  | _, [] => []
  | funds, r :: rest =>
    if r.amount ≤ funds then beyond here (if r.dst = here then funds else funds - r.amount) rest
    else r :: beyond here funds rest

/-- Where nothing hinders it the loop does with each share what it should. -/
theorem fates_of_unhindered (hpos : ∀ r ∈ rs, 0 < r.amount)
    (h : Unhindered refuses here funds tries rs) :
    fates here funds tries rs = isolatedFates refuses here funds rs ∧
      (∀ r ∈ withFate .paid (fates here funds tries rs), refuses r = false) ∧
      withFate .failed (fates here funds tries rs) = beyond here funds rs := by
  induction rs generalizing funds tries with
  | nil => exact ⟨rfl, by simp [fates, withFate], rfl⟩
  | cons r rest ih =>
    have hr : 0 < r.amount := hpos r List.mem_cons_self
    have hrest : ∀ r ∈ rest, 0 < r.amount := fun q hq => hpos q (List.mem_cons_of_mem r hq)
    obtain ⟨hlive, h⟩ := h
    have hdone : ¬ 3 ≤ tries r.dst := by omega
    by_cases hfunds : r.amount ≤ funds
    · rw [if_pos hfunds] at h
      obtain ⟨haccept, hlater⟩ := h
      obtain ⟨hsame, haccepted, hbeyond⟩ := ih hrest hlater
      have hlow : ¬ (funds < r.amount ∨ r.amount ≤ 0) := by omega
      have hfails : ¬ (refuses r = true ∨ funds < r.amount) := by
        simpa [haccept] using hfunds
      simp only [fates, isolatedFates, beyond, if_neg hdone, if_neg hlow, if_neg hfails,
        if_pos hfunds, hsame, withFate_cons, reduceCtorEq, if_false, if_true]
      rw [hsame] at haccepted hbeyond
      exact ⟨trivial, List.forall_mem_cons.mpr ⟨haccept, haccepted⟩, hbeyond⟩
    · rw [if_neg hfunds] at h
      obtain ⟨hsame, haccepted, hbeyond⟩ := ih hrest h
      have hlow : funds < r.amount ∨ r.amount ≤ 0 := by omega
      have hfails : refuses r = true ∨ funds < r.amount := by omega
      simp only [fates, isolatedFates, beyond, if_neg hdone, if_pos hlow, if_pos hfails,
        if_neg hfunds, hsame, withFate_cons, reduceCtorEq, if_false, if_true]
      rw [hsame] at haccepted hbeyond
      exact ⟨trivial, haccepted, by rw [hbeyond]⟩

/-- A loop that skips nothing, with no share rejected on the way, was not hindered. -/
theorem unhindered_of_fates (hpos : ∀ r ∈ rs, 0 < r.amount)
    (hskipped : withFate .skipped (fates here funds tries rs) = [])
    (haccepted : ∀ r ∈ withFate .paid (fates here funds tries rs), refuses r = false) :
    Unhindered refuses here funds tries rs := by
  induction rs generalizing funds tries with
  | nil => trivial
  | cons r rest ih =>
    have hr : 0 < r.amount := hpos r List.mem_cons_self
    have hrest : ∀ r ∈ rest, 0 < r.amount := fun q hq => hpos q (List.mem_cons_of_mem r hq)
    have hdone : ¬ 3 ≤ tries r.dst := by
      intro hdone
      rw [fates, if_pos hdone, withFate_cons, if_pos rfl] at hskipped
      exact List.cons_ne_nil _ _ hskipped
    refine ⟨by omega, ?_⟩
    by_cases hfunds : r.amount ≤ funds
    · have hlow : ¬ (funds < r.amount ∨ r.amount ≤ 0) := by omega
      rw [fates, if_neg hdone, if_neg hlow, withFate_cons] at hskipped haccepted
      obtain ⟨haccept, hlater⟩ := List.forall_mem_cons.mp haccepted
      rw [if_pos hfunds]
      exact ⟨haccept, ih hrest hskipped hlater⟩
    · have hlow : funds < r.amount ∨ r.amount ≤ 0 := by omega
      rw [fates, if_neg hdone, if_pos hlow, withFate_cons] at hskipped haccepted
      rw [if_neg hfunds]
      exact ih hrest hskipped haccepted

theorem isolatedFates_map :
    (isolatedFates refuses here funds rs).map (·.1) = rs ∧
      withFate .skipped (isolatedFates refuses here funds rs) = [] := by
  induction rs generalizing funds with
  | nil => exact ⟨rfl, rfl⟩
  | cons r rest ih =>
    unfold isolatedFates
    split
    · rw [List.map_cons, ih.1, withFate_cons]
      exact ⟨rfl, ih.2⟩
    · rw [List.map_cons, ih.1, withFate_cons]
      exact ⟨rfl, ih.2⟩

/-- If just the right shares are paid, those that should fail fail or are skipped. -/
theorem perm_unpaid (hpaid : withFate .paid (fates here funds tries rs) =
      withFate .paid (isolatedFates refuses here funds rs)) :
    (withFate .failed (isolatedFates refuses here funds rs)).Perm
      (withFate .failed (fates here funds tries rs) ++
        withFate .skipped (fates here funds tries rs)) := by
  obtain ⟨hmap, hnone⟩ : (isolatedFates refuses here funds rs).map (·.1) = rs ∧
      withFate .skipped (isolatedFates refuses here funds rs) = [] := isolatedFates_map
  have hloop := perm_fates (fates here funds tries rs)
  have hright := perm_fates (isolatedFates refuses here funds rs)
  rw [map_fates, hpaid] at hloop
  rw [hmap, hnone, List.append_nil] at hright
  exact (List.perm_append_left_iff _).mp (hright.symm.trans hloop)

/-- The release stores a record of its own for each of the shares: it asks for the share, counts
one more try than the one before it, and stands for no other share. -/
structure RecordsEach (id : ℕ) (failed : List Recipient)
    (records records' : Address → Option FailedPayout) : Prop where
  apart : (failed.map (·.dst)).Nodup
  stored : ∀ r ∈ failed,
    records' r.dst = some ⟨id, r.dst, r.amount, tried records r.dst + 1⟩

theorem filter_of_nodup {failed : List Recipient} (h : (failed.map (·.dst)).Nodup)
    (hr : r ∈ failed) : failed.filter (·.dst = r.dst) = [r] := by
  induction failed with
  | nil => cases hr
  | cons q failed ih =>
    rw [List.map_cons, List.nodup_cons] at h
    obtain ⟨hq, hnodup⟩ := h
    rcases List.mem_cons.mp hr with rfl | hr
    · have hnone : failed.filter (·.dst = r.dst) = [] := by
        rw [List.filter_eq_nil_iff]
        intro x hx hdst
        exact hq (List.mem_map.mpr ⟨x, hx, by simpa using hdst⟩)
      rw [List.filter_cons_of_pos (by simp), hnone]
    · have hne : q.dst ≠ r.dst := by
        intro heq
        exact hq (List.mem_map.mpr ⟨r, hr, heq.symm⟩)
      rw [List.filter_cons_of_neg (by simpa using hne)]
      exact ih hnodup hr

/-- Failed shares of different accounts each leave their record. -/
theorem recordsEach_stored {failed : List Recipient} {records : Address → Option FailedPayout}
    (h : (failed.map (·.dst)).Nodup) :
    RecordsEach id failed records (stored id records failed) where
  apart := h
  stored := fun _ hr => stored_of_one (filter_of_nodup h hr)

/-- A share that is skipped leaves no record of this release. -/
theorem none_skipped {failed skipped isolated : List Recipient}
    {records : Address → Option FailedPayout} (hperm : isolated.Perm (failed ++ skipped))
    (h : RecordsEach id isolated records (stored id records failed)) : skipped = [] := by
  rw [List.eq_nil_iff_forall_not_mem]
  intro r hr
  have hnodup : ((failed ++ skipped).map (·.dst)).Nodup := (hperm.map _).nodup_iff.mp h.apart
  rw [List.map_append] at hnodup
  have hnone : failed.filter (·.dst = r.dst) = [] := by
    rw [List.filter_eq_nil_iff]
    intro q hq hdst
    exact (List.nodup_append.mp hnodup).2.2 _ (List.mem_map_of_mem hq) _ (List.mem_map_of_mem hr)
      (by simpa using hdst)
  have hrecord := h.stored r (hperm.mem_iff.mpr (List.mem_append_right failed hr))
  rw [stored_of_none hnone] at hrecord
  have htried : tried records r.dst = tried records r.dst + 1 := by
    conv_lhs => rw [tried, hrecord]
    rfl
  omega

/-- No invoice asks for more than an amount can be. -/
def AllPriced (s : Store) : Prop := ∀ id inv, s.invoice id = some inv → inv.totalAmount ≤ I128.MAX

theorem recipientAmounts_le {v total : ℤ} (h : Runs (recipientAmounts rs total) env s v s')
    (htotal : total ≤ I128.MAX) : v ≤ I128.MAX := by
  induction rs generalizing total with
  | nil =>
    obtain ⟨rfl, rfl⟩ := runs_pure.mp h
    exact htotal
  | cons r rest ih =>
    simp only [recipientAmounts, runs_failIf_bind, runs_okOr_bind, I128.checkedAdd,
      I128.checked_eq_some] at h
    obtain ⟨-, _, ⟨hrange, rfl⟩, hrest⟩ := h
    exact ih hrest hrange.2

theorem createInvoice_le {x : ℤ} (h : Runs (createInvoice a id x rs token) env s () s') :
    x ≤ I128.MAX := by
  simp only [createInvoice, runs_requireSuperAdmin_bind, runs_failIf_bind] at h
  obtain ⟨-, -, h⟩ := h
  obtain ⟨v, s₁, hamounts, hrest⟩ := runs_bind.mp h
  have hle := recipientAmounts_le hamounts (by decide)
  simp only [runs_failIf_bind, not_not] at hrest
  rwa [← hrest.1]

theorem allPriced_update {inv : Invoice} (h : AllPriced s) (hinv : inv.totalAmount ≤ I128.MAX)
    (hs : s'.invoice = Function.update s.invoice id (some inv)) : AllPriced s' := by
  intro i inv₁ hi
  rw [hs] at hi
  by_cases hne : i = id
  · subst hne
    rw [Function.update_self] at hi
    obtain rfl := Option.some.inj hi
    exact hinv
  · rw [Function.update_of_ne hne] at hi
    exact h i inv₁ hi

theorem allPriced_call {signers : List Address} {uploaded : List BytesN32} {op : Op}
    (hl : AllListed w.store) (h : AllPriced w.store)
    (hr : Runs (exec op) (w.env signers uploaded) w.store () s') : AllPriced s' := by
  cases books_call hl hr with
  | aside _ hs _ =>
    intro i inv hi
    rw [hs] at hi
    exact h i inv hi
  | create id inv hfresh hinv _ hs _ =>
    obtain ⟨c, x, rs, token, rfl⟩ := hfresh
    obtain ⟨-, -, -, access, -, rfl⟩ := runs_createInvoice hr
    have hle : x ≤ I128.MAX := createInvoice_le hr
    exact allPriced_update h hle (rfl : _ = Function.update w.store.invoice id _)
  | release id inv ps _ hinv _ hs _ =>
    refine allPriced_update h ?_ hs
    exact h id inv hinv
  | retry id inv dst c token fp _ hinv _ _ _ hs _ =>
    intro i inv₁ hi
    rw [hs] at hi
    exact h i inv₁ hi

/-- What a release checks before it turns to the shares. -/
structure Admitted (env : Env) (s : Store) (id : ℕ) (adminAddress token : Address)
    (inv : Invoice) : Prop where
  free : s.guard .releasePayment = false
  role : hasRole s.access .superAdmin adminAddress = true
  auth : env.Authorized adminAddress
  token_eq : s.token = some token
  invoice_eq : s.invoice id = some inv
  pending : inv.status = .pending

theorem runs_releasePayment_iff {inv : Invoice} (h : Admitted env s id a token inv) :
    Runs (releasePayment id a) env s () s' ↔ ∃ p s₁,
      Runs (payRecipients id token env.self inv.recipients ⟨0, 0, false⟩) env
        ((guardLens .releasePayment).set true s) p s₁ ∧
      s' = (guardLens .releasePayment).set false (if p.invoiceUpdated = true then
        writeInvoice { inv with
          releasedAmount := p.totalToRelease, status := releasedStatus inv p } s₁ else s₁) := by
  have htoken : ((guardLens .releasePayment).set true s).token = some token := h.token_eq
  have hinv : ((guardLens .releasePayment).set true s).invoice id = some inv := h.invoice_eq
  have hrole : hasRole ((guardLens .releasePayment).set true s).access .superAdmin a = true :=
    h.role
  rw [releasePayment, reentrancyGuard, runs_guarded]
  simp only [releasePaymentInner, readInvoice, runs_requireSuperAdmin_bind, runs_gets_bind,
    runs_okOr_bind, runs_bind_assoc, runs_failIf_bind, runs_self_bind, not_not, htoken, hinv, hrole,
    h.auth, Option.some.injEq]
  constructor
  · rintro ⟨-, t, ⟨-, _, rfl, _, rfl, -, hrun⟩, rfl⟩
    obtain ⟨p, s₁, hpay, hwrite⟩ := runs_bind.mp hrun
    refine ⟨p, s₁, hpay, ?_⟩
    split at hwrite
    · rename_i hup
      rw [runs_modify] at hwrite
      rw [if_pos hup, hwrite]
    · rename_i hup
      rw [if_neg hup, (runs_pure.mp hwrite).2]
  · rintro ⟨p, s₁, hpay, rfl⟩
    refine ⟨h.free, _, ⟨⟨trivial, trivial⟩, token, rfl, inv, rfl, h.pending,
      runs_bind.mpr ⟨p, s₁, hpay, ?_⟩⟩, rfl⟩
    split
    · exact runs_modify.mpr rfl
    · exact runs_pure.mpr ⟨rfl, rfl⟩

/-- What the loop did to tokens and records stands after the release. -/
theorem loop_of_releasePayment {inv : Invoice} (h : Admitted env s id a token inv)
    (hr : Runs (releasePayment id a) env s () s') : ∃ p s₁,
    Runs (payRecipients id token env.self inv.recipients ⟨0, 0, false⟩) env
      ((guardLens .releasePayment).set true s) p s₁ ∧
    s'.tokens = s₁.tokens ∧ s'.failedPayout = s₁.failedPayout := by
  obtain ⟨p, s₁, hpay, rfl⟩ := (runs_releasePayment_iff h).mp hr
  refine ⟨p, s₁, hpay, ?_⟩
  split <;> exact ⟨rfl, rfl⟩

/-- A release goes through, pays just the shares that should be paid, and stores a record for each
of the others. -/
def Isolates (env : Env) (s : Store) (id : ℕ) (adminAddress token : Address) (inv : Invoice)
    (c : TokenContract) : Prop :=
  ∃ s', Runs (releasePayment id adminAddress) env s () s' ∧
    s'.tokens.transfers = s.tokens.transfers ++
      (withFate .paid (isolatedFates (rejects c env.self) env.self (c.ledger.balance env.self)
        inv.recipients)).map (fun r => ⟨token, env.self, r.dst, r.amount⟩) ∧
    RecordsEach id (withFate .failed (isolatedFates (rejects c env.self) env.self
      (c.ledger.balance env.self) inv.recipients)) (s.failedPayout id) (s'.failedPayout id)

/-- A release isolates what fails exactly if nothing hinders it and the shares beyond the funds are
of different accounts. -/
def IsolationLaw (w : World Store) : Prop :=
  ∀ signers uploaded id adminAddress token inv c,
    Admitted (w.env signers uploaded) w.store id adminAddress token inv →
    w.store.tokens.contract token = some c → inv.recipients.length < 2 ^ 32 →
      (Isolates (w.env signers uploaded) w.store id adminAddress token inv c ↔
        Unhindered (rejects c w.self) w.self (c.ledger.balance w.self)
            (tried (w.store.failedPayout id)) inv.recipients ∧
          ((beyond w.self (c.ledger.balance w.self) inv.recipients).map (·.dst)).Nodup)

theorem isolationLaw_of_listed (hl : AllListed w.store) (hp : AllPriced w.store) :
    IsolationLaw w := by
  intro signers uploaded id adminAddress token inv c ha hc hlen
  have hpos := (hl id inv ha.invoice_eq).amount_pos
  have hsum : (inv.recipients.map (·.amount)).sum ≤ I128.MAX := by
    rw [← (hl id inv ha.invoice_eq).total_eq]
    exact hp id inv ha.invoice_eq
  have hfaring : faring id token w.self ((guardLens .releasePayment).set true w.store)
      inv.recipients = fates w.self (c.ledger.balance w.self) (tried (w.store.failedPayout id))
        inv.recipients := by
    simp [faring, guardLens, Tokens.balance, hc]
  have hreturns : (∃ p' s', Runs (payRecipients id token w.self inv.recipients ⟨0, 0, false⟩)
      (w.env signers uploaded) ((guardLens .releasePayment).set true w.store) p' s') ↔ _ :=
    payRecipients_returns_iff hc hpos (le_refl 0) (by simpa using hsum) (by simpa using hlen)
  rw [hfaring] at hreturns
  have heffects : ∀ s',
      Runs (releasePayment id adminAddress) (w.env signers uploaded) w.store () s' →
      s'.tokens.transfers = w.store.tokens.transfers ++ (withFate .paid (fates w.self
        (c.ledger.balance w.self) (tried (w.store.failedPayout id)) inv.recipients)).map
          (fun r => ⟨token, w.self, r.dst, r.amount⟩) ∧
      s'.failedPayout id = stored id (w.store.failedPayout id) (withFate .failed (fates w.self
        (c.ledger.balance w.self) (tried (w.store.failedPayout id)) inv.recipients)) := by
    intro s' hrun
    obtain ⟨p, s₁, hpay, htokens, hrecords⟩ := loop_of_releasePayment ha hrun
    obtain ⟨hpaid, hfared⟩ := runs_payRecipients hpay
    rw [htokens, hrecords, ← hfaring]
    exact ⟨hpaid.transfers, hfared.records⟩
  constructor
  · rintro ⟨s', hrun, htransfers, hrecords⟩
    obtain ⟨p, s₁, hpay, -⟩ := loop_of_releasePayment ha hrun
    obtain ⟨hsent, hstored⟩ := heffects s' hrun
    rw [hsent] at htransfers
    have hinj : Function.Injective fun r : Recipient =>
        Transfer.mk token w.self r.dst r.amount := by
      rintro ⟨_, _⟩ ⟨_, _⟩ heq
      simpa using heq
    have hpaid := List.map_injective_iff.mpr hinj (List.append_cancel_left htransfers)
    rw [hstored] at hrecords
    have hskipped := none_skipped (perm_unpaid hpaid) hrecords
    have hunhindered := unhindered_of_fates hpos hskipped (hreturns.mp ⟨p, s₁, hpay⟩)
    obtain ⟨hsame, -, hbeyond⟩ := fates_of_unhindered hpos hunhindered
    have hapart := hrecords.apart
    rw [World.env_self, ← hsame, hbeyond] at hapart
    exact ⟨hunhindered, hapart⟩
  · rintro ⟨hunhindered, hapart⟩
    obtain ⟨hsame, haccepted, hbeyond⟩ := fates_of_unhindered hpos hunhindered
    obtain ⟨p, s₁, hpay⟩ := hreturns.mpr haccepted
    have hrun := (runs_releasePayment_iff ha).mpr ⟨p, s₁, hpay, rfl⟩
    obtain ⟨htransfers, hrecords⟩ := heffects _ hrun
    rw [hsame] at htransfers
    refine ⟨_, hrun, htransfers, ?_⟩
    rw [hrecords, World.env_self, ← hsame, hbeyond]
    exact recordsEach_stored hapart

/-- In every state of every run. -/
theorem release_isolates_iff (hw : Blank w) (ls : List (Label Op)) :
    w.EveryState exec IsolationLaw ls := by
  have hpriced : AllPriced w.store := by
    intro id inv hinv
    rw [hw.invoice] at hinv
    cases hinv
  have hinvariant : w.EveryState exec (fun w => AllListed w.store ∧ AllPriced w.store) ls := by
    refine World.everyState_of_invariant ⟨allListed_blank hw, hpriced⟩ fun w l h => ?_
    rcases step_cases w l with ⟨hs, -, -⟩ | ⟨signers, uploaded, op, rfl, hr⟩
    · rwa [hs]
    · exact ⟨allListed_next h.1, allPriced_call h.1 h.2 hr⟩
  exact World.everyState_mono (fun w h => isolationLaw_of_listed h.1 h.2) hinvariant

theorem releaseThenRetry_isolates : genesis.EveryState exec IsolationLaw releaseThenRetry ∧
    (exec (.releasePayment 1 ⟨1⟩) ((genesis.run exec (releaseThenRetry.take 2)).env [⟨1⟩] [])
      (genesis.run exec (releaseThenRetry.take 2)).store).isOk = true :=
  ⟨release_isolates_iff genesis_blank releaseThenRetry, by decide +kernel⟩

/-- Two shares, the funds for both, and a token that rejects payments to account 2. -/
def oneRejected : List (Label Op) :=
  [.call [⟨1⟩] [] (.createInvoice ⟨1⟩ 1 200 [⟨⟨2⟩, 100⟩, ⟨⟨3⟩, 100⟩] ⟨50⟩),
   .call [] [] (.tokenMint ⟨50⟩ ⟨400⟩ 200),
   .call [] [] (.tokenSetRefusals ⟨50⟩ fun _ dst _ => decide (dst = ⟨2⟩))]

/-- The rejection takes the share of account 3 down with it, and nothing is recorded. -/
theorem oneRejected_not_isolated : Blank genesis ∧ ∃ inv c,
    Admitted ((genesis.run exec oneRejected).env [⟨1⟩] []) (genesis.run exec oneRejected).store
      1 ⟨1⟩ ⟨50⟩ inv ∧
    (genesis.run exec oneRejected).store.tokens.contract ⟨50⟩ = some c ∧
    ¬ Isolates ((genesis.run exec oneRejected).env [⟨1⟩] []) (genesis.run exec oneRejected).store
      1 ⟨1⟩ ⟨50⟩ inv c := by
  have hinvoice : ((genesis.run exec oneRejected).store.invoice 1).map (·.status) =
      some .pending := by
    decide +kernel
  have hcontract : ((genesis.run exec oneRejected).store.tokens.contract ⟨50⟩).isSome = true := by
    decide +kernel
  have hfails : (exec (.releasePayment 1 ⟨1⟩) ((genesis.run exec oneRejected).env [⟨1⟩] [])
      (genesis.run exec oneRejected).store).isOk = false := by
    decide +kernel
  obtain ⟨inv, hinv, hpending⟩ := Option.map_eq_some_iff.mp hinvoice
  obtain ⟨c, hc⟩ := Option.isSome_iff_exists.mp hcontract
  refine ⟨genesis_blank, inv, c, ⟨by decide +kernel, by decide +kernel, by decide +kernel,
    by decide +kernel, hinv, hpending⟩, hc, ?_⟩
  rintro ⟨s', hrun, -⟩
  exact absurd ((isOk_of_runs hrun).symm.trans hfails) (by decide)

end Isolation

section Status

/-- The status that the payments of a release call for. -/
def outcome (inv : Invoice) (ps : List Recipient) : InvoiceStatus :=
  if ps = inv.recipients then .fullyReleased
  else if ps = [] then .failed
  else .partiallyReleased

/-- Some share is within the funds and still gets its turn if all before it fail. -/
def WithinReach (funds : ℤ) (tries : Address → ℕ) (rs : List Recipient) : Prop :=
  ∃ pre r post, rs = pre ++ r :: post ∧ tries r.dst + pre.countP (·.dst = r.dst) < 3 ∧
    r.amount ≤ funds

theorem withinReach_cons : WithinReach funds tries (r :: rs) ↔
    tries r.dst < 3 ∧ r.amount ≤ funds ∨
      WithinReach funds (Function.update tries r.dst (tries r.dst + 1)) rs := by
  have hcount : ∀ (q : Recipient) (pre : List Recipient),
      tries q.dst + (r :: pre).countP (·.dst = q.dst) =
        Function.update tries r.dst (tries r.dst + 1) q.dst + pre.countP (·.dst = q.dst) := by
    intro q pre
    rw [List.countP_cons]
    by_cases hq : q.dst = r.dst
    · rw [hq, Function.update_self]
      simp only [decide_true, if_true]
      omega
    · have hr : r.dst ≠ q.dst := fun h => hq h.symm
      simp [Function.update_of_ne hq, hr]
  constructor
  · rintro ⟨pre, q, post, heq, htries, hle⟩
    cases pre with
    | nil =>
      obtain ⟨rfl, rfl⟩ := List.cons.inj heq
      exact Or.inl ⟨by simpa using htries, hle⟩
    | cons r' pre =>
      obtain ⟨rfl, rfl⟩ := List.cons.inj heq
      rw [hcount] at htries
      exact Or.inr ⟨pre, q, post, rfl, htries, hle⟩
  · rintro (⟨htries, hle⟩ | ⟨pre, q, post, rfl, htries, hle⟩)
    · exact ⟨[], r, rs, rfl, by simpa using htries, hle⟩
    · rw [← hcount] at htries
      exact ⟨r :: pre, q, post, rfl, htries, hle⟩

/-- A record that is used up stays so. -/
theorem withinReach_update (h : 3 ≤ tries a) :
    WithinReach funds (Function.update tries a (tries a + 1)) rs ↔ WithinReach funds tries rs := by
  refine exists_congr fun pre => exists_congr fun r => exists_congr fun post =>
    and_congr_right fun _ => and_congr_left fun _ => ?_
  by_cases ha : r.dst = a
  · rw [ha, Function.update_self]
    omega
  · rw [Function.update_of_ne ha]

/-- A share is paid just if there is one to pay. -/
theorem paid_ne_nil_iff (hpos : ∀ r ∈ rs, 0 < r.amount) :
    withFate .paid (fates here funds tries rs) ≠ [] ↔ WithinReach funds tries rs := by
  induction rs generalizing tries with
  | nil => simp [fates, withFate, WithinReach]
  | cons r rest ih =>
    have hr : 0 < r.amount := hpos r List.mem_cons_self
    have hrest : ∀ r ∈ rest, 0 < r.amount := fun q hq => hpos q (List.mem_cons_of_mem r hq)
    rw [withinReach_cons]
    unfold fates
    split
    · rename_i hdone
      have hlate : ¬ (tries r.dst < 3 ∧ r.amount ≤ funds) := by omega
      rw [withFate_cons, if_neg (by decide), ih hrest, withinReach_update hdone, or_iff_right hlate]
    · split
      · have hlow : ¬ (tries r.dst < 3 ∧ r.amount ≤ funds) := by omega
        rw [withFate_cons, if_neg (by decide), ih hrest, or_iff_right hlow]
      · have hnow : tries r.dst < 3 ∧ r.amount ≤ funds := by omega
        rw [withFate_cons, if_pos rfl]
        exact iff_of_true (List.cons_ne_nil _ _) (Or.inl hnow)

/-- A release that goes through leaves the status that its payments call for exactly if there was a
share to pay. -/
def StatusLaw (w : World Store) : Label Op → Prop
  | .call signers uploaded (.releasePayment id c) =>
    ∀ s', Runs (releasePayment id c) (w.env signers uploaded) w.store () s' →
      ∃ token inv inv', w.store.token = some token ∧ w.store.invoice id = some inv ∧
        inv.status = .pending ∧ s'.invoice id = some inv' ∧
        (inv'.status = outcome inv (paidNow w (.call signers uploaded (.releasePayment id c))) ↔
          WithinReach ((w.store.tokens.balance token w.self).getD 0)
            (tried (w.store.failedPayout id)) inv.recipients)
  | _ => True

/-- Leaving out a share leaves less than all of them. -/
theorem eq_of_sum_eq {ps : List Recipient} (hsub : ps.Sublist rs) (hpos : ∀ r ∈ rs, 0 < r.amount) :
    (ps.map (·.amount)).sum ≤ (rs.map (·.amount)).sum ∧
      ((ps.map (·.amount)).sum = (rs.map (·.amount)).sum → ps = rs) := by
  induction hsub with
  | slnil => exact ⟨le_refl _, fun _ => rfl⟩
  | cons r hsub ih =>
    have hr := hpos r List.mem_cons_self
    have hle := (ih fun q hq => hpos q (List.mem_cons_of_mem r hq)).1
    rw [List.map_cons, List.sum_cons]
    refine ⟨by omega, fun heq => ?_⟩
    omega
  | cons_cons r hsub ih =>
    obtain ⟨hle, hsame⟩ := ih fun q hq => hpos q (List.mem_cons_of_mem r hq)
    simp only [List.map_cons, List.sum_cons]
    refine ⟨by omega, fun heq => ?_⟩
    rw [hsame (by omega)]

/-- The shares paid come to the total just if they are all of them. -/
theorem statusFor_eq_outcome {inv : Invoice} {ps : List Recipient} (h : Listed id inv)
    (hsub : ps.Sublist inv.recipients) (hne : ps ≠ []) :
    statusFor inv (ps.map (·.amount)).sum = outcome inv ps := by
  have htotal : (ps.map (·.amount)).sum = inv.totalAmount ↔ ps = inv.recipients := by
    rw [h.total_eq]
    constructor
    · exact (eq_of_sum_eq hsub h.amount_pos).2
    · rintro rfl
      rfl
  simp only [statusFor, outcome, htotal, if_neg hne]

theorem outcome_nil {inv : Invoice} (h : Listed id inv) : outcome inv [] = .failed := by
  have hne : [] ≠ inv.recipients := by
    intro hnil
    have htotal := h.total_eq
    have hpos := h.total_pos
    rw [← hnil] at htotal
    simp only [List.map_nil, List.sum_nil] at htotal
    omega
  rw [outcome, if_neg hne, if_pos rfl]

theorem withFate_sublist (f : Fate) (fs : List (Recipient × Fate)) :
    (withFate f fs).Sublist (fs.map (·.1)) :=
  List.filter_sublist.map _

theorem statusLaw_step (h : AllListed w.store) : StatusLaw w l := by
  cases l with
  | close l => trivial
  | call signers uploaded op =>
    cases op with
    | releasePayment id c =>
      intro s' hr
      obtain ⟨token, inv, ps, htoken, hinv, hpending, hps, ht, -, hcase⟩ :=
        invoice_releasePayment h hr
      have hl := h id inv hinv
      have hnow := paidNow_releasePayment hr ht
      have hsub := withFate_sublist .paid (faring id token w.self w.store inv.recipients)
      have hreach : withFate .paid (faring id token w.self w.store inv.recipients) ≠ [] ↔ _ :=
        paid_ne_nil_iff hl.amount_pos
      replace hps : ps = withFate .paid (faring id token w.self w.store inv.recipients) := hps
      rw [map_faring, ← hps] at hsub
      rw [← hps] at hreach
      rw [hnow]
      rcases hcase with ⟨hnil, hs⟩ | ⟨hne, hs⟩
      · refine ⟨token, inv, inv, htoken, hinv, hpending, by rw [hs, hinv], ?_⟩
        rw [← hreach, hnil, outcome_nil hl, hpending]
        exact iff_of_false (by decide) (by simp)
      · refine ⟨token, inv, _, htoken, hinv, hpending, by rw [hs, Function.update_self], ?_⟩
        rw [← hreach]
        exact iff_of_true (statusFor_eq_outcome hl hsub hne) hne
    | _ => trivial

/-- In every run, whatever was created, released and retried before. -/
theorem status_matches_iff (hw : Blank w) (ls : List (Label Op)) :
    w.EveryStep exec StatusLaw ls :=
  World.everyStep_of_invariant (I := fun w => AllListed w.store) (allListed_blank hw)
    (fun _ _ => allListed_next) fun _ _ => statusLaw_step

theorem releaseThenRetry_status : genesis.EveryStep exec StatusLaw releaseThenRetry ∧
    (exec (.releasePayment 1 ⟨1⟩) ((genesis.run exec (releaseThenRetry.take 2)).env [⟨1⟩] [])
      (genesis.run exec (releaseThenRetry.take 2)).store).isOk = true :=
  ⟨status_matches_iff genesis_blank releaseThenRetry, by decide +kernel⟩

/-- Of the two shares the release pays none, for want of funds, and the invoice stays pending. -/
theorem twoShares_pending : Blank genesis ∧ ∃ s' inv inv',
    Runs (exec (.releasePayment 1 ⟨1⟩)) (twoShares.env [⟨1⟩] []) twoShares.store () s' ∧
      twoShares.store.invoice 1 = some inv ∧ inv.status = .pending ∧ s'.invoice 1 = some inv' ∧
      inv'.status ≠ outcome inv (paidNow twoShares (.call [⟨1⟩] [] (.releasePayment 1 ⟨1⟩))) := by
  have hr : Runs (exec (.releasePayment 1 ⟨1⟩)) (twoShares.env [⟨1⟩] []) twoShares.store ()
      (invoke (exec (.releasePayment 1 ⟨1⟩)) (twoShares.env [⟨1⟩] []) twoShares.store) :=
    runs_invoke (by decide +kernel)
  have hlaw : StatusLaw twoShares (.call [⟨1⟩] [] (.releasePayment 1 ⟨1⟩)) :=
    statusLaw_step (allListed_next (allListed_blank genesis_blank))
  obtain ⟨token, inv, inv', htoken, hinv, hpending, hinv', hiff⟩ := hlaw _ hr
  refine ⟨genesis_blank, _, inv, inv', hr, hinv, hpending, hinv', ?_⟩
  have hrecipients : (twoShares.store.invoice 1).map (·.recipients) =
      some [⟨⟨2⟩, 100⟩, ⟨⟨2⟩, 100⟩] := by
    decide +kernel
  have hbalance : twoShares.store.tokens.balance ⟨50⟩ ⟨400⟩ = some 0 := by decide +kernel
  have hstored : twoShares.store.token = some ⟨50⟩ := by decide +kernel
  obtain rfl : token = ⟨50⟩ := Option.some.inj (htoken.symm.trans hstored)
  rw [hinv, Option.map_some, Option.some.injEq] at hrecipients
  change twoShares.store.tokens.balance ⟨50⟩ twoShares.self = some 0 at hbalance
  rw [Ne, hiff, hbalance, hrecipients]
  rintro ⟨pre, r, post, heq, -, hle⟩
  have hmem : r ∈ [Recipient.mk ⟨2⟩ 100, ⟨⟨2⟩, 100⟩] := by simp [heq]
  obtain rfl : r = ⟨⟨2⟩, 100⟩ := by simpa using hmem
  exact absurd hle (by decide)

end Status

end BcForge.Split
