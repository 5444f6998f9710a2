import BcForge.Wrapper.Contract

/-! The vault's books: who holds shares, who is owed a queued withdrawal, who holds the underlying
token. Every call is one of a few entries in them. -/
namespace BcForge.Wrapper

open Soroban

structure Book where
  shares : Address → ℤ
  supply : ℤ
  queue : Address → Option QueuedWithdrawal
  assets : Address → ℤ

def Store.book (s : Store) : Book :=
  ⟨s.balance, s.supply, s.queuedWithdrawal, s.underlying.balance⟩

namespace Book

/-- `x` of the underlying token from one account to another. -/
def pay (src dst : Address) (x : ℤ) (f : Address → ℤ) : Address → ℤ :=
  Function.update (Function.update f src (f src - x)) dst (f dst + x)

def mint (u : Address) (n : ℤ) (b : Book) : Book :=
  { b with shares := Function.update b.shares u (b.shares u + n), supply := b.supply + n }

def burn (u : Address) (n : ℤ) (b : Book) : Book :=
  { b with shares := Function.update b.shares u (b.shares u - n), supply := b.supply - n }

/-- One entry in the books of `vault`. The index is the amount an exit takes out of what the
vault holds free of the queue, zero for every other entry. -/
inductive Step (vault : Address) (b : Book) : ℤ → Book → Prop
  | keep : Step vault b 0 b
  | fund (assets : Address → ℤ) (hv : b.assets vault ≤ assets vault) :
      Step vault b 0 { b with assets := assets }
  | enter (u : Address) (x n : ℤ) (hu : u ≠ vault) (hx : 0 < x) (hn : 0 < n) :
      Step vault b 0 { b.mint u n with assets := pay u vault x b.assets }
  | leave (u : Address) (n x : ℤ) (hu : u ≠ vault) (hn : 0 < n) (hs : n ≤ b.shares u)
      (hx : 0 < x) (hv : x ≤ b.assets vault) :
      Step vault b x { b.burn u n with assets := pay vault u x b.assets }
  | enqueue (u : Address) (n x : ℤ) (release : ℕ) (hu : u ≠ vault) (hq : b.queue u = none)
      (hn : 0 < n) (hs : n ≤ b.shares u) (hx : 0 < x) :
      Step vault b x { b.burn u n with queue := Function.update b.queue u (some ⟨n, x, release⟩) }
  | claim (u : Address) (q : QueuedWithdrawal) (hu : u ≠ vault) (hq : b.queue u = some q)
      (hv : q.amount ≤ b.assets vault) :
      Step vault b 0 { b with
        queue := Function.update b.queue u none
        assets := pay vault u q.amount b.assets }
  | move (src dst : Address) (n : ℤ) (hn : 0 < n) (hs : n ≤ b.shares src) (hd : src ≠ dst) :
      Step vault b 0 { b with shares := pay src dst n b.shares }
  | destroy (u : Address) (n : ℤ) (hn : 0 < n) (hs : n ≤ b.shares u) :
      Step vault b 0 (b.burn u n)

variable {vault u src dst : Address} {x n q : ℤ} {b b' : Book} {f : Address → ℤ}

theorem pay_dst : pay src dst x f dst = f dst + x := by
  simp [pay]

theorem pay_src (h : src ≠ dst) : pay src dst x f src = f src - x := by
  simp [pay, Function.update_of_ne h]

theorem pay_nonneg (hf : ∀ a, 0 ≤ f a) (hx : 0 ≤ x) (hs : x ≤ f src) (a : Address) :
    0 ≤ pay src dst x f a := by
  unfold pay
  by_cases hd : a = dst
  · subst hd
    have := hf a
    simp only [Function.update_self]
    omega
  · by_cases hs' : a = src
    · subst hs'
      simp only [Function.update_of_ne hd, Function.update_self]
      omega
    · simpa [Function.update_of_ne hd, Function.update_of_ne hs'] using hf a

/-- What a user is owed by the queue. -/
def owed (b : Book) (u : Address) : ℤ := (b.queue u).elim 0 (·.amount)

theorem owed_update (v : Option QueuedWithdrawal) :
    owed { b with queue := Function.update b.queue u v } =
      Function.update b.owed u (v.elim 0 (·.amount)) := by
  funext a
  by_cases h : a = u
  · subst h
    simp [owed]
  · simp [owed, Function.update_of_ne h]

/-- Shares are conserved, and the queue owes positive amounts to finitely many users. -/
structure Balanced (b : Book) : Prop where
  shares_nonneg : ∀ a, 0 ≤ b.shares a
  shares_total : HasTotal b.shares b.supply
  queue_pos : ∀ u q, b.queue u = some q → 0 < q.amount
  queue_total : ∃ q, HasTotal b.owed q

theorem Balanced.supply_nonneg (h : Balanced b) : 0 ≤ b.supply :=
  h.shares_total.nonneg h.shares_nonneg

theorem Balanced.owed_nonneg (h : Balanced b) (a : Address) : 0 ≤ b.owed a := by
  unfold owed
  cases hq : b.queue a with
  | none => exact le_rfl
  | some q => exact (h.queue_pos a q hq).le

theorem balanced_mint (h : Balanced b) (hn : 0 < n) (u : Address) : Balanced (b.mint u n) where
  shares_nonneg a := by
    by_cases ha : a = u
    · subst ha
      have := h.shares_nonneg a
      simp only [mint, Function.update_self]
      omega
    · simpa [mint, Function.update_of_ne ha] using h.shares_nonneg a
  shares_total := by simpa [mint] using h.shares_total.update u (b.shares u + n)
  queue_pos := h.queue_pos
  queue_total := h.queue_total

theorem balanced_burn (h : Balanced b) (hs : n ≤ b.shares u) : Balanced (b.burn u n) where
  shares_nonneg a := by
    by_cases ha : a = u
    · subst ha
      simp only [burn, Function.update_self]
      omega
    · simpa [burn, Function.update_of_ne ha] using h.shares_nonneg a
  shares_total := by simpa [burn, sub_eq_add_neg] using h.shares_total.update u (b.shares u - n)
  queue_pos := h.queue_pos
  queue_total := h.queue_total

theorem balanced_assets (h : Balanced b) (assets : Address → ℤ) :
    Balanced { b with assets := assets } :=
  ⟨h.shares_nonneg, h.shares_total, h.queue_pos, h.queue_total⟩

theorem balanced_queue (h : Balanced b) (u : Address) {v : Option QueuedWithdrawal}
    (hv : ∀ q, v = some q → 0 < q.amount) :
    Balanced { b with queue := Function.update b.queue u v } where
  shares_nonneg := h.shares_nonneg
  shares_total := h.shares_total
  queue_pos a q hq := by
    by_cases ha : a = u
    · subst ha
      simp only [Function.update_self] at hq
      exact hv q hq
    · simp only [Function.update_of_ne ha] at hq
      exact h.queue_pos a q hq
  queue_total := by
    obtain ⟨q, hq⟩ := h.queue_total
    rw [owed_update]
    exact ⟨_, hq.update u _⟩

theorem step_balanced (h : Balanced b) (hs : Step vault b x b') : Balanced b' := by
  cases hs with
  | keep => exact h
  | fund assets hv => exact balanced_assets h assets
  | enter u x n hu hx hn => exact balanced_assets (balanced_mint h hn u) _
  | leave u n x hu hn hs hx hv => exact balanced_assets (balanced_burn h hs) _
  | enqueue u n x release hu hq hn hs hx =>
    refine balanced_queue (balanced_burn h hs) u ?_
    rintro q ⟨⟩
    exact hx
  | claim u q hu hq hv =>
    refine balanced_assets (balanced_queue h u ?_) _
    rintro q ⟨⟩
  | move src dst n hn hs hd =>
    exact ⟨pay_nonneg h.shares_nonneg hn.le hs, h.shares_total.move hd n, h.queue_pos,
      h.queue_total⟩
  | destroy u n hn hs => exact balanced_burn h hs

theorem step_queue_self (hs : Step vault b x b')
    (h : b.queue vault = none) : b'.queue vault = none := by
  cases hs with
  | enqueue u n x release hu hq hn hs hx =>
    change Function.update b.queue u _ vault = none
    rw [Function.update_of_ne hu.symm, h]
  | claim u q hu hq hv =>
    change Function.update b.queue u _ vault = none
    rw [Function.update_of_ne hu.symm, h]
  | _ => exact h

/-- The vault can pay everything it has queued. -/
def Solvent (vault : Address) (b : Book) : Prop :=
  ∃ q, HasTotal b.owed q ∧ q ≤ b.assets vault

theorem solvent_iff (hq : HasTotal b.owed q) : Solvent vault b ↔ q ≤ b.assets vault := by
  constructor
  · rintro ⟨r, hr, hle⟩
    rwa [hr.unique hq]
  · intro h
    exact ⟨q, hq, h⟩

/-- A solvent vault holds every single amount it has queued. -/
theorem Solvent.holds {q : QueuedWithdrawal} (h : Solvent vault b) (hb : Balanced b)
    (hq : b.queue u = some q) : 0 ≤ q.amount ∧ q.amount ≤ b.assets vault := by
  obtain ⟨total, htotal, hle⟩ := h
  have howed : b.owed u = q.amount := by simp [owed, hq]
  have hpart := htotal.le hb.owed_nonneg u
  rw [howed] at hpart
  exact ⟨(hb.queue_pos u q hq).le, hpart.trans hle⟩

/-- A step keeps the vault solvent exactly when its exit, if any, leaves the queue covered. -/
theorem solvent_step_iff (hq : HasTotal b.owed q) (hsol : Solvent vault b)
    (hs : Step vault b x b') : Solvent vault b' ↔ x ≤ b.assets vault - q := by
  have hle := (solvent_iff hq).mp hsol
  cases hs with
  | keep =>
    rw [solvent_iff hq]
    constructor <;> intro <;> omega
  | fund assets hv =>
    have hq' : HasTotal (owed { b with assets := assets }) q := hq
    rw [solvent_iff hq']
    dsimp only
    constructor <;> intro <;> omega
  | enter u x n hu hx hn =>
    have hq' : HasTotal (owed { b.mint u n with assets := pay u vault x b.assets }) q := hq
    rw [solvent_iff hq']
    dsimp only
    rw [pay_dst]
    constructor <;> intro <;> omega
  | leave u n x hu hn hs hx hv =>
    have hq' : HasTotal (owed { b.burn u n with assets := pay vault u x b.assets }) q := hq
    rw [solvent_iff hq']
    dsimp only
    rw [pay_src hu.symm]
    constructor <;> intro <;> omega
  | enqueue u n x release hu hnone hn hs hx =>
    have hz : b.owed u = 0 := by simp [owed, hnone]
    have hq' : HasTotal (owed { b.burn u n with
        queue := Function.update b.queue u (some ⟨n, x, release⟩) }) (q + x) := by
      have hupd := hq.update u x
      rw [hz, sub_zero] at hupd
      have ho := owed_update (b := b.burn u n) (u := u) (some ⟨n, x, release⟩)
      exact ho ▸ hupd
    rw [solvent_iff hq']
    change q + x ≤ b.assets vault ↔ x ≤ b.assets vault - q
    constructor <;> intro <;> omega
  | claim u r hu hr hv =>
    have hz : b.owed u = r.amount := by simp [owed, hr]
    have hq' : HasTotal (owed { b with
        queue := Function.update b.queue u none
        assets := pay vault u r.amount b.assets }) (q - r.amount) := by
      have hupd := hq.update u 0
      rw [hz, zero_sub] at hupd
      have ho := owed_update (b := b) (u := u) none
      exact ho ▸ hupd
    rw [solvent_iff hq']
    dsimp only
    rw [pay_src hu.symm]
    constructor <;> intro <;> omega
  | move src dst n hn hs hd =>
    have hq' : HasTotal (owed { b with shares := pay src dst n b.shares }) q := hq
    rw [solvent_iff hq']
    dsimp only
    constructor <;> intro <;> omega
  | destroy u n hn hs =>
    have hq' : HasTotal (owed (b.burn u n)) q := hq
    rw [solvent_iff hq']
    change q ≤ b.assets vault ↔ 0 ≤ b.assets vault - q
    constructor <;> intro <;> omega

/-- When a price rounded down is at most `v`. -/
theorem ediv_le_iff {a d v : ℤ} (hd : 0 < d) : a / d ≤ v ↔ a < (v + 1) * d := by
  rw [← Int.lt_add_one_iff, Int.ediv_lt_iff_lt_mul hd]

section Claims

variable {σ ε Op : Type} {exec : Op → Call σ ε Unit} {w : World σ}

/-- How a contract with these books pays out its queue: while `I` holds, a matured claim goes through
and is entered as one. -/
structure Pays (exec : Op → Call σ ε Unit) (book : σ → Book) (claim : Address → Label Op)
    (I : World σ → Prop) : Prop where
  ledger : ∀ (w : World σ) u, (w.next exec (claim u)).ledger = w.ledger
  paid : ∀ w u q, I w → (book w.store).queue u = some q → q.releaseLedger ≤ w.ledger.sequence →
    I (w.next exec (claim u)) ∧ book (w.next exec (claim u)).store =
      { book w.store with
        queue := Function.update (book w.store).queue u none
        assets := pay w.self u q.amount (book w.store).assets }

/-- Matured claims are paid in full, in any order. -/
theorem Pays.claims {book : σ → Book} {claim : Address → Label Op} {I : World σ → Prop}
    (hpays : Pays exec book claim I) (us : List Address) (hw : I w) (hnd : us.Nodup)
    (hm : ∀ u ∈ us, ∃ q, (book w.store).queue u = some q ∧
      q.releaseLedger ≤ w.ledger.sequence) :
    ∀ a, a ≠ w.self → (book (w.run exec (us.map claim)).store).assets a =
      (book w.store).assets a + if a ∈ us then (book w.store).owed a else 0 := by
  induction us generalizing w with
  | nil => simp
  | cons u us ih =>
    intro a ha
    obtain ⟨hnot, hnd⟩ := List.nodup_cons.mp hnd
    obtain ⟨q, hq, hr⟩ := hm u (by simp)
    obtain ⟨hnext, hbook⟩ := hpays.paid w u q hw hq hr
    have hrest : ∀ v ∈ us, ∃ q, (book (w.next exec (claim u)).store).queue v = some q ∧
        q.releaseLedger ≤ (w.next exec (claim u)).ledger.sequence := by
      intro v hv
      obtain ⟨r, hr, hle⟩ := hm v (List.mem_cons_of_mem u hv)
      have hvu : v ≠ u := by
        rintro rfl
        exact hnot hv
      rw [hbook, hpays.ledger]
      exact ⟨r, (Function.update_of_ne hvu _ _).trans hr, hle⟩
    have hih := ih hnext hnd hrest a (by rwa [World.next_self])
    have howed : (book (w.next exec (claim u)).store).owed =
        Function.update (book w.store).owed u 0 := by
      rw [hbook]
      exact owed_update none
    rw [List.map_cons, World.run_cons, hih, howed, hbook]
    change pay w.self u q.amount (book w.store).assets a + _ = _
    by_cases hau : a = u
    · subst hau
      have hamount : (book w.store).owed a = q.amount := by simp [owed, hq]
      simp [pay_dst, hnot, hamount]
    · have hother : pay w.self u q.amount (book w.store).assets a = (book w.store).assets a := by
        simp [pay, Function.update_of_ne hau, Function.update_of_ne ha]
      simp [hother, hau]

end Claims

end Book

end BcForge.Wrapper
