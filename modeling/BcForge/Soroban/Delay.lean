import Mathlib.Data.Nat.Basic
import Mathlib.Logic.Function.Basic

/-! Delayed actions: proposed, open for a time, then withdrawn or used, and used at most once. -/
namespace Soroban.Delay

variable {κ : Type} {k : κ} {t : ℕ}

inductive Event (κ : Type) where
  | proposed (k : κ) (time : ℕ)
  | withdrawn (k : κ)
  | used (k : κ) (time : ℕ)

/-- The event ends the proposal that is open for `k`. -/
def Event.Settles (k : κ) : Event κ → Prop
  | .proposed _ _ => False
  | .withdrawn k' => k' = k
  | .used k' _ => k' = k

variable {delay : ℕ} {log : List (Event κ)} {e e' : Event κ} {i j : ℕ}

/-- The `i`-th event proposed what the `j`-th used: long enough before, and nothing settled the
proposal in between. -/
def Authorises (delay : ℕ) (log : List (Event κ)) (i j : ℕ) : Prop :=
  ∃ k t₀ t, log[i]? = some (.proposed k t₀) ∧ log[j]? = some (.used k t) ∧ i < j ∧
    t₀ + delay ≤ t ∧ ∀ m e, i < m → m < j → log[m]? = some e → ¬ e.Settles k

/-- Every use was authorised. -/
def Justified (delay : ℕ) (log : List (Event κ)) : Prop :=
  ∀ j k t, log[j]? = some (.used k t) → ∃ i, Authorises delay log i j

/-- The latest proposal for `k` dates from `t` and has not been settled. -/
def Open (log : List (Event κ)) (k : κ) (t : ℕ) : Prop :=
  ∃ i : ℕ, log[i]? = some (.proposed k t) ∧ ∀ m e, i < m → log[m]? = some e → ¬ e.Settles k

/-- A proposal authorises at most one use: the first one settles it. -/
theorem authorises_unique {j' : ℕ} (h : Authorises delay log i j) (h' : Authorises delay log i j') :
    j = j' := by
  obtain ⟨k, t₀, t, hi, hj, hij, -, hq⟩ := h
  obtain ⟨k', t₀', t', hi', hj', hij', -, hq'⟩ := h'
  cases hi.symm.trans hi'
  rcases Nat.lt_trichotomy j j' with hlt | heq | hgt
  · exact absurd rfl (hq' j _ hij hlt hj)
  · exact heq
  · exact absurd rfl (hq j' _ hij' hgt hj')

theorem getElem?_concat (h : (log ++ [e])[j]? = some e') :
    log[j]? = some e' ∨ (j = log.length ∧ e' = e) := by
  by_cases hj : j < log.length
  · rw [List.getElem?_append_left hj] at h
    exact Or.inl h
  · rw [List.getElem?_append_right (Nat.not_lt.mp hj)] at h
    obtain ⟨hlt, heq⟩ := List.getElem?_eq_some_iff.mp h
    simp only [List.length_singleton] at hlt
    refine Or.inr ⟨by omega, ?_⟩
    simpa using heq.symm

theorem getElem?_append_of_some (h : log[j]? = some e') : (log ++ [e])[j]? = some e' := by
  have hlt : j < log.length := (List.getElem?_eq_some_iff.mp h).1
  rw [List.getElem?_append_left hlt]
  exact h

theorem Open.append (h : Open log k t) (he : ¬ e.Settles k) : Open (log ++ [e]) k t := by
  obtain ⟨i, hi, hq⟩ := h
  refine ⟨i, getElem?_append_of_some hi, ?_⟩
  intro m e' him hm
  rcases getElem?_concat hm with hm | ⟨-, rfl⟩
  · exact hq m e' him hm
  · exact he

theorem open_proposed : Open (log ++ [.proposed k t]) k t := by
  refine ⟨log.length, by simp, ?_⟩
  intro m e' hm he
  have hlt := (List.getElem?_eq_some_iff.mp he).1
  simp only [List.length_append, List.length_singleton] at hlt
  omega

theorem Authorises.append (h : Authorises delay log i j) : Authorises delay (log ++ [e]) i j := by
  obtain ⟨k, t₀, t, hi, hj, hij, ht, hq⟩ := h
  refine ⟨k, t₀, t, getElem?_append_of_some hi, getElem?_append_of_some hj, hij, ht, ?_⟩
  intro m e' him hmj hm
  have hlen : j < log.length := (List.getElem?_eq_some_iff.mp hj).1
  rw [List.getElem?_append_left (by omega)] at hm
  exact hq m e' him hmj hm

theorem Justified.append (h : Justified delay log)
    (he : ∀ k t, e = .used k t → ∃ t₀, Open log k t₀ ∧ t₀ + delay ≤ t) :
    Justified delay (log ++ [e]) := by
  intro j k t hj
  rcases getElem?_concat hj with hj | ⟨rfl, heq⟩
  · obtain ⟨i, hi⟩ := h j k t hj
    exact ⟨i, hi.append⟩
  · obtain ⟨t₀, ⟨i, hi, hq⟩, ht⟩ := he k t heq.symm
    have hlen : i < log.length := (List.getElem?_eq_some_iff.mp hi).1
    refine ⟨i, k, t₀, t, getElem?_append_of_some hi, hj, hlen, ht, ?_⟩
    intro m e' him hmj hm
    rw [List.getElem?_append_left hmj] at hm
    exact hq m e' him hm

/-- Every deadline on record is the delayed time of an open proposal. -/
def Tracks (delay : ℕ) (log : List (Event κ)) (deadline : κ → Option ℕ) : Prop :=
  ∀ k d, deadline k = some d → ∃ t, Open log k t ∧ d = t + delay

variable [DecidableEq κ] {deadline deadline' : κ → Option ℕ}

/-- One transition of the deadlines on record, with what it reports. -/
inductive Step (delay : ℕ) (deadline : κ → Option ℕ) : Option (Event κ) → (κ → Option ℕ) → Prop
  | keep : Step delay deadline none deadline
  | propose (k : κ) (t : ℕ) :
      Step delay deadline (some (.proposed k t)) (Function.update deadline k (some (t + delay)))
  | withdraw (k : κ) :
      Step delay deadline (some (.withdrawn k)) (Function.update deadline k none)
  | use (k : κ) (t d : ℕ) (hd : deadline k = some d) (ht : d ≤ t) :
      Step delay deadline (some (.used k t)) (Function.update deadline k none)

theorem tracks_proposed (h : Tracks delay log deadline) : Tracks delay (log ++ [.proposed k t])
    (Function.update deadline k (some (t + delay))) := by
  intro k' d hd
  by_cases hk : k' = k
  · subst hk
    rw [Function.update_self] at hd
    exact ⟨t, open_proposed, (Option.some.inj hd).symm⟩
  · rw [Function.update_of_ne hk] at hd
    obtain ⟨t', ht', heq⟩ := h k' d hd
    exact ⟨t', ht'.append id, heq⟩

theorem tracks_settled (h : Tracks delay log deadline) (he : ∀ k', e.Settles k' → k' = k) :
    Tracks delay (log ++ [e]) (Function.update deadline k none) := by
  intro k' d hd
  by_cases hk : k' = k
  · subst hk
    rw [Function.update_self] at hd
    cases hd
  · rw [Function.update_of_ne hk] at hd
    obtain ⟨t', ht', heq⟩ := h k' d hd
    exact ⟨t', ht'.append fun hs => hk (he k' hs), heq⟩

theorem step_tracks {o : Option (Event κ)} (h : Tracks delay log deadline)
    (hs : Step delay deadline o deadline') : Tracks delay (log ++ o.toList) deadline' := by
  cases hs with
  | keep => simpa using h
  | propose k t => exact tracks_proposed h
  | withdraw k => exact tracks_settled h fun _ hk => hk.symm
  | use k t d hd ht => exact tracks_settled h fun _ hk => hk.symm

theorem step_justified {o : Option (Event κ)} (h : Justified delay log)
    (ht : Tracks delay log deadline) (hs : Step delay deadline o deadline') :
    Justified delay (log ++ o.toList) := by
  cases hs with
  | keep => simpa using h
  | propose k t => exact h.append fun _ _ he => by cases he
  | withdraw k => exact h.append fun _ _ he => by cases he
  | use k t d hd hle =>
    refine h.append fun k' t' he => ?_
    cases he
    obtain ⟨t₀, hopen, rfl⟩ := ht k d hd
    exact ⟨t₀, hopen, hle⟩

end Soroban.Delay
