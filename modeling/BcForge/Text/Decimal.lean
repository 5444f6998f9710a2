import Mathlib.Algebra.Field.Rat
import Mathlib.Data.List.DropRight
import Mathlib.Tactic.FieldSimp

/-! Decimal numerals, plain or with a sign and a fraction, and the numbers they denote. -/
namespace Text

/-- At least one digit, and nothing else. -/
def IsNatural (l : List Char) : Prop := l ≠ [] ∧ ∀ c ∈ l, c.isDigit = true

instance (l : List Char) : Decidable (IsNatural l) := inferInstanceAs (Decidable (_ ∧ _))

def value (l : List Char) : ℕ := Nat.ofDigitChars 10 l 0

def readNatural (l : List Char) : Option ℕ := if IsNatural l then some (value l) else none

/-- Digits on both sides of a point, or no point. -/
def readUnsigned (l : List Char) : Option ℚ :=
  match l.dropWhile (· ≠ '.') with
  | [] => (readNatural l).map (↑·)
  | _ :: fraction => do
    let n ← readNatural (l.takeWhile (· ≠ '.'))
    let m ← readNatural fraction
    some (n + m / 10 ^ fraction.length)

def readDecimal : List Char → Option ℚ
  | '-' :: l => (readUnsigned l).map (-·)
  | l => readUnsigned l

/-- Zeros at the end of a fraction are gone, and with the last digit of the fraction its point. -/
structure Trims (l t : List Char) : Prop where
  removed : ∃ n, (l = t ++ List.replicate n '0' ∧ ('.' ∈ t ∨ n = 0)) ∨
    (l = t ++ '.' :: List.replicate n '0' ∧ '.' ∉ t)
  bare : '.' ∈ t → t.getLast? ≠ some '0' ∧ t.getLast? ≠ some '.'

/-- The sign of a number, in front of its digits. -/
def signOf (x : ℤ) : List Char := if x < 0 then ['-'] else []

/-- A text without the zeros at its end. -/
def trimZeros (l : List Char) : List Char := l.rdropWhile (· = '0')

variable {l w f : List Char} {x : ℤ} {c : ℚ}

theorem isNatural_toDigits (n : ℕ) : IsNatural (Nat.toDigits 10 n) :=
  ⟨Nat.toDigits_ne_nil, fun _ => Nat.isDigit_of_mem_toDigits (by decide) (by decide)⟩

theorem IsNatural.not_mem (h : IsNatural l) {c : Char} (hc : c.isDigit = false) : c ∉ l := by
  intro hmem
  rw [h.2 c hmem] at hc
  cases hc

theorem readNatural_of (h : IsNatural l) : readNatural l = some (value l) := if_pos h

@[simp] theorem value_toDigits (n : ℕ) : value (Nat.toDigits 10 n) = n :=
  Nat.ofDigitChars_ten_toDigits

@[simp] theorem value_zeros_append (n : ℕ) (l : List Char) :
    value (List.replicate n '0' ++ l) = value l := by
  rw [value, Nat.ofDigitChars_append, Nat.ofDigitChars_replicate_zero, mul_zero, value]

theorem value_append (l m : List Char) : value (l ++ m) = 10 ^ m.length * value l + value m := by
  rw [value, Nat.ofDigitChars_append, Nat.ofDigitChars_eq_ofDigitChars_zero, value, value]

theorem value_append_zeros (l : List Char) (n : ℕ) :
    value (l ++ List.replicate n '0') = 10 ^ n * value l := by
  rw [value, Nat.ofDigitChars_append, Nat.ofDigitChars_replicate_zero, value]

theorem readUnsigned_natural (h : IsNatural w) : readUnsigned w = some (value w : ℚ) := by
  have hpoint : w.dropWhile (· ≠ '.') = [] := by
    rw [List.dropWhile_eq_nil_iff]
    intro c hc
    have : c ≠ '.' := by
      rintro rfl
      exact h.not_mem (by decide) hc
    simpa using this
  rw [readUnsigned, hpoint]
  simp [readNatural_of h]

/-- All digits together, with the point moved back. -/
theorem readUnsigned_point (hw : IsNatural w) (hf : IsNatural f) :
    readUnsigned (w ++ '.' :: f) = some ((value (w ++ f) : ℚ) / 10 ^ f.length) := by
  have hdigits : ∀ c ∈ w, decide (c ≠ '.') = true := by
    intro c hc
    rw [decide_eq_true_eq]
    rintro rfl
    exact hw.not_mem (by decide) hc
  have hdrop : (w ++ '.' :: f).dropWhile (· ≠ '.') = '.' :: f := by
    rw [List.dropWhile_append_of_pos hdigits]
    rfl
  have htake : (w ++ '.' :: f).takeWhile (· ≠ '.') = w := by
    rw [List.takeWhile_append_of_pos hdigits]
    simp
  rw [readUnsigned, hdrop]
  simp only [htake, readNatural_of hw, readNatural_of hf, Option.bind_eq_bind, Option.bind_some,
    Option.some.injEq]
  rw [value_append]
  push_cast
  field_simp

theorem readDecimal_sign (hw : IsNatural w)
    (h : readUnsigned (w ++ l) = some ((x.natAbs : ℚ) / c)) :
    readDecimal (signOf x ++ (w ++ l)) = some ((x : ℚ) / c) := by
  have habs : ((x.natAbs : ℤ) : ℚ) = (x.natAbs : ℚ) := Int.cast_natCast _
  by_cases hx : x < 0
  · have hneg : (x : ℚ) = -(x.natAbs : ℚ) := by
      rw [← habs, Int.ofNat_natAbs_of_nonpos hx.le, Int.cast_neg, neg_neg]
    rw [signOf, if_pos hx, List.singleton_append, readDecimal, h, Option.map_some, hneg, neg_div]
  · have hpos : (x : ℚ) = (x.natAbs : ℚ) := by
      rw [← habs, Int.natAbs_of_nonneg (not_lt.mp hx)]
    rw [signOf, if_neg hx, List.nil_append, hpos, ← h]
    -- the text starts with a digit, so not with a sign
    obtain ⟨a, w, rfl⟩ := List.exists_cons_of_ne_nil hw.1
    unfold readDecimal
    split
    · rename_i heq
      obtain ⟨rfl, -⟩ := List.cons.inj heq
      exact absurd List.mem_cons_self (hw.not_mem (by decide))
    · rfl

theorem trimZeros_append (l : List Char) : ∃ n, l = trimZeros l ++ List.replicate n '0' := by
  refine ⟨(l.rtakeWhile (· = '0')).length, ?_⟩
  have hzeros : l.rtakeWhile (· = '0') =
      List.replicate (l.rtakeWhile (· = '0')).length '0' := by
    rw [List.eq_replicate_iff]
    refine ⟨rfl, fun a ha => ?_⟩
    simpa using List.mem_rtakeWhile_imp ha
  rw [← hzeros, trimZeros, List.rdropWhile_append_rtakeWhile]

theorem trimZeros_last (h : trimZeros l ≠ []) : (trimZeros l).getLast h ≠ '0' := by
  intro hzero
  exact List.rdropWhile_last_not (fun a => decide (a = '0')) l h (decide_eq_true hzero)

theorem isNatural_trimZeros (h : IsNatural l) (hne : trimZeros l ≠ []) :
    IsNatural (trimZeros l) :=
  ⟨hne, fun a ha => h.2 a ((List.rdropWhile_prefix _ l).subset ha)⟩

/-- Zeros at the end of a fraction denote nothing. -/
theorem readUnsigned_trim (hw : IsNatural w) (hf : IsNatural f) :
    readUnsigned (w ++ if trimZeros f ≠ [] then '.' :: trimZeros f else []) =
      readUnsigned (w ++ '.' :: f) := by
  obtain ⟨n, hn⟩ := trimZeros_append f
  have hvalue : (value (w ++ f) : ℚ) = 10 ^ n * value (w ++ trimZeros f) := by
    conv_lhs => rw [hn, ← List.append_assoc, value_append_zeros]
    push_cast
    rfl
  have hlength : f.length = (trimZeros f).length + n := by
    conv_lhs => rw [hn, List.length_append, List.length_replicate]
  rw [readUnsigned_point hw hf, hvalue, hlength]
  split
  · rename_i hne
    rw [readUnsigned_point hw (isNatural_trimZeros hf hne), pow_add]
    field_simp
  · rename_i hnil
    rw [not_not] at hnil
    rw [hnil, List.append_nil, readUnsigned_natural hw, List.length_nil, zero_add]
    field_simp

theorem trims_natural (h : '.' ∉ l) : Trims l l :=
  ⟨⟨0, Or.inl ⟨by simp, Or.inr rfl⟩⟩, fun hmem => absurd hmem h⟩

theorem trims_point (hl : '.' ∉ l) (hf : IsNatural f) :
    Trims (l ++ '.' :: f) (l ++ if trimZeros f ≠ [] then '.' :: trimZeros f else []) := by
  obtain ⟨n, hn⟩ := trimZeros_append f
  split
  · rename_i hne
    have hlast : (l ++ '.' :: trimZeros f).getLast? = some ((trimZeros f).getLast hne) := by
      rw [List.getLast?_append_cons, List.getLast?_cons_of_ne_nil hne,
        List.getLast?_eq_some_getLast]
    refine ⟨⟨n, Or.inl ⟨?_, Or.inl (by simp)⟩⟩, fun _ => ?_⟩
    · conv_lhs => rw [hn]
      simp
    · rw [hlast]
      refine ⟨fun h => trimZeros_last hne (Option.some.inj h), fun h => ?_⟩
      have hmem := List.getLast_mem hne
      rw [Option.some.inj h] at hmem
      exact (isNatural_trimZeros hf hne).not_mem (by decide) hmem
  · rename_i hnil
    rw [not_not] at hnil
    rw [List.append_nil]
    refine ⟨⟨n, Or.inr ⟨?_, hl⟩⟩, fun hmem => absurd hmem hl⟩
    conv_lhs => rw [hn, hnil]
    rfl

end Text
