import BcForge.Text.Decimal
import BcForge.Text.Slice

/-! Token amounts as decimal text: the formatter of the SDK and the one of the React components. -/
namespace BcForge.Amounts

open Text

/-- `toString` of a `bigint`. -/
def bigintToString (x : ℤ) : List Char := signOf x ++ Nat.toDigits 10 x.natAbs

def formatAtomicAmount (amount decimals : ℤ) : Except String (List Char) :=
  if decimals < 0 then .error "Decimals must be a non-negative integer"
  else
    let absolute := if amount < 0 then -amount else amount
    let raw := bigintToString absolute
    if decimals = 0 then .ok (if amount < 0 then '-' :: raw else raw)
    else
      let padded := padStart raw (decimals + 1) '0'
      let whole := slice padded 0 (-decimals)
      let fraction := sliceFrom padded (-decimals)
      let sign := if amount < 0 then ['-'] else []
      .ok (sign ++ whole ++ '.' :: fraction)

structure FormatTokenAmountOptions where
  trim : Bool := true
  placeholder : List Char := ['—']

/-- An amount that is `null` or `undefined` is `none`. -/
def formatTokenAmount (amount decimals : Option ℤ) (options : FormatTokenAmountOptions) :
    List Char :=
  match amount, decimals with
  | none, _ => options.placeholder
  | some amount, none => bigintToString amount
  | some amount, some decimals =>
    if decimals ≤ 0 then bigintToString amount
    else
      let sign := if amount < 0 then ['-'] else []
      let digits := bigintToString (if amount < 0 then -amount else amount)
      let padded := padStart digits (decimals + 1) '0'
      let whole := slice padded 0 (padded.length - decimals)
      let fraction := sliceFrom padded (padded.length - decimals)
      if options.trim = false then sign ++ whole ++ '.' :: fraction
      else
        let trimmedFraction := trimZeros fraction
        if trimmedFraction ≠ [] then sign ++ whole ++ '.' :: trimmedFraction else sign ++ whole

/-- The digits of an amount, with at least one in front of the fraction. -/
def paddedDigits (x : ℤ) (d : ℕ) : List Char := padStart (Nat.toDigits 10 x.natAbs) (d + 1 : ℕ) '0'

def wholeDigits (x : ℤ) (d : ℕ) : List Char :=
  (paddedDigits x d).take ((paddedDigits x d).length - d)

def fractionDigits (x : ℤ) (d : ℕ) : List Char :=
  (paddedDigits x d).drop ((paddedDigits x d).length - d)

variable {x : ℤ} {d : ℕ}

@[simp] theorem bigintToString_abs (x : ℤ) :
    bigintToString (if x < 0 then -x else x) = Nat.toDigits 10 x.natAbs := by
  by_cases hx : x < 0
  · rw [if_pos hx, bigintToString, signOf, if_neg (by omega), Int.natAbs_neg, List.nil_append]
  · rw [if_neg hx, bigintToString, signOf, if_neg hx, List.nil_append]

theorem lt_length_paddedDigits (x : ℤ) (d : ℕ) : d < (paddedDigits x d).length := by
  rw [paddedDigits, length_padStart]
  omega

theorem isDigit_paddedDigits (x : ℤ) (d : ℕ) : ∀ c ∈ paddedDigits x d, c.isDigit = true := by
  intro c hc
  rw [paddedDigits, padStart_eq, List.mem_append] at hc
  rcases hc with hc | hc
  · rw [List.eq_of_mem_replicate hc]
    rfl
  · exact (isNatural_toDigits _).2 c hc

theorem isNatural_wholeDigits (x : ℤ) (d : ℕ) : IsNatural (wholeDigits x d) := by
  have hlt := lt_length_paddedDigits x d
  refine ⟨fun hnil => ?_, fun c hc => isDigit_paddedDigits x d c (List.mem_of_mem_take hc)⟩
  have := congrArg List.length hnil
  rw [wholeDigits, List.length_take, List.length_nil] at this
  omega

theorem length_fractionDigits (x : ℤ) (d : ℕ) : (fractionDigits x d).length = d := by
  have hlt := lt_length_paddedDigits x d
  rw [fractionDigits, List.length_drop]
  omega

theorem isNatural_fractionDigits (x : ℤ) (hd : 0 < d) : IsNatural (fractionDigits x d) := by
  refine ⟨fun hnil => ?_, fun c hc => isDigit_paddedDigits x d c (List.mem_of_mem_drop hc)⟩
  have := length_fractionDigits x d
  rw [hnil, List.length_nil] at this
  omega

theorem value_digits (x : ℤ) (d : ℕ) :
    value (wholeDigits x d ++ fractionDigits x d) = x.natAbs := by
  rw [wholeDigits, fractionDigits, List.take_append_drop, paddedDigits, padStart_eq,
    value_zeros_append, value_toDigits]

/-- Both ways to count the slices come to the same two parts. -/
theorem formatAtomicAmount_pos (x : ℤ) (hd : 0 < d) : formatAtomicAmount x d =
    .ok (signOf x ++ (wholeDigits x d ++ '.' :: fractionDigits x d)) := by
  have hle := (lt_length_paddedDigits x d).le
  have hpadded : padStart (Nat.toDigits 10 x.natAbs) (d + 1) '0' = paddedDigits x d := rfl
  rw [formatAtomicAmount, if_neg (by omega)]
  simp only [bigintToString_abs, if_neg (show ¬ (d : ℤ) = 0 by omega), hpadded]
  rw [slice_zero (offset_neg hd hle), sliceFrom_eq (offset_neg hd hle), List.append_assoc]
  rfl

theorem formatTokenAmount_pos (x : ℤ) (hd : 0 < d) (o : FormatTokenAmountOptions) :
    formatTokenAmount (some x) (some d) o = signOf x ++ (wholeDigits x d ++
      if o.trim = true then
        if trimZeros (fractionDigits x d) ≠ [] then '.' :: trimZeros (fractionDigits x d) else []
      else '.' :: fractionDigits x d) := by
  have hle := (lt_length_paddedDigits x d).le
  have hpadded : padStart (Nat.toDigits 10 x.natAbs) (d + 1) '0' = paddedDigits x d := rfl
  have hoffset : offset (paddedDigits x d).length ((paddedDigits x d).length - d) =
      (paddedDigits x d).length - d := by
    rw [← Nat.cast_sub hle, offset_natCast (Nat.sub_le _ _)]
  rw [formatTokenAmount]
  simp only [if_neg (show ¬ (d : ℤ) ≤ 0 by omega), bigintToString_abs, hpadded]
  rw [slice_zero hoffset, sliceFrom_eq hoffset]
  change (if o.trim = false then signOf x ++ wholeDigits x d ++ '.' :: fractionDigits x d
    else if trimZeros (fractionDigits x d) ≠ [] then
      signOf x ++ wholeDigits x d ++ '.' :: trimZeros (fractionDigits x d)
    else signOf x ++ wholeDigits x d) = _
  cases o.trim <;> simp [apply_ite (wholeDigits x d ++ ·), apply_ite (signOf x ++ ·)]

section Exact

/-- What both formatters print is the amount in units of the token. -/
theorem read_formatted (x : ℤ) (hd : 0 < d) :
    readDecimal (signOf x ++ (wholeDigits x d ++ '.' :: fractionDigits x d)) =
      some ((x : ℚ) / 10 ^ d) := by
  refine readDecimal_sign (isNatural_wholeDigits x d) ?_
  rw [readUnsigned_point (isNatural_wholeDigits x d) (isNatural_fractionDigits x hd), value_digits,
    length_fractionDigits]

theorem read_bigint (x : ℤ) : readDecimal (bigintToString x) = some ((x : ℚ) / 10 ^ 0) := by
  have hread : readUnsigned (Nat.toDigits 10 x.natAbs ++ []) =
      some ((x.natAbs : ℚ) / 10 ^ 0) := by
    rw [List.append_nil, readUnsigned_natural (isNatural_toDigits _), value_toDigits, pow_zero,
      div_one]
  have := readDecimal_sign (isNatural_toDigits _) hread
  rwa [List.append_nil] at this

theorem not_mem_signOf_append {l : List Char} (h : IsNatural l) : '.' ∉ signOf x ++ l := by
  rw [List.mem_append, not_or]
  refine ⟨?_, h.not_mem (by decide)⟩
  unfold signOf
  split <;> decide

/-- The text reads as the amount in units of the token, and does so after trimming. -/
structure Exact (x : ℤ) (d : ℕ) (text trimmed : List Char) : Prop where
  reads : readDecimal text = some ((x : ℚ) / 10 ^ d)
  trims : Trims text trimmed
  keeps : readDecimal trimmed = some ((x : ℚ) / 10 ^ d)

theorem exact_bigint (x : ℤ) : Exact x 0 (bigintToString x) (bigintToString x) where
  reads := read_bigint x
  trims := trims_natural (not_mem_signOf_append (isNatural_toDigits _))
  keeps := read_bigint x

theorem exact_pos (x : ℤ) (hd : 0 < d) :
    Exact x d (signOf x ++ (wholeDigits x d ++ '.' :: fractionDigits x d))
      (formatTokenAmount (some x) (some d) { trim := true }) := by
  have hw := isNatural_wholeDigits x d
  have hf := isNatural_fractionDigits x hd
  rw [formatTokenAmount_pos x hd, if_pos rfl]
  refine ⟨read_formatted x hd, ?_, ?_⟩
  · rw [← List.append_assoc, ← List.append_assoc]
    exact trims_point (not_mem_signOf_append hw) hf
  · refine readDecimal_sign hw ?_
    rw [readUnsigned_trim hw hf, readUnsigned_point hw hf, value_digits, length_fractionDigits]

theorem formatted_exact (x : ℤ) (d : ℕ) : ∃ text, formatAtomicAmount x d = .ok text ∧
    formatTokenAmount (some x) (some d) { trim := false } = text ∧
    Exact x d text (formatTokenAmount (some x) (some d) { trim := true }) := by
  rcases Nat.eq_zero_or_pos d with rfl | hd
  · refine ⟨bigintToString x, ?_, rfl, exact_bigint x⟩
    simp only [formatAtomicAmount, bigintToString_abs, Nat.cast_zero, lt_irrefl, if_true, if_false]
    unfold bigintToString signOf
    split <;> rfl
  · exact ⟨_, formatAtomicAmount_pos x hd, formatTokenAmount_pos x hd _, exact_pos x hd⟩

end Exact

/-- One text from both formatters, which no other amount has in as many decimals. -/
theorem formatters_agree (x : ℤ) (d : ℕ) : ∃ text, formatAtomicAmount x d = .ok text ∧
    formatTokenAmount (some x) (some d) { trim := false } = text ∧
    Exact x d text (formatTokenAmount (some x) (some d) { trim := true }) ∧
    ∀ y, formatAtomicAmount y d = .ok text → y = x := by
  obtain ⟨text, hsdk, hreact, hexact⟩ := formatted_exact x d
  refine ⟨text, hsdk, hreact, hexact, fun y hy => ?_⟩
  obtain ⟨other, hother, -, hyexact⟩ := formatted_exact y d
  obtain rfl : other = text := Except.ok.inj (hother.symm.trans hy)
  have hvalue := Option.some.inj (hyexact.reads.symm.trans hexact.reads)
  have hten : (10 : ℚ) ^ d ≠ 0 := pow_ne_zero _ (by norm_num)
  exact_mod_cast (div_left_inj' hten).mp hvalue

example : formatAtomicAmount (-50) 3 = .ok "-0.050".toList := by decide
example : formatTokenAmount (some (-50)) (some 3) {} = "-0.05".toList := by decide

end BcForge.Amounts
