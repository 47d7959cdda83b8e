import UtilityCss.Json.Scan
import UtilityCss.Proofs.Number.Digits

/-!
Whole numbers that fit into 32 bits, in JSON text: what `decimal` writes is read as one number, with
all its digits and in range.
-/

namespace UtilityCss

/-- The digits of a number other than zero do not begin with a zero. -/
theorem head?_decimal_ne {n : Nat} (hn : n ≠ 0) : (decimal n).head? ≠ some '0' := by
  have hdigit : ∀ d < 10, d ≠ 0 → Nat.digitChar d ≠ '0' := by decide
  induction n using Nat.strongRecOn with
  | _ n ih =>
    rw [decimal]
    by_cases hsmall : n < 10
    · rw [Nat.toDigits_of_lt_base hsmall, List.head?_cons, ne_eq, Option.some_inj]
      exact hdigit n hsmall hn
    · have hquotient := ih (n / 10) (Nat.div_lt_self (by omega) (by decide)) (by omega)
      obtain ⟨c, rest, hdecimal⟩ := List.exists_cons_of_ne_nil (decimal_ne_nil (n / 10))
      rw [Nat.toDigits_of_base_le (by decide) (by omega), ← decimal, hdecimal]
      rwa [hdecimal] at hquotient

namespace Binary64

/-- The next larger number is no further away than twice the number. -/
theorem spacing_le (units : Nat) : spacing units ≤ units + 1 := by
  rw [spacing]
  by_cases hzero : units = 0
  · subst hzero
    decide
  · calc Nat.pow 2 (units.log2 - 52) ≤ Nat.pow 2 units.log2 :=
          Nat.pow_le_pow_right (by decide) (Nat.sub_le _ _)
      _ ≤ units := Nat.log2_self_le hzero
      _ ≤ units + 1 := Nat.le_succ _

theorem roundHalfEven_le (num den : Nat) : roundHalfEven num den ≤ num / den + 1 := by
  unfold roundHalfEven
  dsimp only
  split
  · omega
  · split
    · exact Nat.le_refl _
    · omega

/-- Rounding does not more than double a quotient, so one that is far from the bound is in range. -/
theorem exists_ofRatio_eq_finite (negative : Bool) (num den : Nat)
    (hrange : 2 * (num * unitsPerOne / den) + 1 < overflowUnits) :
    ∃ units, ofRatio negative num den = finite negative units ∧
      units ≤ 2 * (num * unitsPerOne / den) + 1 := by
  unfold ofRatio
  generalize num * unitsPerOne = scaled at *
  have hle : roundHalfEven scaled (den * spacing (scaled / den)) * spacing (scaled / den) ≤
      2 * (scaled / den) + 1 := by
    calc roundHalfEven scaled (den * spacing (scaled / den)) * spacing (scaled / den)
        ≤ (scaled / (den * spacing (scaled / den)) + 1) * spacing (scaled / den) :=
          Nat.mul_le_mul_right _ (roundHalfEven_le _ _)
      _ = scaled / den / spacing (scaled / den) * spacing (scaled / den) +
            spacing (scaled / den) := by rw [Nat.add_mul, Nat.one_mul, Nat.div_div_eq_div_mul]
      _ ≤ scaled / den + (scaled / den + 1) :=
          Nat.add_le_add (Nat.div_mul_le_self _ _) (spacing_le _)
      _ = 2 * (scaled / den) + 1 := by omega
  exact ⟨_, if_pos (Nat.lt_of_le_of_lt hle hrange), hle⟩

/-- A product with one stays in range. -/
theorem isInRange_mul_one {n : Nat} (hn : n < UInt64.size) :
    ∃ units, (ofNat n).mul (.ofDecimal false 1 0) = finite false units := by
  have hone : ofDecimal false 1 0 = finite false unitsPerOne := by decide +kernel
  have hpos : 0 < unitsPerOne := by decide +kernel
  have hbound : n * unitsPerOne ≤ UInt64.size * unitsPerOne :=
    Nat.mul_le_mul_right _ (Nat.le_of_lt hn)
  have hlarge : 4 * (UInt64.size * unitsPerOne) + 4 ≤ overflowUnits := by decide +kernel
  obtain ⟨units, hfinite, hunits⟩ := exists_ofRatio_eq_finite false n 1 (by
    rw [Nat.div_one]
    omega)
  rw [Nat.div_one] at hunits
  have hquotient : units * unitsPerOne * unitsPerOne / (unitsPerOne * unitsPerOne) = units := by
    rw [Nat.mul_assoc]
    exact Nat.mul_div_cancel _ (Nat.mul_pos hpos hpos)
  obtain ⟨product, hproduct, -⟩ := exists_ofRatio_eq_finite false (units * unitsPerOne)
    (unitsPerOne * unitsPerOne) (by
      rw [hquotient]
      omega)
  exact ⟨product, by rw [ofNat, hfinite, hone]; exact hproduct⟩

end Binary64

namespace Json

theorem le_ofDigitChars (digits : Text) (number : Nat) :
    number ≤ Nat.ofDigitChars 10 digits number := by
  induction digits generalizing number with
  | nil => exact Nat.le_refl _
  | cons c rest ih =>
      rw [Nat.ofDigitChars_cons]
      exact Nat.le_trans (by omega) (ih _)

/-- Digits that fit are all appended. -/
theorem appendDigits_of_lt {digits : Text} {number : Nat}
    (hfits : Nat.ofDigitChars 10 digits number < Nat.pow 2 64) :
    appendDigits number digits = (Nat.ofDigitChars 10 digits number, 0) := by
  induction digits generalizing number with
  | nil => rfl
  | cons c rest ih =>
      rw [Nat.ofDigitChars_cons] at hfits ⊢
      have hlonger := Nat.lt_of_le_of_lt (le_ofDigitChars rest _) hfits
      rw [appendDigits]
      exact (if_pos hlonger).trans (ih hfits)

theorem ofParts_decimal {n : Nat} (hn : n < UInt32.size) :
    NumberText.ofParts true (decimal n) [] = ⟨true, n, 0⟩ := by
  have hvalue : Nat.ofDigitChars 10 (decimal n) 0 = n := digitsValue_decimal n
  have hdigits : appendDigits 0 (decimal n) = (n, 0) := by
    rw [appendDigits_of_lt, hvalue]
    rw [hvalue]
    exact Nat.lt_trans hn (by decide)
  rw [NumberText.ofParts, hdigits]
  rfl

/-- What stands behind a number that is complete: neither a digit nor a point nor an exponent. -/
def EndsNumber (after : Text) : Prop :=
  ∀ c ∈ after.head?, c.isDigit = false ∧ c ≠ '.' ∧ c ≠ 'e' ∧ c ≠ 'E'

theorem readOptionalExponent_of_end {after : Text} (hafter : EndsNumber after)
    (number : NumberText) : readOptionalExponent number after = .ok (number, after) := by
  cases after with
  | nil => rfl
  | cons c rest =>
      obtain ⟨-, -, hlower, hupper⟩ := hafter c rfl
      rw [readOptionalExponent, if_neg (by simp [hlower, hupper])]

theorem scanUnsigned_decimal {n : Nat} (hn : n < UInt32.size) {after : Text}
    (hafter : EndsNumber after) :
    scanUnsigned false (decimal n ++ after) = .ok (⟨true, n, 0⟩, after) := by
  have hrun : readDigitRun (decimal n ++ after) = .ok (decimal n, after) := by
    rw [readDigitRun, spanDigits_append (fun c hc => isDigit_of_mem_decimal hc)
      fun c hc => (hafter c hc).1]
    split
    · rename_i hnil
      cases decimal_ne_nil n (congrArg Prod.fst hnil)
    · rename_i hnil
      cases decimal_ne_nil n (congrArg Prod.fst hnil)
    · rfl
  have hzero : ((decimal n).head? = some '0' && (decimal n).length ≠ 1) = false := by
    by_cases hn : n = 0
    · subst hn
      decide
    · simp [head?_decimal_ne hn]
  rw [scanUnsigned, hrun, Read.andThen, hzero, if_neg Bool.false_ne_true]
  split
  · exact absurd rfl (hafter '.' rfl).2.1
  · rw [readOptionalExponent_of_end hafter, Bool.not_false, ofParts_decimal hn]

/-- A number that fits into 32 bits is read with all its digits, and is in range. -/
theorem readNumber_decimal {n : Nat} (hn : n < UInt32.size) {after : Text} (hafter : EndsNumber after) :
    readNumber (decimal n ++ after) = .ok (⟨true, n, 0⟩, after) := by
  have hscan : scanNumber (decimal n ++ after) = .ok (⟨true, n, 0⟩, after) := by
    rw [← scanUnsigned_decimal hn hafter]
    unfold scanNumber
    split
    · rename_i hminus
      obtain ⟨c, rest, hdecimal⟩ := List.exists_cons_of_ne_nil (decimal_ne_nil n)
      have hc : c.isDigit = true := isDigit_of_mem_decimal (hdecimal ▸ List.mem_cons_self)
      rw [hdecimal] at hminus
      cases hminus
      cases hc
    · rfl
  have hrange : NumberText.isOutOfRange ⟨true, n, 0⟩ = false := by
    obtain ⟨units, hproduct⟩ := Binary64.isInRange_mul_one (n := n) (Nat.lt_trans hn (by decide))
    simp only [NumberText.isOutOfRange, hproduct]
    simp [maxPowerOfTen]
  rw [readNumber, hscan, Read.andThen, hrange, if_neg Bool.false_ne_true]

end Json

end UtilityCss
