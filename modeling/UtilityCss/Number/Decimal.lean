import UtilityCss.Text

/-!
Natural numbers written in decimal.  `readDigits_decimal` says that the written form reads back.
-/

namespace UtilityCss

/-- The decimal digits of a number, without leading zeros. -/
def decimal (n : Nat) : Text :=
  Nat.toDigits 10 n

/-- The number that a run of digits stands for; leading zeros count for nothing. -/
def digitsValue (digits : Text) : Nat :=
  Nat.ofDigitChars 10 digits 0

/-- A non-empty text of ASCII digits. -/
def isDigits (text : Text) : Bool :=
  !text.isEmpty && text.all Char.isDigit

/-- Read a text that consists of digits and nothing else. -/
def readDigits (text : Text) : Option Nat :=
  if isDigits text then some (digitsValue text) else none

/-- The leading digits of a text and what follows them. -/
def spanDigits (text : Text) : Text × Text :=
  (text.takeWhile Char.isDigit, text.dropWhile Char.isDigit)

theorem digitsValue_decimal (n : Nat) : digitsValue (decimal n) = n :=
  Nat.ofDigitChars_toDigits (by decide) (by decide)

theorem isDigit_of_mem_decimal {n : Nat} {c : Char} (hc : c ∈ decimal n) : c.isDigit = true :=
  Nat.isDigit_of_mem_toDigits (by decide) (by decide) hc

theorem decimal_ne_nil (n : Nat) : decimal n ≠ [] := by
  have := @Nat.length_toDigits_pos 10 n
  intro hnil
  rw [decimal] at hnil
  rw [hnil] at this
  simp at this

theorem readDigits_decimal (n : Nat) : readDigits (decimal n) = some n := by
  have hdigits : isDigits (decimal n) = true := by
    simp only [isDigits, Bool.and_eq_true, Bool.not_eq_true', List.isEmpty_eq_false_iff,
      List.all_eq_true]
    exact ⟨decimal_ne_nil n, fun c hc => isDigit_of_mem_decimal hc⟩
  simp [readDigits, hdigits, digitsValue_decimal]

end UtilityCss
