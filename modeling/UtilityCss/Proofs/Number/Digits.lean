import Mathlib.Data.List.TakeWhile
import UtilityCss.Number.Decimal
import UtilityCss.Text.Blank

/-!
Runs of digits: how far the leading digits of a text reach, and what a digit is not.
-/

namespace UtilityCss

variable {text digits rest : Text} {c : Char}

theorem isDigits_iff : isDigits text = true ↔ text ≠ [] ∧ ∀ c ∈ text, c.isDigit = true := by
  rw [isDigits, Bool.and_eq_true, Bool.not_eq_true', List.isEmpty_eq_false_iff, List.all_eq_true]

/-- What is no digit is not in a run of digits. -/
theorem notMem_of_isDigits (hdigits : isDigits digits = true) (hc : c.isDigit = false) :
    c ∉ digits := fun hmem => by
  rw [(isDigits_iff.mp hdigits).2 c hmem] at hc
  cases hc

theorem isDigits_of_readDigits {n : Nat} (hread : readDigits text = some n) :
    isDigits text = true := by
  unfold readDigits at hread
  split at hread
  · assumption
  · cases hread

theorem spanDigits_append {after : Text} (hdigits : ∀ c ∈ digits, c.isDigit = true)
    (hafter : ∀ c ∈ after.head?, c.isDigit = false) :
    spanDigits (digits ++ after) = (digits, after) := by
  have hstop : after.takeWhile Char.isDigit = [] ∧ after.dropWhile Char.isDigit = after := by
    cases after with
    | nil => exact ⟨rfl, rfl⟩
    | cons c rest =>
        have hc := hafter c rfl
        exact ⟨List.takeWhile_cons_of_neg (by simp [hc]), List.dropWhile_cons_of_neg (by simp [hc])⟩
  rw [spanDigits, List.takeWhile_append_of_pos hdigits, List.dropWhile_append_of_pos hdigits,
    hstop.1, hstop.2, List.append_nil]

/-- Leading digits, if there are any, are a number. -/
theorem eq_append_of_spanDigits (hspan : spanDigits text = (digits, rest))
    (hne : digits ≠ []) : isDigits digits = true ∧ text = digits ++ rest := by
  obtain ⟨rfl, rfl⟩ := Prod.mk.inj hspan
  exact ⟨isDigits_iff.mpr ⟨hne, fun _ hc => List.mem_takeWhile_imp hc⟩,
    List.takeWhile_append_dropWhile.symm⟩

theorem spanDigits_of_isDigits (hdigits : isDigits digits = true)
    (hrest : ∀ c ∈ rest.head?, c.isDigit = false) : spanDigits (digits ++ rest) = (digits, rest) :=
  spanDigits_append (isDigits_iff.mp hdigits).2 hrest

theorem isBlank_eq_false_of_isDigit (hdigit : c.isDigit = true) : isBlank c = false := by
  obtain ⟨hlow, hhigh⟩ := Char.isDigit_iff_toNat.mp hdigit
  have houtside : ∀ range ∈ blankRanges, range.2 < '0'.toNat ∨ '9'.toNat < range.1 := by decide
  rw [← Bool.not_eq_true, isBlank, CharRanges.covers_iff]
  rintro ⟨range, hrange, hfirst, hlast⟩
  have := houtside range hrange
  omega

theorem toLower_of_isDigit (hdigit : c.isDigit = true) : c.toLower = c := by
  have hupper : ¬ (c.val ≥ 'A'.val ∧ c.val ≤ 'Z'.val) := by grind [Char.isDigit]
  exact dif_neg hupper

end UtilityCss
