import UtilityCss.Proofs.Number.Digits
import UtilityCss.Proofs.Token.Stem
import UtilityCss.Resolution

/-!
How a base is cut into its sign, the name of its utility and its value.  A fraction and a plain
number are cut at the last dash, any other value behind the longest known name.  A value that is not
in brackets is kept as it is written, or not at all.
-/

namespace UtilityCss

namespace Text

variable {mark : Char} {front rest : Text}

/-- A text is cut at the mark behind which there is no other. -/
theorem splitLast_append_cons (hrest : mark ∉ rest) :
    splitLast mark (front ++ mark :: rest) = some (front, rest) := by
  induction front with
  | nil => rw [List.nil_append, splitLast, splitLast_eq_none hrest, if_pos rfl]
  | cons head tail ih => rw [List.cons_append, splitLast, ih]

end Text

/-- The sign of a base, and the base without it. -/
def splitSign (base : Text) : Bool × Text :=
  match Text.after? ['-'] base with
  | some rest => (true, rest)
  | none => (false, base)

theorem sign_append_splitSign (base : Text) :
    (if (splitSign base).1 then ['-'] else []) ++ (splitSign base).2 = base := by
  unfold splitSign
  split
  · rename_i rest hrest
    rw [Text.after?_eq_some_iff.mp hrest]
    rfl
  · rfl

namespace SignedUtility

variable {base : Text} {utility : SignedUtility}

/-- What the last dash of the base without its sign cuts off, when the front is a name. -/
theorem ofBase?_eq_some_iff :
    ofBase? base = some utility ↔
      utility.negative = (splitSign base).1 ∧
        Text.splitLast '-' (splitSign base).2 = some (utility.name, utility.value) ∧
        isUtilityName utility.name = true := by
  unfold ofBase?
  split
  rename_i negative unsigned hsplit
  have hsign : splitSign base = (negative, unsigned) := hsplit
  rw [hsign]
  dsimp only
  split
  · rename_i first rest behind hcut
    rw [hcut]
    split
    · rename_i hname
      constructor
      · rintro ⟨⟩
        exact ⟨rfl, rfl, hname⟩
      · rintro ⟨rfl, heq, -⟩
        cases utility
        cases heq
        rfl
    · rename_i hname
      refine iff_of_false (by simp) ?_
      rintro ⟨-, heq, hother⟩
      cases utility
      cases heq
      exact hname hother
  · rename_i hnone
    refine iff_of_false (by simp) ?_
    rintro ⟨-, hcut, hname⟩
    obtain ⟨negative, name, value⟩ := utility
    cases name with
    | nil => cases hname
    | cons first rest => exact hnone first rest value hcut

/-- A base put together from its sign, its name and its value. -/
def text (utility : SignedUtility) : Text :=
  utility.sign ++ (utility.name ++ '-' :: utility.value)

theorem splitSign_text (hname : isUtilityName utility.name = true) :
    splitSign utility.text = (utility.negative, utility.name ++ '-' :: utility.value) := by
  obtain ⟨negative, name, value⟩ := utility
  cases negative with
  | true => rfl
  | false =>
      have hplain : text ⟨false, name, value⟩ = name ++ '-' :: value := rfl
      rw [splitSign, hplain, after?_of_isUtilityName hname]

/-- A base is cut into the parts it was put together from. -/
theorem ofBase?_text (hname : isUtilityName utility.name = true) (hvalue : '-' ∉ utility.value) :
    ofBase? utility.text = some utility := by
  rw [ofBase?_eq_some_iff, splitSign_text hname]
  exact ⟨rfl, Text.splitLast_append_cons hvalue, hname⟩

/-- A base is what its parts are put together to. -/
theorem text_eq_of_ofBase? (hutility : ofBase? base = some utility) : utility.text = base := by
  obtain ⟨hnegative, hcut, -⟩ := ofBase?_eq_some_iff.mp hutility
  rw [text, sign, hnegative, ← Text.splitLast_eq_some hcut, sign_append_splitSign]

end SignedUtility

namespace Resolution

variable {name : Text}

/-- The longest utility that a base with a plain value begins with is its name. -/
theorem longestUtility?_append {tables : Tables} {value : Text}
    (hname : name ∈ tables.properties.keys) (hne : value ≠ []) (hvalue : '-' ∉ value) :
    longestUtility? tables (name ++ '-' :: value) = some (name, value) := by
  have hkeep : (!value.isEmpty && tables.properties.contains name) = true := by
    rw [Bool.and_eq_true, Bool.not_eq_true', List.isEmpty_eq_false_iff]
    exact ⟨hne, OrderedMap.contains_iff.mpr hname⟩
  simp only [longestUtility?, Text.cuts_append_cons hvalue, List.filter_append, List.filter_cons,
    List.filter_nil, hkeep, if_true, List.getLast?_concat]

theorem ofArbitrary?_eq (ctx : Context) (base : Text) :
    ofArbitrary? ctx base =
      (longestUtility? ctx.tables (splitSign base).2).bind fun cut =>
        (ctx.tables.properties.get? cut.1).bind fun properties =>
          (arbitraryValue? cut.2).bind fun value =>
            ofArbitraryValue? ctx (splitSign base).1 cut.1 properties value := rfl

/-- A plain number is a run of digits and a unit. -/
theorem exists_digits_of_readNumber? {value unit : Text} {number : Nat}
    (hread : readNumber? value = some (number, unit)) :
    ∃ digits, isDigits digits = true ∧ unit ∈ numberUnits ∧ value = digits ++ unit := by
  unfold readNumber? at hread
  split at hread
  rename_i digits rest hspan
  split at hread
  · cases hread
  · rename_i hwritten
    dsimp only at hread
    split at hread
    · cases hread
      rw [Bool.or_eq_true, Bool.not_eq_true', not_or, List.isEmpty_iff, Bool.not_eq_false,
        List.contains_iff_mem] at hwritten
      obtain ⟨hdigits, heq⟩ := eq_append_of_spanDigits hspan hwritten.1
      exact ⟨digits, hdigits, hwritten.2, heq⟩
    · cases hread

theorem arbitraryValue?_of_head? {raw : Text} (hopen : raw.head? ≠ some '[') :
    arbitraryValue? raw =
      if raw.any fun c => "[]|:/".toList.contains c then none else some raw := by
  have hnone : Text.after? ['['] raw = none := by
    refine Option.eq_none_iff_forall_ne_some.mpr fun rest hafter => hopen ?_
    rw [Text.after?_eq_some_iff] at hafter
    rw [hafter]
    rfl
  rw [arbitraryValue?, hnone]
  rfl

end Resolution

end UtilityCss
