import UtilityCss.Proofs.Resolution.Cut
import UtilityCss.Proofs.Rule.Declarations

/-!
Plain numbers on the spacing scale.  A utility with a plain number declares as many pixels as the
number has steps, up to the largest number that a plain number may be.  A longer run of digits is no
plain number, and the utility takes it for a value of any other kind.
-/

namespace UtilityCss

namespace Resolution

variable {ctx : Context} {name digits : Text} {properties : List Text} {utility : SignedUtility}

/-- A run of digits is a plain number without a unit, if it is not too long. -/
theorem readNumber?_of_isDigits (hdigits : isDigits digits = true) :
    readNumber? digits =
      if digitsValue digits ≤ numberLimit then some (digitsValue digits, []) else none := by
  have hspan : spanDigits digits = (digits, []) := by
    have hnil : spanDigits (digits ++ []) = (digits, []) :=
      spanDigits_of_isDigits hdigits fun _ hc => nomatch hc
    rwa [List.append_nil] at hnil
  have hread : ¬ (digits.isEmpty || !numberUnits.contains []) = true := by
    have hunit : numberUnits.contains [] = true := by decide
    rw [hunit, Bool.not_true, Bool.or_false, List.isEmpty_iff]
    exact (isDigits_iff.mp hdigits).1
  rw [readNumber?, hspan]
  exact if_neg hread

/-- A utility whose plain numbers are lengths: no transform, no opacity, and no number that stands
for itself. -/
structure IsLengthUtility (name : Text) : Prop where
  isName : isUtilityName name = true
  transform?_eq : transform? name = none
  ne_opacity : name ≠ "opacity".toList
  not_unitless : name ∉ unitlessUtilities

theorem numericValue_of_isLengthUtility {multiplier : UInt32} {sign : Text} {number : Nat}
    (hname : IsLengthUtility name) :
    numericValue multiplier name sign number [] = lengthValue multiplier sign number [] := by
  have hunitless : ¬ unitlessUtilities.contains name = true := by
    rw [List.contains_iff_mem]
    exact hname.not_unitless
  have hunit : ¬ (!([] : Text).isEmpty) = true := by decide
  rw [numericValue, hname.transform?_eq]
  dsimp only
  rw [if_neg hunit, if_neg hname.ne_opacity, if_neg hunitless]

/-- A fraction has a slash in it. -/
theorem ofFraction?_eq_none_of_isDigits {base : Text}
    (hutility : SignedUtility.ofBase? base = some utility)
    (hdigits : isDigits utility.value = true) : ofFraction? ctx base = none := by
  have hslash : Text.splitFirst '/' utility.value = none :=
    Text.splitFirst_eq_none_iff.mpr (notMem_of_isDigits hdigits (by decide))
  simp only [ofFraction?, hutility, hslash, Option.bind_eq_bind, Option.bind_some, Option.bind_none]

/-- A run of digits has no character that only a bracket keeps. -/
theorem arbitraryValue?_of_isDigits (hdigits : isDigits digits = true) :
    arbitraryValue? digits = some digits := by
  have hopen : digits.head? ≠ some '[' := fun hhead =>
    notMem_of_isDigits hdigits (show Char.isDigit '[' = false by decide)
      (List.mem_of_head? hhead)
  have hplain : ¬ (digits.any fun c => "[]|:/".toList.contains c) = true := by
    rw [List.any_eq_true]
    rintro ⟨c, hc, hreserved⟩
    have hnone : ∀ c ∈ "[]|:/".toList, c.isDigit = false := by simp
    exact notMem_of_isDigits hdigits (hnone c (List.contains_iff_mem.mp hreserved)) hc
  rw [arbitraryValue?_of_head? hopen, if_neg hplain]

/-- A run of digits has no dash, so the base of a utility with one is cut in front of it. -/
theorem ofBase?_text_of_isDigits (hname : IsLengthUtility utility.name)
    (hdigits : isDigits utility.value = true) :
    SignedUtility.ofBase? utility.text = some utility :=
  SignedUtility.ofBase?_text hname.isName (notMem_of_isDigits hdigits (by decide))

/-- A run of digits that is not too long is a length on the spacing scale. -/
theorem ofNumber?_of_le (hname : IsLengthUtility utility.name)
    (hproperties : ctx.tables.properties.get? utility.name = some properties)
    (hdigits : isDigits utility.value = true) (hlimit : digitsValue utility.value ≤ numberLimit) :
    ofNumber? ctx utility.text =
      some (ofValue properties
        (lengthValue ctx.pixelMultiplier utility.sign (digitsValue utility.value) [])) := by
  simp only [ofNumber?, ofBase?_text_of_isDigits hname hdigits, hproperties,
    readNumber?_of_isDigits hdigits, if_pos hlimit, Option.bind_eq_bind, Option.bind_some,
    numericValue_of_isLengthUtility hname]

theorem ofNumber?_of_lt (hname : IsLengthUtility utility.name)
    (hdigits : isDigits utility.value = true) (hlimit : numberLimit < digitsValue utility.value) :
    ofNumber? ctx utility.text = none := by
  simp only [ofNumber?, ofBase?_text_of_isDigits hname hdigits, readNumber?_of_isDigits hdigits,
    if_neg (Nat.not_le_of_lt hlimit), Option.bind_eq_bind, Option.bind_some, Option.bind_none,
    Option.bind_fun_none]

/-- A utility with a run of digits is read as a plain number, or else as any other value. -/
theorem ofBase?_of_isDigits (hname : IsLengthUtility utility.name)
    (hdigits : isDigits utility.value = true)
    (hkeyword : ctx.tables.keywords.get? utility.text = none) :
    ofBase? ctx utility.text =
      ((ofNumber? ctx utility.text).or (ofArbitrary? ctx utility.text)).map withPosition := by
  have hne : ¬ utility.text.isEmpty = true := by
    rw [List.isEmpty_iff, SignedUtility.text]
    simp
  rw [ofBase?, if_neg hne, firstReading?, ofKeyword?, hkeyword,
    ofFraction?_eq_none_of_isDigits (ofBase?_text_of_isDigits hname hdigits) hdigits]
  simp only [Option.map_none, Option.orElse_eq_orElse, Option.orElse_eq_or, Option.none_or]

/-- A run of digits that is too long for a plain number is a value like any other. -/
theorem ofBase?_of_lt (hname : IsLengthUtility utility.name)
    (hproperties : ctx.tables.properties.get? utility.name = some properties)
    (hdigits : isDigits utility.value = true)
    (hkeyword : ctx.tables.keywords.get? utility.text = none)
    (hlimit : numberLimit < digitsValue utility.value) :
    ofBase? ctx utility.text =
      (ofArbitraryValue? ctx utility.negative utility.name properties utility.value).map
        withPosition := by
  have hlongest := @longestUtility?_append utility.name ctx.tables utility.value
    (OrderedMap.mem_keys_iff.mpr ⟨properties, hproperties⟩) (isDigits_iff.mp hdigits).1
    (notMem_of_isDigits hdigits (by decide))
  rw [ofBase?_of_isDigits hname hdigits hkeyword, ofNumber?_of_lt hname hdigits hlimit,
    Option.none_or, ofArbitrary?_eq, SignedUtility.splitSign_text hname.isName]
  dsimp only
  rw [hlongest, Option.bind_some, hproperties, Option.bind_some,
    arbitraryValue?_of_isDigits hdigits, Option.bind_some]

/-- A length utility with a plain number declares pixels for each of its properties: none for zero,
and else the number times the pixels per step, or the largest number where that is more, with the
sign of the base. -/
theorem ofBase?_plainNumber (hname : IsLengthUtility utility.name)
    (hproperties : ctx.tables.properties.get? utility.name = some properties)
    (hdigits : isDigits utility.value = true)
    (hkeyword : ctx.tables.keywords.get? utility.text = none)
    (hlimit : digitsValue utility.value ≤ numberLimit) :
    ofBase? ctx utility.text =
      some (ofValue properties
        (if digitsValue utility.value = 0 then "0px".toList
        else utility.sign ++
          decimal (min (digitsValue utility.value * ctx.pixelMultiplier.toNat) numberLimit)
            ++ "px".toList)).withPosition := by
  have hunit : ¬ (!([] : Text).isEmpty) = true := by decide
  rw [ofBase?_of_isDigits hname hdigits hkeyword,
    ofNumber?_of_le hname hproperties hdigits hlimit, Option.some_or, Option.map_some, lengthValue,
    if_neg hunit]

/-- A negative offset with leading zeros, which brings a default position along. -/
theorem ofBase?_plainNumber_offset :
    let tables := Tables.empty.setProperty "left".toList ["left".toList]
    let ctx : Context := { tables, pixelMultiplier := 5 }
    let utility : SignedUtility := ⟨true, "left".toList, "0012".toList⟩
    utility.text = "-left-0012".toList ∧ IsLengthUtility utility.name ∧
      ctx.tables.properties.get? utility.name = some ["left".toList] ∧
      isDigits utility.value = true ∧ ctx.tables.keywords.get? utility.text = none ∧
      digitsValue utility.value ≤ numberLimit ∧
      ofBase? ctx utility.text =
        some
          { declarations :=
              [defaultPosition, { property := "left".toList, value := "-60px".toList }] } := by
  intro tables ctx utility
  have hname : IsLengthUtility utility.name :=
    ⟨by decide, by decide, by decide, by decide⟩
  have hproperties : ctx.tables.properties.get? utility.name = some ["left".toList] := by
    decide +kernel
  have hkeyword : ctx.tables.keywords.get? utility.text = none := by decide +kernel
  have hlimit : digitsValue utility.value ≤ numberLimit := by decide
  refine ⟨rfl, hname, hproperties, by decide, hkeyword, hlimit, ?_⟩
  rw [ofBase?_plainNumber hname hproperties (by decide) hkeyword hlimit]
  decide +kernel

/-- A number of steps that is in range while the number of pixels is not. -/
theorem ofBase?_saturated :
    let ctx : Context := {}
    let number := 4611686018427387904
    let utility : SignedUtility := ⟨false, "p".toList, decimal number⟩
    IsLengthUtility utility.name ∧
      ctx.tables.properties.get? utility.name = some ["padding".toList] ∧
      ctx.tables.keywords.get? utility.text = none ∧
      ofBase? ctx utility.text = some (ofValue ["padding".toList] "18446744073709551615px".toList) ∧
      decimal (number * ctx.pixelMultiplier.toNat) ++ "px".toList =
        "18446744073709551616px".toList := by
  intro ctx number utility
  exact ⟨⟨by decide, by decide, by decide, by decide⟩, by decide +kernel, by decide +kernel,
    by decide +kernel, by decide +kernel⟩

end Resolution

end UtilityCss
