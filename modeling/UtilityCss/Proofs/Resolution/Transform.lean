import UtilityCss.Proofs.Resolution.Cut
import UtilityCss.Proofs.Rule.Declarations

/-!
What a transform utility declares.  A fraction and a plain number always come in the function of the
utility.  Any other value does so as well, unless it reads as a colour: that stands for itself,
without the function and without the sign of the base.
-/

namespace UtilityCss

section Color

variable {tables : Tables} {value : Text}

/-- What a colour starts with, or is, when it is not written in hexadecimal digits. -/
def colorWords : List Text :=
  colorFunctions ++ (wideColorKeywords ++ namedColorTexts)

theorem prefix_of_isColor (hcolor : isColor value = true) :
    value.asciiLower.head? = some '#' ∨ ∃ word ∈ colorWords, word <+: value.asciiLower := by
  unfold isColor at hcolor
  split at hcolor
  · rename_i digits hlower
    exact .inl (by rw [hlower]; rfl)
  · right
    simp only [Bool.or_eq_true, List.any_eq_true, List.isPrefixOf_iff_prefix,
      List.contains_iff_mem, or_assoc] at hcolor
    rcases hcolor with ⟨start, hstart, hprefix⟩ | hwide | hnamed
    · exact ⟨start, List.mem_append_left _ hstart, hprefix⟩
    · exact ⟨_, List.mem_append_right _ (List.mem_append_left _ hwide), List.prefix_rfl⟩
    · exact ⟨_, List.mem_append_right _ (List.mem_append_right _ hnamed), List.prefix_rfl⟩

theorem head?_of_mem_colorWords :
    ∀ word ∈ colorWords, word.head?.any (fun c => !c.isDigit) = true := by
  decide +kernel

/-- No colour starts with a digit. -/
theorem isColor_of_isDigit {c : Char} {rest : Text} (hdigit : c.isDigit = true) :
    isColor (c :: rest) = false := by
  have hlower : (Text.asciiLower (c :: rest)).head? = some c :=
    congrArg some (toLower_of_isDigit hdigit)
  rw [← Bool.not_eq_true]
  intro hcolor
  rcases prefix_of_isColor hcolor with hhash | ⟨word, hword, more, hmore⟩
  · obtain rfl : c = '#' := Option.some.inj (hlower.symm.trans hhash)
    exact absurd hdigit (by decide)
  · obtain ⟨head, hhead, hstart⟩ :=
      (Option.any_eq_true _ _).mp (head?_of_mem_colorWords word hword)
    rw [← hmore, List.head?_append, hhead, Option.some_or, Option.some.injEq] at hlower
    rw [hlower, hdigit] at hstart
    cases hstart

/-- What starts with a digit and has no dash is neither a colour nor an entry of the palette. -/
theorem colorValue?_of_isDigit {c : Char} {rest : Text} (hdigit : c.isDigit = true)
    (hdash : '-' ∉ c :: rest) : colorValue? tables (c :: rest) = none := by
  have hpalette : paletteColor? tables (c :: rest) = none := by
    rw [paletteColor?, Text.splitLast_eq_none hdash, Option.bind_none]
  rw [colorValue?, hpalette]
  simp only [isColor_of_isDigit hdigit, Bool.false_eq_true, if_false]

end Color

namespace Resolution

variable {ctx : Context} {base name raw : Text} {function : TransformFunction}
  {resolution : Resolution} {utility : SignedUtility}

/-- The colour that a value stands for as it is written, with or without brackets. -/
def writtenColor? (tables : Tables) (raw : Text) : Option Text :=
  (arbitraryValue? raw).bind (colorValue? tables)

/-- Digits, and what may follow them in a fraction or a plain number, stand for no colour. -/
theorem writtenColor?_of_isDigits {digits tail : Text} (hdigits : isDigits digits = true)
    (htail : '-' ∉ tail) (tables : Tables) : writtenColor? tables (digits ++ tail) = none := by
  have hdash : '-' ∉ digits ++ tail := fun hmem =>
    (List.mem_append.mp hmem).elim (notMem_of_isDigits hdigits (by decide)) htail
  obtain ⟨hne, hall⟩ := isDigits_iff.mp hdigits
  obtain ⟨c, rest, rfl⟩ := List.exists_cons_of_ne_nil hne
  have hdigit : c.isDigit = true := hall c List.mem_cons_self
  have hopen : (c :: rest ++ tail).head? ≠ some '[' := by
    rintro ⟨⟩
    exact absurd hdigit (by decide)
  rw [writtenColor?, arbitraryValue?_of_head? hopen]
  split
  · rfl
  · exact colorValue?_of_isDigit hdigit hdash

/-- The name and the written value that a base is cut into by the reading that applies to it, when
no keyword does. -/
def cutBase? (ctx : Context) (base : Text) : Option (Text × Text) :=
  if (ofFraction? ctx base).isSome || (ofNumber? ctx base).isSome then
    (SignedUtility.ofBase? base).map fun utility => (utility.name, utility.value)
  else longestUtility? ctx.tables (splitSign base).2

/-- What a transform utility declares for a written value: the colour that the value stands for, or
else its function of some argument. -/
def IsTransformed (tables : Tables) (function : TransformFunction) (raw : Text)
    (resolution : Resolution) : Prop :=
  ∃ properties argument,
    resolution = ofValue properties ((writtenColor? tables raw).getD (function.apply argument))

theorem wrapValue_of_transform? (htransform : transform? name = some function) (value : Text) :
    wrapValue name value = function.apply value := by
  rw [wrapValue, htransform]

theorem isTransformed_ofFraction? (htransform : transform? utility.name = some function)
    (hutility : SignedUtility.ofBase? base = some utility)
    (hread : ofFraction? ctx base = some resolution) :
    IsTransformed ctx.tables function utility.value resolution := by
  simp only [ofFraction?, hutility, Option.bind_eq_bind, Option.bind_some,
    Option.bind_eq_some_iff, Option.some.injEq] at hread
  obtain ⟨⟨numerator, denominator⟩, hsplit, properties, -, _, hnumerator, _, hdenominator, percent,
    -, rfl⟩ := hread
  have hcolor : writtenColor? ctx.tables utility.value = none := by
    rw [(Text.splitFirst_eq_some hsplit).1]
    have hslash : '-' ∉ '/' :: denominator :=
      List.not_mem_cons_of_ne_of_not_mem (by decide)
        (notMem_of_isDigits (isDigits_of_readDigits hdenominator) (by decide))
    exact writtenColor?_of_isDigits (isDigits_of_readDigits hnumerator) hslash ctx.tables
  refine ⟨properties, percent, ?_⟩
  rw [hcolor, Option.getD_none, wrapValue_of_transform? htransform]

theorem isTransformed_ofNumber? (htransform : transform? utility.name = some function)
    (hutility : SignedUtility.ofBase? base = some utility)
    (hread : ofNumber? ctx base = some resolution) :
    IsTransformed ctx.tables function utility.value resolution := by
  simp only [ofNumber?, hutility, Option.bind_eq_bind, Option.bind_some,
    Option.bind_eq_some_iff, Option.some.injEq] at hread
  obtain ⟨properties, -, ⟨number, unit⟩, hnumber, rfl⟩ := hread
  have hcolor : writtenColor? ctx.tables utility.value = none := by
    obtain ⟨digits, hdigits, hunit, heq⟩ := exists_digits_of_readNumber? hnumber
    have hplain : ∀ unit ∈ numberUnits, '-' ∉ unit := by decide
    rw [heq]
    exact writtenColor?_of_isDigits hdigits (hplain unit hunit) ctx.tables
  rw [IsTransformed, hcolor, numericValue, htransform]
  exact ⟨properties, _, rfl⟩

/-- A transform utility sets no gradient stop and no colour of text, which values are read for in a
way of their own. -/
theorem notMem_of_transform? (htransform : transform? name = some function) :
    name ∉ gradientUtilities ∧ name ≠ "text".toList := by
  obtain ⟨entry, hfind, -⟩ := Option.map_eq_some_iff.mp htransform
  have hname : entry.1 = name := by simpa using List.find?_some hfind
  have hall : ∀ entry ∈ transforms, entry.1 ∉ gradientUtilities ∧ entry.1 ≠ "text".toList := by
    decide
  exact hname ▸ hall entry (List.mem_of_find?_eq_some hfind)

theorem isTransformed_ofArbitrary? (htransform : transform? name = some function)
    (hcut : longestUtility? ctx.tables (splitSign base).2 = some (name, raw))
    (hread : ofArbitrary? ctx base = some resolution) :
    IsTransformed ctx.tables function raw resolution := by
  rw [ofArbitrary?_eq, hcut, Option.bind_some] at hread
  obtain ⟨properties, -, hread⟩ := Option.bind_eq_some_iff.mp hread
  obtain ⟨value, hvalue, hread⟩ := Option.bind_eq_some_iff.mp hread
  obtain ⟨hgradient, htext⟩ := notMem_of_transform? htransform
  rw [ofArbitraryValue?, if_neg (by rwa [List.contains_iff_mem])] at hread
  rw [IsTransformed, writtenColor?, hvalue, Option.bind_some]
  cases hcolor : colorValue? ctx.tables value with
  | some color =>
      rw [hcolor] at hread
      dsimp only at hread
      rw [if_neg htext] at hread
      cases hread
      exact ⟨properties, value, rfl⟩
  | none =>
      rw [hcolor] at hread
      dsimp only at hread
      rw [wrapValue_of_transform? htransform] at hread
      cases hread
      exact ⟨properties, _, rfl⟩

/-- The cut of a base goes with the reading that applies to it. -/
theorem isTransformed_firstReading? (htransform : transform? name = some function)
    (hkeyword : ctx.tables.keywords.get? base = none)
    (hcut : cutBase? ctx base = some (name, raw))
    (hread : firstReading? ctx base = some resolution) :
    IsTransformed ctx.tables function raw resolution := by
  have hnone : ofKeyword? ctx base = none := by rw [ofKeyword?, hkeyword, Option.map_none]
  simp only [firstReading?, hnone, Option.orElse_eq_orElse, Option.orElse_eq_or, Option.none_or,
    Option.or_eq_some_iff] at hread
  rcases hread with hfraction | ⟨hfraction, hnumber | ⟨hnumber, harbitrary⟩⟩
  · rw [cutBase?, hfraction, Option.isSome_some, Bool.true_or, if_pos rfl] at hcut
    obtain ⟨utility, hutility, ⟨⟩⟩ := Option.map_eq_some_iff.mp hcut
    exact isTransformed_ofFraction? htransform hutility hfraction
  · rw [cutBase?, hnumber, Option.isSome_some, Bool.or_true, if_pos rfl] at hcut
    obtain ⟨utility, hutility, ⟨⟩⟩ := Option.map_eq_some_iff.mp hcut
    exact isTransformed_ofNumber? htransform hutility hnumber
  · rw [cutBase?, hfraction, hnumber, Option.isSome_none, Bool.or_false,
      if_neg Bool.false_ne_true] at hcut
    exact isTransformed_ofArbitrary? htransform hcut harbitrary

/-- A transform utility declares its function of some argument, or the colour that its value stands
for, beside a default position at most. -/
theorem value_of_transform? {declaration : Declaration}
    (htransform : transform? name = some function)
    (hkeyword : ctx.tables.keywords.get? base = none)
    (hcut : cutBase? ctx base = some (name, raw))
    (hresolution : ofBase? ctx base = some resolution)
    (hdeclaration : declaration ∈ resolution.declarations) :
    declaration = defaultPosition ∨
      match writtenColor? ctx.tables raw with
      | none => ∃ argument, declaration.value = function.apply argument
      | some color => declaration.value = color := by
  obtain ⟨plain, hplain, rfl⟩ := exists_firstReading?_of_ofBase? hresolution
  have hplaced : declaration = defaultPosition ∨ declaration ∈ plain.declarations := by
    rcases plain.withPosition_cases with hkept | ⟨-, -, hadded⟩
    · rw [hkept] at hdeclaration
      exact .inr hdeclaration
    · rw [hadded] at hdeclaration
      exact List.mem_cons.mp hdeclaration
  refine hplaced.imp_right fun hmem => ?_
  obtain ⟨properties, argument, rfl⟩ :=
    isTransformed_firstReading? htransform hkeyword hcut hplain
  obtain ⟨property, -, rfl⟩ := List.mem_map.mp hmem
  cases writtenColor? ctx.tables raw with
  | none => exact ⟨argument, rfl⟩
  | some color => rfl

/-- A length in brackets, with the sign of the base written into the argument. -/
theorem value_of_transform?_translate :
    let tables := Tables.empty.setProperty "translate-x".toList ["transform".toList]
    let ctx : Context := { tables }
    let base := "-translate-x-[calc(1px_+_2px)]".toList
    let name := "translate-x".toList
    let raw := "[calc(1px_+_2px)]".toList
    let function : TransformFunction := ⟨"translateX".toList, .length⟩
    let declaration : Declaration :=
      { property := "transform".toList, value := "translateX(-calc(1px + 2px))".toList }
    transform? name = some function ∧ ctx.tables.keywords.get? base = none ∧
      cutBase? ctx base = some (name, raw) ∧
      ofBase? ctx base = some { declarations := [declaration] } ∧
      writtenColor? ctx.tables raw = none ∧
      ∃ argument, declaration.value = function.apply argument := by
  intro tables ctx base name raw function declaration
  have htransform : transform? name = some function := by decide
  have hkeyword : ctx.tables.keywords.get? base = none := rfl
  obtain ⟨hcut, hresolution, hcolor⟩ : cutBase? ctx base = some (name, raw) ∧
      ofBase? ctx base = some { declarations := [declaration] } ∧
      writtenColor? ctx.tables raw = none := by
    decide +kernel
  have hvalue := value_of_transform? htransform hkeyword hcut hresolution
    (List.mem_singleton_self declaration)
  rw [hcolor] at hvalue
  exact ⟨htransform, hkeyword, hcut, hresolution, hcolor, hvalue.resolve_left (by decide)⟩

/-- An angle that is a custom property reads as a colour, so nothing is left of the rotation. -/
theorem value_of_transform?_customProperty :
    let ctx : Context := {}
    let base := "rotate-[var(--angle)]".toList
    let value := "var(--angle)".toList
    let function : TransformFunction := ⟨"rotate".toList, .degrees⟩
    transform? "rotate".toList = some function ∧ ctx.tables.keywords.get? base = none ∧
      cutBase? ctx base = some ("rotate".toList, '[' :: value ++ [']']) ∧
      value ∉ wideColorKeywords ∧
      ofBase? ctx base = some (ofValue ["transform".toList] value) ∧
      ∀ argument, value ≠ function.apply argument := by
  intro ctx base value function
  obtain ⟨hkeyword, hcut, hwide, hresolution⟩ : ctx.tables.keywords.get? base = none ∧
      cutBase? ctx base = some ("rotate".toList, '[' :: value ++ [']']) ∧
      value ∉ wideColorKeywords ∧
      ofBase? ctx base = some (ofValue ["transform".toList] value) := by
    decide +kernel
  refine ⟨by decide, hkeyword, hcut, hwide, hresolution, fun argument heq => ?_⟩
  have hhead : some 'v' = some 'r' := congrArg List.head? heq
  exact absurd hhead (by decide)

end Resolution

end UtilityCss
