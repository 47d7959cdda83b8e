import UtilityCss.Compiler
import UtilityCss.Proofs.Shortcut.Bucket

/-!
The spacing scale and the existence of rules.  The number of pixels per step only appears in values,
so whether a class has a rule does not depend on it.
-/

namespace UtilityCss

/-- The same context with another number of pixels per step. -/
def Context.atScale (ctx : Context) (multiplier : UInt32) : Context :=
  { ctx with pixelMultiplier := multiplier }

variable {ctx : Context} {multiplier : UInt32}

@[simp]
theorem Context.tables_atScale : (ctx.atScale multiplier).tables = ctx.tables := rfl

@[simp]
theorem Context.breakpoints_atScale : (ctx.atScale multiplier).breakpoints = ctx.breakpoints := rfl

@[simp]
theorem Context.shortcuts_atScale : (ctx.atScale multiplier).shortcuts = ctx.shortcuts := rfl

namespace Resolution

theorem isEmpty_withPosition (resolution : Resolution) :
    resolution.withPosition.declarations.isEmpty = resolution.declarations.isEmpty := by
  rcases resolution.withPosition_cases with hkept | ⟨hne, -, hadded⟩
  · rw [hkept]
  · rw [hadded, List.isEmpty_cons, eq_comm, List.isEmpty_eq_false_iff]
    exact hne

/-- A plain number declares as many properties at one scale as at another. -/
theorem isEmpty_ofNumber?_atScale (base : Text) :
    (ofNumber? (ctx.atScale multiplier) base).map (·.declarations.isEmpty) =
      (ofNumber? ctx base).map (·.declarations.isEmpty) := by
  unfold ofNumber?
  cases SignedUtility.ofBase? base with
  | none => rfl
  | some utility =>
      simp only [bind, Option.bind_some, Context.tables_atScale]
      cases ctx.tables.properties.get? utility.name with
      | none => rfl
      | some properties =>
          simp only [Option.bind_some]
          cases readNumber? utility.value with
          | none => rfl
          | some read => simp [ofValue]

/-- The readings before and after plain numbers do not know the scale. -/
theorem isEmpty_ofBase?_atScale (base : Text) :
    (ofBase? (ctx.atScale multiplier) base).map (·.declarations.isEmpty) =
      (ofBase? ctx base).map (·.declarations.isEmpty) := by
  have hkeyword : ofKeyword? (ctx.atScale multiplier) base = ofKeyword? ctx base := by
    rw [ofKeyword?, ofKeyword?, Context.tables_atScale]
  have hfraction : ofFraction? (ctx.atScale multiplier) base = ofFraction? ctx base := by
    rw [ofFraction?, ofFraction?, Context.tables_atScale]
  have harbitrary : ofArbitrary? (ctx.atScale multiplier) base = ofArbitrary? ctx base := by
    simp only [ofArbitrary?, ofArbitraryValue?, Context.tables_atScale]
  have hnumber : (ofNumber? (ctx.atScale multiplier) base).map (·.declarations.isEmpty) =
      (ofNumber? ctx base).map (·.declarations.isEmpty) := isEmpty_ofNumber?_atScale base
  unfold ofBase?
  split
  · rfl
  · simp only [Option.map_map, Function.comp_def, isEmpty_withPosition, firstReading?, hkeyword,
      hfraction, harbitrary]
    cases ofKeyword? ctx base with
    | some resolution => rfl
    | none =>
        cases ofFraction? ctx base with
        | some resolution => rfl
        | none =>
            cases hscaled : ofNumber? (ctx.atScale multiplier) base with
            | none =>
                rw [hscaled, Option.map_none, eq_comm, Option.map_eq_none_iff] at hnumber
                rw [hnumber]
            | some scaled =>
                rw [hscaled] at hnumber
                cases hplain : ofNumber? ctx base with
                | none => simp [hplain] at hnumber
                | some plain =>
                    rw [hplain] at hnumber
                    exact hnumber

end Resolution

namespace Rule

/-- A token has a rule exactly if its base declares something. -/
theorem isSome_ofParsed? (token : ParsedToken) :
    (ofParsed? ctx token).isSome =
      ((Resolution.ofBase? ctx token.base).map (·.declarations.isEmpty) == some false) := by
  rw [Bool.eq_iff_iff, Option.isSome_iff_exists]
  simp [ofParsed?_eq_some_iff]

theorem ofParsed?_eq_none_atScale (token : ParsedToken) :
    ofParsed? (ctx.atScale multiplier) token = none ↔ ofParsed? ctx token = none := by
  rw [← Option.isNone_iff_eq_none, ← Option.isNone_iff_eq_none, ← Option.not_isSome,
    ← Option.not_isSome, isSome_ofParsed?, isSome_ofParsed?, Resolution.isEmpty_ofBase?_atScale]

theorem ofFrontForm_eq_nil_atScale (raw : Text) :
    ofFrontForm (ctx.atScale multiplier) raw = [] ↔ ofFrontForm ctx raw = [] := by
  have hshorthand : ∀ token : ParsedToken,
      token.expandShorthand? (ctx.atScale multiplier) = token.expandShorthand? ctx := by
    intro token
    rw [ParsedToken.expandShorthand?, ParsedToken.expandShorthand?, Context.tables_atScale,
      Context.breakpoints_atScale]
  unfold ofFrontForm
  simp only [Context.breakpoints_atScale, hshorthand]
  split
  · simp only [List.filterMap_eq_nil_iff, Option.map_eq_none_iff, ofParsed?_eq_none_atScale]
  · simp only [Option.toList_eq_nil_iff, ofParsed?_eq_none_atScale]

/-- Whether a token has a rule does not depend on the scale. -/
theorem ofToken?_eq_none_atScale (raw : Text) :
    ofToken? (ctx.atScale multiplier) raw = none ↔ ofToken? ctx raw = none := by
  rw [ofToken?_eq_none_iff, ofToken?_eq_none_iff]
  exact ofFrontForm_eq_nil_atScale _

end Rule

/-- Whether a shortcut has a rule, or leads to a cycle, does not depend on the scale either. -/
theorem isSome_shortcutText?_atScale (name : Text) :
    (shortcutText? (ctx.atScale multiplier) name).map Option.isSome =
      (shortcutText? ctx name).map Option.isSome := by
  have hempty : ∀ tokens, (blockOfTokens (ctx.atScale multiplier) tokens).isEmpty =
      (blockOfTokens ctx tokens).isEmpty := by
    intro tokens
    rw [Bool.eq_iff_iff, isEmpty_blockOfTokens_iff, isEmpty_blockOfTokens_iff]
    simp only [Rule.ofToken?_eq_none_atScale]
  unfold shortcutText?
  rw [Context.shortcuts_atScale]
  cases ctx.shortcuts.expand name with
  | error cycle => simp only [Except.map]
  | ok tokens =>
      simp only [Except.map, hempty]
      split
      · rfl
      · simp only [Option.isSome_some]

namespace Compiler

/-- A class that has no rule at one scale has none at any other. -/
theorem outcome_eq_none_atScale (name : Text) :
    (outcome (ctx.atScale multiplier) name).css = none ↔ (outcome ctx name).css = none := by
  have hshortcut : (shortcutText? (ctx.atScale multiplier) name).map Option.isSome =
      (shortcutText? ctx name).map Option.isSome := isSome_shortcutText?_atScale name
  unfold outcome
  rw [Context.shortcuts_atScale]
  split
  · rfl
  · split
    · cases hscaled : shortcutText? (ctx.atScale multiplier) name with
      | error cycle =>
          cases hplain : shortcutText? ctx name with
          | error other => rfl
          | ok css => simp [hscaled, hplain, Except.map] at hshortcut
      | ok scaled =>
          cases hplain : shortcutText? ctx name with
          | error cycle => simp [hscaled, hplain, Except.map] at hshortcut
          | ok css =>
              simp only [hscaled, hplain, Except.map, Except.ok.injEq] at hshortcut
              simp only [← Option.isNone_iff_eq_none, ← Option.not_isSome, hshortcut]
    · simp [styleText?, Rule.ofToken?_eq_none_atScale]

end Compiler

end UtilityCss
