import UtilityCss.Proofs.Rule.Scale
import UtilityCss.Proofs.Shortcut.InlineStyle
import UtilityCss.Proofs.Text.Trim

/-!
Declaration blocks written and read again.  What is read in a block is trimmed and holds no
separator, so writing it loses nothing, and a keyword token hands on the declarations that its block
reads as.
-/

namespace UtilityCss

namespace Declaration

variable {block : Text} {read : Declaration}

/-- What is read in a block is trimmed, is no default, and has no colon in its property. -/
theorem isTrimmed_of_mem_ofBlock (hread : read ∈ ofBlock block) :
    ':' ∉ read.property ∧ read.property.trim = read.property ∧ read.value.trim = read.value ∧
      read.overridable = false := by
  obtain ⟨part, -, hpart⟩ := List.mem_filterMap.mp hread
  obtain ⟨before, after, hsplit, -, -, rfl⟩ := ofPart?_eq_some_iff.mp hpart
  have hcolon : ':' ∉ before := (Text.splitFirst_eq_some hsplit).2
  exact ⟨fun hmem => hcolon (Text.mem_of_mem_trim hmem), Text.trim_trim before,
    Text.trim_trim after, rfl⟩

theorem ofText_render_of_mem_ofBlock (hread : read ∈ ofBlock block) :
    ofText read.render = read := by
  obtain ⟨hcolon, hproperty, hvalue, hexplicit⟩ := isTrimmed_of_mem_ofBlock hread
  obtain ⟨property, value, overridable⟩ := read
  rw [ofText_render _ hcolon]
  simp only at hproperty hvalue hexplicit ⊢
  rw [hproperty, hvalue, hexplicit]

/-- What is read in a block is plain once it is written. -/
theorem isPlain_render_of_mem_ofBlock (hread : read ∈ ofBlock block) : IsPlain read.render := by
  obtain ⟨hproperty, hne, hvalue, hvalueNe⟩ := of_mem_ofBlock hread
  have htext := ofText_render_of_mem_ofBlock hread
  have hdropLast : read.render.dropLast = read.property ++ ": ".toList ++ read.value := by
    rw [render, List.dropLast_concat]
  refine ⟨?_, ?_, ?_⟩
  · rw [hdropLast]
    exact List.not_mem_append (List.not_mem_append hproperty (by decide)) hvalue
  · rwa [show propertyOf read.render = read.property from congrArg property htext]
  · rwa [show valueOf read.render = read.value from congrArg value htext]

/-- A declaration that was read in a block is read again as it stands. -/
theorem ofBlock_render_of_mem_ofBlock (hread : read ∈ ofBlock block) :
    ofBlock read.render = [read] := by
  have hsingle := (ofBlock_eq_singleton_iff read.getLast?_render).mpr
    (isPlain_render_of_mem_ofBlock hread)
  rwa [ofText_render_of_mem_ofBlock hread] at hsingle

/-- Writing what a block declares and reading it again loses nothing. -/
theorem ofBlock_flatten_render_ofBlock (block : Text) :
    ofBlock ((ofBlock block).map render).flatten = ofBlock block := by
  calc ofBlock ((ofBlock block).map render).flatten
      = ((ofBlock block).map render).flatMap ofBlock :=
        ofBlock_flatten Rule.getLast?_of_mem_map_render
    _ = (ofBlock block).flatMap fun read => ofBlock read.render := List.flatMap_map ..
    _ = (ofBlock block).flatMap fun read => [read] :=
        List.flatMap_congr fun _ hread => ofBlock_render_of_mem_ofBlock hread
    _ = ofBlock block := List.flatMap_singleton' _

end Declaration

namespace Resolution

variable {ctx : Context} {base block : Text} {resolution : Resolution}

/-- A default position aside, a resolution keeps its declarations. -/
theorem explicit_withPosition (hexplicit : resolution.IsExplicit) :
    resolution.withPosition.declarations.filter (fun d => !d.overridable) =
      resolution.declarations := by
  have hall : resolution.declarations.filter (fun d => !d.overridable) = resolution.declarations :=
    List.filter_eq_self.mpr fun declaration hdeclaration => by
      rw [hexplicit declaration hdeclaration, Bool.not_false]
  rcases resolution.withPosition_cases with hkept | ⟨-, -, hadded⟩
  · rw [hkept, hall]
  · rw [hadded, List.filter_cons_of_neg (by decide), hall]

/-- No other reading comes before that of a keyword. -/
theorem ofBase?_of_keyword (hkeyword : ctx.tables.keywords.get? base = some block)
    (hbase : base ≠ []) :
    ∃ plain : Resolution, plain.IsExplicit ∧ plain.declarations = Declaration.ofBlock block ∧
      ofBase? ctx base = some plain.withPosition := by
  obtain ⟨plain, hplain⟩ : ∃ plain, ofKeyword? ctx base = some plain := by
    rw [ofKeyword?, hkeyword]
    exact ⟨_, rfl⟩
  refine ⟨plain, isExplicit_ofKeyword? hplain, ?_, ?_⟩
  · rw [ofKeyword?, hkeyword, Option.map_some, Option.some.injEq] at hplain
    rw [← hplain]
  · rw [ofBase?, if_neg (by rwa [List.isEmpty_iff]), firstReading?, hplain]
    rfl

theorem base_ne_nil (hread : ofBase? ctx base = some resolution) : base ≠ [] := by
  rintro rfl
  cases hread

end Resolution

namespace Rule

variable {ctx : Context} {token : ParsedToken} {block : Text} {rule : Rule}
  {resolution : Resolution}

/-- Only a token that is marked important changes what its base declares. -/
theorem declarations_ofResolution (himportance : token.importance ≠ .important) :
    (ofResolution ctx token resolution).declarations =
      (resolution.declarations.filter fun d => !d.overridable).map Declaration.render := by
  have heffective : effectiveImportance token.importance resolution.escalate ≠ .important := by
    unfold effectiveImportance
    split
    · decide
    · exact himportance
  rw [ofResolution]
  dsimp only
  rw [if_neg heffective]

/-- A keyword token has a rule as soon as something in its block reads as a declaration. -/
theorem exists_ofParsed?_of_keyword_iff
    (hkeyword : ctx.tables.keywords.get? token.base = some block) :
    (∃ rule, ofParsed? ctx token = some rule) ↔
      token.base ≠ [] ∧ Declaration.ofBlock block ≠ [] := by
  constructor
  · rintro ⟨rule, hrule⟩
    obtain ⟨resolution, hresolution, hne, -⟩ := ofParsed?_eq_some_iff.mp hrule
    have hbase := Resolution.base_ne_nil hresolution
    obtain ⟨plain, -, hplain, hread⟩ := Resolution.ofBase?_of_keyword hkeyword hbase
    obtain rfl := Option.some.inj (hresolution.symm.trans hread)
    rw [ne_eq, ← List.isEmpty_iff, Resolution.isEmpty_withPosition, List.isEmpty_iff, hplain] at hne
    exact ⟨hbase, hne⟩
  · rintro ⟨hbase, hblock⟩
    obtain ⟨plain, -, hplain, hread⟩ := Resolution.ofBase?_of_keyword hkeyword hbase
    refine ⟨_, ofParsed?_eq_some_iff.mpr ⟨_, hread, ?_, rfl⟩⟩
    rwa [ne_eq, ← List.isEmpty_iff, Resolution.isEmpty_withPosition, List.isEmpty_iff, hplain]

/-- Declaration blocks survive being written and read again: the declarations that are read in any
block, and those in the rule of a keyword token that is not marked important.  The latter are what
its base declares but for the default position, and what its block reads as; the token has the rule
as soon as this is not nothing. -/
theorem ofBlock_reads_back :
    (∀ block : Text,
      Declaration.ofBlock ((Declaration.ofBlock block).map Declaration.render).flatten =
        Declaration.ofBlock block) ∧
    ∀ (ctx : Context) (token : ParsedToken) (block : Text),
      ctx.tables.keywords.get? token.base = some block → token.importance ≠ .important →
      ((∃ rule, ofParsed? ctx token = some rule) ↔
        token.base ≠ [] ∧ Declaration.ofBlock block ≠ []) ∧
      ∀ rule, ofParsed? ctx token = some rule →
        ∃ resolution, Resolution.ofBase? ctx token.base = some resolution ∧
          Declaration.ofBlock rule.declarations.flatten =
            resolution.declarations.filter (fun d => !d.overridable) ∧
          Declaration.ofBlock rule.declarations.flatten = Declaration.ofBlock block := by
  refine ⟨Declaration.ofBlock_flatten_render_ofBlock, ?_⟩
  intro ctx token block hkeyword himportance
  refine ⟨exists_ofParsed?_of_keyword_iff hkeyword, fun rule hrule => ?_⟩
  obtain ⟨resolution, hresolution, -, rfl⟩ := ofParsed?_eq_some_iff.mp hrule
  obtain ⟨plain, hexplicit, hplain, hread⟩ :=
    Resolution.ofBase?_of_keyword hkeyword (Resolution.base_ne_nil hresolution)
  obtain rfl := Option.some.inj (hresolution.symm.trans hread)
  have hdeclared : plain.withPosition.declarations.filter (fun d => !d.overridable) =
      Declaration.ofBlock block := (Resolution.explicit_withPosition hexplicit).trans hplain
  have hblock :
      Declaration.ofBlock (ofResolution ctx token plain.withPosition).declarations.flatten =
        Declaration.ofBlock block := by
    rw [declarations_ofResolution himportance, hdeclared,
      Declaration.ofBlock_flatten_render_ofBlock]
  exact ⟨_, hresolution, hblock.trans hdeclared.symm, hblock⟩

/-- A keyword whose block has an empty part, a part without a property, a value with a colon, and an
offset, which brings a default position along. -/
theorem ofBlock_reads_back_pin :
    let block := " top :1px;; : 2px;background: url(a:b) ".toList
    let ctx : Context := { tables := Tables.builtin.setKeyword "pin".toList block }
    let token : ParsedToken := { base := "pin".toList, importance := .highSpecificity }
    ctx.tables.keywords.get? token.base = some block ∧ token.importance ≠ .important ∧
      ∃ rule, ofParsed? ctx token = some rule ∧
        rule.declarations = ["top: 1px;".toList, "background: url(a:b);".toList] ∧
        rule.fallbacks = ["position: relative;".toList] ∧
        Declaration.ofBlock rule.declarations.flatten =
          [{ property := "top".toList, value := "1px".toList },
            { property := "background".toList, value := "url(a:b)".toList }] := by
  intro block ctx token
  have hkeyword : ctx.tables.keywords.get? token.base = some block := by decide +kernel
  have himportance : token.importance ≠ .important := by decide
  obtain ⟨hrules, hread⟩ := ofBlock_reads_back.2 ctx token block hkeyword himportance
  obtain ⟨rule, hrule⟩ := hrules.mpr ⟨by decide, by decide +kernel⟩
  obtain ⟨-, -, -, hblock⟩ := hread rule hrule
  refine ⟨hkeyword, himportance, rule, hrule, ?_, ?_, ?_⟩
  · have hdeclarations : (ofParsed? ctx token).map Rule.declarations =
        some ["top: 1px;".toList, "background: url(a:b);".toList] := by decide +kernel
    rw [hrule] at hdeclarations
    exact Option.some.inj hdeclarations
  · have hfallbacks : (ofParsed? ctx token).map Rule.fallbacks =
        some ["position: relative;".toList] := by decide +kernel
    rw [hrule] at hfallbacks
    exact Option.some.inj hfallbacks
  · rw [hblock]
    decide +kernel

end Rule

end UtilityCss
