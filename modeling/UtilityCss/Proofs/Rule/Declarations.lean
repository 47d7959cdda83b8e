import UtilityCss.Proofs.Rule.Reading

/-!
The shape of the rules that tokens have.  A rule never consists of defaults alone: the one default
there is comes with the offset that asks for it.  Its declarations are complete lines, and the text
of an at-rule can be told from the text of a selector.
-/

namespace UtilityCss

theorem Declaration.getLast?_render (declaration : Declaration) :
    declaration.render.getLast? = some ';' := by
  rw [render, List.getLast?_concat]

theorem mediaRule_head? (media : Text) : (mediaRule media).head? = some '@' := by
  unfold mediaRule
  split
  · rename_i rest hstart
    rw [Text.trim, hstart]
    exact Text.head?_trimEnd rest rfl
  · rfl

namespace Resolution

variable {ctx : Context} {base utility color : Text} {resolution : Resolution}

/-- No declaration of a resolution is a default. -/
def IsExplicit (resolution : Resolution) : Prop :=
  ∀ declaration ∈ resolution.declarations, declaration.overridable = false

theorem isExplicit_ofValue (properties : List Text) (value : Text) :
    (ofValue properties value).IsExplicit := by
  intro declaration hdeclaration
  obtain ⟨property, -, rfl⟩ := List.mem_map.mp hdeclaration
  rfl

theorem isExplicit_ofKeyword? (hread : ofKeyword? ctx base = some resolution) :
    resolution.IsExplicit := by
  obtain ⟨block, -, rfl⟩ := Option.map_eq_some_iff.mp hread
  intro declaration hdeclaration
  obtain ⟨part, -, hpart⟩ := List.mem_filterMap.mp hdeclaration
  obtain ⟨⟨before, after⟩, -, hparts⟩ := Option.bind_eq_some_iff.mp hpart
  simp only at hparts
  split at hparts
  · cases hparts
  · cases hparts
    rfl

theorem isExplicit_ofFraction? (hread : ofFraction? ctx base = some resolution) :
    resolution.IsExplicit := by
  simp only [ofFraction?, bind, Option.bind_eq_some_iff, Option.some.injEq] at hread
  obtain ⟨_, _, _, _, _, _, _, _, _, _, _, _, rfl⟩ := hread
  exact isExplicit_ofValue _ _

theorem isExplicit_ofNumber? (hread : ofNumber? ctx base = some resolution) :
    resolution.IsExplicit := by
  simp only [ofNumber?, bind, Option.bind_eq_some_iff, Option.some.injEq] at hread
  obtain ⟨_, _, _, _, _, _, rfl⟩ := hread
  exact isExplicit_ofValue _ _

theorem isExplicit_gradientStop? {declarations : List Declaration}
    (hstop : gradientStop? utility color = some declarations) :
    ∀ declaration ∈ declarations, declaration.overridable = false := by
  unfold gradientStop? at hstop
  split at hstop
  · cases hstop
    simp
  · split at hstop
    · cases hstop
      simp
    · split at hstop
      · cases hstop
        simp
      · cases hstop

theorem isExplicit_ofArbitraryValue? {negative : Bool} {properties : List Text} {value : Text}
    (hread : ofArbitraryValue? ctx negative utility properties value = some resolution) :
    resolution.IsExplicit := by
  unfold ofArbitraryValue? at hread
  simp only at hread
  split at hread
  · obtain ⟨declarations, hstop, rfl⟩ := Option.map_eq_some_iff.mp hread
    obtain ⟨color, -, hstop⟩ := Option.bind_eq_some_iff.mp hstop
    exact isExplicit_gradientStop? hstop
  · split at hread
    · split at hread
      · cases hread
        intro declaration hdeclaration
        rw [List.mem_singleton.mp hdeclaration]
      · cases hread
        exact isExplicit_ofValue _ _
    · cases hread
      exact isExplicit_ofValue _ _

theorem isExplicit_ofArbitrary? (hread : ofArbitrary? ctx base = some resolution) :
    resolution.IsExplicit := by
  simp only [ofArbitrary?, bind, Option.bind_eq_some_iff] at hread
  obtain ⟨_, _, _, _, _, _, hread⟩ := hread
  exact isExplicit_ofArbitraryValue? hread

/-- Whatever reading applies to a base, none declares a default. -/
theorem isExplicit_firstReading? (hread : firstReading? ctx base = some resolution) :
    resolution.IsExplicit := by
  simp only [firstReading?, Option.orElse_eq_orElse, Option.orElse_eq_or,
    Option.or_eq_some_iff] at hread
  rcases hread with hread | ⟨-, hread | ⟨-, hread | ⟨-, hread⟩⟩⟩
  · exact isExplicit_ofKeyword? hread
  · exact isExplicit_ofFraction? hread
  · exact isExplicit_ofNumber? hread
  · exact isExplicit_ofArbitrary? hread

/-- The position that an offset brings along. -/
def defaultPosition : Declaration :=
  { property := "position".toList, value := "relative".toList, overridable := true }

theorem exists_firstReading?_of_ofBase? (hread : ofBase? ctx base = some resolution) :
    ∃ plain, firstReading? ctx base = some plain ∧ plain.withPosition = resolution := by
  unfold ofBase? at hread
  split at hread
  · cases hread
  · exact Option.map_eq_some_iff.mp hread

/-- A resolution stays as it is, or it has an offset and no position and gets the default one. -/
theorem withPosition_cases (resolution : Resolution) :
    resolution.withPosition = resolution ∨
      resolution.declarations ≠ [] ∧
        (∀ declaration ∈ resolution.declarations, declaration.property ≠ "position".toList) ∧
        resolution.withPosition =
          { resolution with declarations := defaultPosition :: resolution.declarations } := by
  unfold withPosition
  dsimp only
  split
  · rename_i hoffset
    simp only [Bool.and_eq_true, Bool.not_eq_true', List.any_eq_true, List.any_eq_false,
      decide_eq_true_eq] at hoffset
    obtain ⟨⟨declaration, hdeclaration, -⟩, hunpositioned⟩ := hoffset
    exact .inr ⟨List.ne_nil_of_mem hdeclaration, hunpositioned, rfl⟩
  · exact .inl rfl

/-- The default position is the only default, and it stands beside no other position. -/
theorem eq_defaultPosition_of_overridable (hread : ofBase? ctx base = some resolution)
    {default : Declaration} (hdefault : default ∈ resolution.declarations)
    (hoverridable : default.overridable = true) :
    default = defaultPosition ∧
      ∀ declaration ∈ resolution.declarations, declaration.overridable = false →
        declaration.property ≠ "position".toList := by
  obtain ⟨plain, hplain, rfl⟩ := exists_firstReading?_of_ofBase? hread
  have hexplicit : default ∉ plain.declarations := fun hmem => by
    rw [isExplicit_firstReading? hplain default hmem] at hoverridable
    cases hoverridable
  rcases plain.withPosition_cases with hkept | ⟨-, hunpositioned, hadded⟩
  · rw [hkept] at hdefault
    exact absurd hdefault hexplicit
  · rw [hadded] at hdefault ⊢
    refine ⟨(List.mem_cons.mp hdefault).resolve_right hexplicit, ?_⟩
    intro declaration hdeclaration hplain
    rcases List.mem_cons.mp hdeclaration with rfl | hmem
    · cases hplain
    · exact hunpositioned declaration hmem

/-- A default position only joins an offset, so something explicit is always declared. -/
theorem exists_explicit (hread : ofBase? ctx base = some resolution)
    (hne : resolution.declarations ≠ []) :
    ∃ declaration ∈ resolution.declarations, declaration.overridable = false := by
  obtain ⟨plain, hplain, rfl⟩ := exists_firstReading?_of_ofBase? hread
  have hexplicit := isExplicit_firstReading? hplain
  rcases plain.withPosition_cases with hkept | ⟨hplainNe, -, hadded⟩
  · rw [hkept] at hne ⊢
    obtain ⟨declaration, hdeclaration⟩ := List.exists_mem_of_ne_nil _ hne
    exact ⟨declaration, hdeclaration, hexplicit declaration hdeclaration⟩
  · obtain ⟨declaration, hdeclaration⟩ := List.exists_mem_of_ne_nil _ hplainNe
    rw [hadded]
    exact ⟨declaration, List.mem_cons_of_mem _ hdeclaration, hexplicit declaration hdeclaration⟩

end Resolution

namespace Rule

variable {ctx : Context} {raw : Text} {rule : Rule} {rules : List Rule}

/-- What a block may count on: the rule declares something, its declarations are complete, and its
at-rules start with the mark that its selectors do not start with. -/
structure IsOrderly (rule : Rule) : Prop where
  declarations_ne_nil : rule.declarations ≠ []
  getLast?_declaration : ∀ declaration ∈ rule.declarations, declaration.getLast? = some ';'
  getLast?_fallback : ∀ fallback ∈ rule.fallbacks, fallback.getLast? = some ';'
  head?_atRule : ∀ atRule ∈ rule.atRules, atRule.head? = some '@'
  head?_ancestor : rule.ancestor.head? ≠ some '@'

theorem head?_ancestorOf (importance : Importance) (dark : Bool) :
    (ancestorOf importance dark).head? ≠ some '@' := by
  cases importance <;> cases dark <;> decide

theorem getLast?_of_mem_map_render {declarations : List Declaration} :
    ∀ text ∈ declarations.map Declaration.render, text.getLast? = some ';' := by
  intro text htext
  obtain ⟨declaration, -, rfl⟩ := List.mem_map.mp htext
  exact declaration.getLast?_render

theorem isOrderly_ofParsed? {token : ParsedToken} (hrule : ofParsed? ctx token = some rule) :
    rule.IsOrderly := by
  obtain ⟨resolution, hresolution, hne, rfl⟩ := ofParsed?_eq_some_iff.mp hrule
  obtain ⟨declaration, hdeclaration, hexplicit⟩ := Resolution.exists_explicit hresolution hne
  refine ⟨?_, getLast?_of_mem_map_render, getLast?_of_mem_map_render, ?_, head?_ancestorOf _ _⟩
  · have hmem : declaration ∈ resolution.declarations.filter fun d => !d.overridable := by
      simp [hdeclaration, hexplicit]
    have hexplicits := List.ne_nil_of_mem hmem
    rw [ofResolution, ne_eq, List.map_eq_nil_iff]
    split
    · rwa [List.map_eq_nil_iff]
    · exact hexplicits
  · intro atRule hatRule
    simp only [ofResolution, Option.mem_toList, Option.map_eq_some_iff] at hatRule
    obtain ⟨media, -, rfl⟩ := hatRule
    exact mediaRule_head? media

/-- An at-rule more keeps a rule in order. -/
theorem IsOrderly.under (horderly : rule.IsOrderly) {outer : Option Text}
    (houter : ∀ atRule ∈ outer, atRule.head? = some '@') : (rule.under outer).IsOrderly := by
  unfold Rule.under
  split
  · split
    · exact horderly
    · refine { horderly with head?_atRule := ?_ }
      intro atRule hatRule
      rcases List.mem_cons.mp hatRule with rfl | hrest
      · exact houter atRule rfl
      · exact horderly.head?_atRule atRule hrest
  · exact horderly

/-- The rules of a token, when it has some, are not the empty list. -/
theorem ofToken?_ne_nil (hrules : ofToken? ctx raw = some rules) : rules ≠ [] :=
  (ofToken?_eq_some_iff.mp hrules).1

theorem isOrderly_of_mem_ofToken? (hrules : ofToken? ctx raw = some rules)
    (hrule : rule ∈ rules) : rule.IsOrderly := by
  obtain ⟨reading, -, inner, hinner, rfl⟩ := exists_reading_of_mem hrules hrule
  refine (isOrderly_ofParsed? hinner).under fun atRule hatRule => ?_
  obtain ⟨media, -, rfl⟩ := Option.map_eq_some_iff.mp hatRule
  exact mediaRule_head? media

end Rule

end UtilityCss
