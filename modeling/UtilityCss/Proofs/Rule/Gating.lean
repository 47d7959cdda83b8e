import UtilityCss.Compiler
import UtilityCss.Proofs.Rule.Reading
import UtilityCss.Proofs.Shortcut.Bucket

/-!
Rules that wait for the visibility class.  A rule does if its reading has the state, and a token that
has such a rule has the state itself, unless it is a shortcut or a breakpoint key holds the name.
-/

namespace UtilityCss

namespace Rule

variable {ctx : Context} {raw : Text} {rule : Rule} {rules : List Rule}

/-- Whether the selector of a rule asks for the visibility class. -/
def IsGated (rule : Rule) : Prop :=
  '.' :: visibleClass <:+: rule.suffix

instance (rule : Rule) : Decidable rule.IsGated :=
  inferInstanceAs (Decidable (_ <:+: _))

/-- No other fragment holds a class. -/
theorem eq_visible_of_dot_mem {state : PseudoState} (hdot : '.' ∈ state.selector) :
    state = .visible := by
  cases state <;> revert hdot <;> decide

theorem visibleClass_infix_suffixOf_iff {states : List PseudoState} :
    '.' :: visibleClass <:+: suffixOf states ↔ .visible ∈ states := by
  constructor
  · intro hinfix
    have hdot : '.' ∈ suffixOf states := hinfix.subset List.mem_cons_self
    rw [suffixOf, List.mem_append, List.mem_flatMap, List.mem_flatMap] at hdot
    rcases hdot with ⟨state, hstate, hdot⟩ | ⟨state, hstate, hdot⟩
    · exact eq_visible_of_dot_mem hdot ▸ (List.mem_filter.mp (List.mem_filter.mp hstate).1).1
    · exact eq_visible_of_dot_mem hdot ▸ (List.mem_filter.mp (List.mem_filter.mp hstate).1).1
  · intro hvisible
    have hplain : PseudoState.visible ∈
        (states.filter (· ≠ .dark)).filter fun state => !state.isElement :=
      List.mem_filter.mpr ⟨List.mem_filter.mpr ⟨hvisible, by decide⟩, by decide⟩
    obtain ⟨before, after, hsplit⟩ := List.append_of_mem hplain
    have hselector : PseudoState.visible.selector = '.' :: visibleClass := rfl
    rw [suffixOf, hsplit, List.flatMap_append, List.flatMap_cons, hselector]
    exact ((List.prefix_append _ _).isInfix.trans (List.suffix_append _ _).isInfix).trans
      (List.prefix_append _ _).isInfix

/-- A rule is gated if and only if the reading that it comes from has the state. -/
theorem isGated_iff {token : ParsedToken} {outer : Option Text} {inner : Rule}
    (hinner : ofParsed? ctx token = some inner) :
    (inner.under outer).IsGated ↔ .visible ∈ token.states := by
  rw [IsGated, suffix_under, suffix_ofParsed? hinner, visibleClass_infix_suffixOf_iff]

theorem visible_mem_states_of_isGated
    (hkeys : ∀ key ∈ ctx.breakpoints.keys, PseudoState.visible.name ∉ key.splitOn ':')
    (hrules : ofToken? ctx raw = some rules) (hrule : rule ∈ rules) (hgated : rule.IsGated) :
    .visible ∈ (ParsedToken.parse ctx.breakpoints raw).states := by
  obtain ⟨reading, hreading, inner, hinner, rfl⟩ := exists_reading_of_mem hrules hrule
  exact mem_states_of_mem_readings hkeys hreading ((isGated_iff hinner).mp hgated)

/-- The rules that a class compiles to: its own or those of the tokens of a shortcut. -/
def ofClass (ctx : Context) (name : Text) : List Rule :=
  if isDocumentToken name then []
  else if ctx.shortcuts.contains name then
    match ctx.shortcuts.expand name with
    | .ok tokens => ofTokens ctx tokens
    | .error _ => []
  else (ofToken? ctx name).getD []

/-- The text of rules: one on each line, or regrouped in the block of a shortcut. -/
def textOf (ctx : Context) (name : Text) (rules : List Rule) : Text :=
  if ctx.shortcuts.contains name then
    (rules.foldl Block.insert .empty).render (shortcutSelector name)
  else renderAll name rules

/-- What a class compiles to is the text of its rules, when it has any. -/
theorem css_outcome (ctx : Context) (name : Text) :
    (Compiler.outcome ctx name).css =
      if ofClass ctx name = [] then none else some (textOf ctx name (ofClass ctx name)) := by
  unfold Compiler.outcome ofClass textOf
  split
  · rfl
  · split
    · rw [shortcutText?]
      cases hexpand : ctx.shortcuts.expand name with
      | error cycle => rfl
      | ok tokens =>
          simp only [Except.map]
          have hempty : (blockOfTokens ctx tokens).isEmpty = true ↔ ofTokens ctx tokens = [] :=
            Block.isEmpty_ofRules_iff isOrderly_of_mem_ofTokens
          simp only [hempty]
          rfl
    · rw [styleText?]
      cases hrules : ofToken? ctx name with
      | none => rfl
      | some rules =>
          rw [Option.getD_some, if_neg (ofToken?_ne_nil hrules)]
          rfl

end Rule

end UtilityCss
