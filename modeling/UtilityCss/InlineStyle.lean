import UtilityCss.Rule
import UtilityCss.Shortcut.Expansion

/-!
The inline style of a class: the declarations that hold for the element itself whatever the viewport,
the state of the element and its ancestors.  A later declaration of a property wins and moves to the
end, importance is dropped, and defaults only fill gaps.
-/

namespace UtilityCss

/-- The value of a declaration without its importance marks. -/
def withoutImportance (value : Text) : Text :=
  if hmark : (Text.before? Declaration.importantMark value).isSome then
    withoutImportance ((Text.before? Declaration.importantMark value).get hmark)
  else value.trimEnd
  termination_by value.length
  decreasing_by
    have hrest := Text.before?_eq_some_iff.mp (Option.some_get hmark).symm
    have hlength := congrArg List.length hrest
    have hlong : Declaration.importantMark.length = 10 := by decide
    simp only [List.length_append] at hlength
    omega

/-- Whether the declarations of a rule hold without any condition. -/
def Rule.isUnconditional (rule : Rule) : Bool :=
  rule.atRules.isEmpty && rule.suffix.isEmpty
    && (rule.ancestor.isEmpty || rule.ancestor = highSpecificityAncestor)

/-- Properties with values, the last write last. -/
abbrev InlineStyle := OrderedMap Text Text

namespace InlineStyle

/-- Write a declaration; an earlier one of the same property gives up its place. -/
def write (style : InlineStyle) (declaration : Declaration) : InlineStyle :=
  (style.erase declaration.property).insert declaration.property
    (withoutImportance declaration.value)

/-- The style that a list of rules sets, without its defaults. -/
def ofRules (rules : List Rule) : InlineStyle :=
  (rules.flatMap fun rule => Declaration.ofBlock rule.declarations.flatten).foldl write .empty

/-- The defaults of a list of rules, a later one in the place of an earlier one. -/
def defaultsOfRules (rules : List Rule) : InlineStyle :=
  (rules.flatMap fun rule => Declaration.ofBlock rule.fallbacks.flatten).foldl
    (fun style declaration => style.insert declaration.property declaration.value) .empty

/-- Defaults for the properties that a style does not set. -/
def fillFrom (defaults style : InlineStyle) : InlineStyle :=
  defaults.entries.foldl (fun style (property, value) => style.insertNew property value) style

/-- The inline style of a list of class tokens. -/
def ofTokens (ctx : Context) (tokens : List Text) : InlineStyle :=
  let rules := (tokens.flatMap fun token => (Rule.ofToken? ctx token).getD []).filter
    Rule.isUnconditional
  (defaultsOfRules rules).fillFrom (ofRules rules)

/-- The inline style of a class, which may be a shortcut. -/
def ofClass (ctx : Context) (name : Text) : Except ShortcutCycle InlineStyle :=
  if ctx.shortcuts.contains name then (ctx.shortcuts.expand name).map (ofTokens ctx)
  else .ok (ofTokens ctx [name])

end InlineStyle

end UtilityCss
