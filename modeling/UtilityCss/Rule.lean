import UtilityCss.Media
import UtilityCss.Resolution
import UtilityCss.Token.Shorthand

/-!
The rules of a class token.  Each has a chain of at-rules, an ancestor and a suffix around the class
selector, and declarations.  In a selector the characters of a class name that it reserves are
escaped.  Defaults of low priority go under a selector of zero specificity, so that an explicit rule
beats them whatever modifiers either token carries.
-/

namespace UtilityCss

/-- The characters that have a meaning of their own in a selector. -/
def reservedCharacters : Text :=
  ":.!/[]|@%#(),'\"+*&=<>~?$^;\x7b\x7d ".toList

/-- A character of a class name behind the first one. -/
def escapeCharacter (c : Char) : Text :=
  if reservedCharacters.contains c then ['\\', c] else [c]

/-- A class name as it stands in a selector: a digit in front is written as its code point, and
reserved characters are written behind a backslash. -/
def escapeClass : Text → Text
  | [] => []
  | c :: rest =>
      (if c.isDigit then "\\3".toList ++ [c, ' '] else escapeCharacter c)
        ++ rest.flatMap escapeCharacter

/-- The selector of a class. -/
def classSelector (name : Text) : Text :=
  '.' :: escapeClass name

/-- A selector inside `:where(…)`.  Pseudo-elements may not stand there and follow it. -/
def zeroSpecificitySelector (ancestor subject suffix : Text) : Text :=
  let (states, element) := match Text.splitFirstText "::".toList suffix with
    | some (states, element) => (states, "::".toList ++ element)
    | none => (suffix, [])
  ":where(".toList ++ ancestor ++ subject ++ states ++ ')' :: element

/-- The declarations of a token under one nesting path. -/
structure Rule where
  /-- At-rules around the rule, the outermost first. -/
  atRules : List Text := []
  /-- Selector text in front of the class. -/
  ancestor : Text := []
  /-- Selector text behind the class. -/
  suffix : Text := []
  /-- Rendered declarations. -/
  declarations : List Text := []
  /-- Rendered defaults. -/
  fallbacks : List Text := []
deriving DecidableEq, Repr, Inhabited

/-- The ancestors that raise a rule in specificity. -/
def highSpecificityAncestor : Text := "html body ".toList

namespace Rule

/-- The importance of a rule: a position keyword raises a token that asks for none. -/
def effectiveImportance (importance : Importance) (escalate : Bool) : Importance :=
  if importance = .normal && escalate then .highSpecificity else importance

/-- The selector text in front of the class. -/
def ancestorOf (importance : Importance) (dark : Bool) : Text :=
  (if importance = .highSpecificity then highSpecificityAncestor else [])
    ++ if dark then '.' :: darkClass ++ [' '] else []

/-- The fragments of the states behind the class, pseudo-elements last; `dark` stands in front. -/
def suffixOf (states : List PseudoState) : Text :=
  let fragments := states.filter (· ≠ .dark)
  (fragments.filter fun state => !state.isElement).flatMap PseudoState.selector
    ++ (fragments.filter PseudoState.isElement).flatMap PseudoState.selector

/-- The rule of a parsed token, taken as it is; `none` when it declares nothing. -/
def ofParsed? (ctx : Context) (token : ParsedToken) : Option Rule := do
  let resolution ← Resolution.ofBase? ctx token.base
  if resolution.declarations.isEmpty then none
  else
    let importance := effectiveImportance token.importance resolution.escalate
    let fallbacks := resolution.declarations.filter Declaration.overridable
    let explicit := resolution.declarations.filter fun d => !d.overridable
    let declarations :=
      if importance = .important then explicit.map Declaration.makeImportant else explicit
    some
      { atRules := ((token.breakpoint.bind ctx.breakpoints.get?).map mediaRule).toList
        ancestor := ancestorOf importance (token.hasState .dark)
        suffix := suffixOf token.states
        declarations := declarations.map Declaration.render
        fallbacks := fallbacks.map Declaration.render }

/-- A rule inside one more at-rule, unless that is its outermost one already. -/
def under (outer : Option Text) (rule : Rule) : Rule :=
  match outer with
  | some outer =>
      if rule.atRules.head? = some outer then rule
      else { rule with atRules := outer :: rule.atRules }
  | none => rule

/-- The rules of a token whose breakpoint suffix is already in front: one for each token of a fitting
shorthand, inside the breakpoint that the shorthand names itself, or its single rule. -/
def ofFrontForm (ctx : Context) (raw : Text) : List Rule :=
  let token := ParsedToken.parse ctx.breakpoints raw
  match token.expandShorthand? ctx with
  | some tokens =>
      let outer := (token.breakpoint.bind ctx.breakpoints.get?).map mediaRule
      tokens.filterMap fun raw =>
        (ofParsed? ctx (ParsedToken.parse ctx.breakpoints raw)).map (under outer)
  | none => (ofParsed? ctx token).toList

/-- The rules of a class token; `none` when it has no rule. -/
def ofToken? (ctx : Context) (raw : Text) : Option (List Rule) :=
  match ofFrontForm ctx ((breakpointToFront ctx.breakpoints raw).getD raw) with
  | [] => none
  | rules => some rules

/-- A selector or at-rule with its content on one line. -/
def braces (head content : Text) : Text :=
  head ++ " \x7b ".toList ++ content ++ " \x7d".toList

/-- A rule on one line under the class it belongs to, the defaults first, inside its at-rules. -/
def render (className : Text) (rule : Rule) : Text :=
  let subject := classSelector className
  let explicit := braces (rule.ancestor ++ subject ++ rule.suffix)
    ([' '].intercalate rule.declarations)
  let body :=
    if rule.fallbacks.isEmpty then explicit
    else
      braces (zeroSpecificitySelector rule.ancestor subject rule.suffix)
        ([' '].intercalate rule.fallbacks) ++ ' ' :: explicit
  rule.atRules.foldr braces body

/-- The rules of a class, one on each line. -/
def renderAll (className : Text) (rules : List Rule) : Text :=
  ['\n'].intercalate (rules.map (render className))

end Rule

/-- The style text of a class token; `none` when it has no rule. -/
def styleText? (ctx : Context) (raw : Text) : Option Text :=
  (Rule.ofToken? ctx raw).map (Rule.renderAll raw)

end UtilityCss
