import UtilityCss.Rule
import UtilityCss.Shortcut.Expansion

/-!
Rules of shortcuts: the rules of all tokens that a shortcut stands for, regrouped into one nested
block under the selector of the shortcut.  A block holds plain declarations, declarations under
nesting selectors, and inner blocks under at-rules.  Within one bucket a later declaration of a
property replaces an earlier one.
-/

namespace UtilityCss

/-- The property that a rendered declaration sets. -/
def propertyOf (declaration : Text) : Text :=
  match Text.splitFirst ':' declaration with
  | some (property, _) => property.trim
  | none => declaration

/-- Append a declaration and drop the earlier ones of the same property. -/
def mergeDeclaration (bucket : List Text) (declaration : Text) : List Text :=
  (bucket.filter fun existing => propertyOf existing ≠ propertyOf declaration) ++ [declaration]

/-- Append declarations one after the other. -/
def mergeDeclarations (bucket declarations : List Text) : List Text :=
  declarations.foldl mergeDeclaration bucket

/-- Declarations grouped by at-rules, and then by nesting selector. -/
structure Block where
  declarations : List Text
  nested : List (Text × List Text)
  atRules : List (Text × Block)

namespace Block

def empty : Block := ⟨[], [], []⟩

instance : Inhabited Block := ⟨empty⟩

def isEmpty (block : Block) : Bool :=
  block.declarations.isEmpty && block.nested.isEmpty && block.atRules.isEmpty

/-- Merge declarations into the bucket of a nesting selector; the empty selector is the block. -/
def addUnder (selector : Text) (declarations : List Text) (block : Block) : Block :=
  if selector.isEmpty then
    { block with declarations := mergeDeclarations block.declarations declarations }
  else
    { block with
      nested := Entries.alter selector
        (fun bucket => mergeDeclarations (bucket.getD []) declarations) block.nested }

/-- Change the block at the end of a chain of at-rules. -/
def changeAt (change : Block → Block) : List Text → Block → Block
  | [], block => change block
  | atRule :: chain, block =>
      { block with
        atRules := Entries.alter atRule
          (fun inner => changeAt change chain (inner.getD empty)) block.atRules }

/-- The nesting selector of a rule's declarations; empty when they belong to the element itself. -/
def selectorOf (rule : Rule) : Text :=
  if rule.ancestor.isEmpty && rule.suffix.isEmpty then [] else rule.ancestor ++ '&' :: rule.suffix

/-- Merge the defaults of a rule, if any, and then its declarations. -/
def addRule (rule : Rule) (block : Block) : Block :=
  let withFallbacks :=
    if rule.fallbacks.isEmpty then block
    else
      block.addUnder (zeroSpecificitySelector rule.ancestor ['&'] rule.suffix) rule.fallbacks
  withFallbacks.addUnder (selectorOf rule) rule.declarations

/-- Merge a rule under its at-rules. -/
def insert (block : Block) (rule : Rule) : Block :=
  changeAt (addRule rule) rule.atRules block

/-- A line that opens braces. -/
def openLine (indent head : Text) : Text :=
  indent ++ head ++ " \x7b".toList

/-- A line that closes them. -/
def closeLine (indent : Text) : Text :=
  indent ++ ['\x7d']

def indentation (depth : Nat) : Text :=
  List.replicate (2 * depth) ' '

/-- The lines of one nesting selector. -/
def nestedLines (depth : Nat) (selector : Text) (declarations : List Text) : List Text :=
  openLine (indentation depth) selector
    :: declarations.map (indentation (depth + 1) ++ ·) ++ [closeLine (indentation depth)]

mutual

/-- The lines of a block: declarations, nesting selectors, at-rules. -/
def lines (depth : Nat) : Block → List Text
  | ⟨declarations, nested, atRules⟩ =>
      declarations.map (indentation depth ++ ·)
        ++ nested.flatMap (fun (selector, bucket) => nestedLines depth selector bucket)
        ++ atRuleLines depth atRules

/-- The lines of the at-rules of a block. -/
def atRuleLines (depth : Nat) : List (Text × Block) → List Text
  | [] => []
  | (atRule, block) :: rest =>
      openLine (indentation depth) atRule
        :: lines (depth + 1) block ++ closeLine (indentation depth) :: atRuleLines depth rest

end

/-- A block under a selector. -/
def render (selector : Text) (block : Block) : Text :=
  ['\n'].intercalate (openLine [] selector :: block.lines 1 ++ [closeLine []])

end Block

/-- Whether a character may stand in an identifier. -/
def isIdentifierCharacter (c : Char) : Bool :=
  c.isAlpha || c.isDigit || c = '_' || c = '-'

/-- Whether a shortcut name is a plain class name: an optional minus, a letter or underscore, and then
letters, digits, underscores and dashes.  Any other name is selector text. -/
def isIdentifier (name : Text) : Bool :=
  match (Text.after? ['-'] name).getD name with
  | first :: rest => (first.isAlpha || first = '_') && rest.all isIdentifierCharacter
  | [] => false

/-- The selector of a shortcut's rule. -/
def shortcutSelector (name : Text) : Text :=
  if isIdentifier name then classSelector name else name.trim

/-- The nested block of a list of class tokens; tokens without a rule add nothing. -/
def blockOfTokens (ctx : Context) (tokens : List Text) : Block :=
  (tokens.flatMap fun token => (Rule.ofToken? ctx token).getD []).foldl Block.insert .empty

/-- The style text of a shortcut; nothing when none of its tokens has a rule. -/
def shortcutText? (ctx : Context) (name : Text) : Except ShortcutCycle (Option Text) :=
  (ctx.shortcuts.expand name).map fun tokens =>
    let block := blockOfTokens ctx tokens
    if block.isEmpty then none else some (block.render (shortcutSelector name))

end UtilityCss
