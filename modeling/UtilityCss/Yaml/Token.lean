import UtilityCss.Yaml.Scalar

/-!
The tokens of YAML text.  Indentation becomes tokens of its own, and a key that is only recognised by
the colon behind it gets its tokens at the place where it began.  Documents with anchors, aliases or
tags are not supported and have no tokens.
-/

namespace UtilityCss.Yaml

inductive Token where
  /-- The version of YAML that a directive names. -/
  | version (major minor : Nat)
  | documentStart
  | documentEnd
  | blockSequenceStart
  | blockMappingStart
  | blockEnd
  | flowSequenceStart
  | flowSequenceEnd
  | flowMappingStart
  | flowMappingEnd
  | blockEntry
  | flowEntry
  | key
  | value
  /-- A scalar with its value, and whether it was written without quotes and block indicator. -/
  | scalar (text : Text) (plain : Bool)
deriving DecidableEq, Repr

/-- A place that may turn out to begin a key. -/
structure PendingKey where
  /-- Whether nothing but a key may stand there. -/
  required : Bool
  /-- How many tokens come before it. -/
  tokenCount : Nat
  index : Nat
  line : Nat
  column : Nat
deriving Repr

/-- A scan of a text in progress. -/
structure Scan where
  cursor : Cursor
  tokens : List Token := []
  /-- The column of the innermost block collection; `-1` outside of all. -/
  indentation : Int := -1
  outerIndentations : List Int := []
  /-- Whether a key may begin here. -/
  keyAllowed : Bool := true
  pending : Option PendingKey := none
  /-- The pending keys outside of the open brackets, the innermost first. -/
  outerPending : List (Option PendingKey) := []

namespace Scan

/-- Whether the cursor is inside brackets. -/
def inFlow (scan : Scan) : Bool := !scan.outerPending.isEmpty

def emit (scan : Scan) (token : Token) : Scan :=
  { scan with tokens := scan.tokens ++ [token] }

def insertAt (scan : Scan) (position : Nat) (token : Token) : Scan :=
  { scan with tokens := scan.tokens.take position ++ token :: scan.tokens.drop position }

def skip (scan : Scan) (count : Nat) : Scan :=
  { scan with cursor := scan.cursor.skip count }

/-- Go to the next token: over spaces, over tabs where no key may begin, over comments and line
breaks, and over the mark of byte order at the start of a line. -/
def toNextToken : (steps : Nat) → Scan → Scan
  | 0, scan => scan
  | steps + 1, scan =>
      let cursor := if scan.cursor.column = 0 && scan.cursor.peek = some '\ufeff'
        then scan.cursor.skip 1 else scan.cursor
      let tabs := scan.inFlow || !scan.keyAllowed
      let cursor := (cursor.takeWhile fun c => c = ' ' || (tabs && c = '\t')).2
      let cursor := if cursor.peek = some '#' then (cursor.takeWhile fun c => !isBreak c).2
        else cursor
      if cursor.nextIs isBreak then
        toNextToken steps
          { scan with
            cursor := cursor.takeBreak.2
            keyAllowed := scan.keyAllowed || !scan.inFlow }
      else { scan with cursor }

/-- How many bytes a key may be away from its colon. -/
def keyLength : Nat := 1024

/-- Whether a pending key can no longer be one: its colon must follow soon and on its line. -/
def isStale (cursor : Cursor) (key : PendingKey) : Bool :=
  key.line < cursor.line || key.index + keyLength < cursor.index

/-- Give up a pending key that is stale; a required one must not be. -/
def dropStaleKey (cursor : Cursor) : Option PendingKey → Option (Option PendingKey)
  | some key =>
      if isStale cursor key then if key.required then none else some none else some (some key)
  | none => some none

def dropStaleKeys (scan : Scan) : Option Scan := do
  let pending ← dropStaleKey scan.cursor scan.pending
  let outerPending ← scan.outerPending.mapM (dropStaleKey scan.cursor)
  some { scan with pending, outerPending }

/-- End the block collections that are indented more than a column. -/
def endBlocks (column : Int) (scan : Scan) : Scan :=
  if scan.inFlow then scan
  else
    let rec close : List Int → Scan → Scan
      | [], scan => scan
      | outer :: outers, scan =>
          if scan.indentation > column then
            close outers
              { scan.emit .blockEnd with indentation := outer, outerIndentations := outers }
          else scan
    close scan.outerIndentations scan

/-- Begin a block collection, if a column is indented more than the innermost one; its token goes to
a position. -/
def beginBlock (column : Nat) (position : Nat) (token : Token) (scan : Scan) : Scan :=
  if scan.inFlow || (column : Int) ≤ scan.indentation then scan
  else
    { scan.insertAt position token with
      indentation := column
      outerIndentations := scan.indentation :: scan.outerIndentations }

/-- Give up the pending key; a required one must not be given up. -/
def removeKey (scan : Scan) : Option Scan :=
  match scan.pending with
  | some key => if key.required then none else some { scan with pending := none }
  | none => some scan

/-- Remember that a key may begin here. -/
def saveKey (scan : Scan) : Option Scan :=
  if scan.keyAllowed then
    (removeKey scan).map fun scan =>
      { scan with
        pending := some
          { required := !scan.inFlow && scan.indentation = scan.cursor.column
            tokenCount := scan.tokens.length
            index := scan.cursor.index
            line := scan.cursor.line
            column := scan.cursor.column } }
  else some scan

/-- A mark between documents. -/
def documentMark (token : Token) (scan : Scan) : Option Scan :=
  (removeKey (scan.endBlocks (-1))).map fun scan =>
    ({ scan with keyAllowed := false }.skip 3).emit token

/-- A character of the name of a directive. -/
def isNameCharacter (c : Char) : Bool :=
  c.isAlphanum || c = '-' || c = '_'

/-- A part of a version, of at most nine digits. -/
def versionPart? (cursor : Cursor) : Option (Nat × Cursor) :=
  let (digits, after) := cursor.takeWhile Char.isDigit
  if digits.length ≤ 9 then (readDigits digits).map fun number => (number, after) else none

/-- A directive, which may only name the version. -/
def directive (scan : Scan) : Option Scan := do
  let scan ← removeKey (scan.endBlocks (-1))
  let (name, cursor) := (scan.cursor.skip 1).takeWhile isNameCharacter
  if name ≠ "YAML".toList || !cursor.isBoundary 0 then none
  else
    let (major, cursor) ← versionPart? (cursor.takeWhile isSpaceOrTab).2
    if cursor.peek ≠ some '.' then none
    else
      let (minor, cursor) ← versionPart? (cursor.skip 1)
      let cursor ← cursor.endLine?
      some ({ scan with keyAllowed := false, cursor }.emit (.version major minor))

/-- An opening bracket. -/
def openFlow (token : Token) (scan : Scan) : Option Scan :=
  (saveKey scan).map fun scan =>
    ({ scan with
        pending := none
        outerPending := scan.pending :: scan.outerPending
        keyAllowed := true }.skip 1).emit token

/-- A closing bracket. -/
def closeFlow (token : Token) (scan : Scan) : Option Scan :=
  (removeKey scan).map fun scan =>
    let outer : Scan := match scan.outerPending with
      | pending :: outerPending => { scan with pending, outerPending }
      | [] => scan
    ({ outer with keyAllowed := false }.skip 1).emit token

/-- A comma inside brackets. -/
def flowEntry (scan : Scan) : Option Scan :=
  (removeKey scan).map fun scan => ({ scan with keyAllowed := true }.skip 1).emit .flowEntry

/-- The dash of a block sequence. -/
def blockEntry (scan : Scan) : Option Scan :=
  if !scan.inFlow && !scan.keyAllowed then none
  else
    (removeKey
      (scan.beginBlock scan.cursor.column scan.tokens.length .blockSequenceStart)).map
      fun scan => ({ scan with keyAllowed := true }.skip 1).emit .blockEntry

/-- The question mark in front of a key. -/
def explicitKey (scan : Scan) : Option Scan :=
  if !scan.inFlow && !scan.keyAllowed then none
  else
    (removeKey
      (scan.beginBlock scan.cursor.column scan.tokens.length .blockMappingStart)).map
      fun scan => ({ scan with keyAllowed := !scan.inFlow }.skip 1).emit .key

/-- The colon in front of a value. -/
def value (scan : Scan) : Option Scan :=
  match scan.pending with
  | some key =>
      let keyed := (scan.insertAt key.tokenCount .key).beginBlock key.column key.tokenCount
        .blockMappingStart
      some (({ keyed with pending := none, keyAllowed := false }.skip 1).emit .value)
  | none =>
      if !scan.inFlow && !scan.keyAllowed then none
      else
        let begun := scan.beginBlock scan.cursor.column scan.tokens.length .blockMappingStart
        some (({ begun with keyAllowed := !scan.inFlow }.skip 1).emit .value)

/-- A literal or folded block scalar. -/
def blockScalar (literal : Bool) (scan : Scan) : Option Scan := do
  let scan ← removeKey scan
  let (text, cursor) ← scanBlock literal scan.indentation (scan.cursor.skip 1)
  some ({ scan with keyAllowed := true, cursor }.emit (.scalar text false))

/-- A quoted scalar. -/
def quotedScalar (quote : Char) (scan : Scan) : Option Scan := do
  let scan ← saveKey scan
  let (text, cursor) ← scanQuoted quote (scan.cursor.rest.length + 1) [] (scan.cursor.skip 1)
  some ({ scan with keyAllowed := false, cursor }.emit (.scalar text false))

/-- A plain scalar. -/
def plainScalar (scan : Scan) : Option Scan := do
  let scan ← saveKey scan
  let scalar ← scanPlain scan.inFlow (scan.indentation + 1).toNat (scan.cursor.rest.length + 1) []
    {} scan.cursor
  some ({ scan with keyAllowed := scalar.broken, cursor := scalar.cursor }.emit
    (.scalar scalar.text true))

/-- The characters that no plain scalar begins with. -/
def indicators : Text :=
  "-?:,[]\x7b\x7d#&*!|>'\"%@\x60".toList

/-- Whether a plain scalar begins here. -/
def isPlainStart (scan : Scan) (c : Char) : Bool :=
  let cursor := scan.cursor
  !(isSpaceOrTab c || isBreak c || indicators.contains c)
    || (c = '-' && !cursor.rest[1]?.any isSpaceOrTab)
    || (!scan.inFlow && (c = '?' || c = ':') && !cursor.isBoundary 1)

/-- The token that begins with a character. -/
def tokenAt (c : Char) (scan : Scan) : Option Scan :=
  let cursor := scan.cursor
  if cursor.column = 0 && c = '%' then scan.directive
  else if cursor.isAtDocumentMark then
    scan.documentMark (if c = '-' then .documentStart else .documentEnd)
  else if c = '[' then scan.openFlow .flowSequenceStart
  else if c = '\x7b' then scan.openFlow .flowMappingStart
  else if c = ']' then scan.closeFlow .flowSequenceEnd
  else if c = '\x7d' then scan.closeFlow .flowMappingEnd
  else if c = ',' then scan.flowEntry
  else if c = '-' && cursor.isBoundary 1 then scan.blockEntry
  else if c = '?' && (scan.inFlow || cursor.isBoundary 1) then scan.explicitKey
  else if c = ':' && (scan.inFlow || cursor.isBoundary 1) then scan.value
  else if c = '|' && !scan.inFlow then scan.blockScalar true
  else if c = '>' && !scan.inFlow then scan.blockScalar false
  else if c = '\x27' || c = '"' then scan.quotedScalar c
  else if scan.isPlainStart c then scan.plainScalar
  else none

/-- Scan the rest of the text.  Every token takes at least one character. -/
def run : (steps : Nat) → Scan → Option (List Token)
  | 0, _ => none
  | steps + 1, scan => do
      let scan ← dropStaleKeys (toNextToken (scan.cursor.rest.length + 1) scan)
      let scan := scan.endBlocks scan.cursor.column
      match scan.cursor.peek with
      | some c => run steps (← scan.tokenAt c)
      | none => ((scan.endBlocks (-1)).removeKey).map Scan.tokens

end Scan

/-- The tokens of a text; `none` when it has none. -/
def tokens? (text : Text) : Option (List Token) :=
  if text.all isPrintable then Scan.run (text.length + 1) { cursor := { rest := text } } else none

end UtilityCss.Yaml
