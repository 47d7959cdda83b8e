import UtilityCss.Text

/-!
A position in YAML text, with its line and column, and the classes of characters that matter there.
-/

namespace UtilityCss.Yaml

/-- A space or a tab. -/
def isSpaceOrTab (c : Char) : Bool := c = ' ' || c = '\t'

/-- A line break of any kind. -/
def isBreak (c : Char) : Bool :=
  c = '\n' || c = '\r' || c = '\u0085' || c = '\u2028' || c = '\u2029'

/-- Whether a character may stand in a document at all. -/
def isPrintable (c : Char) : Bool :=
  let code := c.toNat
  code = 0x09 || code = 0x0A || code = 0x0D || (0x20 ≤ code && code ≤ 0x7E) || code = 0x85
    || (0xA0 ≤ code && code ≤ 0xFFFD) || 0x10000 ≤ code

structure Cursor where
  rest : Text
  /-- The bytes in front of the position. -/
  index : Nat := 0
  line : Nat := 0
  column : Nat := 0
deriving Repr

namespace Cursor

def peek (cursor : Cursor) : Option Char := cursor.rest.head?

/-- Whether the next character satisfies a test; false at the end. -/
def nextIs (cursor : Cursor) (test : Char → Bool) : Bool := cursor.peek.any test

/-- Whether a space, a tab, a line break or the end stands some characters ahead. -/
def isBoundary (cursor : Cursor) (ahead : Nat) : Bool :=
  match cursor.rest[ahead]? with
  | some c => isSpaceOrTab c || isBreak c
  | none => true

/-- Go forward inside a line. -/
def skip (cursor : Cursor) (count : Nat) : Cursor :=
  { cursor with
    rest := cursor.rest.drop count
    index := cursor.index + Text.byteCount (cursor.rest.take count)
    column := cursor.column + count }

/-- Take a line break.  Those of one line each count as a line feed; the separators of lines and
paragraphs stay. -/
def takeBreak (cursor : Cursor) : Text × Cursor :=
  let below (rest : Text) (bytes : Nat) : Cursor :=
    { rest, index := cursor.index + bytes, line := cursor.line + 1, column := 0 }
  match cursor.rest with
  | '\r' :: '\n' :: rest => (['\n'], below rest 2)
  | c :: rest =>
      if c = '\u2028' || c = '\u2029' then ([c], below rest c.utf8Size)
      else if isBreak c then (['\n'], below rest c.utf8Size)
      else ([], cursor)
  | [] => ([], cursor)

/-- The longest run of characters that satisfy a test. -/
def takeWhile (cursor : Cursor) (test : Char → Bool) : Text × Cursor :=
  let run := cursor.rest.takeWhile test
  (run, cursor.skip run.length)

/-- Go to the next line, when the rest of this one holds nothing but white space and a comment. -/
def endLine? (cursor : Cursor) : Option Cursor :=
  let cursor := (cursor.takeWhile isSpaceOrTab).2
  let cursor := if cursor.peek = some '#' then (cursor.takeWhile fun c => !isBreak c).2 else cursor
  if cursor.isBoundary 0 then some cursor.takeBreak.2 else none

/-- Whether a line starts here with one of the marks between documents. -/
def isAtDocumentMark (cursor : Cursor) : Bool :=
  cursor.column = 0 && cursor.isBoundary 3
    && ("---".toList.isPrefixOf cursor.rest || "...".toList.isPrefixOf cursor.rest)

end Cursor

end UtilityCss.Yaml
