import UtilityCss.Json.Scan
import UtilityCss.Yaml.Cursor

/-!
The scalars of YAML text: plain, quoted and block ones.  Inside the first two a line break folds to a
space, and further breaks stay; a block keeps its breaks or folds them.  A reader fails with `none`,
and its steps are bounded by the length of the text.
-/

namespace UtilityCss.Yaml

/-- White space and line breaks between two parts of a scalar. -/
structure Gap where
  /-- Whether a line has ended in the gap. -/
  broken : Bool := false
  spaces : Text := []
  firstBreak : Text := []
  laterBreaks : Text := []
deriving Repr

/-- What a gap stands for in the value: its spaces, or its breaks with the first line feed folded. -/
def Gap.text (gap : Gap) : Text :=
  if !gap.broken then gap.spaces
  else if gap.firstBreak = ['\n'] then
    if gap.laterBreaks.isEmpty then [' '] else gap.laterBreaks
  else gap.firstBreak ++ gap.laterBreaks

/-- Read a gap.  A tab in front of `indentation` at the start of a line is refused. -/
def scanGap (indentation : Nat) : (steps : Nat) → Gap → Cursor → Option (Gap × Cursor)
  | 0, gap, cursor => some (gap, cursor)
  | steps + 1, gap, cursor =>
      match cursor.peek with
      | some c =>
          if isSpaceOrTab c then
            if gap.broken then
              if c = '\t' && cursor.column < indentation then none
              else scanGap indentation steps gap (cursor.skip 1)
            else
              scanGap indentation steps { gap with spaces := gap.spaces ++ [c] } (cursor.skip 1)
          else if isBreak c then
            let (text, below) := cursor.takeBreak
            if gap.broken then
              scanGap indentation steps { gap with laterBreaks := gap.laterBreaks ++ text } below
            else
              scanGap indentation steps { gap with broken := true, firstBreak := text } below
          else some (gap, cursor)
      | none => some (gap, cursor)

/-- A character that ends a plain scalar inside brackets. -/
def isFlowMark (c : Char) : Bool :=
  ",[]\x7b\x7d".toList.contains c

/-- A run of a plain scalar without white space.  Inside brackets a colon in front of a mark is
refused. -/
def plainRun (flow : Bool) : (steps : Nat) → Text → Cursor → Option (Text × Cursor)
  | 0, run, cursor => some (run, cursor)
  | steps + 1, run, cursor =>
      match cursor.rest with
      | [] => some (run, cursor)
      | c :: rest =>
          if isSpaceOrTab c || isBreak c then some (run, cursor)
          else if flow && c = ':' && rest.head?.any (fun d => isFlowMark d || d = '?') then none
          else if c = ':' && cursor.isBoundary 1 then some (run, cursor)
          else if flow && isFlowMark c then some (run, cursor)
          else plainRun flow steps (run ++ [c]) (cursor.skip 1)

/-- A scalar with what the reader needs to know of its end. -/
structure PlainScalar where
  text : Text
  /-- Whether a line has ended behind the scalar. -/
  broken : Bool
  cursor : Cursor

/-- A plain scalar from one of its runs on.  Outside of brackets it ends at a line that is indented
less than `indentation`. -/
def scanPlain (flow : Bool) (indentation : Nat) :
    (steps : Nat) → (text : Text) → Gap → Cursor → Option PlainScalar
  | 0, text, gap, cursor => some ⟨text, gap.broken, cursor⟩
  | steps + 1, text, gap, cursor =>
      if cursor.isAtDocumentMark || cursor.peek = some '#' then some ⟨text, gap.broken, cursor⟩
      else
        match plainRun flow (cursor.rest.length + 1) [] cursor with
        | none => none
        | some (run, after) =>
            let joined := if run.isEmpty then text else text ++ gap.text ++ run
            let open' : Gap := if run.isEmpty then gap else {}
            if after.nextIs fun c => isSpaceOrTab c || isBreak c then
              match scanGap indentation (after.rest.length + 1) open' after with
              | none => none
              | some (gap, next) =>
                  if !flow && next.column < indentation then some ⟨joined, gap.broken, next⟩
                  else scanPlain flow indentation steps joined gap next
            else some ⟨joined, open'.broken, after⟩

/-- The number of digits of an escape by code point. -/
def escapeDigits? (c : Char) : Option Nat :=
  if c = 'x' then some 2 else if c = 'u' then some 4 else if c = 'U' then some 8 else none

/-- The characters that escapes by a letter stand for. -/
def letterEscapes : List (Char × Char) :=
  [('0', '\x00'), ('a', '\x07'), ('b', '\x08'), ('t', '\t'), ('\t', '\t'), ('n', '\n'),
    ('v', '\x0b'), ('f', '\x0c'), ('r', '\r'), ('e', '\x1b'), (' ', ' '), ('"', '"'), ('/', '/'),
    ('\\', '\\'), ('N', '\u0085'), ('_', '\u00a0'), ('L', '\u2028'), ('P', '\u2029')]

/-- The character with a code point that is given in hexadecimal digits. -/
def codePoint? (digits : Text) : Option Char := do
  let values ← digits.mapM Json.hexValue?
  let code := values.foldl (fun code value => 16 * code + value) 0
  if code ≤ 0x10FFFF && !(0xD800 ≤ code && code ≤ 0xDFFF) then some (Char.ofNat code) else none

/-- The character that an escape behind its backslash stands for, and its length. -/
def escape? : Text → Option (Char × Nat)
  | [] => none
  | c :: rest =>
      match escapeDigits? c with
      | some count =>
          if rest.length < count then none
          else (codePoint? (rest.take count)).map fun character => (character, count + 1)
      | none => (letterEscapes.lookup c).map fun character => (character, 1)

/-- A run of a quoted scalar without white space, and whether an escaped line break has ended it. -/
def quotedRun (quote : Char) : (steps : Nat) → Text → Cursor → Option (Text × Bool × Cursor)
  | 0, run, cursor => some (run, false, cursor)
  | steps + 1, run, cursor =>
      match cursor.rest with
      | [] => some (run, false, cursor)
      | c :: rest =>
          if isSpaceOrTab c || isBreak c then some (run, false, cursor)
          else if quote = '\x27' && c = '\x27' && rest.head? = some '\x27' then
            quotedRun quote steps (run ++ [c]) (cursor.skip 2)
          else if c = quote then some (run, false, cursor)
          else if quote = '"' && c = '\\' then
            if rest.head?.any isBreak then some (run, true, (cursor.skip 1).takeBreak.2)
            else
              match escape? rest with
              | some (character, length) =>
                  quotedRun quote steps (run ++ [character]) (cursor.skip (length + 1))
              | none => none
          else quotedRun quote steps (run ++ [c]) (cursor.skip 1)

/-- A quoted scalar behind its opening quote. -/
def scanQuoted (quote : Char) : (steps : Nat) → (text : Text) → Cursor → Option (Text × Cursor)
  | 0, _, _ => none
  | steps + 1, text, cursor =>
      if cursor.isAtDocumentMark || cursor.rest.isEmpty then none
      else
        match quotedRun quote (cursor.rest.length + 1) [] cursor with
        | none => none
        | some (run, broken, after) =>
            if after.peek = some quote then some (text ++ run, after.skip 1)
            else
              match scanGap 0 (after.rest.length + 1) { broken } after with
              | none => none
              | some (gap, next) => scanQuoted quote steps (text ++ run ++ gap.text) next

/-- What becomes of the line breaks at the end of a block scalar. -/
inductive Chomping where
  | strip
  | clip
  | keep
deriving DecidableEq, Repr

/-- How the header of a block scalar marks its chomping. -/
def chomping? (c : Char) : Option Chomping :=
  if c = '-' then some .strip else if c = '+' then some .keep else none

/-- The header of a block scalar behind its indicator: chomping and indentation in either order, both
optional, and nothing else but a comment on the line. -/
def blockHeader (cursor : Cursor) : Option (Chomping × Option Nat × Cursor) := do
  let chompingAt (cursor : Cursor) := cursor.peek.bind chomping?
  let digitAt (cursor : Cursor) := if cursor.nextIs Char.isDigit then cursor.peek else none
  let (chomping, digit, after) :=
    match chompingAt cursor with
    | some chomping =>
        match digitAt (cursor.skip 1) with
        | some digit => (chomping, some digit, cursor.skip 2)
        | none => (chomping, none, cursor.skip 1)
    | none =>
        match digitAt cursor with
        | some digit =>
            match chompingAt (cursor.skip 1) with
            | some chomping => (chomping, some digit, cursor.skip 2)
            | none => (.clip, some digit, cursor.skip 1)
        | none => (.clip, none, cursor)
  let below ← after.endLine?
  if digit = some '0' then none
  else some (chomping, digit.map fun c => c.toNat - 48, below)

/-- The empty lines in front of a line of a block scalar, and the indentation.  Unless it is known it
is that of the line, or of the longest empty one, but at least one more than the surrounding one. -/
def blockBreaks (parent : Int) :
    (steps : Nat) → Option Nat → (longest : Nat) → (breaks : Text) → Cursor →
      Option (Nat × Text × Cursor)
  | 0, _, _, _, _ => none
  | steps + 1, indentation, longest, breaks, cursor =>
      let spaces := (cursor.rest.takeWhile (· = ' ')).length
      let cursor := cursor.skip <|
        match indentation with
        | some width => min spaces (width - cursor.column)
        | none => spaces
      let longest := max longest cursor.column
      let isShort := match indentation with
        | some width => decide (cursor.column < width)
        | none => true
      if isShort && cursor.peek = some '\t' then none
      else if cursor.nextIs isBreak then
        let (text, below) := cursor.takeBreak
        blockBreaks parent steps indentation longest (breaks ++ text) below
      else
        let found := max (max longest (parent + 1).toNat) 1
        some (indentation.getD found, breaks, cursor)

/-- The lines of a block scalar with the breaks between them, and the breaks behind the last line. -/
def blockLines (literal : Bool) (parent : Int) (indentation : Nat) :
    (steps : Nat) → (text lineBreak laterBreaks : Text) → (leadingBlank : Bool) → Cursor →
      Option (Text × Text × Text × Cursor)
  | 0, _, _, _, _, _ => none
  | steps + 1, text, lineBreak, laterBreaks, leadingBlank, cursor =>
      if cursor.column ≠ indentation || cursor.rest.isEmpty then
        some (text, lineBreak, laterBreaks, cursor)
      else
        let blank := cursor.nextIs isSpaceOrTab
        let folds := !literal && lineBreak = ['\n'] && !leadingBlank && !blank
        let joined :=
          if !folds then lineBreak else if laterBreaks.isEmpty then [' '] else []
        let (line, after) := cursor.takeWhile fun c => !isBreak c
        let (nextBreak, below) := after.takeBreak
        match blockBreaks parent (below.rest.length + 1) (some indentation) 0 [] below with
        | some (_, breaks, next) =>
            blockLines literal parent indentation steps (text ++ joined ++ laterBreaks ++ line)
              nextBreak breaks blank next
        | none => none

/-- A block scalar behind its indicator, inside an indentation of `parent`. -/
def scanBlock (literal : Bool) (parent : Int) (cursor : Cursor) : Option (Text × Cursor) := do
  let (chomping, increment, cursor) ← blockHeader cursor
  let indentation := increment.map fun width => (max parent 0).toNat + width
  let (indentation, breaks, cursor) ←
    blockBreaks parent (cursor.rest.length + 1) indentation 0 [] cursor
  let (text, lineBreak, laterBreaks, cursor) ←
    blockLines literal parent indentation (cursor.rest.length + 1) [] [] breaks false cursor
  let lastBreak := if chomping = .strip then [] else lineBreak
  let keptBreaks := if chomping = .keep then laterBreaks else []
  some (text ++ lastBreak ++ keptBreaks, cursor)

end UtilityCss.Yaml
