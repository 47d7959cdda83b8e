import UtilityCss.Text.Blank
import UtilityCss.Token.ParsedToken

/-!
Responsive shorthand: one token with one value per breakpoint.  `p-10|20` and `p-10:20` stand for
`p-10` at the first breakpoint and `p-20` at the second.  A token with a single breakpoint at its end,
`text-sm@m`, means `m:text-sm`.
-/

namespace UtilityCss

/-- Move a breakpoint from behind the last `@` to the front; `none` when there is none. -/
def breakpointToFront (breakpoints : Breakpoints) (raw : Text) : Option Text :=
  let (body, importance) := Importance.split raw
  match Text.splitLast '@' body with
  | some (token, key) =>
      if token.isEmpty || !breakpoints.contains key then none
      else some (key ++ ':' :: token ++ importance.suffix)
  | none => none

/-- The character that separates the values of a shorthand. -/
inductive ValueSeparator where
  | pipe
  | colon
deriving DecidableEq, Repr

/-- A utility with a value, `-m-4` or `bg-blue-500`: an optional minus, a name in lower case, a dash,
and a value without white space, colon or pipe. -/
def isUtilityWithValue (text : Text) : Bool :=
  let unsigned := (Text.after? ['-'] text).getD text
  match Text.splitFirst '-' unsigned with
  | some (first :: name, value) =>
      first.isLower && name.all (fun c => c.isLower || c.isDigit) && !value.isEmpty
        && value.all (fun c => !isBlank c && c ≠ ':' && c ≠ '|')
  | _ => false

/-- How the values of a base are separated, if it is written as a shorthand.  A value in brackets may
hold colons and pipes of its own, so a base with a bracket is none. -/
def valueSeparator? (base : Text) : Option ValueSeparator :=
  if base.contains '[' then none
  else if base.contains '|' then some .pipe
  else
    match Text.splitFirst ':' base with
    | some (head, _) =>
        if isUtilityWithValue head then some .colon else none
    | none => none

/-- Whether a separator may join this many values over this many breakpoints. -/
def ValueSeparator.fits (separator : ValueSeparator) (values breakpoints : Nat) : Bool :=
  match separator with
  | pipe => values = breakpoints
  | colon => 2 ≤ values && values ≤ breakpoints

/-- The values of a shorthand base, whichever separator it uses. -/
def shorthandValues (base : Text) : List Text :=
  base.splitOnP fun c => c = '|' || c = ':'

/-- The utility that a first value names: up to the first dash after which the text before is a known
property utility, else up to the last dash. -/
def utilityStem? (tables : Tables) (value : Text) : Option Text :=
  let (sign, unsigned) := match Text.after? ['-'] value with
    | some rest => (['-'], rest)
    | none => ([], value)
  match (Text.cuts '-' unsigned).find? fun cut => tables.properties.contains cut.1 with
  | some (name, _) => some (sign ++ name)
  | none => (Text.splitLast '-' value).map Prod.fst

/-- A value with the utility in front, unless it already starts with it. -/
def withStem (stem : Option Text) (value : Text) : Text :=
  match stem with
  | some stem =>
      let start := stem ++ ['-']
      if start.isPrefixOf value then value else start ++ value
  | none => value

/-- The values of a shorthand base that fits the breakpoints. -/
def fittingValues? (breakpoints : Breakpoints) (base : Text) : Option (List Text) :=
  match valueSeparator? base with
  | some separator =>
      let values := shorthandValues base
      if separator.fits values.length breakpoints.size then some values else none
  | none => none

/-- One token per breakpoint and value, empty values left out; `none` when the base is no shorthand
or has too many or too few values. -/
def ParsedToken.expandShorthand? (ctx : Context) (token : ParsedToken) : Option (List Text) :=
  (fittingValues? ctx.breakpoints token.base).map fun values =>
    let stem := values.head?.bind (utilityStem? ctx.tables)
    (ctx.breakpoints.keys.zip values).filterMap fun (key, value) =>
      if value.isEmpty then none
      else some (key ++ ':' :: token.statePrefix ++ withStem stem value ++ token.importance.suffix)

/-- The tokens that a raw token stands for: itself, unless it is a fitting shorthand. -/
def expandToken (ctx : Context) (raw : Text) : List Text :=
  ((ParsedToken.parse ctx.breakpoints raw).expandShorthand? ctx).getD [raw]

end UtilityCss
