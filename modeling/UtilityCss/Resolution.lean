import UtilityCss.Color
import UtilityCss.Config
import UtilityCss.Number.Shortest
import UtilityCss.Text.Blank

/-!
What a base token declares.  A base is tried as a keyword (`flex`), a fraction (`w-1/3`), a plain
number (`p-4`, `w-50%`, `rotate-45`) and an arbitrary value (`w-[calc(100%_-_2rem)]`, `text-white`),
in this order, and the first reading that applies counts.  A base that none of them reads is simply
not a utility.  Keywords give their declarations as a block such as `display: flex;`, which is cut at
its semicolons.
-/

namespace UtilityCss

/-- One `property: value` pair. -/
structure Declaration where
  property : Text
  value : Text
  /-- A default of low priority, which importance leaves alone. -/
  overridable : Bool := false
deriving DecidableEq, Repr, Inhabited

namespace Declaration

/-- How an important value ends. -/
def importantMark : Text := "!important".toList

/-- Mark the value as important, once; an overridable default stays as it is. -/
def makeImportant (declaration : Declaration) : Declaration :=
  if declaration.overridable || importantMark.isSuffixOf declaration.value then declaration
  else { declaration with value := declaration.value ++ ' ' :: importantMark }

def render (declaration : Declaration) : Text :=
  declaration.property ++ ": ".toList ++ declaration.value ++ [';']

/-- Read one part of a block: property and value around the first colon, neither of them empty. -/
def ofPart? (part : Text) : Option Declaration :=
  (Text.splitFirst ':' part).bind fun (before, after) =>
    let property := before.trim
    let value := after.trim
    if property.isEmpty || value.isEmpty then none else some { property, value }

/-- The declarations of a block such as `display: flex; align-items: center;`, other parts left
out. -/
def ofBlock (block : Text) : List Declaration :=
  (block.splitOn ';').filterMap ofPart?

end Declaration

/-- The declarations of a base token. -/
structure Resolution where
  declarations : List Declaration
  /-- Set by a keyword that states a position: its rule is raised in specificity. -/
  escalate : Bool := false
deriving DecidableEq, Repr, Inhabited

/-- What the number of a transform utility counts. -/
inductive TransformUnit where
  | ratio
  | degrees
  | length
deriving DecidableEq, Repr

/-- The function that a transform utility wraps its value in, and its unit. -/
structure TransformFunction where
  name : Text
  unit : TransformUnit
deriving DecidableEq, Repr

/-- The transform utilities. -/
def transforms : List (Text × TransformFunction) :=
  [("scale".toList, ⟨"scale".toList, .ratio⟩), ("scale-x".toList, ⟨"scaleX".toList, .ratio⟩),
    ("scale-y".toList, ⟨"scaleY".toList, .ratio⟩), ("rotate".toList, ⟨"rotate".toList, .degrees⟩),
    ("skew-x".toList, ⟨"skewX".toList, .degrees⟩), ("skew-y".toList, ⟨"skewY".toList, .degrees⟩),
    ("translate-x".toList, ⟨"translateX".toList, .length⟩),
    ("translate-y".toList, ⟨"translateY".toList, .length⟩)]

/-- The transform function of a utility, if it is one. -/
def transform? (utility : Text) : Option TransformFunction :=
  (transforms.find? fun entry => entry.1 = utility).map Prod.snd

/-- A function applied to an argument. -/
def TransformFunction.apply (function : TransformFunction) (argument : Text) : Text :=
  function.name ++ '(' :: argument ++ [')']

/-- A value as a utility declares it: transform utilities wrap it in their function. -/
def wrapValue (utility value : Text) : Text :=
  match transform? utility with
  | some function => function.apply value
  | none => value

/-- The values of `position` that a keyword may state. -/
def positionValues : List Text :=
  ["static".toList, "relative".toList, "fixed".toList, "absolute".toList, "sticky".toList]

/-- The properties that only work on a positioned element. -/
def offsetProperties : List Text :=
  ["top".toList, "right".toList, "bottom".toList, "left".toList]

/-- The utilities whose plain numbers carry no unit. -/
def unitlessUtilities : List Text :=
  ["z".toList, "order".toList, "grow".toList, "shrink".toList, "weight".toList]

/-- The largest number that a plain numeric value may hold; scaling stops there. -/
def numberLimit : Nat := Nat.pow 2 64 - 1

/-- A hundredth of a number, as in opacities and scales: `105` becomes `1.05`. -/
def hundredth (number : Nat) : Text :=
  ((Binary64.ofNat number).div (.ofNat 100)).shortest

/-- One value for each of the properties. -/
def Resolution.ofValue (properties : List Text) (value : Text) : Resolution :=
  { declarations := properties.map fun property => { property, value } }

/-- A base cut into an optional minus, a utility name and what follows the last dash. -/
structure SignedUtility where
  negative : Bool
  name : Text
  value : Text
deriving DecidableEq, Repr

/-- Cut a base at its last dash.  The name starts with a small letter and holds small letters, digits
and dashes. -/
def SignedUtility.ofBase? (base : Text) : Option SignedUtility :=
  let (negative, unsigned) := match Text.after? ['-'] base with
    | some rest => (true, rest)
    | none => (false, base)
  match Text.splitLast '-' unsigned with
  | some (first :: name, value) =>
      if first.isLower && name.all (fun c => c.isLower || c.isDigit || c = '-') then
        some ⟨negative, first :: name, value⟩
      else none
  | _ => none

def SignedUtility.sign (utility : SignedUtility) : Text :=
  if utility.negative then ['-'] else []

namespace Resolution

/-- A keyword declares its block. -/
def ofKeyword? (ctx : Context) (base : Text) : Option Resolution :=
  (ctx.tables.keywords.get? base).map fun block =>
    let declarations := Declaration.ofBlock block
    { declarations
      escalate := declarations.any fun d =>
        d.property = "position".toList && positionValues.contains d.value }

/-- The percentage that a fraction stands for, to six places; nothing over zero stands for none. -/
def fractionPercent? (negative : Bool) (numerator denominator : Nat) : Option Text :=
  let divisor := Binary64.ofNat denominator
  if divisor.isZero then none
  else
    let percent := ((Binary64.ofNat numerator).div divisor).mul (.ofNat 100)
    some ((if negative then percent.neg else percent).fixed 6 ++ ['%'])

/-- A fraction such as `1/3` declares a percentage. -/
def ofFraction? (ctx : Context) (base : Text) : Option Resolution := do
  let utility ← SignedUtility.ofBase? base
  let (numerator, denominator) ← Text.splitFirst '/' utility.value
  let properties ← ctx.tables.properties.get? utility.name
  let percent ← fractionPercent? utility.negative (← readDigits numerator)
    (← readDigits denominator)
  some (ofValue properties (wrapValue utility.name percent))

/-- The unit written after a plain number. -/
def numberUnits : List Text := [[], ['%'], "px".toList]

/-- A plain number with its unit: digits, then nothing, `px` or `%`. -/
def readNumber? (value : Text) : Option (Nat × Text) :=
  let (digits, unit) := spanDigits value
  if digits.isEmpty || !numberUnits.contains unit then none
  else
    let number := digitsValue digits
    if number ≤ numberLimit then some (number, unit) else none

/-- A number as a length: with its own unit, or on the spacing scale in pixels. -/
def lengthValue (multiplier : UInt32) (sign : Text) (number : Nat) (unit : Text) : Text :=
  if !unit.isEmpty then sign ++ decimal number ++ unit
  else if number = 0 then "0px".toList
  else sign ++ decimal (min (number * multiplier.toNat) numberLimit) ++ "px".toList

/-- The value that a utility gives to a plain number. -/
def numericValue (multiplier : UInt32) (utility sign : Text) (number : Nat) (unit : Text) : Text :=
  let length := lengthValue multiplier sign number unit
  match transform? utility with
  | some function =>
      function.apply <|
        match function.unit with
        | .ratio => sign ++ hundredth number
        | .degrees => sign ++ decimal number ++ "deg".toList
        | .length => length
  | none =>
      if !unit.isEmpty then length
      else if utility = "opacity".toList then hundredth number
      else if unitlessUtilities.contains utility then sign ++ decimal number
      else length

/-- A plain number declares a length, an angle, a ratio or itself. -/
def ofNumber? (ctx : Context) (base : Text) : Option Resolution := do
  let utility ← SignedUtility.ofBase? base
  let properties ← ctx.tables.properties.get? utility.name
  let (number, unit) ← readNumber? utility.value
  some (ofValue properties
    (numericValue ctx.pixelMultiplier utility.name utility.sign number unit))

/-- The value that an arbitrary utility writes: the inside of brackets, with spaces for underscores,
or a text without brackets, pipe, colon and slash. -/
def arbitraryValue? (raw : Text) : Option Text :=
  match (Text.after? ['['] raw).bind (Text.before? [']']) with
  | some inner => if inner.isEmpty then none else some (inner.replaceChar '_' ' ')
  | none => if raw.any fun c => "[]|:/".toList.contains c then none else some raw

/-- The declarations of a gradient stop, for the three utilities that set one. -/
def gradientStop? (utility color : Text) : Option (List Declaration) :=
  if utility = "from".toList then
    some
      [{ property := "--pw-gradient-from".toList, value := color },
        { property := "--pw-gradient-stops".toList
          value := "var(--pw-gradient-from), var(--pw-gradient-to, transparent)".toList }]
  else if utility = "via".toList then
    some
      [{ property := "--pw-gradient-stops".toList
         value := "var(--pw-gradient-from), ".toList ++ color
           ++ ", var(--pw-gradient-to, transparent)".toList }]
  else if utility = "to".toList then
    some [{ property := "--pw-gradient-to".toList, value := color }]
  else none

/-- The utilities that set gradient stops and accept nothing but colours. -/
def gradientUtilities : List Text := ["from".toList, "via".toList, "to".toList]

/-- The longest property utility that an unsigned base starts with, and the rest after its dash. -/
def longestUtility? (tables : Tables) (unsigned : Text) : Option (Text × Text) :=
  ((Text.cuts '-' unsigned).filter fun (name, raw) =>
    !raw.isEmpty && tables.properties.contains name).getLast?

/-- What an arbitrary value declares under a utility. -/
def ofArbitraryValue? (ctx : Context) (negative : Bool) (utility : Text) (properties : List Text)
    (value : Text) : Option Resolution :=
  let color := colorValue? ctx.tables value
  if gradientUtilities.contains utility then
    (color.bind (gradientStop? utility)).map fun declarations => { declarations }
  else
    match color with
    | some color =>
        if utility = "text".toList then
          some { declarations := [{ property := "color".toList, value := color }] }
        else some (ofValue properties color)
    | none =>
        let signed := if negative && value.head? ≠ some '-' then '-' :: value else value
        some (ofValue properties (wrapValue utility signed))

/-- Any other value declares itself, or the colour it stands for. -/
def ofArbitrary? (ctx : Context) (base : Text) : Option Resolution := do
  let (negative, unsigned) := match Text.after? ['-'] base with
    | some rest => (true, rest)
    | none => (false, base)
  let (utility, raw) ← longestUtility? ctx.tables unsigned
  let properties ← ctx.tables.properties.get? utility
  let value ← arbitraryValue? raw
  ofArbitraryValue? ctx negative utility properties value

/-- Offsets bring a default position along, unless the declarations state one. -/
def withPosition (resolution : Resolution) : Resolution :=
  let offset := resolution.declarations.any fun d => offsetProperties.contains d.property
  let positioned := resolution.declarations.any fun d => d.property = "position".toList
  if offset && !positioned then
    { resolution with
      declarations :=
        { property := "position".toList, value := "relative".toList, overridable := true }
          :: resolution.declarations }
  else resolution

/-- The first reading of a base that applies, before a default position is added. -/
def firstReading? (ctx : Context) (base : Text) : Option Resolution :=
  ofKeyword? ctx base <|> ofFraction? ctx base <|> ofNumber? ctx base <|> ofArbitrary? ctx base

/-- What a base token declares; `none` when it is not a utility. -/
def ofBase? (ctx : Context) (base : Text) : Option Resolution :=
  if base.isEmpty then none else (firstReading? ctx base).map withPosition

end Resolution

end UtilityCss
