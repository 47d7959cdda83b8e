import UtilityCss.Config
import UtilityCss.Number.Binary64
import UtilityCss.Yaml.Node

/-!
Configurations as YAML documents.  A document is a mapping with the known fields, each at most once,
and unknown ones that are ignored.  Plain scalars that read as null, a truth value or a number are no
texts where a field asks what it was given; keys and values of maps are taken as they are written.
-/

namespace UtilityCss.Config

open UtilityCss.Yaml

/-- The spellings of null, besides the empty one. -/
def nullWords : List Text :=
  ["~".toList, "null".toList, "Null".toList, "NULL".toList]

/-- The truth value of a plain scalar. -/
def truth? (text : Text) : Option Bool :=
  if ["true".toList, "True".toList, "TRUE".toList].contains text then some true
  else if ["false".toList, "False".toList, "FALSE".toList].contains text then some false
  else none

/-- The value of a run of digits in a base up to sixteen. -/
def digitsInBase? (base : Nat) (digits : Text) : Option Nat :=
  if digits.isEmpty then none
  else
    (digits.mapM fun c => (Json.hexValue? c).filter fun value => decide (value < base)).map
      fun values => values.foldl (fun number value => base * number + value) 0

/-- The bases that a number may name in front of its digits. -/
def baseMarks : List (Text × Nat) :=
  [("0x".toList, 16), ("0o".toList, 8), ("0b".toList, 2)]

/-- A number with the mark of its base. -/
def markedNumber? (text : Text) : Option Nat :=
  baseMarks.findSome? fun (mark, base) => (Text.after? mark text).bind (digitsInBase? base)

/-- Whether a text is a number with a needless zero in front, which counts as text. -/
def hasLeadingZero (text : Text) : Bool :=
  match text with
  | '+' :: '0' :: rest => isDigits rest
  | '-' :: '0' :: rest => isDigits rest
  | '0' :: rest => isDigits rest
  | _ => false

/-- A whole number without a minus, of at most 128 bits. -/
def natural? (text : Text) : Option Nat :=
  let unsigned := (Text.after? ['+'] text).getD text
  let number? := match markedNumber? unsigned with
    | some number => some number
    | none => if hasLeadingZero text then none else readDigits unsigned
  number?.filter fun number => decide (number < Nat.pow 2 128)

/-- Whether a text is a whole number with a minus, of at most 128 bits with the sign. -/
def isNegativeNumber (text : Text) : Bool :=
  match text with
  | '-' :: rest =>
      let number? := match markedNumber? rest with
        | some number => some number
        | none => if hasLeadingZero text then none else readDigits rest
      number?.any fun number => decide (number ≤ Nat.pow 2 127)
  | _ => false

/-- The spellings of infinities and of what is not a number. -/
def specialFloats : List Text :=
  [".inf", ".Inf", ".INF", "+.inf", "+.Inf", "+.INF", "-.inf", "-.Inf", "-.INF", ".nan", ".NaN",
    ".NAN"].map String.toList

/-- The exponent of a number with a fraction, which may be left out. -/
def floatExponent? (text : Text) : Option Int :=
  match text with
  | [] => some 0
  | c :: rest =>
      if c = 'e' || c = 'E' then
        match rest with
        | '-' :: digits => (readDigits digits).map fun exponent => -(exponent : Int)
        | '+' :: digits => (readDigits digits).map fun exponent => (exponent : Int)
        | digits => (readDigits digits).map fun exponent => (exponent : Int)
      else none

/-- The value of a text of digits with an optional point and an optional exponent. -/
def unsignedFloat? (text : Text) : Option Binary64 :=
  let (whole, rest) := spanDigits text
  let (fraction, rest) := match rest with
    | '.' :: tail => spanDigits tail
    | _ => ([], rest)
  if whole.isEmpty && fraction.isEmpty then none
  else
    (floatExponent? rest).map fun exponent =>
      .ofDecimal false (digitsValue (whole ++ fraction)) (exponent - fraction.length)

/-- Whether a text reads as a number with a fraction or an exponent, within the range of doubles. -/
def isFloat (text : Text) : Bool :=
  let unsigned := match text with
    | '+' :: rest => rest
    | '-' :: rest => rest
    | _ => text
  let finite := match unsignedFloat? unsigned with
    | some (.finite _ _) => true
    | _ => false
  specialFloats.contains text || (!hasLeadingZero text && finite)

/-- Whether a plain scalar stands for a text, and not for null, a truth value or a number. -/
def isPlainText (text : Text) : Bool :=
  !(text.isEmpty || nullWords.contains text || (truth? text).isSome || (natural? text).isSome
    || isNegativeNumber text || isFloat text)

/-- The text of a scalar, as it is written. -/
def scalarText? : Node → Option Text
  | .scalar text _ => some text
  | _ => none

/-- The text of a scalar that does not read as anything else. -/
def properText? : Node → Option Text
  | .scalar text plain => if !plain || isPlainText text then some text else none
  | _ => none

/-- A map of texts; a plain scalar without text is an empty map. -/
def yamlTextMap? : Node → Option (OrderedMap Text Text)
  | .mapping entries =>
      (entries.mapM fun (key, value) => do
        let key ← scalarText? key
        let value ← scalarText? value
        some (key, value)).map OrderedMap.ofList
  | .scalar text plain => if plain && text.isEmpty then some .empty else none
  | .sequence _ => none

def yamlPreload? : Node → Option Preload
  | .sequence items => (items.mapM properText?).map Preload.list
  | other => (properText? other).map Preload.text

def yamlBool? : Node → Option Bool
  | .scalar text true => truth? text
  | _ => none

/-- A word of 32 bits, or null. -/
def yamlOptionalWord? : Node → Option (Option UInt32)
  | .scalar text true =>
      if text.isEmpty || nullWords.contains text then some none
      else
        (natural? text).bind fun number =>
          if number < Nat.pow 2 32 then some (some (UInt32.ofNat number)) else none
  | _ => none

/-- Read the value of a field into a configuration. -/
def yamlField? (config : Config) (field : ConfigField) (value : Node) : Option Config :=
  match field with
  | .breakpoints => (yamlTextMap? value).map fun breakpoints => { config with breakpoints }
  | .shortcuts => (yamlTextMap? value).map fun shortcuts => { config with shortcuts }
  | .preload => (yamlPreload? value).map fun preload => { config with preload }
  | .pixelMultiplier =>
      (yamlOptionalWord? value).map fun pixelMultiplier => { config with pixelMultiplier }
  | .bodyClass => (yamlBool? value).map fun bodyClass => { config with bodyClass }
  | .externalFramework =>
      (yamlBool? value).map fun externalFramework => { config with externalFramework }

/-- Read the entries of a document, after the fields that were read before them. -/
def yamlEntries? (config : Config) (seen : List ConfigField) : List (Node × Node) → Option Config
  | [] => some config
  | (key, value) :: rest =>
      match scalarText? key with
      | none => none
      | some name =>
          match ConfigField.ofName? name with
          | none => yamlEntries? config seen rest
          | some field =>
              if field ∈ seen then none
              else
                match yamlField? config field value with
                | some config => yamlEntries? config (field :: seen) rest
                | none => none

/-- Read a YAML document; one without content is the default configuration. -/
def ofYaml? (text : Text) : Option Config :=
  match Node.ofText? text with
  | some (.mapping entries) => yamlEntries? {} [] entries
  | some (.scalar text plain) => if plain && text.isEmpty then some {} else none
  | _ => none

end UtilityCss.Config
