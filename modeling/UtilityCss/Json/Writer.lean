import UtilityCss.Number.Decimal
import UtilityCss.OrderedMap

/-!
Compact JSON text: strings with their escapes, lists and objects without white space.
-/

namespace UtilityCss.Json

/-- A hexadecimal digit in lower case. -/
def hexDigit (value : Nat) : Char :=
  Nat.digitChar value

/-- A character inside a string.  Quotes, backslashes and control characters are escaped, the latter
by a letter where there is one. -/
def writeCharacter (c : Char) : Text :=
  if c = '"' then ['\\', '"']
  else if c = '\\' then ['\\', '\\']
  else if c = '\x08' then ['\\', 'b']
  else if c = '\t' then ['\\', 't']
  else if c = '\n' then ['\\', 'n']
  else if c = '\x0c' then ['\\', 'f']
  else if c = '\r' then ['\\', 'r']
  else if c.toNat < 0x20 then
    "\\u00".toList ++ [hexDigit (c.toNat / 16), hexDigit (c.toNat % 16)]
  else [c]

def writeText (text : Text) : Text :=
  '"' :: text.flatMap writeCharacter ++ ['"']

def writeTexts (texts : List Text) : Text :=
  '[' :: [','].intercalate (texts.map writeText) ++ [']']

/-- An object with members whose values are written already. -/
def writeMembers (members : List (Text × Text)) : Text :=
  '\x7b' :: [','].intercalate (members.map fun (key, value) => writeText key ++ ':' :: value)
    ++ ['\x7d']

def writeTextMap (entries : OrderedMap Text Text) : Text :=
  writeMembers (entries.entries.map fun (key, value) => (key, writeText value))

def writeBool (value : Bool) : Text :=
  if value then "true".toList else "false".toList

def writeOptionalWord : Option UInt32 → Text
  | some word => decimal word.toNat
  | none => "null".toList

end UtilityCss.Json
