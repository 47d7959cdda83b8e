import UtilityCss.Config
import UtilityCss.Json.Value
import UtilityCss.Json.Writer

/-!
Configurations as JSON documents.  A document is an object with known fields in any order, each at
most once, and unknown ones that are ignored, or else the array of the known fields.  What is left out
keeps its default.  The first fault from the left decides what is reported.
-/

namespace UtilityCss.Config

open UtilityCss.Json

/-- How deep the value of a field may nest. -/
def nestingLimit : Nat := 126

/-- One element of a preload list, which is a text or anything else. -/
def readPreloadItem (items : List (Option Text)) (text : Text) : Read (List (Option Text)) :=
  (readAny (nestingLimit - 1) text).map fun (item, after) => (items ++ [item], after)

/-- A text, or a list of texts.  The whole value is read before its shape is looked at. -/
def readPreload (text : Text) : Read Preload :=
  match skipSpace text with
  | '"' :: rest => (readStringBody false rest).map fun (body, after) => (.text body, after)
  | '[' :: rest =>
      (readArray readPreloadItem [] rest).andThen fun items after =>
        match items.mapM id with
        | some texts => .ok (.list texts, after)
        | none => .error .wrongShape
  | other => (readAny nestingLimit other).andThen fun _ _ => .error .wrongShape

/-- Read the value of a field into a configuration. -/
def readField (config : Config) (field : ConfigField) (text : Text) : Read Config :=
  match field with
  | .breakpoints =>
      (readTextMap text).map fun (value, after) => ({ config with breakpoints := value }, after)
  | .shortcuts =>
      (readTextMap text).map fun (value, after) => ({ config with shortcuts := value }, after)
  | .preload =>
      (readPreload text).map fun (value, after) => ({ config with preload := value }, after)
  | .pixelMultiplier =>
      (readOptionalWord text).map fun (value, after) =>
        ({ config with pixelMultiplier := value }, after)
  | .bodyClass =>
      (readBool text).map fun (value, after) => ({ config with bodyClass := value }, after)
  | .externalFramework =>
      (readBool text).map fun (value, after) => ({ config with externalFramework := value }, after)

/-- One member of a document, after the fields that were read before it. -/
def readMember (state : Config × List ConfigField) (key text : Text) :
    Read (Config × List ConfigField) :=
  match ConfigField.ofName? key with
  | some field =>
      if field ∈ state.2 then .error .wrongShape
      else
        match readColon text with
        | .ok text =>
            (readField state.1 field text).map fun (config, after) =>
              ((config, field :: state.2), after)
        | .error fault => .error fault
  | none =>
      match (readColon text).bind skipValue with
      | .ok after => .ok (state, after)
      | .error fault => .error fault

/-- The fields of a document that is an array, in their order, as many as there are. -/
def readFields : List ConfigField → (first : Bool) → Config → Text → Read Config
  | [], _, config, text => .ok (config, text)
  | field :: fields, first, config, text =>
      match nextElement first text with
      | .ok none => .ok (config, text)
      | .ok (some rest) => (readField config field rest).andThen (readFields fields false)
      | .error fault => .error fault

/-- A document at the front of a text. -/
def readDocument (text : Text) : Read Config :=
  match skipSpace text with
  | '\x7b' :: rest =>
      (readObject readMember ({}, []) rest).map fun (state, after) => (state.1, after)
  | '[' :: rest =>
      (readFields ConfigField.all true {} rest).andThen fun config after =>
        (closeArray after).map fun after => (config, after)
  | other => .error (mismatch other)

/-- Read a JSON document; nothing but white space may follow it. -/
def ofJson (text : Text) : Except Fault Config :=
  match readDocument text with
  | .ok (config, rest) => if (skipSpace rest).isEmpty then .ok config else .error .malformed
  | .error fault => .error fault

/-- A preload as it was given, as a list or as a text. -/
def writePreload : Preload → Text
  | .list classes => writeTexts classes
  | .text classes => writeText classes

/-- The value of a field. -/
def writeField (config : Config) : ConfigField → Text
  | .breakpoints => writeTextMap config.breakpoints
  | .shortcuts => writeTextMap config.shortcuts
  | .preload => writePreload config.preload
  | .pixelMultiplier => writeOptionalWord config.pixelMultiplier
  | .bodyClass => writeBool config.bodyClass
  | .externalFramework => writeBool config.externalFramework

/-- Write a configuration as a compact JSON document with all its fields. -/
def toJson (config : Config) : Text :=
  writeMembers (ConfigField.all.map fun field => (field.name, writeField config field))

end UtilityCss.Config
