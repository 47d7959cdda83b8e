import UtilityCss.Tables
import UtilityCss.Text.Blank

/-!
What a single compilation reads: the tables, the breakpoints, the shortcuts and the scale.  A
configuration is what an author hands to a compiler to change them, at the start or later, as a value
or as a document with fields.
-/

namespace UtilityCss

/-- Media texts by breakpoint key, in order of precedence. -/
abbrev Breakpoints := OrderedMap Text Text

/-- Expansions by shortcut name. -/
abbrev Shortcuts := OrderedMap Text Text

/-- The breakpoints of a new compiler: narrow, medium and wide viewports. -/
def Breakpoints.standard : Breakpoints :=
  OrderedMap.ofList
    [("m".toList, "(max-width: 640px)".toList),
      ("t".toList, "(min-width: 641px) and (max-width: 1024px)".toList),
      ("d".toList, "(min-width: 1025px)".toList)]

/-- Pixels per step of the spacing scale, unless configured. -/
def standardPixelMultiplier : UInt32 := 4

/-- The state of the configuration that a compilation reads. -/
structure Context where
  tables : Tables := .builtin
  breakpoints : Breakpoints := .standard
  shortcuts : Shortcuts := .empty
  pixelMultiplier : UInt32 := standardPixelMultiplier

/-- Classes to compile ahead of use, as a list or as one text. -/
inductive Preload where
  | list (classes : List Text)
  | text (classes : Text)
deriving DecidableEq, Repr

instance : Inhabited Preload := ⟨.list []⟩

/-- The single classes, in order. -/
def Preload.classes : Preload → List Text
  | list classes => classes.flatMap Text.words
  | text classes => classes.words

def Preload.isEmpty (preload : Preload) : Bool :=
  preload.classes.isEmpty

structure Config where
  /-- Replaces the current breakpoints, unless it is empty. -/
  breakpoints : Breakpoints := .empty
  /-- Added to the current shortcuts. -/
  shortcuts : Shortcuts := .empty
  preload : Preload := .list []
  pixelMultiplier : Option UInt32 := none
  /-- Switches on viewport classes at the root element. -/
  bodyClass : Bool := false
  /-- Asks for an external framework, which is not supported. -/
  externalFramework : Bool := false
deriving DecidableEq, Inhabited

inductive ConfigField where
  | breakpoints
  | shortcuts
  | preload
  | pixelMultiplier
  | bodyClass
  | externalFramework
deriving DecidableEq, Repr

namespace ConfigField

/-- Every field, in the order in which a document is written. -/
def all : List ConfigField :=
  [breakpoints, shortcuts, preload, pixelMultiplier, bodyClass, externalFramework]

def name : ConfigField → Text
  | breakpoints => "breakpoints".toList
  | shortcuts => "shortcuts".toList
  | preload => "preload".toList
  | pixelMultiplier => "pixelMultiplier".toList
  | bodyClass => "bodyClass".toList
  | externalFramework => "tailwind".toList

def ofName? (name : Text) : Option ConfigField :=
  all.find? fun field => field.name = name

theorem ofName?_name (field : ConfigField) : ofName? field.name = some field := by
  cases field <;> decide

end ConfigField

/-- The formats of configuration documents. -/
inductive ConfigFormat where
  | json
  | yaml
deriving DecidableEq, Repr

/-- How the refusal of a document begins. -/
def ConfigFormat.refusal : ConfigFormat → Text
  | json => "invalid JSON configuration".toList
  | yaml => "invalid YAML configuration".toList

end UtilityCss
