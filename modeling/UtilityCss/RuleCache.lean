import UtilityCss.OrderedMap
import UtilityCss.Text

/-!
The cache of compiled classes, and the two style sheets that it feeds.  A class is pending while it is
being compiled and resolved afterwards, to a rule text or to nothing, and its text goes to a sheet
when it is first resolved to one.
-/

namespace UtilityCss

/-- Where a rule comes from. -/
inductive SheetKind where
  /-- A class token. -/
  | utilities
  /-- A shortcut. -/
  | shortcuts
deriving DecidableEq, Repr, Inhabited

/-- Rule texts in the order in which they were made, each on lines of its own. -/
structure Sheets where
  utilities : Text := []
  shortcuts : Text := []
deriving DecidableEq, Repr, Inhabited

namespace Sheets

def empty : Sheets := {}

/-- A sheet with one more rule text; the first one needs no line break. -/
def appendText (sheet css : Text) : Text :=
  if sheet.isEmpty then css else sheet ++ '\n' :: css

def append (sheets : Sheets) (kind : SheetKind) (css : Text) : Sheets :=
  match kind with
  | .utilities => { sheets with utilities := appendText sheets.utilities css }
  | .shortcuts => { sheets with shortcuts := appendText sheets.shortcuts css }

def text (sheets : Sheets) : SheetKind → Text
  | .utilities => sheets.utilities
  | .shortcuts => sheets.shortcuts

theorem text_append (sheets : Sheets) (kind kind' : SheetKind) (css : Text) :
    (sheets.append kind css).text kind' =
      if kind' = kind then appendText (sheets.text kind) css else sheets.text kind' := by
  cases kind <;> cases kind' <;> rfl

end Sheets

inductive CacheState where
  | pending
  /-- Compiled; `none` when the class is not a utility. -/
  | resolved (css : Option Text)
deriving DecidableEq, Repr, Inhabited

structure CacheEntry where
  state : CacheState := .pending
  /-- Whether the text of the class is in a sheet. -/
  injected : Bool := false
deriving DecidableEq, Repr, Inhabited

/-- What the cache knows of a class. -/
inductive Lookup where
  | hit (css : Option Text)
  | pending
  | miss
deriving DecidableEq, Repr, Inhabited

structure RuleCache where
  entries : OrderedMap Text CacheEntry := .empty
  sheets : Sheets := .empty
deriving DecidableEq, Inhabited

namespace RuleCache

def empty : RuleCache := {}

def get? (cache : RuleCache) (name : Text) : Option CacheEntry :=
  cache.entries.get? name

def lookup (cache : RuleCache) (name : Text) : Lookup :=
  match cache.get? name with
  | some ⟨.resolved css, _⟩ => .hit css
  | some ⟨.pending, _⟩ => .pending
  | none => .miss

def size (cache : RuleCache) : Nat :=
  cache.entries.size

/-- Mark a class as being compiled. -/
def begin (cache : RuleCache) (name : Text) : RuleCache :=
  { cache with entries := cache.entries.insert name {} }

/-- Whether the text of a class is in a sheet already. -/
def isInjected (cache : RuleCache) (name : Text) : Bool :=
  (cache.get? name).any CacheEntry.injected

/-- Whether a result has text for a sheet. -/
def hasText (result : Option Text) : Bool :=
  result.any fun css => !css.isEmpty

/-- Store the result for a class, and append its text to a sheet unless that was done before. -/
def finish (cache : RuleCache) (name : Text) (kind : SheetKind) (result : Option Text) :
    RuleCache :=
  { entries := cache.entries.insert name
      { state := .resolved result, injected := cache.isInjected name || hasText result }
    sheets :=
      if hasText result && !cache.isInjected name then cache.sheets.append kind (result.getD [])
      else cache.sheets }

/-- Forget the classes that resolved to nothing. -/
def evictUnresolved (cache : RuleCache) : RuleCache :=
  { cache with entries := cache.entries.filter fun _ entry => entry.state ≠ .resolved none }

theorem get?_begin (cache : RuleCache) (name probe : Text) :
    (cache.begin name).get? probe = if probe = name then some {} else cache.get? probe :=
  OrderedMap.get?_insert cache.entries name probe {}

theorem sheets_begin (cache : RuleCache) (name : Text) : (cache.begin name).sheets = cache.sheets :=
  rfl

theorem get?_finish (cache : RuleCache) (name probe : Text) (kind : SheetKind)
    (result : Option Text) :
    (cache.finish name kind result).get? probe =
      if probe = name then
        some { state := .resolved result, injected := cache.isInjected name || hasText result }
      else cache.get? probe :=
  OrderedMap.get?_insert cache.entries name probe _

theorem get?_evictUnresolved (cache : RuleCache) (name : Text) :
    cache.evictUnresolved.get? name =
      (cache.get? name).filter fun entry => entry.state ≠ .resolved none :=
  OrderedMap.get?_filter _ cache.entries name

end RuleCache

end UtilityCss
