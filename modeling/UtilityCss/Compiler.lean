import UtilityCss.Config
import UtilityCss.InlineStyle
import UtilityCss.RuleCache
import UtilityCss.Shortcut
import UtilityCss.Token.DocumentToken
import UtilityCss.Warning

/-!
The compiler: live tables, a cache of compiled classes with its sheets, and diagnostics.  Every class
is compiled against the tables of the moment, and a class that has a rule keeps it.  A class without
one is forgotten when the tables are edited, since it may have one now.
-/

namespace UtilityCss

structure Compiler where
  tables : Tables := .builtin
  breakpoints : Breakpoints := .standard
  shortcuts : Shortcuts := .empty
  pixelMultiplier : UInt32 := standardPixelMultiplier
  /-- Whether the root element carries viewport classes. -/
  bodyClass : Bool := false
  cache : RuleCache := .empty
  diagnostics : Diagnostics := {}
deriving Inhabited

namespace Compiler

/-- A compiler over given tables, with everything else as it is at the start. -/
def ofTables (tables : Tables) : Compiler := { tables }

/-- What a single compilation reads. -/
def context (compiler : Compiler) : Context :=
  { tables := compiler.tables
    breakpoints := compiler.breakpoints
    shortcuts := compiler.shortcuts
    pixelMultiplier := compiler.pixelMultiplier }

def warn (compiler : Compiler) (warning : Warning) : Compiler :=
  { compiler with diagnostics := compiler.diagnostics.warn warning }

/-- What a class compiles to: its sheet, its text if it has one, and a warning. -/
structure Outcome where
  kind : SheetKind
  css : Option Text
  warning : Option Warning := none

/-- Compile a class against a context.  Document tokens have no rule, and a shortcut goes before a
utility of the same name. -/
def outcome (ctx : Context) (name : Text) : Outcome :=
  if isDocumentToken name then ⟨.utilities, none, none⟩
  else if ctx.shortcuts.contains name then
    match shortcutText? ctx name with
    | .ok css => ⟨.shortcuts, css, none⟩
    | .error cycle => ⟨.shortcuts, none, some (.cyclicShortcut name cycle)⟩
  else ⟨.utilities, styleText? ctx name, none⟩

/-- The rule text of a class that has been compiled. -/
def css? (compiler : Compiler) (name : Text) : Option Text :=
  match compiler.cache.lookup name with
  | .hit css => css
  | _ => none

/-- Compile a class into the cache and its sheet.  A class that is in the cache stays as it is, and a
blank one is none. -/
def compile (compiler : Compiler) (name : Text) : Compiler :=
  if name.trim.isEmpty || (compiler.cache.get? name).isSome then compiler
  else
    let result := outcome compiler.context name
    { compiler with
      cache := (compiler.cache.begin name).finish name result.kind result.css
      diagnostics := match result.warning with
        | some warning => compiler.diagnostics.warn warning
        | none => compiler.diagnostics }

/-- Forget the classes without a rule: an edit may have given them one. -/
def retryUnresolved (compiler : Compiler) : Compiler :=
  { compiler with cache := compiler.cache.evictUnresolved }

/-- Add or replace a breakpoint; one that exists keeps its place. -/
def addBreakpoint (compiler : Compiler) (key media : Text) : Compiler :=
  retryUnresolved { compiler with breakpoints := compiler.breakpoints.insert key media }

/-- Add or replace a shortcut under a trimmed name, and report a keyword of that name. -/
def registerShortcut (compiler : Compiler) (name expansion : Text) : Compiler :=
  let warned :=
    if compiler.tables.keywords.contains name then
      compiler.warn (.shortcutShadowsKeyword name)
    else compiler
  retryUnresolved { warned with shortcuts := warned.shortcuts.insert name expansion }

/-- Add or replace a shortcut.  One whose name is selector text is compiled at once, since no element
will ask for it. -/
def addShortcut (compiler : Compiler) (name expansion : Text) : Compiler :=
  let name := name.trim
  if name.isEmpty then compiler
  else
    let added := compiler.registerShortcut name expansion
    if isIdentifier name then added else added.compile name

/-- Add or replace a keyword; a shortcut of the same name still goes before it. -/
def addKeyword (compiler : Compiler) (name block : Text) : Compiler :=
  let warned :=
    if compiler.shortcuts.contains name then compiler.warn (.shortcutShadowsKeyword name)
    else compiler
  retryUnresolved { warned with tables := warned.tables.setKeyword name block }

def addProperty (compiler : Compiler) (name : Text) (css : List Text) : Compiler :=
  retryUnresolved { compiler with tables := compiler.tables.setProperty name css }

def addColor (compiler : Compiler) (color shade value : Text) : Compiler :=
  retryUnresolved { compiler with tables := compiler.tables.setColor color shade value }

/-- The settings of a configuration: what it brings besides shortcuts and classes. -/
def settle (compiler : Compiler) (config : Config) : Compiler :=
  let warned :=
    if config.externalFramework then compiler.warn .externalFrameworkUnsupported else compiler
  { warned with
    breakpoints :=
      if config.breakpoints.isEmpty then warned.breakpoints else config.breakpoints
    pixelMultiplier := config.pixelMultiplier.getD warned.pixelMultiplier
    bodyClass := warned.bodyClass || config.bodyClass }

/-- Apply a configuration on top of the current state: settings, then shortcuts, then the classes to
compile ahead. -/
def configure (compiler : Compiler) (config : Config) : Compiler :=
  let extended := config.shortcuts.entries.foldl
    (fun compiler (name, expansion) => compiler.addShortcut name expansion)
    (compiler.settle config)
  config.preload.classes.foldl compile extended

/-- The inline style of a class; a cyclic shortcut has none and is reported. -/
def inlineStyle (compiler : Compiler) (name : Text) : Compiler × InlineStyle :=
  match InlineStyle.ofClass compiler.context name with
  | .ok style => (compiler, style)
  | .error cycle => (compiler.warn (.cyclicShortcut name cycle), .empty)

/-- Hand out the recorded warnings and forget them. -/
def drain (compiler : Compiler) : Compiler × List Warning :=
  ({ compiler with diagnostics := {} }, compiler.diagnostics.warnings)

end Compiler

end UtilityCss
