import UtilityCss.Compiler

/-!
Runs of a compiler.  An operation that a caller asks for is a sequence of actions, and an action
either compiles one class or edits what classes are compiled against.  What every action preserves
holds along every run.
-/

namespace UtilityCss.Compiler

@[simp]
theorem context_compile (compiler : Compiler) (name : Text) :
    (compiler.compile name).context = compiler.context := by
  unfold compile
  split <;> rfl

@[simp]
theorem context_inlineStyle (compiler : Compiler) (name : Text) :
    (compiler.inlineStyle name).1.context = compiler.context := by
  unfold inlineStyle
  split <;> rfl

/-- A change that compiles no class. -/
inductive Edit where
  | breakpoint (key media : Text)
  | shortcut (name expansion : Text)
  | keyword (name block : Text)
  | property (name : Text) (css : List Text)
  | color (family shade value : Text)
  | settings (config : Config)
  /-- Asking for an inline style may record a warning. -/
  | inlineStyle (name : Text)
  | drain

def Edit.apply (compiler : Compiler) : Edit → Compiler
  | .breakpoint key media => compiler.addBreakpoint key media
  | .shortcut name expansion => compiler.registerShortcut name expansion
  | .keyword name block => compiler.addKeyword name block
  | .property name css => compiler.addProperty name css
  | .color family shade value => compiler.addColor family shade value
  | .settings config => compiler.settle config
  | .inlineStyle name => (compiler.inlineStyle name).1
  | .drain => compiler.drain.1

/-- Whether an edit forgets the classes without a rule. -/
def Edit.forgets : Edit → Bool
  | .breakpoint _ _ | .shortcut _ _ | .keyword _ _ | .property _ _ | .color _ _ _ => true
  | .settings _ | .inlineStyle _ | .drain => false

theorem Edit.cache_apply_eq (change : Edit) (compiler : Compiler) :
    (change.apply compiler).cache =
      if change.forgets then compiler.cache.evictUnresolved else compiler.cache := by
  cases change with
  | shortcut name expansion =>
      simp only [apply, registerShortcut, retryUnresolved]
      split <;> rfl
  | keyword name block =>
      simp only [apply, addKeyword, retryUnresolved]
      split <;> rfl
  | settings config =>
      simp only [apply, settle]
      split <;> rfl
  | inlineStyle name =>
      simp only [apply, Compiler.inlineStyle]
      split <;> rfl
  | breakpoint | property | color | drain => rfl

/-- An edit leaves the cache alone or forgets the classes without a rule. -/
theorem Edit.cache_apply (change : Edit) (compiler : Compiler) :
    (change.apply compiler).cache = compiler.cache ∨
      (change.apply compiler).cache = compiler.cache.evictUnresolved := by
  rw [cache_apply_eq]
  split
  · exact Or.inr rfl
  · exact Or.inl rfl

inductive Action where
  | compile (name : Text)
  | edit (change : Edit)

def Action.apply (compiler : Compiler) : Action → Compiler
  | .compile name => compiler.compile name
  | .edit change => change.apply compiler

/-- What a caller may ask of a compiler. -/
inductive Operation where
  | compile (name : Text)
  | inlineStyle (name : Text)
  | addBreakpoint (key media : Text)
  | addShortcut (name expansion : Text)
  | addKeyword (name block : Text)
  | addProperty (name : Text) (css : List Text)
  | addColor (family shade value : Text)
  | configure (config : Config)
  | drain

namespace Operation

def apply (compiler : Compiler) : Operation → Compiler
  | .compile name => compiler.compile name
  | .inlineStyle name => (compiler.inlineStyle name).1
  | .addBreakpoint key media => compiler.addBreakpoint key media
  | .addShortcut name expansion => compiler.addShortcut name expansion
  | .addKeyword name block => compiler.addKeyword name block
  | .addProperty name css => compiler.addProperty name css
  | .addColor family shade value => compiler.addColor family shade value
  | .configure config => compiler.configure config
  | .drain => compiler.drain.1

/-- A shortcut is registered under its trimmed name, and selector text is compiled at once. -/
def shortcutActions (name expansion : Text) : List Action :=
  if name.trim.isEmpty then []
  else
    .edit (.shortcut name.trim expansion)
      :: if isIdentifier name.trim then [] else [.compile name.trim]

/-- The actions of an operation, in order. -/
def actions : Operation → List Action
  | .compile name => [.compile name]
  | .inlineStyle name => [.edit (.inlineStyle name)]
  | .addBreakpoint key media => [.edit (.breakpoint key media)]
  | .addShortcut name expansion => shortcutActions name expansion
  | .addKeyword name block => [.edit (.keyword name block)]
  | .addProperty name css => [.edit (.property name css)]
  | .addColor family shade value => [.edit (.color family shade value)]
  | .configure config =>
      .edit (.settings config)
        :: config.shortcuts.entries.flatMap (fun (name, expansion) => shortcutActions name expansion)
          ++ config.preload.classes.map .compile
  | .drain => [.edit .drain]

end Operation

/-- Perform actions one after the other. -/
def perform (compiler : Compiler) (actions : List Action) : Compiler :=
  actions.foldl Action.apply compiler

/-- Serve operations one after the other. -/
def run (compiler : Compiler) (operations : List Operation) : Compiler :=
  operations.foldl Operation.apply compiler

theorem perform_append (compiler : Compiler) (first second : List Action) :
    compiler.perform (first ++ second) = (compiler.perform first).perform second :=
  List.foldl_append

theorem perform_shortcutActions (compiler : Compiler) (name expansion : Text) :
    compiler.perform (Operation.shortcutActions name expansion) =
      compiler.addShortcut name expansion := by
  simp only [Operation.shortcutActions, addShortcut]
  split
  · rfl
  · split <;> rfl

theorem perform_flatMap_shortcutActions (compiler : Compiler) (entries : List (Text × Text)) :
    compiler.perform
        (entries.flatMap fun (name, expansion) => Operation.shortcutActions name expansion) =
      entries.foldl (fun compiler (name, expansion) => compiler.addShortcut name expansion)
        compiler := by
  induction entries generalizing compiler with
  | nil => rfl
  | cons entry rest ih =>
      rw [List.flatMap_cons, perform_append, perform_shortcutActions, ih]
      rfl

theorem perform_map_compile (compiler : Compiler) (names : List Text) :
    compiler.perform (names.map .compile) = names.foldl Compiler.compile compiler :=
  List.foldl_map

/-- An operation does what its actions do. -/
theorem perform_actions (compiler : Compiler) (operation : Operation) :
    compiler.perform operation.actions = operation.apply compiler := by
  cases operation with
  | addShortcut name expansion => exact perform_shortcutActions compiler name expansion
  | configure config =>
      have hsplit : compiler.perform (Operation.configure config).actions =
          ((compiler.settle config).perform (config.shortcuts.entries.flatMap
              fun (name, expansion) => Operation.shortcutActions name expansion)).perform
            (config.preload.classes.map .compile) :=
        perform_append (compiler.settle config) _ _
      rw [hsplit, perform_flatMap_shortcutActions, perform_map_compile]
      rfl
  | _ => rfl

/-- A run performs the actions of its operations in order. -/
theorem run_eq_perform (compiler : Compiler) (operations : List Operation) :
    compiler.run operations = compiler.perform (operations.flatMap Operation.actions) := by
  induction operations generalizing compiler with
  | nil => rfl
  | cons operation rest ih =>
      rw [List.flatMap_cons, perform_append, perform_actions]
      exact ih (operation.apply compiler)

end UtilityCss.Compiler
