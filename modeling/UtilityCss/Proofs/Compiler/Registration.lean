import UtilityCss.Proofs.Compiler.CyclicShortcut
import UtilityCss.Proofs.Compiler.SheetHistory
import UtilityCss.Proofs.Shortcut.Locality
import UtilityCss.Proofs.Shortcut.Registration

/-!
Shortcuts that come with a configuration.  They are registered one after the other, and one whose name
is selector text is compiled as soon as it is registered, against the table as it is by then.  The
first rule that this gives stays.
-/

namespace UtilityCss

namespace Compiler

variable {compiler : Compiler} {name : Text} {rule : Option Text}

theorem context_registerShortcut (compiler : Compiler) (name expansion : Text) :
    (compiler.registerShortcut name expansion).context =
      compiler.context.withShortcuts (compiler.shortcuts.insert name expansion) := by
  simp only [registerShortcut, retryUnresolved]
  split <;> rfl

theorem context_addShortcut (compiler : Compiler) (name expansion : Text) :
    (compiler.addShortcut name expansion).context =
      compiler.context.withShortcuts (compiler.shortcuts.register (name, expansion)) := by
  have hregister := context_registerShortcut compiler name.trim expansion
  unfold addShortcut Shortcuts.register
  simp only [List.isEmpty_iff]
  split
  · rfl
  · split
    · exact hregister
    · exact (context_compile _ _).trans hregister

/-- What a class has come to on a way of registrations: its rule, if it has one, and otherwise no rule
with the shortcuts of the moment, in case it is stored. -/
structure Stands (compiler : Compiler) (name : Text) (rule : Option Text) : Prop where
  recorded : ∃ rules, compiler.cache.Records rules
  css_eq : compiler.css? name = rule
  unresolved : rule = none → (compiler.cache.get? name).isSome = true →
    (outcome compiler.context name).css = none

/-- Rules are read back from the cache as they were recorded. -/
theorem css?_eq_some_iff_mem {rules : List SheetRule} (hrecords : compiler.cache.Records rules)
    {css : Text} : compiler.css? name = some css ↔ ∃ kind, ⟨name, kind, css⟩ ∈ rules := by
  rw [css?_eq_some_iff, ← hrecords.mem_iff]
  refine ⟨fun ⟨injected, hentry⟩ => ?_, fun hentry => ⟨true, hentry⟩⟩
  obtain ⟨result, hresult⟩ := hrecords.settled hentry
  cases hresult
  exact hentry

theorem css?_eq_of_records {other : Compiler} {rules : List SheetRule}
    (hrecords : compiler.cache.Records rules) (hother : other.cache.Records rules) :
    other.css? name = compiler.css? name :=
  Option.ext fun _ => (css?_eq_some_iff_mem hother).trans (css?_eq_some_iff_mem hrecords).symm

/-- Compiling a class settles it, and leaves the others alone. -/
theorem Stands.compile (hstands : compiler.Stands name rule) (hname : name.trim ≠ [])
    (other : Text) :
    (compiler.compile other).Stands name
      (rule.or (if other = name then (outcome compiler.context name).css else none)) := by
  obtain ⟨⟨rules, hrecords⟩, hcss, hunresolved⟩ := hstands
  have hrecorded : ∃ rules, (compiler.compile other).cache.Records rules :=
    ⟨_, records_apply (.compile other) hrecords⟩
  split
  · rename_i heq
    subst heq
    refine ⟨hrecorded, ?_, fun hnone _ => ?_⟩
    · cases hcached : compiler.cache.get? other with
      | some entry =>
          have hisSome : (compiler.cache.get? other).isSome = true := by rw [hcached]; rfl
          rw [compile_of_isSome hisSome, hcss]
          cases rule with
          | some => rfl
          | none => rw [hunresolved rfl hisSome, Option.none_or]
      | none =>
          have hbefore : compiler.css? other = none := by rw [css?, RuleCache.lookup, hcached]
          rw [← hcss, hbefore, Option.none_or]
          exact css?_compile_of_new (List.isEmpty_eq_false_iff.mpr hname) hcached
    · rw [context_compile]
      exact (Option.or_eq_none_iff.mp hnone).2
  · rename_i hother
    have hentry : (compiler.compile other).cache.get? name = compiler.cache.get? name :=
      get?_compile_of_ne hother
    rw [Option.or_none]
    refine ⟨hrecorded, ?_, fun hnone hcached => ?_⟩
    · rw [css?, RuleCache.lookup, hentry]
      exact hcss
    · rw [context_compile]
      exact hunresolved hnone (hentry ▸ hcached)

/-- A registration forgets the classes without a rule, and so leaves nothing to explain. -/
theorem Stands.registerShortcut (hstands : compiler.Stands name rule) (other expansion : Text) :
    (compiler.registerShortcut other expansion).Stands name rule := by
  obtain ⟨⟨rules, hrecords⟩, hcss, -⟩ := hstands
  have hafter : (compiler.registerShortcut other expansion).cache.Records rules := by
    have hedit := records_apply (.edit (.shortcut other expansion)) hrecords
    rwa [firstRule?, Option.toList_none, List.append_nil] at hedit
  have hcache : (compiler.registerShortcut other expansion).cache =
      compiler.cache.evictUnresolved := (Edit.shortcut other expansion).cache_apply_eq compiler
  have hcssAfter := (css?_eq_of_records hrecords hafter).trans hcss
  refine ⟨⟨rules, hafter⟩, hcssAfter, fun hnone hcached => ?_⟩
  obtain ⟨entry, hentry⟩ := Option.isSome_iff_exists.mp hcached
  obtain ⟨css, rfl⟩ := hafter.settled hentry
  cases css with
  | some css =>
      rw [css?_eq_some_iff.mpr ⟨_, hentry⟩, hnone] at hcssAfter
      cases hcssAfter
  | none =>
      rw [hcache, RuleCache.get?_evictUnresolved, Option.filter_eq_some_iff] at hentry
      simp at hentry

/-- Adding a shortcut compiles its name if that is selector text, and no other class. -/
theorem Stands.addShortcut (hstands : compiler.Stands name rule) (hname : name.trim ≠ [])
    (entry : Text × Text) :
    (compiler.addShortcut entry.1 entry.2).Stands name
      (rule.or (if entry.1.trim = name ∧ isIdentifier name = false then
        (outcome (compiler.context.withShortcuts (compiler.shortcuts.register entry)) name).css
          else none)) := by
  have hregistered := hstands.registerShortcut entry.1.trim entry.2
  -- Only the registration of this very name, as selector text, compiles the class.
  by_cases hentry : entry.1.trim = name ∧ isIdentifier name = false
  · rw [if_pos hentry]
    obtain ⟨rfl, hselector⟩ := hentry
    have hblank : entry.1.trim ≠ [] := by
      intro hblank
      rw [hblank] at hname
      exact hname rfl
    have hsame : compiler.addShortcut entry.1 entry.2 =
        (compiler.registerShortcut entry.1.trim entry.2).compile entry.1.trim := by
      simp [Compiler.addShortcut, hblank, hselector]
    have hcompiled := hregistered.compile hname entry.1.trim
    rwa [if_pos rfl, ← context_compile _ entry.1.trim, ← hsame, context_addShortcut] at hcompiled
  · rw [if_neg hentry, Option.or_none]
    unfold Compiler.addShortcut
    dsimp only
    split
    · exact hstands
    · split
      · exact hregistered
      · rename_i hselector
        rw [Bool.not_eq_true] at hselector
        have hother : entry.1.trim ≠ name := fun heq => hentry ⟨heq, heq ▸ hselector⟩
        have hcompiled := hregistered.compile hname entry.1.trim
        rwa [if_neg hother, Option.or_none] at hcompiled

/-- The first rule that a class has over a list of tables. -/
def firstOver (ctx : Context) (name : Text) (tables : List Shortcuts) : Option Text :=
  tables.findSome? fun table => (outcome (ctx.withShortcuts table) name).css

theorem firstOver_cons (ctx : Context) (name : Text) (table : Shortcuts)
    (rest : List Shortcuts) :
    firstOver ctx name (table :: rest) =
      (outcome (ctx.withShortcuts table) name).css.or (firstOver ctx name rest) := by
  rw [firstOver, List.findSome?_cons]
  cases (outcome (ctx.withShortcuts table) name).css <;> rfl

theorem firstOver_append (ctx : Context) (name : Text) (first second : List Shortcuts) :
    firstOver ctx name (first ++ second) =
      (firstOver ctx name first).or (firstOver ctx name second) :=
  List.findSome?_append

/-- The tables that a class is compiled against while entries are registered. -/
def eagerTables (name : Text) (table : Shortcuts) (entries : List (Text × Text)) :
    List Shortcuts :=
  if isIdentifier name then [] else Shortcuts.tablesAt name table entries

theorem firstOver_eagerTables_cons (ctx : Context) (name : Text) (table : Shortcuts)
    (entry : Text × Text) (rest : List (Text × Text)) :
    firstOver ctx name (eagerTables name table (entry :: rest)) =
      (if entry.1.trim = name ∧ isIdentifier name = false then
        (outcome (ctx.withShortcuts (table.register entry)) name).css else none).or
          (firstOver ctx name (eagerTables name (table.register entry) rest)) := by
  rw [eagerTables, eagerTables, Shortcuts.tablesAt]
  cases hidentifier : isIdentifier name with
  | true => simp [firstOver]
  | false =>
      by_cases hentry : entry.1.trim = name
      · simp [hentry, firstOver_cons]
      · simp [hentry]

theorem context_foldl_addShortcut (compiler : Compiler) (entries : List (Text × Text)) :
    (entries.foldl (fun compiler entry => compiler.addShortcut entry.1 entry.2)
      compiler).context = compiler.context.withShortcuts (compiler.shortcuts.registerAll entries) := by
  induction entries generalizing compiler with
  | nil => rfl
  | cons entry rest ih =>
      have hshortcuts : (compiler.addShortcut entry.1 entry.2).shortcuts =
          compiler.shortcuts.register entry :=
        congrArg Context.shortcuts (context_addShortcut compiler entry.1 entry.2)
      rw [List.foldl_cons, ih, hshortcuts, context_addShortcut]
      rfl

/-- Along the registrations a class gets the first rule that one of its own tables gives it. -/
theorem Stands.foldl_addShortcut (hstands : compiler.Stands name rule) (hname : name.trim ≠ [])
    (entries : List (Text × Text)) :
    (entries.foldl (fun compiler entry => compiler.addShortcut entry.1 entry.2)
      compiler).Stands name
        (rule.or (firstOver compiler.context name
          (eagerTables name compiler.shortcuts entries))) := by
  induction entries generalizing compiler rule with
  | nil =>
      have hnone : eagerTables name compiler.shortcuts [] = [] := by
        rw [eagerTables, Shortcuts.tablesAt, ite_self]
      rw [hnone]
      simpa [firstOver] using hstands
  | cons entry rest ih =>
      have hcontext := context_addShortcut compiler entry.1 entry.2
      have hshortcuts : (compiler.addShortcut entry.1 entry.2).shortcuts =
          compiler.shortcuts.register entry := congrArg Context.shortcuts hcontext
      have hrest := ih (hstands.addShortcut hname entry)
      rw [hcontext, hshortcuts, Option.or_assoc] at hrest
      rw [List.foldl_cons, firstOver_eagerTables_cons]
      exact hrest

/-- A class that is compiled ahead has the rule of its outcome, unless it has one already. -/
theorem Stands.foldl_compile (hstands : compiler.Stands name rule) (hname : name.trim ≠ [])
    (classes : List Text) :
    (classes.foldl Compiler.compile compiler).Stands name
      (rule.or (if name ∈ classes then (outcome compiler.context name).css else none)) := by
  induction classes generalizing compiler rule with
  | nil => simpa using hstands
  | cons other rest ih =>
      have hrest := ih (hstands.compile hname other)
      rw [context_compile, Option.or_assoc] at hrest
      rw [List.foldl_cons]
      by_cases hother : other = name
      · subst hother
        rw [if_pos rfl] at hrest
        rw [if_pos List.mem_cons_self]
        have honce : (outcome compiler.context other).css.or
            (if other ∈ rest then (outcome compiler.context other).css else none) =
              (outcome compiler.context other).css := by
          cases (outcome compiler.context other).css with
          | none => rw [ite_self, Option.none_or]
          | some => rfl
        rwa [honce] at hrest
      · rw [if_neg hother, Option.none_or] at hrest
        simpa only [List.mem_cons, Ne.symm hother, false_or] using hrest

end Compiler

namespace Config

/-- The shortcuts that a configuration leaves in a new compiler. -/
def registered (config : Config) : Shortcuts :=
  Shortcuts.registerAll .empty config.shortcuts.entries

/-- The tables that a class is compiled against while a new compiler is configured: selector text right
after each of its registrations, and what is to be compiled ahead at the end. -/
def compiledAgainst (config : Config) (name : Text) : List Shortcuts :=
  Compiler.eagerTables name .empty config.shortcuts.entries ++
    if name ∈ config.preload.classes then [config.registered] else []

/-- Whenever the configuration registers a name, whatever the name leads to is registered as it will be
at the end. -/
def Settles (config : Config) (name : Text) : Prop :=
  ∀ table ∈ Shortcuts.tablesAt name .empty config.shortcuts.entries,
    table.AgreesBelow config.registered name

/-- A name that is registered last settles. -/
theorem settles_of_tablesAt {config : Config} {name : Text}
    (hlast : Shortcuts.tablesAt name .empty config.shortcuts.entries = [config.registered]) :
    config.Settles name := by
  intro table htable
  rw [hlast, List.mem_singleton] at htable
  exact fun _ _ => by rw [htable]

/-- The same configuration with its shortcuts in another order. -/
structure IsReordering (other config : Config) : Prop where
  entries_perm : config.shortcuts.entries.Perm other.shortcuts.entries
  settings_eq : { other with shortcuts := config.shortcuts } = config

end Config

namespace Compiler

variable {config : Config}

theorem context_foldl_compile (compiler : Compiler) (classes : List Text) :
    (classes.foldl compile compiler).context = compiler.context := by
  induction classes generalizing compiler with
  | nil => rfl
  | cons name rest ih => exact (ih (compiler.compile name)).trans (context_compile compiler name)

theorem shortcuts_settle (tables : Tables) (config : Config) :
    ((ofTables tables).settle config).shortcuts = .empty := by
  unfold settle
  dsimp only
  split <;> rfl

theorem stands_settle (tables : Tables) (config : Config) (name : Text) :
    ((ofTables tables).settle config).Stands name none := by
  have hcache : ((ofTables tables).settle config).cache = .empty :=
    (Edit.settings config).cache_apply_eq (ofTables tables)
  have hentry : ((ofTables tables).settle config).cache.get? name = none := by
    rw [hcache]
    rfl
  refine ⟨⟨[], by rw [hcache]; exact RuleCache.records_empty⟩, ?_, fun _ hcached => ?_⟩
  · rw [css?, RuleCache.lookup, hentry]
  · rw [hentry] at hcached
    cases hcached

/-- A configured compiler, in the form of its two loops. -/
theorem configure_eq (compiler : Compiler) (config : Config) :
    compiler.configure config =
      config.preload.classes.foldl compile
        (config.shortcuts.entries.foldl
          (fun compiler entry => compiler.addShortcut entry.1 entry.2) (compiler.settle config)) :=
  rfl

theorem context_configure (tables : Tables) (config : Config) :
    ((ofTables tables).configure config).context =
      ((ofTables tables).settle config).context.withShortcuts config.registered := by
  rw [configure_eq, context_foldl_compile, context_foldl_addShortcut, shortcuts_settle,
    Config.registered]

theorem shortcuts_configure (tables : Tables) (config : Config) :
    ((ofTables tables).configure config).shortcuts = config.registered :=
  congrArg Context.shortcuts (context_configure tables config)

/-- A class of a configured compiler has the first rule that one of its tables gives it. -/
theorem css?_configure (tables : Tables) (config : Config) {name : Text} (hname : name.trim ≠ []) :
    ((ofTables tables).configure config).css? name =
      firstOver ((ofTables tables).configure config).context name
        (config.compiledAgainst name) := by
  have hregistered := (stands_settle tables config name).foldl_addShortcut hname
    config.shortcuts.entries
  have hstands := hregistered.foldl_compile hname config.preload.classes
  rw [shortcuts_settle, Option.none_or, context_foldl_addShortcut, shortcuts_settle] at hstands
  rw [configure_eq, hstands.css_eq, ← configure_eq, context_configure, Config.compiledAgainst,
    firstOver_append]
  congr 1
  split
  · simp [firstOver]
    rfl
  · rfl

end Compiler

end UtilityCss
