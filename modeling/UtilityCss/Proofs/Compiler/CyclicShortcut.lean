import UtilityCss.Proofs.Compiler.SheetHistory
import UtilityCss.Proofs.Shortcut.Expansion

/-!
What an expansion yields, and what becomes of a shortcut that has none.  Such a shortcut gets no rule,
leaves the sheets alone and is reported with its lasso.  No compiler holds a blank shortcut name, so
none escapes the report by being taken for no class at all.
-/

namespace UtilityCss

namespace Compiler

variable {compiler : Compiler} {name : Text} {cycle : ShortcutCycle}

/-- Every shortcut has a name that is not blank. -/
def NamesShortcuts (compiler : Compiler) : Prop :=
  ∀ name, compiler.shortcuts.contains name = true → name.trim ≠ []

theorem NamesShortcuts.of_eq {other : Compiler} (hnames : compiler.NamesShortcuts)
    (hsame : other.shortcuts = compiler.shortcuts) : other.NamesShortcuts := by
  intro name hname
  rw [hsame] at hname
  exact hnames name hname

theorem NamesShortcuts.compile (hnames : compiler.NamesShortcuts) (name : Text) :
    (compiler.compile name).NamesShortcuts :=
  hnames.of_eq (congrArg Context.shortcuts (context_compile compiler name))

theorem NamesShortcuts.foldl_compile (hnames : compiler.NamesShortcuts) (classes : List Text) :
    (classes.foldl Compiler.compile compiler).NamesShortcuts := by
  induction classes generalizing compiler with
  | nil => exact hnames
  | cons name rest ih => exact ih (hnames.compile name)

theorem NamesShortcuts.registerShortcut (hnames : compiler.NamesShortcuts) (expansion : Text)
    (hname : name.trim ≠ []) : (compiler.registerShortcut name expansion).NamesShortcuts := by
  have hshortcuts : (compiler.registerShortcut name expansion).shortcuts =
      compiler.shortcuts.insert name expansion := by
    simp only [Compiler.registerShortcut, retryUnresolved]
    split <;> rfl
  intro probe hprobe
  rw [hshortcuts, OrderedMap.contains, OrderedMap.get?_insert] at hprobe
  split at hprobe
  · rename_i heq
    exact heq ▸ hname
  · exact hnames probe hprobe

/-- A shortcut is registered under its trimmed name, and only if something is left of it. -/
theorem NamesShortcuts.addShortcut (hnames : compiler.NamesShortcuts) (name expansion : Text) :
    (compiler.addShortcut name expansion).NamesShortcuts := by
  by_cases hempty : name.trim = []
  · rw [Compiler.addShortcut, hempty]
    exact hnames
  · have hadded := hnames.registerShortcut expansion (Text.trim_trim_ne_nil hempty)
    simp only [Compiler.addShortcut, List.isEmpty_iff, hempty, ↓reduceIte]
    split
    · exact hadded
    · exact hadded.compile _

theorem NamesShortcuts.foldl_addShortcut (hnames : compiler.NamesShortcuts)
    (entries : List (Text × Text)) :
    (entries.foldl (fun compiler (name, expansion) => compiler.addShortcut name expansion)
      compiler).NamesShortcuts := by
  induction entries generalizing compiler with
  | nil => exact hnames
  | cons entry rest ih => exact ih (hnames.addShortcut entry.1 entry.2)

theorem NamesShortcuts.apply (hnames : compiler.NamesShortcuts) (operation : Operation) :
    (operation.apply compiler).NamesShortcuts := by
  cases operation with
  | compile name => exact hnames.compile name
  | inlineStyle name =>
      exact hnames.of_eq (congrArg Context.shortcuts (context_inlineStyle compiler name))
  | addShortcut name expansion => exact hnames.addShortcut name expansion
  | addKeyword name block =>
      refine hnames.of_eq ?_
      simp only [Operation.apply, addKeyword, retryUnresolved]
      split <;> rfl
  | configure config =>
      have hsettled : (compiler.settle config).NamesShortcuts := by
        refine hnames.of_eq ?_
        simp only [settle]
        split <;> rfl
      exact (hsettled.foldl_addShortcut config.shortcuts.entries).foldl_compile _
  | addBreakpoint | addProperty | addColor | drain => exact hnames.of_eq rfl

theorem NamesShortcuts.run (hnames : compiler.NamesShortcuts) (operations : List Operation) :
    (compiler.run operations).NamesShortcuts := by
  induction operations generalizing compiler with
  | nil => exact hnames
  | cons operation rest ih => exact ih (hnames.apply operation)

theorem namesShortcuts_run (tables : Tables) (operations : List Operation) :
    ((ofTables tables).run operations).NamesShortcuts := by
  have hnew : (ofTables tables).NamesShortcuts := by
    intro name hname
    cases hname
  exact hnew.run operations

theorem outcome_of_cycle {ctx : Context} (hclass : isDocumentToken name = false)
    (hshortcut : ctx.shortcuts.contains name = true)
    (herror : ctx.shortcuts.expand name = .error cycle) :
    outcome ctx name = ⟨.shortcuts, none, some (.cyclicShortcut name cycle)⟩ := by
  have htext : shortcutText? ctx name = .error cycle := by
    rw [shortcutText?, herror]
    rfl
  simp [outcome, hclass, hshortcut, htext]

/-- A cyclic shortcut is stored as a class without rule and reported, and the sheets stay. -/
theorem compile_of_cycle (hname : name.trim ≠ []) (hnew : compiler.cache.get? name = none)
    (hclass : isDocumentToken name = false) (hshortcut : compiler.shortcuts.contains name = true)
    (herror : compiler.shortcuts.expand name = .error cycle) :
    (compiler.compile name).css? name = none ∧
      (compiler.compile name).cache.sheets = compiler.cache.sheets ∧
      .cyclicShortcut name cycle ∈ (compiler.compile name).diagnostics.warnings := by
  have hblank : name.trim.isEmpty = false := List.isEmpty_eq_false_iff.mpr hname
  have houtcome : outcome compiler.context name =
      ⟨.shortcuts, none, some (.cyclicShortcut name cycle)⟩ :=
    outcome_of_cycle hclass hshortcut herror
  have hcache := cache_compile_of_new hblank hnew
  rw [houtcome] at hcache
  refine ⟨?_, ?_, ?_⟩
  · simp [css?, RuleCache.lookup, hcache, RuleCache.get?_finish]
  · rw [hcache]
    rfl
  · simp [compile, hblank, hnew, houtcome, Diagnostics.mem_warn]

end Compiler

namespace Shortcuts

variable {shortcuts : Shortcuts} {name : Text} {cycle : ShortcutCycle}

theorem contains_of_expand_error (herror : shortcuts.expand name = .error cycle) :
    shortcuts.contains name = true := by
  obtain ⟨next, hedge, -⟩ := (isLasso_of_expand herror).leadsToCycle.exists_edge
  exact contains_of_edge hedge

/-- The expansion of a name fails exactly when a cycle can be reached from it.  It then shows a lasso
from the name, and a compiler that meets the name for the first time makes no rule of it and reports
the lasso.  Otherwise it yields the plain words that can be reached, each once, in the order in which
the one depth-first traversal from the name first meets them. -/
theorem traverses_or_shows_lasso (shortcuts : Shortcuts) (name : Text) :
    ((∃ cycle, shortcuts.expand name = .error cycle) ↔ shortcuts.LeadsToCycle name) ∧
      ((∃ tokens, shortcuts.expand name = .ok tokens) ↔ ¬ shortcuts.LeadsToCycle name) ∧
      (∀ cycle, shortcuts.expand name = .error cycle →
        shortcuts.IsLasso name cycle.path ∧ cycle.path.length ≤ shortcuts.size + 1 ∧
          ∀ tables operations, let compiler := (Compiler.ofTables tables).run operations
            compiler.shortcuts = shortcuts → compiler.cache.get? name = none →
              isDocumentToken name = false →
                let next := compiler.compile name
                next.css? name = none ∧ next.cache.sheets = compiler.cache.sheets ∧
                  .cyclicShortcut name cycle ∈ next.diagnostics.warnings) ∧
      ∀ tokens, shortcuts.expand name = .ok tokens →
        (∀ word, word ∈ tokens ↔ shortcuts.contains word = false ∧ shortcuts.Reaches name word) ∧
          tokens.Nodup ∧
          ∃ met, shortcuts.Meets [name] met ∧
            (∀ other, shortcuts.Meets [name] other → other = met) ∧ tokens = met.eraseDups := by
  have hok := expand_eq_ok_iff shortcuts name
  refine ⟨?_, hok, ?_, ?_⟩
  · constructor
    · rintro ⟨cycle, herror⟩
      exact (isLasso_of_expand herror).leadsToCycle
    · intro hcycle
      cases hexpand : shortcuts.expand name with
      | error cycle => exact ⟨cycle, rfl⟩
      | ok tokens => exact absurd hcycle (hok.mp ⟨tokens, hexpand⟩)
  · intro cycle herror
    have hlasso := isLasso_of_expand herror
    refine ⟨hlasso, hlasso.length_le, ?_⟩
    rintro tables operations compiler rfl hnew hclass
    have hshortcut := contains_of_expand_error herror
    have hname := Compiler.namesShortcuts_run tables operations name hshortcut
    exact Compiler.compile_of_cycle hname hnew hclass hshortcut herror
  · intro tokens htokens
    obtain ⟨met, hmeets, rfl⟩ := meets_of_expand htokens
    refine ⟨?_, nodup_eraseDups met, met, hmeets, fun other hother => hmeets.unique hother, rfl⟩
    intro word
    rw [List.mem_eraseDups, hmeets.mem_iff]
    simp only [List.mem_singleton, exists_eq_left]

end Shortcuts

end UtilityCss
