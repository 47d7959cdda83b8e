import UtilityCss.Proofs.Compiler.Registration

/-!
Names that are a shortcut and a keyword at once.  Whichever of the two comes second brings the
report, and a report stays until the warnings are handed out, so every such name is on record.  The
shortcut goes before the keyword.
-/

namespace UtilityCss

/-- Record a report, if there is one. -/
def Diagnostics.record (diagnostics : Diagnostics) (report : Option Warning) : Diagnostics :=
  match report with
  | some warning => diagnostics.warn warning
  | none => diagnostics

namespace Compiler

variable {compiler after : Compiler} {action : Action} {actions : List Action} {name : Text}

/-- What an action reports. -/
def Action.report (compiler : Compiler) : Action → Option Warning
  | .compile name =>
      if name.trim.isEmpty || (compiler.cache.get? name).isSome then none
      else (outcome compiler.context name).warning
  | .edit (.shortcut name _) =>
      if compiler.tables.keywords.contains name then some (.shortcutShadowsKeyword name) else none
  | .edit (.keyword name _) =>
      if compiler.shortcuts.contains name then some (.shortcutShadowsKeyword name) else none
  | .edit (.settings config) =>
      if config.externalFramework then some .externalFrameworkUnsupported else none
  | .edit (.inlineStyle name) =>
      match InlineStyle.ofClass compiler.context name with
      | .ok _ => none
      | .error cycle => some (.cyclicShortcut name cycle)
  | .edit _ => none

/-- Nothing but handing the warnings out takes one from the record. -/
theorem diagnostics_apply (hkept : action ≠ .edit .drain) (compiler : Compiler) :
    (action.apply compiler).diagnostics = compiler.diagnostics.record (action.report compiler) := by
  cases action with
  | compile name =>
      simp only [Action.apply, Action.report, Compiler.compile]
      split
      · rfl
      · cases (outcome compiler.context name).warning <;> rfl
  | edit change =>
      cases change with
      | drain => exact absurd rfl hkept
      | shortcut name expansion =>
          simp only [Action.apply, Action.report, Edit.apply, registerShortcut, retryUnresolved]
          split <;> rfl
      | keyword name block =>
          simp only [Action.apply, Action.report, Edit.apply, addKeyword, retryUnresolved]
          split <;> rfl
      | settings config =>
          simp only [Action.apply, Action.report, Edit.apply, settle]
          split <;> rfl
      | inlineStyle name =>
          simp only [Action.apply, Action.report, Edit.apply, Compiler.inlineStyle]
          cases InlineStyle.ofClass compiler.context name <;> rfl
      | breakpoint | property | color => rfl

/-- A name that is a shortcut and a keyword. -/
def HasConflict (compiler : Compiler) (name : Text) : Prop :=
  compiler.shortcuts.contains name = true ∧ compiler.tables.keywords.contains name = true

theorem hasConflict_congr (hcontext : after.context = compiler.context) :
    after.HasConflict name ↔ compiler.HasConflict name := by
  have hshortcuts : after.shortcuts = compiler.shortcuts := congrArg Context.shortcuts hcontext
  have htables : after.tables = compiler.tables := congrArg Context.tables hcontext
  rw [HasConflict, HasConflict, hshortcuts, htables]

theorem context_addKeyword (compiler : Compiler) (name block : Text) :
    (compiler.addKeyword name block).context =
      { compiler.context with tables := compiler.tables.setKeyword name block } := by
  simp only [addKeyword, retryUnresolved]
  split <;> rfl

/-- A conflict that an action brings is what it reports. -/
theorem hasConflict_apply (hconflict : (action.apply compiler).HasConflict name) :
    compiler.HasConflict name ∨ action.report compiler = some (.shortcutShadowsKeyword name) := by
  cases action with
  | compile other =>
      exact Or.inl ((hasConflict_congr (context_compile compiler other)).mp hconflict)
  | edit change =>
      cases change with
      | shortcut other expansion =>
          have hcontext := context_registerShortcut compiler other expansion
          have hshortcuts : (compiler.registerShortcut other expansion).shortcuts =
              compiler.shortcuts.insert other expansion := congrArg Context.shortcuts hcontext
          have htables : (compiler.registerShortcut other expansion).tables = compiler.tables :=
            congrArg Context.tables hcontext
          obtain ⟨hshortcut, hkeyword⟩ := hconflict
          simp only [Action.apply, Edit.apply, hshortcuts, htables] at hshortcut hkeyword
          rcases OrderedMap.contains_insert.mp hshortcut with rfl | hbefore
          · exact Or.inr (if_pos hkeyword)
          · exact Or.inl ⟨hbefore, hkeyword⟩
      | keyword other block =>
          have hcontext := context_addKeyword compiler other block
          have hshortcuts : (compiler.addKeyword other block).shortcuts = compiler.shortcuts :=
            congrArg Context.shortcuts hcontext
          have htables : (compiler.addKeyword other block).tables =
              compiler.tables.setKeyword other block := congrArg Context.tables hcontext
          obtain ⟨hshortcut, hkeyword⟩ := hconflict
          simp only [Action.apply, Edit.apply, hshortcuts, htables] at hshortcut hkeyword
          rcases OrderedMap.contains_insert.mp hkeyword with rfl | hbefore
          · exact Or.inr (if_pos hshortcut)
          · exact Or.inl ⟨hshortcut, hbefore⟩
      | settings config =>
          refine Or.inl ?_
          simp only [Action.apply, Edit.apply, settle] at hconflict
          split at hconflict <;> exact hconflict
      | inlineStyle other =>
          exact Or.inl ((hasConflict_congr (context_inlineStyle compiler other)).mp hconflict)
      | breakpoint | property | color | drain => exact Or.inl hconflict

/-- Every conflict is on record, and nothing is recorded twice. -/
structure ReportsConflicts (compiler : Compiler) : Prop where
  reported : ∀ name, compiler.HasConflict name →
    .shortcutShadowsKeyword name ∈ compiler.diagnostics.warnings
  nodup : compiler.diagnostics.warnings.Nodup

theorem ReportsConflicts.apply (hreports : compiler.ReportsConflicts)
    (hkept : action ≠ .edit .drain) : (action.apply compiler).ReportsConflicts := by
  have hdiagnostics := diagnostics_apply hkept compiler
  refine ⟨fun name hconflict => ?_, ?_⟩
  · rw [hdiagnostics]
    rcases hasConflict_apply hconflict with hbefore | hreport
    · have hrecorded := hreports.reported name hbefore
      cases action.report compiler with
      | some warning => exact Diagnostics.mem_warn.mpr (Or.inr hrecorded)
      | none => exact hrecorded
    · rw [hreport]
      exact Diagnostics.mem_warn.mpr (Or.inl rfl)
  · rw [hdiagnostics]
    cases action.report compiler with
    | some warning => exact Diagnostics.nodup_warn warning hreports.nodup
    | none => exact hreports.nodup

theorem ReportsConflicts.perform (hreports : compiler.ReportsConflicts)
    (hkept : .edit .drain ∉ actions) : (compiler.perform actions).ReportsConflicts := by
  induction actions generalizing compiler with
  | nil => exact hreports
  | cons action rest ih =>
      rw [List.mem_cons, not_or] at hkept
      exact ih (hreports.apply (Ne.symm hkept.1)) hkept.2

theorem drain_notMem_shortcutActions (name expansion : Text) :
    .edit .drain ∉ Operation.shortcutActions name expansion := by
  unfold Operation.shortcutActions
  split
  · exact List.not_mem_nil
  · split <;> simp

theorem drain_notMem_actions {operation : Operation} (hkept : operation ≠ .drain) :
    .edit .drain ∉ operation.actions := by
  cases operation with
  | drain => exact absurd rfl hkept
  | addShortcut name expansion => exact drain_notMem_shortcutActions name expansion
  | configure config =>
      simp only [Operation.actions, List.mem_append, List.mem_cons, List.mem_flatMap, List.mem_map,
        not_or, not_exists, not_and]
      exact ⟨⟨by simp, fun entry _ => drain_notMem_shortcutActions entry.1 entry.2⟩, by simp⟩
  | compile | inlineStyle | addBreakpoint | addKeyword | addProperty | addColor =>
      simp [Operation.actions]

/-- What a session asks of its compiler: an operation, or to begin anew. -/
inductive Request where
  | ofOperation (operation : Operation)
  | reset

/-- A compiler that begins anew has the built-in tables and nothing else. -/
def Request.apply (compiler : Compiler) : Request → Compiler
  | ofOperation operation => operation.apply compiler
  | reset => {}

theorem reportsConflicts_ofTables (tables : Tables) : (ofTables tables).ReportsConflicts where
  reported name hconflict := by cases hconflict.1
  nodup := List.nodup_nil

theorem namesShortcuts_ofTables (tables : Tables) : (ofTables tables).NamesShortcuts := by
  intro name hname
  cases hname

theorem ReportsConflicts.request (hreports : compiler.ReportsConflicts) {request : Request}
    (hkept : request ≠ .ofOperation .drain) : (request.apply compiler).ReportsConflicts := by
  cases request with
  | ofOperation operation =>
      have hoperation : operation ≠ .drain := fun heq => hkept (heq ▸ rfl)
      rw [Request.apply, ← perform_actions]
      exact hreports.perform (drain_notMem_actions hoperation)
  | reset => exact reportsConflicts_ofTables .builtin

theorem NamesShortcuts.request (hnames : compiler.NamesShortcuts) (request : Request) :
    (request.apply compiler).NamesShortcuts := by
  cases request with
  | ofOperation operation => exact hnames.apply operation
  | reset => exact namesShortcuts_ofTables .builtin

theorem conflicts_foldl {requests : List Request} (hreports : compiler.ReportsConflicts)
    (hnames : compiler.NamesShortcuts) (hkept : .ofOperation .drain ∉ requests) :
    (requests.foldl Request.apply compiler).ReportsConflicts ∧
      (requests.foldl Request.apply compiler).NamesShortcuts := by
  induction requests generalizing compiler with
  | nil => exact ⟨hreports, hnames⟩
  | cons request rest ih =>
      rw [List.mem_cons, not_or] at hkept
      exact ih (hreports.request (Ne.symm hkept.1)) (hnames.request request) hkept.2

/-- The rule text of a shortcut; a cyclic one has none. -/
def shortcutRule? (ctx : Context) (name : Text) : Option Text :=
  (shortcutText? ctx name).toOption.join

theorem outcome_of_shortcut {ctx : Context} (hclass : isDocumentToken name = false)
    (hshortcut : ctx.shortcuts.contains name = true) :
    (outcome ctx name).kind = .shortcuts ∧ (outcome ctx name).css = shortcutRule? ctx name := by
  simp only [outcome, hclass, hshortcut, Bool.false_eq_true, ↓reduceIte, shortcutRule?]
  cases shortcutText? ctx name <;> exact ⟨rfl, rfl⟩

/-- A shortcut that is compiled for the first time has its own rule, and only that sheet grows. -/
theorem compile_of_shortcut (hname : name.trim ≠ []) (hnew : compiler.cache.get? name = none)
    (hclass : isDocumentToken name = false) (hshortcut : compiler.shortcuts.contains name = true) :
    (compiler.compile name).css? name = shortcutRule? compiler.context name ∧
      (compiler.compile name).cache.sheets.utilities = compiler.cache.sheets.utilities ∧
      (compiler.compile name).cache.sheets.shortcuts =
        match shortcutRule? compiler.context name with
        | some css => Sheets.appendText compiler.cache.sheets.shortcuts css
        | none => compiler.cache.sheets.shortcuts := by
  have hblank : name.trim.isEmpty = false := List.isEmpty_eq_false_iff.mpr hname
  have hcontext : compiler.context.shortcuts.contains name = true := hshortcut
  obtain ⟨hkind, hcss⟩ := outcome_of_shortcut hclass hcontext
  have hwritten : ∀ css ∈ shortcutRule? compiler.context name, css ≠ [] := fun css hrule =>
    (outcome_eq_some (hcss.trans hrule)).1
  have hcache := cache_compile_of_new hblank hnew
  rw [hkind, hcss] at hcache
  refine ⟨(css?_compile_of_new hblank hnew).trans hcss, ?_⟩
  generalize shortcutRule? compiler.context name = rule at hwritten hcache ⊢
  have htext := @RuleCache.text_finish_begin compiler.cache name .shortcuts rule hwritten
  rw [← hcache] at htext
  cases rule with
  | none => exact ⟨htext .utilities, htext .shortcuts⟩
  | some css => exact ⟨htext .utilities, htext .shortcuts⟩

/-- While the warnings are not handed out, each name that is a shortcut and a keyword is on record,
and nothing is recorded twice.  The first compilation of such a name makes the rule of the shortcut,
if it has one, and puts it on the sheet of the shortcuts. -/
theorem conflicts_of_requests (tables : Tables) {requests : List Request}
    (hkept : .ofOperation .drain ∉ requests) :
    let compiler := requests.foldl Request.apply (ofTables tables)
    compiler.diagnostics.warnings.Nodup ∧
      ∀ name, compiler.shortcuts.contains name = true →
        compiler.tables.keywords.contains name = true →
          .shortcutShadowsKeyword name ∈ compiler.diagnostics.warnings ∧
            (compiler.cache.get? name = none → isDocumentToken name = false →
              let next := compiler.compile name
              let rule := shortcutRule? compiler.context name
              next.css? name = rule ∧
                next.cache.sheets.utilities = compiler.cache.sheets.utilities ∧
                next.cache.sheets.shortcuts =
                  match rule with
                  | some css => Sheets.appendText compiler.cache.sheets.shortcuts css
                  | none => compiler.cache.sheets.shortcuts) := by
  intro compiler
  obtain ⟨hreports, hnames⟩ := conflicts_foldl (reportsConflicts_ofTables tables)
    (namesShortcuts_ofTables tables) hkept
  refine ⟨hreports.nodup, fun name hshortcut hkeyword =>
    ⟨hreports.reported name ⟨hshortcut, hkeyword⟩, fun hnew hclass => ?_⟩⟩
  exact compile_of_shortcut (hnames name hshortcut) hnew hclass hshortcut

/-- One shortcut comes before the keyword of its name, one after the keyword of its trimmed name. -/
def shadowingRequests : List Request :=
  [.ofOperation (.compile "p-4".toList), .reset,
    .ofOperation (.addShortcut "panel".toList "p-4 rounded".toList),
    .ofOperation (.addKeyword "panel".toList "display: grid;".toList),
    .ofOperation (.configure { shortcuts := .ofList [(" flex ".toList, "p-1".toList)] })]

theorem conflicts_of_shadowingRequests :
    let compiler := shadowingRequests.foldl Request.apply (ofTables .empty)
    .ofOperation .drain ∉ shadowingRequests ∧
      .shortcutShadowsKeyword "panel".toList ∈ compiler.diagnostics.warnings ∧
      .shortcutShadowsKeyword "flex".toList ∈ compiler.diagnostics.warnings ∧
      compiler.diagnostics.warnings.Nodup ∧
      (compiler.compile "flex".toList).css? "flex".toList =
        some ".flex \x7b\n  padding: 4px;\n\x7d".toList := by
  intro compiler
  have hkept : .ofOperation .drain ∉ shadowingRequests := by simp [shadowingRequests]
  have hnames : compiler.shortcuts.contains "panel".toList = true ∧
      compiler.tables.keywords.contains "panel".toList = true ∧
      compiler.shortcuts.contains "flex".toList = true ∧
      compiler.tables.keywords.contains "flex".toList = true ∧
      compiler.cache.get? "flex".toList = none ∧
      shortcutRule? compiler.context "flex".toList =
        some ".flex \x7b\n  padding: 4px;\n\x7d".toList := by decide +kernel
  obtain ⟨hpanel, hpanelKeyword, hflex, hflexKeyword, hnew, hrule⟩ := hnames
  obtain ⟨hnodup, hconflicts⟩ := conflicts_of_requests .empty hkept
  obtain ⟨hreported, hcompiled⟩ := hconflicts "flex".toList hflex hflexKeyword
  refine ⟨hkept, (hconflicts "panel".toList hpanel hpanelKeyword).1, hreported, hnodup, ?_⟩
  exact (hcompiled hnew (by decide)).1.trans hrule

end Compiler

end UtilityCss
