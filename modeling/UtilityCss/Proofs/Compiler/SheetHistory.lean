import UtilityCss.Proofs.Compiler.Operation
import UtilityCss.Proofs.Rule.Declarations

/-!
The sheets as a record of a run.  A class gets its rule once, and from then on the cache, the flag
of the entry and one of the two sheets agree about it, whatever is edited later.
-/

namespace UtilityCss

theorem intercalate_cons_ne_nil {separator part : Text} (rest : List Text) (hpart : part ≠ []) :
    separator.intercalate (part :: rest) ≠ [] := by
  cases rest <;> simp [hpart]

theorem intercalate_concat (separator part : Text) {parts : List Text} (hparts : parts ≠ []) :
    separator.intercalate (parts ++ [part]) = separator.intercalate parts ++ separator ++ part := by
  induction parts with
  | nil => exact absurd rfl hparts
  | cons first rest ih =>
      cases rest with
      | nil => simp
      | cons second rest =>
          have htail := ih (List.cons_ne_nil second rest)
          simp only [List.cons_append, List.intercalate_cons_cons] at htail ⊢
          rw [htail]
          simp

/-- Appending to a sheet adds one line at the end of the joined texts. -/
theorem Sheets.appendText_intercalate {parts : List Text} (css : Text)
    (hparts : ∀ part ∈ parts, part ≠ []) :
    appendText (['\n'].intercalate parts) css = ['\n'].intercalate (parts ++ [css]) := by
  cases parts with
  | nil => simp [appendText]
  | cons first rest =>
      have hfirst : ['\n'].intercalate (first :: rest) ≠ [] :=
        intercalate_cons_ne_nil rest (hparts first List.mem_cons_self)
      rw [intercalate_concat _ _ (List.cons_ne_nil first rest), appendText,
        if_neg (by simpa using hfirst)]
      simp

namespace Rule

theorem braces_ne_nil (head content : Text) : braces head content ≠ [] := by
  simp [braces]

theorem render_ne_nil (className : Text) (rule : Rule) : rule.render className ≠ [] := by
  unfold render
  cases rule.atRules with
  | nil =>
      simp only [List.foldr_nil]
      split
      · exact braces_ne_nil _ _
      · simp
  | cons atRule chain => exact braces_ne_nil _ _

end Rule

theorem styleText?_ne_nil {ctx : Context} {raw css : Text} (hcss : styleText? ctx raw = some css) :
    css ≠ [] := by
  obtain ⟨rules, hrules, rfl⟩ := Option.map_eq_some_iff.mp hcss
  cases rules with
  | nil => exact absurd rfl (Rule.ofToken?_ne_nil hrules)
  | cons rule rest => exact intercalate_cons_ne_nil _ (rule.render_ne_nil raw)

theorem Block.render_ne_nil (selector : Text) (block : Block) : block.render selector ≠ [] :=
  intercalate_cons_ne_nil _ (by simp [openLine])

theorem shortcutText?_ne_nil {ctx : Context} {name css : Text}
    (hcss : shortcutText? ctx name = .ok (some css)) : css ≠ [] := by
  unfold shortcutText? at hcss
  cases hexpand : ctx.shortcuts.expand name with
  | error cycle => simp [hexpand, Except.map] at hcss
  | ok tokens =>
      simp only [hexpand, Except.map, Except.ok.injEq] at hcss
      split at hcss
      · cases hcss
      · cases hcss
        exact Block.render_ne_nil _ _

namespace Compiler

/-- The sheet that the rule of a class goes to. -/
def sheetKind (compiler : Compiler) (name : Text) : SheetKind :=
  if compiler.shortcuts.contains name then .shortcuts else .utilities

/-- A rule that a compilation yields is not empty, and it goes to the sheet of its class. -/
theorem outcome_eq_some {compiler : Compiler} {name css : Text}
    (hcss : (outcome compiler.context name).css = some css) :
    css ≠ [] ∧ (outcome compiler.context name).kind = compiler.sheetKind name := by
  have hcontext : compiler.context.shortcuts = compiler.shortcuts := rfl
  unfold outcome at hcss ⊢
  unfold sheetKind
  by_cases hdocument : isDocumentToken name = true
  · simp [hdocument] at hcss
  · simp only [hdocument, Bool.false_eq_true, ↓reduceIte, hcontext] at hcss ⊢
    by_cases hshortcut : compiler.shortcuts.contains name = true
    · simp only [hshortcut, ↓reduceIte] at hcss ⊢
      cases htext : shortcutText? compiler.context name with
      | error cycle => simp [htext] at hcss
      | ok result =>
          simp only [htext] at hcss ⊢
          exact ⟨shortcutText?_ne_nil (hcss ▸ htext), trivial⟩
    · simp only [hshortcut, Bool.false_eq_true, ↓reduceIte] at hcss ⊢
      exact ⟨styleText?_ne_nil hcss, trivial⟩

end Compiler

/-- A class with the text of its rule and the sheet that the text went to. -/
structure SheetRule where
  name : Text
  kind : SheetKind
  css : Text
deriving DecidableEq, Repr

/-- The texts of the rules that went to a sheet, in order. -/
def ruleTexts (kind : SheetKind) (rules : List SheetRule) : List Text :=
  (rules.filter fun rule => rule.kind = kind).map SheetRule.css

/-- A cache and its sheets tell the same story as a list of rules. -/
structure RuleCache.Records (cache : RuleCache) (rules : List SheetRule) : Prop where
  settled : ∀ {name : Text} {entry : CacheEntry}, cache.get? name = some entry →
    ∃ css : Option Text, entry = ⟨.resolved css, css.isSome⟩
  mem_iff : ∀ name css : Text,
    cache.get? name = some ⟨.resolved (some css), true⟩ ↔ ∃ kind, ⟨name, kind, css⟩ ∈ rules
  nodup_names : (rules.map SheetRule.name).Nodup
  css_ne_nil : ∀ rule ∈ rules, rule.css ≠ []
  sheet_eq : ∀ kind, cache.sheets.text kind = ['\n'].intercalate (ruleTexts kind rules)

namespace RuleCache

variable {cache : RuleCache} {rules : List SheetRule} {name : Text}

theorem records_empty : empty.Records [] where
  settled h := by cases h
  mem_iff name css := by simp [get?, empty]
  nodup_names := List.nodup_nil
  css_ne_nil := by simp
  sheet_eq kind := by cases kind <;> rfl

/-- Only classes without a rule are forgotten, and they are not recorded. -/
theorem Records.evictUnresolved (hrecords : cache.Records rules) :
    cache.evictUnresolved.Records rules where
  settled {name entry} hentry := by
    rw [get?_evictUnresolved, Option.filter_eq_some_iff] at hentry
    exact hrecords.settled hentry.1
  mem_iff name css := by
    rw [get?_evictUnresolved, Option.filter_eq_some_iff, hrecords.mem_iff]
    simp
  nodup_names := hrecords.nodup_names
  css_ne_nil := hrecords.css_ne_nil
  sheet_eq := hrecords.sheet_eq

theorem isInjected_begin (cache : RuleCache) (name : Text) :
    (cache.begin name).isInjected name = false := by
  simp [isInjected, get?_begin]

theorem hasText_eq_isSome {result : Option Text} (hresult : ∀ css ∈ result, css ≠ []) :
    hasText result = result.isSome := by
  cases result with
  | none => rfl
  | some css => simpa [hasText] using hresult css rfl

/-- Compiling a new class stores its result and flags it exactly when there is one. -/
theorem get?_finish_begin {kind : SheetKind} {result : Option Text}
    (hresult : ∀ css ∈ result, css ≠ []) (probe : Text) :
    ((cache.begin name).finish name kind result).get? probe =
      if probe = name then some ⟨.resolved result, result.isSome⟩ else cache.get? probe := by
  rw [get?_finish, get?_begin, isInjected_begin, hasText_eq_isSome hresult, Bool.false_or]
  split <;> rfl

theorem text_finish_begin {kind : SheetKind} {result : Option Text}
    (hresult : ∀ css ∈ result, css ≠ []) (probe : SheetKind) :
    ((cache.begin name).finish name kind result).sheets.text probe =
      match result with
      | some css =>
          if probe = kind then Sheets.appendText (cache.sheets.text kind) css
          else cache.sheets.text probe
      | none => cache.sheets.text probe := by
  cases result with
  | none => rfl
  | some css =>
      have hcss : hasText (some css) = true := by
        rw [hasText_eq_isSome hresult]
        rfl
      simp only [finish, hcss, isInjected_begin, Bool.not_false, Bool.and_true, ↓reduceIte,
        Option.getD_some, Sheets.text_append, sheets_begin]

theorem Records.name_notMem (hrecords : cache.Records rules) (hnew : cache.get? name = none) :
    name ∉ rules.map SheetRule.name := by
  intro hmem
  obtain ⟨⟨_, kind, css⟩, hrule, rfl⟩ := List.mem_map.mp hmem
  rw [(hrecords.mem_iff _ css).mpr ⟨kind, hrule⟩] at hnew
  cases hnew

theorem ruleTexts_append (kind : SheetKind) (first second : List SheetRule) :
    ruleTexts kind (first ++ second) = ruleTexts kind first ++ ruleTexts kind second := by
  simp [ruleTexts]

/-- A new class adds its rule, if it has one, at the end. -/
theorem Records.finish (hrecords : cache.Records rules) (hnew : cache.get? name = none)
    (kind : SheetKind) {result : Option Text} (hresult : ∀ css ∈ result, css ≠ []) :
    ((cache.begin name).finish name kind result).Records
      (rules ++ (result.map fun css => ⟨name, kind, css⟩).toList) where
  settled {probe entry} hentry := by
    rw [get?_finish_begin hresult] at hentry
    split at hentry
    · cases hentry
      exact ⟨result, rfl⟩
    · exact hrecords.settled hentry
  mem_iff probe css := by
    have hname := hrecords.name_notMem hnew
    rw [get?_finish_begin hresult]
    split
    · rename_i hprobe
      subst hprobe
      have habsent : ∀ kind, ⟨probe, kind, css⟩ ∉ rules := fun kind hrule =>
        hname (List.mem_map_of_mem hrule)
      cases result <;> simp [habsent, eq_comm]
    · rename_i hprobe
      rw [hrecords.mem_iff]
      cases result <;> simp [hprobe]
  nodup_names := by
    have hname := hrecords.name_notMem hnew
    rw [List.map_append]
    refine List.nodup_append.mpr ⟨hrecords.nodup_names, ?_, ?_⟩
    · cases result <;> simp
    · intro a ha b hb
      cases result with
      | none => simp at hb
      | some css =>
          simp only [Option.map_some, Option.toList_some, List.map_cons, List.map_nil,
            List.mem_singleton] at hb
          rintro rfl
          exact hname (hb ▸ ha)
  css_ne_nil rule hrule := by
    rcases List.mem_append.mp hrule with hold | hlast
    · exact hrecords.css_ne_nil rule hold
    · simp only [Option.mem_toList, Option.map_eq_some_iff] at hlast
      obtain ⟨css, hcss, rfl⟩ := hlast
      exact hresult css hcss
  sheet_eq probe := by
    rw [text_finish_begin hresult, ruleTexts_append]
    cases result with
    | none => simpa [ruleTexts] using hrecords.sheet_eq probe
    | some css =>
        have hparts : ∀ part ∈ ruleTexts probe rules, part ≠ [] := by
          intro part hpart
          obtain ⟨rule, hrule, rfl⟩ := List.mem_map.mp hpart
          exact hrecords.css_ne_nil rule (List.mem_filter.mp hrule).1
        by_cases hprobe : probe = kind
        · subst hprobe
          simp only [↓reduceIte, hrecords.sheet_eq]
          rw [Sheets.appendText_intercalate css hparts]
          simp [ruleTexts]
        · simp [hprobe, Ne.symm hprobe, hrecords.sheet_eq, ruleTexts]

end RuleCache

namespace Compiler

/-- The rule that an action gives to a class which had none. -/
def firstRule? (compiler : Compiler) : Action → Option SheetRule
  | .compile name =>
      match compiler.css? name with
      | some _ => none
      | none =>
          ((compiler.compile name).css? name).map fun css => ⟨name, compiler.sheetKind name, css⟩
  | .edit _ => none

/-- The classes that get a rule along a list of actions, in the order in which they get it. -/
def firstRules (compiler : Compiler) : List Action → List SheetRule
  | [] => []
  | action :: rest => (compiler.firstRule? action).toList ++ firstRules (action.apply compiler) rest

theorem compile_of_isSome {compiler : Compiler} {name : Text}
    (hcached : (compiler.cache.get? name).isSome = true) : compiler.compile name = compiler := by
  simp [compile, hcached]

theorem compile_of_blank {compiler : Compiler} {name : Text}
    (hblank : name.trim.isEmpty = true) : compiler.compile name = compiler := by
  simp only [compile, hblank, Bool.true_or, ↓reduceIte]

/-- The one case in which a compilation does something. -/
theorem cache_compile_of_new {compiler : Compiler} {name : Text}
    (hblank : name.trim.isEmpty = false) (hnew : compiler.cache.get? name = none) :
    (compiler.compile name).cache =
      (compiler.cache.begin name).finish name (outcome compiler.context name).kind
        (outcome compiler.context name).css := by
  simp [compile, hblank, hnew]

/-- A class that is compiled for the first time has the rule that its outcome gives it. -/
theorem css?_compile_of_new {compiler : Compiler} {name : Text}
    (hblank : name.trim.isEmpty = false) (hnew : compiler.cache.get? name = none) :
    (compiler.compile name).css? name = (outcome compiler.context name).css := by
  have hresult : ∀ css ∈ (outcome compiler.context name).css, css ≠ [] :=
    fun css hcss => (outcome_eq_some hcss).1
  simp [css?, RuleCache.lookup, cache_compile_of_new hblank hnew,
    RuleCache.get?_finish_begin hresult]

theorem css?_eq_some_iff {compiler : Compiler} {name css : Text} :
    compiler.css? name = some css ↔
      ∃ injected, compiler.cache.get? name = some ⟨.resolved (some css), injected⟩ := by
  unfold css? RuleCache.lookup
  cases hentry : compiler.cache.get? name with
  | none => simp
  | some entry =>
      obtain ⟨state, injected⟩ := entry
      cases state <;> simp

theorem firstRule?_of_unchanged {compiler : Compiler} {name : Text}
    (hsame : compiler.compile name = compiler) : compiler.firstRule? (.compile name) = none := by
  simp only [firstRule?, hsame]
  split
  · rfl
  · rename_i hnone
    simp [hnone]

/-- The result of a new class, as its first rule. -/
theorem firstRule?_of_new {compiler : Compiler} {name : Text} (hblank : name.trim.isEmpty = false)
    (hnew : compiler.cache.get? name = none) :
    compiler.firstRule? (.compile name) =
      (outcome compiler.context name).css.map
        fun css => ⟨name, (outcome compiler.context name).kind, css⟩ := by
  have hbefore : compiler.css? name = none := by simp [css?, RuleCache.lookup, hnew]
  simp only [firstRule?, hbefore, css?_compile_of_new hblank hnew]
  cases hcss : (outcome compiler.context name).css with
  | none => rfl
  | some css => simp [(outcome_eq_some hcss).2]

/-- An action adds to the record exactly the rule that it makes. -/
theorem records_apply {compiler : Compiler} {rules : List SheetRule} (action : Action)
    (hrecords : compiler.cache.Records rules) :
    (action.apply compiler).cache.Records (rules ++ (compiler.firstRule? action).toList) := by
  cases action with
  | edit change =>
      rw [firstRule?, Option.toList_none, List.append_nil]
      rcases change.cache_apply compiler with hsame | hevicted
      · exact hsame ▸ hrecords
      · exact hevicted ▸ hrecords.evictUnresolved
  | compile name =>
      by_cases hblank : name.trim.isEmpty = true
      · have hsame : compiler.compile name = compiler := compile_of_blank hblank
        rw [firstRule?_of_unchanged hsame, Action.apply, hsame]
        simpa using hrecords
      · rw [Bool.not_eq_true] at hblank
        cases hentry : compiler.cache.get? name with
        | some entry =>
            have hsame : compiler.compile name = compiler := compile_of_isSome (by simp [hentry])
            rw [firstRule?_of_unchanged hsame, Action.apply, hsame]
            simpa using hrecords
        | none =>
            rw [firstRule?_of_new hblank hentry, Action.apply, cache_compile_of_new hblank hentry]
            exact hrecords.finish hentry _ fun css hcss => (outcome_eq_some hcss).1

theorem records_perform {compiler : Compiler} {rules : List SheetRule} (actions : List Action)
    (hrecords : compiler.cache.Records rules) :
    (compiler.perform actions).cache.Records (rules ++ compiler.firstRules actions) := by
  induction actions generalizing compiler rules with
  | nil => simpa [perform, firstRules] using hrecords
  | cons action rest ih =>
      rw [firstRules, ← List.append_assoc]
      exact ih (records_apply action hrecords)

/-- The record of a run from a new compiler. -/
theorem records_run (tables : Tables) (operations : List Operation) :
    ((ofTables tables).run operations).cache.Records
      ((ofTables tables).firstRules (operations.flatMap Operation.actions)) := by
  have hnew : (ofTables tables).cache.Records [] := RuleCache.records_empty
  rw [run_eq_perform]
  exact records_perform _ hnew

/-- A compilation leaves the entries of the other classes alone. -/
theorem get?_compile_of_ne {compiler : Compiler} {name other : Text} (hother : other ≠ name) :
    (compiler.compile other).cache.get? name = compiler.cache.get? name := by
  by_cases hsame : compiler.compile other = compiler
  · rw [hsame]
  · have hblank : other.trim.isEmpty = false := by
      rw [← Bool.not_eq_true]
      exact fun hblank => hsame (compile_of_blank hblank)
    have hnew : compiler.cache.get? other = none := by
      rw [← Option.not_isSome_iff_eq_none]
      exact fun hcached => hsame (compile_of_isSome hcached)
    rw [cache_compile_of_new hblank hnew, RuleCache.get?_finish, if_neg hother.symm,
      RuleCache.get?_begin, if_neg hother.symm]

/-- A class keeps its rule under every action. -/
theorem css?_apply {compiler : Compiler} {name css : Text} (action : Action)
    (hcss : compiler.css? name = some css) : (action.apply compiler).css? name = some css := by
  obtain ⟨injected, hentry⟩ := css?_eq_some_iff.mp hcss
  refine css?_eq_some_iff.mpr ⟨injected, ?_⟩
  cases action with
  | edit change =>
      rw [Action.apply]
      rcases change.cache_apply compiler with hsame | hevicted
      · rw [hsame, hentry]
      · rw [hevicted, RuleCache.get?_evictUnresolved, hentry]
        rfl
  | compile probe =>
      rw [Action.apply]
      by_cases hprobe : probe = name
      · subst hprobe
        rw [compile_of_isSome (by rw [hentry]; rfl), hentry]
      · rw [get?_compile_of_ne hprobe, hentry]

theorem css?_perform {compiler : Compiler} {name css : Text} (actions : List Action)
    (hcss : compiler.css? name = some css) : (compiler.perform actions).css? name = some css := by
  induction actions generalizing compiler with
  | nil => exact hcss
  | cons action rest ih => exact ih (css?_apply action hcss)

theorem css?_run {compiler : Compiler} {name css : Text} (operations : List Operation)
    (hcss : compiler.css? name = some css) : (compiler.run operations).css? name = some css := by
  rw [run_eq_perform]
  exact css?_perform _ hcss

theorem compile_of_css? {compiler : Compiler} {name css : Text}
    (hcss : compiler.css? name = some css) : compiler.compile name = compiler := by
  obtain ⟨injected, hentry⟩ := css?_eq_some_iff.mp hcss
  exact compile_of_isSome (by rw [hentry]; rfl)

/-- After every run from a new compiler no class is pending, an entry is flagged exactly when its
class has a rule, and each sheet joins the rules of its classes, each class once, in the order in
which they first compiled.  A class that has a rule keeps it through every later run, and
compiling it again changes nothing. -/
theorem sheets_of_run (tables : Tables) (operations : List Operation) :
    let compiler := (ofTables tables).run operations
    let rules := (ofTables tables).firstRules (operations.flatMap Operation.actions)
    (∀ name, compiler.cache.lookup name ≠ .pending) ∧
      (∀ name entry, compiler.cache.get? name = some entry →
        (entry.injected = true ↔ ∃ css, entry.state = .resolved (some css))) ∧
      (∀ kind, compiler.cache.sheets.text kind = ['\n'].intercalate (ruleTexts kind rules)) ∧
      (rules.map SheetRule.name).Nodup ∧
      (∀ name css, compiler.css? name = some css ↔ ∃ kind, ⟨name, kind, css⟩ ∈ rules) ∧
      ∀ name css, (compiler.compile name).css? name = some css →
        ∀ later, let next := (compiler.compile name).run later
          next.css? name = some css ∧ next.compile name = next := by
  intro compiler rules
  have hrecords : compiler.cache.Records rules := records_run tables operations
  refine ⟨?_, ?_, hrecords.sheet_eq, hrecords.nodup_names, ?_, ?_⟩
  · intro name hpending
    cases hentry : compiler.cache.get? name with
    | none => simp [RuleCache.lookup, hentry] at hpending
    | some entry =>
        obtain ⟨css, rfl⟩ := hrecords.settled hentry
        simp [RuleCache.lookup, hentry] at hpending
  · intro name entry hentry
    obtain ⟨css, rfl⟩ := hrecords.settled hentry
    cases css <;> simp
  · intro name css
    rw [← hrecords.mem_iff, css?_eq_some_iff]
    constructor
    · rintro ⟨injected, hentry⟩
      obtain ⟨result, hresult⟩ := hrecords.settled hentry
      cases hresult
      exact hentry
    · exact fun hentry => ⟨true, hentry⟩
  · intro name css hcss later next
    have hkept : next.css? name = some css := css?_run later hcss
    exact ⟨hkept, compile_of_css? hkept⟩

end Compiler

end UtilityCss
