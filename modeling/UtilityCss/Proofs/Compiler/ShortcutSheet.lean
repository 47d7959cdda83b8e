import UtilityCss.Proofs.Compiler.Registration

/-!
The shortcut sheet of a compiler that was configured.  Since selector text is compiled when it is
registered, the order of the entries shows in the sheet, unless whatever a name leads to is registered
before it.
-/

namespace UtilityCss.Compiler

variable {config : Config}

theorem firstRules_append (compiler : Compiler) (first second : List Action) :
    compiler.firstRules (first ++ second) =
      compiler.firstRules first ++ (compiler.perform first).firstRules second := by
  induction first generalizing compiler with
  | nil => rfl
  | cons action rest ih =>
      rw [List.cons_append, firstRules, firstRules, ih, List.append_assoc]
      rfl

theorem sheetKind_compile (compiler : Compiler) (name other : Text) :
    (compiler.compile name).sheetKind other = compiler.sheetKind other := by
  have hshortcuts : (compiler.compile name).shortcuts = compiler.shortcuts :=
    congrArg Context.shortcuts (context_compile compiler name)
  rw [sheetKind, sheetKind, hshortcuts]

theorem sheetKind_foldl_compile (compiler : Compiler) (classes : List Text) (name : Text) :
    (classes.foldl compile compiler).sheetKind name = compiler.sheetKind name := by
  induction classes generalizing compiler with
  | nil => rfl
  | cons other rest ih =>
      exact (ih (compiler.compile other)).trans (sheetKind_compile compiler other name)

theorem of_firstRule?_compile {compiler : Compiler} {name : Text} {rule : SheetRule}
    (hrule : compiler.firstRule? (.compile name) = some rule) :
    rule.name = name ∧ rule.kind = compiler.sheetKind name := by
  simp only [firstRule?] at hrule
  split at hrule
  · cases hrule
  · obtain ⟨css, -, rfl⟩ := Option.map_eq_some_iff.mp hrule
    exact ⟨rfl, rfl⟩

/-- Nothing but the shortcut itself is compiled when one is registered. -/
theorem kind_of_mem_shortcutActions (compiler : Compiler) (entry : Text × Text) :
    ∀ rule ∈ compiler.firstRules (Operation.shortcutActions entry.1 entry.2),
      rule.kind = .shortcuts ∧
        (compiler.shortcuts.register entry).contains rule.name = true := by
  intro rule hrule
  unfold Operation.shortcutActions at hrule
  split at hrule
  · cases hrule
  · rename_i hblank
    rw [List.isEmpty_iff] at hblank
    have hcontains : (compiler.shortcuts.register entry).contains entry.1.trim = true :=
      (Shortcuts.contains_register_iff _ _ _).mpr (Or.inr ⟨rfl, hblank⟩)
    split at hrule
    · cases hrule
    · have hshortcuts : (compiler.registerShortcut entry.1.trim entry.2).shortcuts =
          compiler.shortcuts.register entry := by
        rw [Shortcuts.register, if_neg hblank]
        exact congrArg Context.shortcuts (context_registerShortcut compiler _ _)
      have hfirst : (compiler.registerShortcut entry.1.trim entry.2).firstRule?
          (.compile entry.1.trim) = some rule := by
        rw [firstRules, firstRule?, firstRules, firstRules, List.append_nil] at hrule
        exact Option.mem_toList.mp hrule
      obtain ⟨hname, hkind⟩ := of_firstRule?_compile hfirst
      rw [hname, hkind, sheetKind, hshortcuts, if_pos hcontains]
      exact ⟨rfl, hcontains⟩

theorem kind_of_mem_registrations (compiler : Compiler) (entries : List (Text × Text)) :
    ∀ rule ∈ compiler.firstRules
        (entries.flatMap fun entry => Operation.shortcutActions entry.1 entry.2),
      rule.kind = .shortcuts ∧
        (compiler.shortcuts.registerAll entries).contains rule.name = true := by
  induction entries generalizing compiler with
  | nil => intro rule hrule; cases hrule
  | cons entry rest ih =>
      intro rule hrule
      have hshortcuts : (compiler.addShortcut entry.1 entry.2).shortcuts =
          compiler.shortcuts.register entry :=
        congrArg Context.shortcuts (context_addShortcut compiler entry.1 entry.2)
      rw [List.flatMap_cons, firstRules_append, perform_shortcutActions, List.mem_append] at hrule
      rcases hrule with hfirst | hlater
      · obtain ⟨hkind, hcontains⟩ := kind_of_mem_shortcutActions compiler entry rule hfirst
        refine ⟨hkind, ?_⟩
        rw [Shortcuts.registerAll, List.foldl_cons, ← Shortcuts.registerAll,
          Shortcuts.contains_registerAll]
        exact Or.inl hcontains
      · have hrest := ih (compiler.addShortcut entry.1 entry.2) rule hlater
        rwa [hshortcuts] at hrest

theorem kind_of_mem_compilations (compiler : Compiler) (classes : List Text) :
    ∀ rule ∈ compiler.firstRules (classes.map .compile),
      rule.kind = compiler.sheetKind rule.name := by
  induction classes generalizing compiler with
  | nil => intro rule hrule; cases hrule
  | cons name rest ih =>
      intro rule hrule
      rw [List.map_cons, firstRules, List.mem_append, Option.mem_toList] at hrule
      rcases hrule with hfirst | hlater
      · obtain ⟨hname, hkind⟩ := of_firstRule?_compile hfirst
        rw [hname, hkind]
      · rw [← sheetKind_compile compiler name]
        exact ih (compiler.compile name) rule hlater

theorem mem_ruleTexts_iff {kind : SheetKind} {rules : List SheetRule} {css : Text} :
    css ∈ ruleTexts kind rules ↔ ∃ name, ⟨name, kind, css⟩ ∈ rules := by
  simp only [ruleTexts, List.mem_map, List.mem_filter, decide_eq_true_iff]
  constructor
  · rintro ⟨⟨name, sheet, text⟩, ⟨hrule, rfl⟩, rfl⟩
    exact ⟨name, hrule⟩
  · rintro ⟨name, hrule⟩
    exact ⟨_, ⟨hrule, rfl⟩, rfl⟩

/-- The rules that a configuration gives to the classes of a new compiler. -/
def configuredRules (tables : Tables) (config : Config) : List SheetRule :=
  (ofTables tables).firstRules (Operation.configure config).actions

theorem records_configure (tables : Tables) (config : Config) :
    ((ofTables tables).configure config).cache.Records (configuredRules tables config) := by
  have hrun := records_run tables [.configure config]
  rwa [List.flatMap_singleton] at hrun

/-- The rules of shortcuts are those in the sheet of the shortcuts. -/
theorem kind_of_mem_configuredRules (tables : Tables) (config : Config) :
    ∀ rule ∈ configuredRules tables config,
      rule.kind = ((ofTables tables).configure config).sheetKind rule.name := by
  intro rule hrule
  have hsplit : (Operation.configure config).actions =
      [.edit (.settings config)] ++ (config.shortcuts.entries.flatMap
        (fun entry => Operation.shortcutActions entry.1 entry.2) ++
          config.preload.classes.map .compile) := rfl
  rw [configuredRules, hsplit, firstRules_append, firstRules_append, List.mem_append,
    List.mem_append] at hrule
  rcases hrule with hsettings | hregistration | hcompilation
  · cases hsettings
  · obtain ⟨hkind, hcontains⟩ := kind_of_mem_registrations _ _ rule hregistration
    have hbefore : ((ofTables tables).perform [.edit (.settings config)]).shortcuts = .empty :=
      shortcuts_settle tables config
    rw [hbefore] at hcontains
    rw [hkind, sheetKind, shortcuts_configure, Config.registered, if_pos hcontains]
  · rw [perform_flatMap_shortcutActions] at hcompilation
    rw [kind_of_mem_compilations _ _ rule hcompilation, configure_eq, sheetKind_foldl_compile]
    rfl

/-- The shortcut sheet holds the rules of the shortcuts of the final table. -/
theorem mem_configuredRules_iff (tables : Tables) (config : Config) (name css : Text) :
    ⟨name, .shortcuts, css⟩ ∈ configuredRules tables config ↔
      config.registered.contains name = true ∧
        ((ofTables tables).configure config).css? name = some css := by
  have hkind := kind_of_mem_configuredRules tables config
  rw [css?_eq_some_iff_mem (records_configure tables config)]
  constructor
  · intro hrule
    have hsheet := hkind _ hrule
    rw [sheetKind, shortcuts_configure] at hsheet
    refine ⟨?_, .shortcuts, hrule⟩
    by_contra hplain
    rw [if_neg hplain] at hsheet
    cases hsheet
  · rintro ⟨hshortcut, kind, hrule⟩
    have hsheet := hkind _ hrule
    rw [sheetKind, shortcuts_configure, if_pos hshortcut] at hsheet
    exact hsheet ▸ hrule

theorem trim_ne_nil_of_registered (tables : Tables) (config : Config) {name : Text}
    (hname : config.registered.contains name = true) : name.trim ≠ [] := by
  have hnames := namesShortcuts_run tables [.configure config] name
  rw [run, List.foldl_cons, List.foldl_nil, Operation.apply, shortcuts_configure] at hnames
  exact hnames hname

theorem firstOver_eq_of_forall {ctx : Context} {name : Text} {tables : List Shortcuts}
    {css : Option Text} (hne : tables ≠ [])
    (hcss : ∀ table ∈ tables, (outcome (ctx.withShortcuts table) name).css = css) :
    firstOver ctx name tables = css := by
  induction tables with
  | nil => exact absurd rfl hne
  | cons table rest ih =>
      rw [firstOver_cons, hcss table List.mem_cons_self]
      cases rest with
      | nil => rw [firstOver, List.findSome?_nil, Option.or_none]
      | cons next later =>
          rw [ih (List.cons_ne_nil _ _) fun other hother => hcss other (List.mem_cons_of_mem _ hother)]
          cases css <;> rfl

/-- Selector text that settles has the rule that the final table gives it. -/
theorem css?_configure_of_settles (tables : Tables) {name : Text}
    (hregistered : config.registered.contains name = true) (hselector : isIdentifier name = false)
    (hsettles : config.Settles name) (hacyclic : ¬ config.registered.LeadsToCycle name) :
    ((ofTables tables).configure config).css? name =
      (outcome ((ofTables tables).configure config).context name).css := by
  have hfinal : ((ofTables tables).configure config).context.shortcuts = config.registered :=
    shortcuts_configure tables config
  have hentry : ∃ entry ∈ config.shortcuts.entries, entry.1.trim = name := by
    rcases (Shortcuts.contains_registerAll _ _ _).mp hregistered with hempty | ⟨entry, hentry, heq, -⟩
    · cases hempty
    · exact ⟨entry, hentry, heq⟩
  rw [css?_configure tables config (trim_ne_nil_of_registered tables config hregistered)]
  refine firstOver_eq_of_forall ?_ fun table htable => ?_
  · rw [Config.compiledAgainst, eagerTables, hselector]
    exact List.append_ne_nil_of_left_ne_nil (Shortcuts.tablesAt_ne_nil hentry) _
  · have hagrees : table.AgreesBelow config.registered name := by
      rw [Config.compiledAgainst, eagerTables, hselector] at htable
      rcases List.mem_append.mp htable with heager | hahead
      · exact hsettles table heager
      · split at hahead
        · rw [List.mem_singleton.mp hahead]
          exact fun _ _ => rfl
        · cases hahead
    rw [← hfinal] at hagrees hacyclic
    rw [outcome_of_agreesBelow hagrees hacyclic]

/-- An identifier is compiled only if it is to be compiled ahead. -/
theorem css?_configure_of_isIdentifier (tables : Tables) {name : Text} (hname : name.trim ≠ [])
    (hidentifier : isIdentifier name = true) :
    ((ofTables tables).configure config).css? name =
      if name ∈ config.preload.classes then
        (outcome ((ofTables tables).configure config).context name).css else none := by
  rw [css?_configure tables config hname, Config.compiledAgainst, eagerTables, if_pos hidentifier,
    List.nil_append, context_configure]
  split
  · rw [firstOver_cons]
    exact Option.or_none
  · rfl

theorem css?_configure_of_documentToken (tables : Tables) {name : Text} (hname : name.trim ≠ [])
    (hdocument : isDocumentToken name = true) :
    ((ofTables tables).configure config).css? name = none := by
  rw [css?_configure tables config hname, firstOver, List.findSome?_eq_none_iff]
  intro table _
  rw [outcome, if_pos hdocument]

theorem outcome_css_of_selectorForm {ctx : Context} {name : Text}
    (hform : ctx.shortcuts.IsSelectorForm name) (css : Text) :
    (outcome ctx name).css = some css ↔ shortcutText? ctx name = .ok (some css) := by
  rw [outcome, if_neg (by rw [hform.rule_class]; exact Bool.false_ne_true), if_pos hform.contains]
  cases shortcutText? ctx name <;> simp

/-- The same shortcuts in another order make the same table. -/
theorem registered_of_isReordering {other : Config} (hreordering : other.IsReordering config)
    (hdistinct : Shortcuts.DistinctNames config.shortcuts.entries) (word : Text) :
    other.registered.get? word = config.registered.get? word :=
  Shortcuts.get?_registerAll_of_perm hdistinct hreordering.entries_perm word

theorem context_of_isReordering (tables : Tables) {other : Config}
    (hreordering : other.IsReordering config) :
    ((ofTables tables).configure other).context =
      ((ofTables tables).configure config).context.withShortcuts other.registered := by
  have hsettings : (ofTables tables).settle other = (ofTables tables).settle config := by
    rw [← hreordering.settings_eq]
    rfl
  rw [context_configure, context_configure, hsettings]
  rfl

/-- What does not depend on the moment of its compilation does not depend on the order, either. -/
theorem css?_of_isReordering (tables : Tables) {other : Config}
    (hreordering : other.IsReordering config)
    (hdistinct : Shortcuts.DistinctNames config.shortcuts.entries) {name : Text}
    (hregistered : config.registered.contains name = true)
    (hacyclic : ¬ config.registered.LeadsToCycle name)
    (hsettles : isIdentifier name = false → isDocumentToken name = false →
      config.Settles name ∧ other.Settles name) :
    ((ofTables tables).configure other).css? name =
      ((ofTables tables).configure config).css? name := by
  have htable := registered_of_isReordering hreordering hdistinct
  have hcontext := context_of_isReordering tables hreordering
  have hshortcuts : ((ofTables tables).configure config).context.shortcuts = config.registered :=
    shortcuts_configure tables config
  have houtcome : outcome ((ofTables tables).configure other).context name =
      outcome ((ofTables tables).configure config).context name := by
    rw [hcontext]
    rw [← hshortcuts] at hacyclic htable
    exact outcome_of_agreesBelow (fun word _ => htable word) hacyclic
  have hcontains : other.registered.contains name = true := by
    rw [OrderedMap.contains, htable]
    exact hregistered
  have hname := trim_ne_nil_of_registered tables config hregistered
  cases hselector : isIdentifier name with
  | true =>
      have hpreload : other.preload = config.preload := by rw [← hreordering.settings_eq]
      rw [css?_configure_of_isIdentifier tables hname hselector,
        css?_configure_of_isIdentifier tables hname hselector, hpreload, houtcome]
  | false =>
      cases hdocument : isDocumentToken name with
      | true =>
          rw [css?_configure_of_documentToken tables hname hdocument,
            css?_configure_of_documentToken tables hname hdocument]
      | false =>
          obtain ⟨hfirst, hsecond⟩ := hsettles hselector hdocument
          have hedge : other.registered.Edge = config.registered.Edge := by
            funext first second
            rw [Shortcuts.Edge, Shortcuts.Edge, Shortcuts.expansionWords, Shortcuts.expansionWords,
              htable]
          have hother : ¬ other.registered.LeadsToCycle name := by
            rw [Shortcuts.LeadsToCycle, Shortcuts.Reaches, hedge]
            exact hacyclic
          rw [css?_configure_of_settles tables hregistered hselector hfirst hacyclic,
            css?_configure_of_settles tables hcontains hselector hsecond hother, houtcome]

/-- A new compiler that is configured holds the shortcuts of the configuration, and its shortcut sheet
joins the rules that they have, at most one for each.  A shortcut has the first rule that it is given by
one of the tables it is compiled against.  For selector text this is the rule that the final table
gives it, if whatever the name leads to is registered before it is, and the order of the entries
shows in the sheet only where this fails. -/
theorem shortcutSheet_of_configure (tables : Tables) (config : Config) :
    let compiler := (ofTables tables).configure config
    let rules := configuredRules tables config
    compiler.shortcuts = config.registered ∧
      compiler.cache.sheets.text .shortcuts = ['\n'].intercalate (ruleTexts .shortcuts rules) ∧
      (rules.map SheetRule.name).Nodup ∧
      (∀ rule ∈ rules, rule.kind = .shortcuts ↔ config.registered.contains rule.name = true) ∧
      (∀ name css, config.registered.contains name = true →
        (⟨name, .shortcuts, css⟩ ∈ rules ↔
          firstOver compiler.context name (config.compiledAgainst name) = some css)) ∧
      (∀ name css, config.registered.IsSelectorForm name → config.Settles name →
        ¬ config.registered.LeadsToCycle name →
          (⟨name, .shortcuts, css⟩ ∈ rules ↔
            shortcutText? compiler.context name = .ok (some css))) ∧
      ∀ other : Config, other.IsReordering config →
        Shortcuts.DistinctNames config.shortcuts.entries →
        (∀ name, config.registered.contains name = true →
          ¬ config.registered.LeadsToCycle name) →
        (∀ name, config.registered.IsSelectorForm name →
          config.Settles name ∧ other.Settles name) →
        ∀ css, css ∈ ruleTexts .shortcuts (configuredRules tables other) ↔
          css ∈ ruleTexts .shortcuts rules := by
  intro compiler rules
  have hrecords : compiler.cache.Records rules := records_configure tables config
  have hshortcuts : compiler.context.shortcuts = config.registered :=
    shortcuts_configure tables config
  refine ⟨hshortcuts, hrecords.sheet_eq .shortcuts, hrecords.nodup_names, ?_, ?_, ?_, ?_⟩
  · intro rule hrule
    rw [kind_of_mem_configuredRules tables config rule hrule, sheetKind, shortcuts_configure]
    split <;> simp_all
  · intro name css hname
    rw [mem_configuredRules_iff, css?_configure tables config
      (trim_ne_nil_of_registered tables config hname)]
    exact and_iff_right hname
  · intro name css hform hsettles hacyclic
    rw [mem_configuredRules_iff, css?_configure_of_settles tables hform.contains hform.selector
      hsettles hacyclic, outcome_css_of_selectorForm (hshortcuts ▸ hform)]
    exact and_iff_right hform.contains
  · intro other hreordering hdistinct hacyclic hsettles css
    have hrules : ∀ name, ⟨name, .shortcuts, css⟩ ∈ configuredRules tables other ↔
        ⟨name, .shortcuts, css⟩ ∈ rules := by
      intro name
      rw [mem_configuredRules_iff, mem_configuredRules_iff, OrderedMap.contains,
        registered_of_isReordering hreordering hdistinct, ← OrderedMap.contains]
      refine and_congr_right fun hname => ?_
      rw [css?_of_isReordering tables hreordering hdistinct hname (hacyclic name hname)
        fun hselector hdocument => hsettles name ⟨hname, hselector, hdocument⟩]
    rw [mem_ruleTexts_iff, mem_ruleTexts_iff]
    exact exists_congr hrules

/-- A button, a card, and a selector that refers to the button. -/
def navConfig : Config :=
  { shortcuts := .ofList [("btn".toList, "p-4".toList), ("card".toList, "m-1".toList),
      ("nav a".toList, "btn".toList)] }

/-- The card and the button change places. -/
def turnedNavConfig : Config :=
  { shortcuts := .ofList [("card".toList, "m-1".toList), ("btn".toList, "p-4".toList),
      ("nav a".toList, "btn".toList)] }

/-- The selector comes first. -/
def forwardNavConfig : Config :=
  { shortcuts := .ofList [("nav a".toList, "btn".toList), ("btn".toList, "p-4".toList),
      ("card".toList, "m-1".toList)] }

/-- Registered after the button, the selector has its rule, wherever the card stands. -/
theorem shortcutSheet_of_configure_backward :
    turnedNavConfig.IsReordering navConfig ∧
      Shortcuts.DistinctNames navConfig.shortcuts.entries ∧
      (∀ name, ¬ navConfig.registered.LeadsToCycle name) ∧
      (∀ name, navConfig.registered.IsSelectorForm name →
        navConfig.Settles name ∧ turnedNavConfig.Settles name) ∧
      navConfig.registered.IsSelectorForm "nav a".toList ∧
      ⟨"nav a".toList, .shortcuts, "nav a \x7b\n  padding: 16px;\n\x7d".toList⟩ ∈
        configuredRules .builtin navConfig ∧
      ∀ css, css ∈ ruleTexts .shortcuts (configuredRules .builtin turnedNavConfig) ↔
        css ∈ ruleTexts .shortcuts (configuredRules .builtin navConfig) := by
  have hreordering : turnedNavConfig.IsReordering navConfig := ⟨by decide +kernel, rfl⟩
  have hdistinct : Shortcuts.DistinctNames navConfig.shortcuts.entries := by
    unfold Shortcuts.DistinctNames
    decide +kernel
  have hacyclic : ∀ name, ¬ navConfig.registered.LeadsToCycle name :=
    Shortcuts.not_leadsToCycle_of_keys (by decide +kernel)
  have hnav : navConfig.registered.IsSelectorForm "nav a".toList := by
    refine ⟨?_, ?_, ?_⟩ <;> decide +kernel
  have hsettles : ∀ name, navConfig.registered.IsSelectorForm name →
      navConfig.Settles name ∧ turnedNavConfig.Settles name := by
    have hlast : ∀ name ∈ navConfig.registered.keys, isIdentifier name = false →
        Shortcuts.tablesAt name .empty navConfig.shortcuts.entries = [navConfig.registered] ∧
          Shortcuts.tablesAt name .empty turnedNavConfig.shortcuts.entries =
            [turnedNavConfig.registered] := by
      decide +kernel
    intro name hname
    obtain ⟨hfirst, hsecond⟩ := hlast name (OrderedMap.contains_iff.mp hname.contains) hname.selector
    exact ⟨Config.settles_of_tablesAt hfirst, Config.settles_of_tablesAt hsecond⟩
  have hclaim := shortcutSheet_of_configure .builtin navConfig
  refine ⟨hreordering, hdistinct, hacyclic, hsettles, hnav, ?_, ?_⟩
  · refine (hclaim.2.2.2.2.2.1 _ _ hnav (hsettles _ hnav).1 (hacyclic _)).mpr ?_
    decide +kernel
  · exact hclaim.2.2.2.2.2.2 turnedNavConfig hreordering hdistinct (fun name _ => hacyclic name)
      hsettles

/-- Registered before the button, the selector gets no rule, although the final table gives it one. -/
theorem shortcutSheet_of_configure_forward :
    forwardNavConfig.IsReordering navConfig ∧
      (∀ name, ¬ forwardNavConfig.registered.LeadsToCycle name) ∧
      forwardNavConfig.registered.IsSelectorForm "nav a".toList ∧
      let compiler := (ofTables .builtin).configure forwardNavConfig
      shortcutText? compiler.context "nav a".toList =
          .ok (some "nav a \x7b\n  padding: 16px;\n\x7d".toList) ∧
        compiler.cache.sheets.text .shortcuts = [] := by
  refine ⟨⟨by decide +kernel, rfl⟩, Shortcuts.not_leadsToCycle_of_keys (by decide +kernel),
    ⟨?_, ?_, ?_⟩, ?_, ?_⟩ <;> decide +kernel

end UtilityCss.Compiler
