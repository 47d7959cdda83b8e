import UtilityCss.Proofs.Compiler.SheetHistory
import UtilityCss.Proofs.Rule.Scale

/-!
Classes that are stored without a rule.  Every edit of the tables forgets them, so that a class without
a rule has none under the tables of the moment.  Settings forget nothing: the scale cannot give a class
a rule, but breakpoints can, and a class may still be stored as it was under breakpoints that a
configuration has replaced.
-/

namespace UtilityCss.Compiler

/-- The breakpoints that configurations have replaced since failures were last forgotten. -/
def Action.outdated (compiler : Compiler) (outdated : List Breakpoints) :
    Action → List Breakpoints
  | .edit (.settings config) =>
      if config.breakpoints.isEmpty then outdated else compiler.breakpoints :: outdated
  | .edit change => if change.forgets then [] else outdated
  | .compile _ => outdated

/-- The replaced breakpoints that failures may go back to after a list of actions. -/
def outdatedAfter (compiler : Compiler) (outdated : List Breakpoints) :
    List Action → List Breakpoints
  | [] => outdated
  | action :: rest =>
      outdatedAfter (action.apply compiler) (action.outdated compiler outdated) rest

/-- Every class that is stored without a rule has none under the present breakpoints or under outdated
ones, with everything else as it is now. -/
def Explains (compiler : Compiler) (outdated : List Breakpoints) : Prop :=
  ∀ name entry, compiler.cache.get? name = some entry → entry.state = .resolved none →
    ∃ breakpoints ∈ compiler.breakpoints :: outdated,
      (outcome { compiler.context with breakpoints } name).css = none

variable {compiler : Compiler} {replaced : List Breakpoints} {name : Text}

theorem Explains.of_eq {other : Compiler} (hexplains : compiler.Explains replaced)
    (hcache : other.cache = compiler.cache) (hcontext : other.context = compiler.context) :
    other.Explains replaced := by
  have hbreakpoints : other.breakpoints = compiler.breakpoints :=
    congrArg Context.breakpoints hcontext
  intro name entry hentry hstate
  rw [hbreakpoints, hcontext]
  exact hexplains name entry (hcache ▸ hentry) hstate

/-- What has been forgotten needs no explanation. -/
theorem explains_of_evicted {other : Compiler}
    (hcache : other.cache = compiler.cache.evictUnresolved) (replaced : List Breakpoints) :
    other.Explains replaced := by
  intro name entry hentry hstate
  rw [hcache, RuleCache.get?_evictUnresolved, Option.filter_eq_some_iff] at hentry
  exact absurd hstate (by simpa using hentry.2)

theorem Explains.compile (hexplains : compiler.Explains replaced) (name : Text) :
    (compiler.compile name).Explains replaced := by
  have hcontext := context_compile compiler name
  by_cases hblank : name.trim.isEmpty = true
  · rwa [compile_of_blank hblank]
  · rw [Bool.not_eq_true] at hblank
    cases hcached : compiler.cache.get? name with
    | some entry => rwa [compile_of_isSome (by rw [hcached]; rfl)]
    | none =>
        have hbreakpoints : (compiler.compile name).breakpoints = compiler.breakpoints :=
          congrArg Context.breakpoints hcontext
        intro probe entry hentry hstate
        rw [cache_compile_of_new hblank hcached, RuleCache.get?_finish] at hentry
        rw [hbreakpoints, hcontext]
        split at hentry
        · rename_i hprobe
          cases hentry
          refine ⟨compiler.breakpoints, List.mem_cons_self, ?_⟩
          rw [hprobe]
          exact CacheState.resolved.inj hstate
        · rename_i hprobe
          rw [RuleCache.get?_begin, if_neg hprobe] at hentry
          exact hexplains probe entry hentry hstate

/-- Settings keep failures: the scale makes no difference, and replaced breakpoints become outdated. -/
theorem Explains.settle (hexplains : compiler.Explains replaced) (config : Config) :
    (compiler.settle config).Explains
      (Action.outdated compiler replaced (.edit (.settings config))) := by
  have hcache : (compiler.settle config).cache = compiler.cache :=
    (Edit.settings config).cache_apply_eq compiler
  have hbreakpoints : (compiler.settle config).breakpoints =
      if config.breakpoints.isEmpty then compiler.breakpoints else config.breakpoints := by
    by_cases hframework : config.externalFramework = true <;>
      simp [Compiler.settle, hframework, warn]
  have hcontext : ∀ breakpoints, { (compiler.settle config).context with breakpoints } =
      ({ compiler.context with breakpoints } : Context).atScale
        (compiler.settle config).pixelMultiplier := by
    intro breakpoints
    by_cases hframework : config.externalFramework = true <;>
      simp [Compiler.settle, hframework, warn, context, Context.atScale]
  intro name entry hentry hstate
  obtain ⟨breakpoints, hmem, hnone⟩ := hexplains name entry (hcache ▸ hentry) hstate
  refine ⟨breakpoints, ?_, ?_⟩
  · rw [hbreakpoints, Action.outdated]
    split
    · exact hmem
    · exact List.mem_cons_of_mem _ hmem
  · rwa [hcontext, outcome_eq_none_atScale]

theorem Explains.apply (hexplains : compiler.Explains replaced) (action : Action) :
    (action.apply compiler).Explains (action.outdated compiler replaced) := by
  cases action with
  | compile name => exact hexplains.compile name
  | edit change =>
      have hcache := change.cache_apply_eq compiler
      cases change with
      | settings config => exact hexplains.settle config
      | inlineStyle name => exact hexplains.of_eq hcache (context_inlineStyle compiler name)
      | drain => exact hexplains.of_eq hcache rfl
      | breakpoint | shortcut | keyword | property | color => exact explains_of_evicted hcache []

theorem Explains.perform (hexplains : compiler.Explains replaced) (actions : List Action) :
    (compiler.perform actions).Explains (compiler.outdatedAfter replaced actions) := by
  induction actions generalizing compiler replaced with
  | nil => exact hexplains
  | cons action rest ih => exact ih (hexplains.apply action)

theorem explains_run (tables : Tables) (operations : List Operation) :
    ((ofTables tables).run operations).Explains
      ((ofTables tables).outdatedAfter [] (operations.flatMap Operation.actions)) := by
  have hnew : (ofTables tables).Explains [] := by
    intro name entry hentry
    cases hentry
  rw [run_eq_perform]
  exact hnew.perform _

/-- A class that has no rule after it was compiled is stored without one, or has none now. -/
theorem css?_compile_eq_none_iff (hname : name.trim ≠ []) :
    (compiler.compile name).css? name = none ↔
      compiler.css? name = none ∧
        ((compiler.cache.get? name).isSome = true ∨ (outcome compiler.context name).css = none) := by
  have hblank : name.trim.isEmpty = false := List.isEmpty_eq_false_iff.mpr hname
  cases hcached : compiler.cache.get? name with
  | some entry =>
      have hsome : (compiler.cache.get? name).isSome = true := by rw [hcached]; rfl
      simp [compile_of_isSome hsome]
  | none =>
      have hbefore : compiler.css? name = none := by simp [css?, RuleCache.lookup, hcached]
      simp [css?_compile_of_new hblank hcached, hbefore]

/-- A class that compiles to no rule has none under the breakpoints of the moment or under some that a
configuration has replaced since failures were last forgotten, whatever the scale was.  Where no such
breakpoints are left, it has no rule exactly if none is stored and none can be made now. -/
theorem failures_of_run (tables : Tables) (operations : List Operation) :
    let compiler := (ofTables tables).run operations
    let replaced := (ofTables tables).outdatedAfter [] (operations.flatMap Operation.actions)
    ∀ name, name.trim ≠ [] →
      ((compiler.compile name).css? name = none →
        ∃ breakpoints ∈ compiler.breakpoints :: replaced,
          (outcome { compiler.context with breakpoints } name).css = none) ∧
      (replaced = [] →
        ((compiler.compile name).css? name = none ↔
          compiler.css? name = none ∧ (outcome compiler.context name).css = none)) := by
  intro compiler replaced name hname
  have hexplains : compiler.Explains replaced := explains_run tables operations
  have hfailure : (compiler.compile name).css? name = none →
      ∃ breakpoints ∈ compiler.breakpoints :: replaced,
        (outcome { compiler.context with breakpoints } name).css = none := by
    intro hnone
    obtain ⟨hbefore, hcached | hnew⟩ := (css?_compile_eq_none_iff hname).mp hnone
    · obtain ⟨entry, hentry⟩ := Option.isSome_iff_exists.mp hcached
      obtain ⟨css, rfl⟩ := (records_run tables operations).settled hentry
      cases css with
      | none => exact hexplains name _ hentry rfl
      | some css =>
          rw [css?_eq_some_iff.mpr ⟨_, hentry⟩] at hbefore
          cases hbefore
    · exact ⟨compiler.breakpoints, List.mem_cons_self, hnew⟩
  refine ⟨hfailure, ?_⟩
  intro hreplaced
  rw [hreplaced] at hfailure
  constructor
  · intro hnone
    obtain ⟨breakpoints, hbreakpoints, houtcome⟩ := hfailure hnone
    rw [List.mem_singleton.mp hbreakpoints] at houtcome
    exact ⟨((css?_compile_eq_none_iff hname).mp hnone).1, houtcome⟩
  · rintro ⟨hbefore, houtcome⟩
    exact (css?_compile_eq_none_iff hname).mpr ⟨hbefore, Or.inr houtcome⟩

/-- Wide viewports, as a configuration may add them. -/
def wideBreakpoints : Breakpoints := .ofList [("xl".toList, "(min-width: 1200px)".toList)]

/-- Tables with a single utility. -/
def paddingTables : Tables := { properties := .ofList [("p".toList, ["padding".toList])] }

/-- An edit after the configuration leaves no failure that goes back to other breakpoints. -/
theorem failures_of_run_after_edit :
    let operations : List Operation :=
      [.compile "xl:p-4".toList,
        .configure { breakpoints := wideBreakpoints, pixelMultiplier := some 2 },
        .addKeyword "stack".toList "display: flex;".toList]
    let compiler := (ofTables paddingTables).run operations
    (ofTables paddingTables).outdatedAfter [] (operations.flatMap Operation.actions) = [] ∧
      Text.trim "m:p-4".toList ≠ [] ∧
      (compiler.compile "m:p-4".toList).css? "m:p-4".toList = none ∧
      (outcome compiler.context "m:p-4".toList).css = none := by
  intro operations compiler
  have hname : Text.trim "m:p-4".toList ≠ [] := by decide +kernel
  have hreplaced :
      (ofTables paddingTables).outdatedAfter [] (operations.flatMap Operation.actions) = [] := by
    decide +kernel
  have hnone : (compiler.compile "m:p-4".toList).css? "m:p-4".toList = none := by decide +kernel
  have hiff := (failures_of_run paddingTables operations "m:p-4".toList hname).2 hreplaced
  exact ⟨hreplaced, hname, hnone, (hiff.mp hnone).2⟩

/-- Without one, a class stays without a rule that it has under the new breakpoints. -/
theorem failure_outlives_breakpoints :
    let compiler := (ofTables .builtin).run
      [.compile "xl:p-4".toList, .configure { breakpoints := wideBreakpoints }]
    (compiler.compile "xl:p-4".toList).css? "xl:p-4".toList = none ∧
      (outcome compiler.context "xl:p-4".toList).css =
        some
          "@media (min-width: 1200px) \x7b .xl\\:p-4 \x7b padding: 16px; \x7d \x7d".toList := by
  decide +kernel

end UtilityCss.Compiler
