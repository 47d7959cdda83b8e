import UtilityCss.Proofs.Compiler.SheetHistory
import UtilityCss.Proofs.Shortcut.Expansion

/-!
The order of the rules in a sheet.  A compiler that is asked for many classes, one after the other,
appends the text of each class that is new to it where the class is asked for first.
-/

namespace UtilityCss

/-- Whether a class token of an element goes to the compiler: container conditions and deferred
classes do not. -/
def isCompiled (token : Text) : Bool :=
  (ContainerToken.parse? token).isNone && (deferredClass? token).isNone

theorem isDocumentToken_of_not_isCompiled {token : Text} (htoken : isCompiled token = false) :
    isDocumentToken token = true := by
  rw [isCompiled, Bool.and_eq_false_iff, Option.isNone_eq_false_iff, Option.isNone_eq_false_iff]
    at htoken
  rw [isDocumentToken, Bool.or_eq_true]
  refine htoken.symm.imp (fun hdeferred => ?_) id
  obtain ⟨name, hname⟩ := Option.isSome_iff_exists.mp hdeferred
  rw [deferredClass?, Option.filter_eq_some_iff, Text.after?_eq_some_iff] at hname
  rw [hname.1, List.isPrefixOf_iff_prefix]
  exact List.prefix_append _ _

namespace Compiler

variable {before after next : Compiler} {name : Text} {names : List Text} {kind : SheetKind}

/-- What the rules of later classes depend on. -/
def ledger (compiler : Compiler) : Context × RuleCache :=
  (compiler.context, compiler.cache)

theorem ledger_inlineStyle (compiler : Compiler) (name : Text) :
    (compiler.inlineStyle name).1.ledger = compiler.ledger := by
  unfold inlineStyle
  split <;> rfl

/-- What a class brings to a sheet when it is compiled. -/
def ruleText? (compiler : Compiler) (kind : SheetKind) (name : Text) : Option Text :=
  let result := outcome compiler.context name
  if result.kind = kind then result.css else none

/-- What classes bring to a sheet: the texts of those that are new, in the order in which they
first occur. -/
def newTexts (compiler : Compiler) (kind : SheetKind) (names : List Text) : List Text :=
  (names.eraseDups.filter fun name => (compiler.cache.get? name).isNone).filterMap
    (compiler.ruleText? kind)

theorem ruleText?_of_not_isCompiled (hname : isCompiled name = false) (compiler : Compiler)
    (kind : SheetKind) : compiler.ruleText? kind name = none := by
  rw [ruleText?, outcome, if_pos (isDocumentToken_of_not_isCompiled hname)]
  exact ite_self _

/-- A class that is compiled for the first time brings its text. -/
theorem text_compile_of_new {compiler : Compiler} (hblank : name.trim.isEmpty = false)
    (hnew : compiler.cache.get? name = none) (kind : SheetKind) :
    (compiler.compile name).cache.sheets.text kind =
      (compiler.ruleText? kind name).toList.foldl Sheets.appendText
        (compiler.cache.sheets.text kind) := by
  have hresult : ∀ css ∈ (outcome compiler.context name).css, css ≠ [] :=
    fun css hcss => (outcome_eq_some hcss).1
  rw [cache_compile_of_new hblank hnew, ruleText?]
  revert hresult
  generalize outcome compiler.context name = result
  intro hresult
  rw [RuleCache.text_finish_begin hresult]
  obtain ⟨sheet, css, warning⟩ := result
  cases css with
  | none => simp
  | some css =>
      by_cases hsheet : sheet = kind
      · subst hsheet
        simp
      · simp [hsheet, Ne.symm hsheet]

/-- A class brings something new only where it first occurs. -/
theorem newTexts_concat (compiler : Compiler) (kind : SheetKind) (names : List Text) (name : Text) :
    compiler.newTexts kind (names ++ [name]) = compiler.newTexts kind names ++
      if name ∉ names ∧ compiler.cache.get? name = none then
        (compiler.ruleText? kind name).toList
      else [] := by
  rw [newTexts, eraseDups_concat]
  by_cases hold : name ∈ names
  · rw [if_pos hold, if_neg fun hnew => hnew.1 hold, List.append_nil]
    rfl
  · rw [if_neg hold, List.filter_append, List.filterMap_append]
    by_cases hnew : compiler.cache.get? name = none
    · rw [if_pos ⟨hold, hnew⟩, List.filter_singleton, hnew]
      cases hrule : compiler.ruleText? kind name <;> simp [newTexts, hrule]
    · rw [if_neg fun hboth => hnew hboth.2, List.filter_singleton]
      simp [newTexts, Option.isNone_eq_false_iff.mpr (Option.isSome_iff_ne_none.mpr hnew)]

/-- The state after some classes were asked for, as far as the sheets go: nothing but the cache has
changed, the classes are in it, and the sheets have got what these bring. -/
structure Compiled (before : Compiler) (names : List Text) (after : Compiler) : Prop where
  context_eq : after.context = before.context
  get?_eq_none_iff : ∀ name, isCompiled name = true →
    (after.cache.get? name = none ↔ before.cache.get? name = none ∧ name ∉ names)
  text_eq : ∀ kind, after.cache.sheets.text kind =
    (before.newTexts kind names).foldl Sheets.appendText (before.cache.sheets.text kind)

theorem Compiled.nil (compiler : Compiler) : Compiled compiler [] compiler where
  context_eq := rfl
  get?_eq_none_iff _ _ := by simp
  text_eq _ := rfl

/-- Diagnostics are no part of it. -/
theorem Compiled.of_ledger (hcompiled : Compiled before names after)
    (hledger : next.ledger = after.ledger) : Compiled before names next := by
  obtain ⟨hcontext, hcache⟩ := Prod.mk.inj hledger
  refine ⟨hcontext.trans hcompiled.context_eq, ?_, ?_⟩
  · rw [hcache]
    exact hcompiled.get?_eq_none_iff
  · rw [hcache]
    exact hcompiled.text_eq

/-- A token that does not go to the compiler brings nothing. -/
theorem Compiled.skip (hcompiled : Compiled before names after)
    (hname : isCompiled name = false) : Compiled before (names ++ [name]) after where
  context_eq := hcompiled.context_eq
  get?_eq_none_iff other hother := by
    have hne : other ≠ name := by
      rintro rfl
      rw [hname] at hother
      cases hother
    rw [hcompiled.get?_eq_none_iff other hother, List.mem_append, List.mem_singleton]
    simp only [hne, or_false]
  text_eq kind := by
    rw [newTexts_concat, ruleText?_of_not_isCompiled hname, Option.toList_none, ite_self,
      List.append_nil]
    exact hcompiled.text_eq kind

/-- A class that was asked for before, or was in the cache already, brings nothing. -/
theorem Compiled.known (hcompiled : Compiled before names after)
    (hname : isCompiled name = true) (hknown : after.cache.get? name ≠ none) :
    Compiled before (names ++ [name]) after where
  context_eq := hcompiled.context_eq
  get?_eq_none_iff other hother := by
    rw [hcompiled.get?_eq_none_iff other hother, List.mem_append, List.mem_singleton]
    refine and_congr_right fun habsent => ?_
    refine (not_congr (or_iff_left_of_imp ?_)).symm
    rintro rfl
    by_contra hnew
    exact hknown ((hcompiled.get?_eq_none_iff other hother).mpr ⟨habsent, hnew⟩)
  text_eq kind := by
    have hold : ¬ (name ∉ names ∧ before.cache.get? name = none) := fun hnew =>
      hknown ((hcompiled.get?_eq_none_iff name hname).mpr hnew.symm)
    rw [newTexts_concat, if_neg hold, List.append_nil]
    exact hcompiled.text_eq kind

/-- A new class goes into the cache, and its text to the end of its sheet. -/
theorem Compiled.compile_new (hcompiled : Compiled before names after)
    (hname : isCompiled name = true) (hblank : name.trim.isEmpty = false)
    (hnew : after.cache.get? name = none) :
    Compiled before (names ++ [name]) (after.compile name) where
  context_eq := (context_compile after name).trans hcompiled.context_eq
  get?_eq_none_iff other hother := by
    rw [List.mem_append, List.mem_singleton]
    by_cases hsame : other = name
    · subst hsame
      rw [cache_compile_of_new hblank hnew, RuleCache.get?_finish, if_pos rfl]
      simp
    · rw [get?_compile_of_ne (Ne.symm hsame), hcompiled.get?_eq_none_iff other hother]
      simp only [hsame, or_false]
  text_eq kind := by
    have hrule : before.ruleText? kind name = after.ruleText? kind name := by
      rw [ruleText?, ruleText?, hcompiled.context_eq]
    rw [newTexts_concat, if_pos ((hcompiled.get?_eq_none_iff name hname).mp hnew).symm,
      List.foldl_append, ← hcompiled.text_eq, hrule, text_compile_of_new hblank hnew]

/-- Whatever class goes to the compiler, it brings its text if it is new. -/
theorem Compiled.compile (hcompiled : Compiled before names after)
    (hname : isCompiled name = true) (hblank : name.trim.isEmpty = false) :
    Compiled before (names ++ [name]) (after.compile name) := by
  by_cases hnew : after.cache.get? name = none
  · exact hcompiled.compile_new hname hblank hnew
  · rw [compile_of_isSome (Option.isSome_iff_ne_none.mpr hnew)]
    exact hcompiled.known hname hnew

end Compiler

end UtilityCss
