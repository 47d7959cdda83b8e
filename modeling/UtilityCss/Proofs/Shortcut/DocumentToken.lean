import UtilityCss.Proofs.Compiler.SheetHistory
import UtilityCss.Proofs.Rule.DocumentToken

/-!
Document tokens in shortcuts.  Compiling a class asks whether it is a document token, but the tokens
that a shortcut expands to are compiled as they come.  So a shortcut compiles as if the document tokens
among them were left out, but for those that are misread.
-/

namespace UtilityCss

variable {ctx : Context} {token name : Text} {tokens : List Text}

namespace Compiler

variable {compiler : Compiler}

/-- Compiling and editing give a document token no rule. -/
theorem css?_apply_of_isDocumentToken (hdocument : isDocumentToken token = true)
    (hnone : compiler.css? token = none) (action : Action) :
    (action.apply compiler).css? token = none := by
  cases action with
  | compile other =>
      rw [Action.apply]
      by_cases hother : other = token
      · subst hother
        cases hblank : other.trim.isEmpty with
        | true => rwa [compile_of_blank hblank]
        | false =>
            cases hcached : compiler.cache.get? other with
            | some entry => rwa [compile_of_isSome (by rw [hcached, Option.isSome_some])]
            | none => rw [css?_compile_of_new hblank hcached, outcome, if_pos hdocument]
      · rwa [css?, RuleCache.lookup, get?_compile_of_ne hother]
  | edit change =>
      rw [Action.apply]
      rcases change.cache_apply compiler with hsame | hevicted
      · rwa [css?, hsame]
      · rw [Option.eq_none_iff_forall_ne_some]
        intro css hcss
        obtain ⟨injected, hentry⟩ := css?_eq_some_iff.mp hcss
        rw [hevicted, RuleCache.get?_evictUnresolved, Option.filter_eq_some_iff] at hentry
        rw [css?_eq_some_iff.mpr ⟨injected, hentry.1⟩] at hnone
        cases hnone

theorem css?_perform_of_isDocumentToken (hdocument : isDocumentToken token = true)
    (hnone : compiler.css? token = none) (actions : List Action) :
    (compiler.perform actions).css? token = none := by
  induction actions generalizing compiler with
  | nil => exact hnone
  | cons action rest ih => exact ih (css?_apply_of_isDocumentToken hdocument hnone action)

/-- No run of a compiler gives a document token a rule, and asking for one does not, either. -/
theorem css?_compile_of_isDocumentToken (hdocument : isDocumentToken token = true) (tables : Tables)
    (operations : List Operation) :
    (((ofTables tables).run operations).compile token).css? token = none := by
  rw [run_eq_perform]
  exact css?_apply_of_isDocumentToken hdocument
    (css?_perform_of_isDocumentToken hdocument rfl _) (.compile token)

end Compiler

/-- The style text of a shortcut that stands for the given tokens. -/
def tokensText? (ctx : Context) (name : Text) (tokens : List Text) : Option Text :=
  let block := blockOfTokens ctx tokens
  if block.isEmpty then none else some (block.render (shortcutSelector name))

theorem shortcutText?_of_expand (hexpand : ctx.shortcuts.expand name = .ok tokens) :
    shortcutText? ctx name = .ok (tokensText? ctx name tokens) := by
  rw [shortcutText?, hexpand]
  rfl

/-- Tokens without a rule may be left out. -/
theorem blockOfTokens_filter {keep : Text → Bool}
    (hdropped : ∀ token ∈ tokens, keep token = false → Rule.ofToken? ctx token = none) :
    blockOfTokens ctx (tokens.filter keep) = blockOfTokens ctx tokens := by
  rw [blockOfTokens, blockOfTokens]
  congr 1
  induction tokens with
  | nil => rfl
  | cons first rest ih =>
      have hrest := ih fun token htoken => hdropped token (List.mem_cons_of_mem first htoken)
      cases hfirst : keep first with
      | true => rw [List.filter_cons_of_pos hfirst, List.flatMap_cons, List.flatMap_cons, hrest]
      | false =>
          rw [List.filter_cons_of_neg (by rw [hfirst]; exact Bool.false_ne_true), hrest,
            List.flatMap_cons, hdropped first List.mem_cons_self hfirst]
          rfl

/-- A shortcut compiles as if the document tokens of its expansion were left out, but for those that
are misread; if none is, it compiles as if all were.  Asked for by itself, no document token has a
rule. -/
theorem shortcutText?_filter_documentTokens (ctx : Context) (name : Text) {tokens : List Text}
    (hexpand : ctx.shortcuts.expand name = .ok tokens) :
    shortcutText? ctx name =
        .ok (tokensText? ctx name
          (tokens.filter fun token => !isDocumentToken token || Rule.isMisread ctx token)) ∧
      ((∀ token ∈ tokens, isDocumentToken token = true → Rule.isMisread ctx token = false) →
        shortcutText? ctx name =
          .ok (tokensText? ctx name (tokens.filter fun token => !isDocumentToken token))) ∧
      ∀ (tables : Tables) (operations : List Compiler.Operation) (token : Text),
        isDocumentToken token = true →
          (((Compiler.ofTables tables).run operations).compile token).css? token = none := by
  have hleftOut : ∀ {keep : Text → Bool},
      (∀ token ∈ tokens, keep token = false → Rule.ofToken? ctx token = none) →
        shortcutText? ctx name = .ok (tokensText? ctx name (tokens.filter keep)) := by
    intro keep hdropped
    rw [shortcutText?_of_expand hexpand, tokensText?, tokensText?, blockOfTokens_filter hdropped]
  refine ⟨hleftOut fun token _ hkeep => ?_, fun hread => hleftOut fun token htoken hkeep => ?_,
    fun tables operations token hdocument =>
      Compiler.css?_compile_of_isDocumentToken hdocument tables operations⟩
  · rw [Bool.or_eq_false_iff, Bool.not_eq_false'] at hkeep
    exact Rule.ofToken?_eq_none_of_isDocumentToken hkeep.1 hkeep.2
  · rw [Bool.not_eq_false'] at hkeep
    exact Rule.ofToken?_eq_none_of_isDocumentToken hkeep (hread token htoken hkeep)

/-- A card that fades in and is a flex box while it is wide. -/
def cardContext : Context :=
  { tables :=
      { properties := .ofList [("p".toList, ["padding".toList])]
        keywords := .ofList [("flex".toList, "display: flex;".toList)] }
    shortcuts := .ofList [("card".toList, "onload:fade min-640:flex p-4".toList)] }

def cardTokens : List Text :=
  ["onload:fade".toList, "min-640:flex".toList, "p-4".toList]

theorem shortcutText?_card :
    cardContext.shortcuts.expand "card".toList = .ok cardTokens ∧
      (∀ token ∈ cardTokens, isDocumentToken token = true → Rule.isMisread cardContext token = false) ∧
      shortcutText? cardContext "card".toList =
        .ok (tokensText? cardContext "card".toList ["p-4".toList]) := by
  have hexpand : cardContext.shortcuts.expand "card".toList = .ok cardTokens := by
    decide +kernel
  have hread : ∀ token ∈ cardTokens, isDocumentToken token = true →
      Rule.isMisread cardContext token = false := by
    decide +kernel
  have hkept : cardTokens.filter (fun token => !isDocumentToken token) = ["p-4".toList] := by
    decide +kernel
  have htext := (shortcutText?_filter_documentTokens cardContext "card".toList hexpand).2.1 hread
  rw [hkept] at htext
  exact ⟨hexpand, hread, htext⟩

/-- A box with padding and with a container condition whose payload has a value. -/
def boxContext : Context :=
  { tables :=
      { properties := .ofList
          [("p".toList, ["padding".toList]), ("min-h".toList, ["min-height".toList])] }
    shortcuts := .ofList [("box".toList, "min-640:h-4 p-1".toList)] }

/-- The condition is read as the values `min-640` and `h-4` of one utility, so the box gets a height. -/
theorem shortcutText?_box :
    boxContext.shortcuts.expand "box".toList = .ok ["min-640:h-4".toList, "p-1".toList] ∧
      isDocumentToken "min-640:h-4".toList = true ∧
      shortcutText? boxContext "box".toList ≠
        .ok (tokensText? boxContext "box".toList
          (["min-640:h-4".toList, "p-1".toList].filter fun token => !isDocumentToken token)) := by
  have hexpand : boxContext.shortcuts.expand "box".toList =
      .ok ["min-640:h-4".toList, "p-1".toList] := by
    decide +kernel
  refine ⟨hexpand, by decide, ?_⟩
  rw [shortcutText?_of_expand hexpand, ne_eq, Except.ok.injEq]
  decide +kernel

end UtilityCss
