import Mathlib.Data.List.Chain
import UtilityCss.Proofs.Rule.Declarations
import UtilityCss.Proofs.Rule.Importance
import UtilityCss.Proofs.Text.Split

/-!
The default position of an offset and the explicit position of another token.  The default stands in
a rule of its own, whose selector is inside `:where(…)` up to the pseudo-elements, and it is never
marked important.  The explicit declarations stand under the class selector itself, which no
`:where(…)` surrounds.
-/

namespace UtilityCss

namespace Declaration

@[simp]
theorem property_makeImportant (declaration : Declaration) :
    declaration.makeImportant.property = declaration.property := by
  unfold makeImportant
  split <;> rfl

/-- A rendered declaration with a single colon names its property in front of it. -/
theorem splitFirst_render {declaration : Declaration} (hcolons : declaration.render.count ':' = 1) :
    Text.splitFirst ':' declaration.render =
      some (declaration.property, ' ' :: declaration.value ++ [';']) := by
  have hrender : declaration.render =
      declaration.property ++ ':' :: (' ' :: declaration.value ++ [';']) := by simp [render]
  have hproperty : ':' ∉ declaration.property := by
    rw [hrender, List.count_append, List.count_cons_self] at hcolons
    rw [← List.count_eq_zero]
    omega
  rw [hrender, Text.splitFirst_append_cons hproperty]

end Declaration

namespace Resolution

/-- A declaration with the text of the default states a position, since the text has one colon. -/
theorem property_of_render_eq {declaration : Declaration}
    (hrender : declaration.render = defaultPosition.render) :
    declaration.property = "position".toList := by
  have hcolons : declaration.render.count ':' = 1 := by
    rw [hrender]
    decide
  have hcut := Declaration.splitFirst_render hcolons
  have hdefault : Text.splitFirst ':' defaultPosition.render =
      some ("position".toList, " relative;".toList) := by decide
  rw [hrender, hdefault, Option.some.injEq, Prod.mk.injEq] at hcut
  exact hcut.1.symm

end Resolution

section ZeroSpecificitySelector

variable {ancestor subject suffix states element : Text}

theorem zeroSpecificitySelector_of_cut
    (hcut : Text.splitFirstText "::".toList suffix = some (states, element)) :
    zeroSpecificitySelector ancestor subject suffix =
      ":where(".toList ++ ancestor ++ subject ++ states ++ ')' :: ("::".toList ++ element) := by
  unfold zeroSpecificitySelector
  rw [hcut]

theorem zeroSpecificitySelector_of_none
    (hcut : Text.splitFirstText "::".toList suffix = none) :
    zeroSpecificitySelector ancestor subject suffix =
      ":where(".toList ++ ancestor ++ subject ++ suffix ++ [')'] := by
  unfold zeroSpecificitySelector
  rw [hcut]

end ZeroSpecificitySelector

namespace PseudoState

variable {state : PseudoState}

/-- The fragments of the states that are no pseudo-elements, in written order; `dark` is left out. -/
def plainFragments (states : List PseudoState) : Text :=
  (states.filter fun state => state ≠ .dark && !state.isElement).flatMap selector

/-- The fragments of the pseudo-elements, in written order. -/
def elementFragments (states : List PseudoState) : Text :=
  (states.filter isElement).flatMap selector

theorem selector_of_isElement (hstate : state.isElement = true) :
    ∃ name, state.selector = "::".toList ++ name := by
  rw [isElement, List.isPrefixOf_iff_prefix] at hstate
  obtain ⟨name, hname⟩ := hstate
  exact ⟨name, hname.symm⟩

/-- Behind its first character the fragment of any other state holds something and no colon. -/
theorem tail_selector (hdark : state ≠ .dark) (hstate : state.isElement = false) :
    state.selector.tail ≠ [] ∧ ':' ∉ state.selector.tail := by
  revert hdark hstate
  cases state <;> decide

theorem splitFirstText_selector_append (hdark : state ≠ .dark) (hstate : state.isElement = false)
    (ending : Text) :
    Text.splitFirstText "::".toList (state.selector ++ ending) =
      (Text.splitFirstText "::".toList ending).map fun cut =>
        (state.selector ++ cut.1, cut.2) := by
  obtain ⟨hne, hcolon⟩ := tail_selector hdark hstate
  cases hselector : state.selector with
  | nil =>
      rw [hselector] at hne
      exact absurd rfl hne
  | cons first rest =>
      rw [hselector, List.tail_cons] at hne hcolon
      obtain ⟨second, more, rfl⟩ := List.exists_cons_of_ne_nil hne
      -- A single colon in front is no separator, since the character behind it is none.
      have hafter : Text.after? "::".toList (first :: ((second :: more) ++ ending)) = none := by
        have hsecond : ':' ≠ second := fun heq => hcolon (heq ▸ List.mem_cons_self)
        change Text.after? [':', ':'] _ = none
        rw [Text.after?]
        split
        · rw [List.cons_append, Text.after?, if_neg hsecond]
        · rfl
      have hrest := Text.splitFirstText_doubled_append hcolon ending
      rw [List.cons_append, Text.splitFirstText_cons_of_after?_eq_none hafter]
      change (Text.splitFirstText [':', ':'] _).map _ = _
      rw [hrest, Option.map_map]
      rfl

/-- No pseudo-element begins among the fragments of other states. -/
theorem splitFirstText_plainFragments_append (states : List PseudoState) (ending : Text) :
    Text.splitFirstText "::".toList (plainFragments states ++ ending) =
      (Text.splitFirstText "::".toList ending).map fun cut =>
        (plainFragments states ++ cut.1, cut.2) := by
  induction states with
  | nil => exact (congrFun Option.map_id _).symm
  | cons state rest ih =>
      by_cases hplain : (state ≠ .dark && !state.isElement) = true
      · have hcons : plainFragments (state :: rest) = state.selector ++ plainFragments rest := by
          simp only [plainFragments, List.filter_cons, if_pos hplain, List.flatMap_cons]
        simp only [ne_eq, decide_not, Bool.and_eq_true, Bool.not_eq_true', decide_eq_false_iff_not]
          at hplain
        rw [hcons, List.append_assoc, splitFirstText_selector_append hplain.1 hplain.2, ih,
          Option.map_map]
        simp only [Function.comp_def, List.append_assoc]
      · have hcons : plainFragments (state :: rest) = plainFragments rest := by
          simp only [plainFragments, List.filter_cons, if_neg hplain]
        rw [hcons, ih]

/-- Where no pseudo-element follows, the fragments have no separator. -/
theorem splitFirstText_fragments_of_nil {states : List PseudoState}
    (hnone : states.filter isElement = []) :
    Text.splitFirstText "::".toList (plainFragments states ++ elementFragments states) = none := by
  have helements : elementFragments states = [] := by
    rw [elementFragments, hnone, List.flatMap_nil]
  rw [splitFirstText_plainFragments_append, helements, Text.splitFirstText, Option.map_none]

/-- Otherwise the first separator is where the two kinds of fragments meet. -/
theorem exists_splitFirstText_fragments {states : List PseudoState}
    (hsome : states.filter isElement ≠ []) :
    ∃ element, elementFragments states = "::".toList ++ element ∧
      Text.splitFirstText "::".toList (plainFragments states ++ elementFragments states) =
        some (plainFragments states, element) := by
  obtain ⟨state, rest, helements⟩ := List.exists_cons_of_ne_nil hsome
  have hstate : state.isElement = true :=
    (List.mem_filter.mp (helements ▸ List.mem_cons_self)).2
  obtain ⟨name, hname⟩ := selector_of_isElement hstate
  have hfragments : elementFragments states = "::".toList ++ (name ++ rest.flatMap selector) := by
    rw [elementFragments, helements, List.flatMap_cons, hname, List.append_assoc]
  have hcut (element : Text) :
      Text.splitFirstText "::".toList ("::".toList ++ element) = some ([], element) := rfl
  refine ⟨_, hfragments, ?_⟩
  rw [splitFirstText_plainFragments_append, hfragments, hcut, Option.map_some, List.append_nil]

/-- The pseudo-elements follow the parenthesis that closes around everything else. -/
theorem zeroSpecificitySelector_fragments (ancestor subject : Text) (states : List PseudoState) :
    zeroSpecificitySelector ancestor subject (plainFragments states ++ elementFragments states) =
      ":where(".toList ++ ancestor ++ subject ++ plainFragments states
        ++ ')' :: elementFragments states := by
  by_cases helements : states.filter isElement = []
  · have hnone : elementFragments states = [] := by
      rw [elementFragments, helements, List.flatMap_nil]
    rw [zeroSpecificitySelector_of_none (splitFirstText_fragments_of_nil helements), hnone,
      List.append_nil]
  · obtain ⟨element, hfragments, hcut⟩ := exists_splitFirstText_fragments helements
    rw [zeroSpecificitySelector_of_cut hcut, hfragments]

end PseudoState

/-- A text in which no function name that ends in `e` opens, whatever stands in front of it. -/
def OpensNoWhere (text : Text) : Prop :=
  text.head? ≠ some '(' ∧ text.IsChain fun before c => before = 'e' → c ≠ '('

instance instDecidableOpensNoWhere : DecidablePred OpensNoWhere :=
  fun _ => inferInstanceAs (Decidable (_ ∧ _))

namespace OpensNoWhere

variable {front ending : Text}

theorem append (hfront : OpensNoWhere front) (hending : OpensNoWhere ending) :
    OpensNoWhere (front ++ ending) := by
  refine ⟨?_, List.isChain_append.mpr ⟨hfront.2, hending.2, fun before _ c hc _ heq => ?_⟩⟩
  · rw [List.head?_append]
    cases hhead : front.head? with
    | none => exact hending.1
    | some first => rw [Option.some_or, ← hhead]; exact hfront.1
  · exact hending.1 (heq ▸ hc)

theorem nil : OpensNoWhere [] := by decide

theorem flatMap {α : Type} {f : α → Text} (hf : ∀ a, OpensNoWhere (f a)) (l : List α) :
    OpensNoWhere (l.flatMap f) := by
  induction l with
  | nil => exact nil
  | cons a rest ih => exact (hf a).append ih

theorem not_holds_where (hopens : OpensNoWhere front) : ¬ ":where(".toList <:+: front := by
  rintro ⟨before, after, rfl⟩
  have hpart := (List.isChain_append.mp (List.isChain_append.mp hopens.2).1).2.1
  exact absurd hpart (by decide)

end OpensNoWhere

/-- An escaped character opens nothing: a parenthesis stands behind a backslash. -/
theorem opensNoWhere_escapeCharacter (c : Char) : OpensNoWhere (escapeCharacter c) := by
  unfold escapeCharacter
  split
  · refine ⟨by simp, ?_⟩
    simp
  · rename_i hreserved
    refine ⟨?_, List.isChain_singleton c⟩
    rintro ⟨rfl⟩
    exact hreserved (by decide)

theorem opensNoWhere_classSelector (name : Text) : OpensNoWhere (classSelector name) := by
  rw [classSelector]
  have hdot : OpensNoWhere ['.'] := by decide
  refine hdot.append ?_
  cases name with
  | nil => decide
  | cons c rest =>
      refine OpensNoWhere.append ?_ (OpensNoWhere.flatMap opensNoWhere_escapeCharacter rest)
      split
      · rename_i hdigit
        have hmark : OpensNoWhere "\\3".toList := by decide
        refine hmark.append ⟨?_, ?_⟩
        · rintro ⟨rfl⟩
          cases hdigit
        · simp
      · exact opensNoWhere_escapeCharacter c

theorem PseudoState.opensNoWhere_selector (state : PseudoState) :
    OpensNoWhere state.selector := by
  cases state <;> decide

namespace Rule

variable {ctx : Context} {token : ParsedToken} {rule : Rule}

/-- The selector of the declarations. -/
def selector (rule : Rule) (className : Text) : Text :=
  rule.ancestor ++ classSelector className ++ rule.suffix

/-- The defaults under their selector of zero specificity, if there are any. -/
def defaultsText (rule : Rule) (className : Text) : Text :=
  if rule.fallbacks.isEmpty then []
  else
    braces (zeroSpecificitySelector rule.ancestor (classSelector className) rule.suffix)
      ([' '].intercalate rule.fallbacks) ++ [' ']

theorem render_eq_foldr (rule : Rule) (className : Text) :
    rule.render className = rule.atRules.foldr braces
      (rule.defaultsText className ++
        braces (rule.selector className) ([' '].intercalate rule.declarations)) := by
  unfold render defaultsText selector
  dsimp only
  split
  · rfl
  · simp only [List.append_assoc, List.singleton_append]

theorem suffixOf_eq_fragments (states : List PseudoState) :
    suffixOf states = PseudoState.plainFragments states ++ PseudoState.elementFragments states := by
  have hplain : (states.filter (· ≠ .dark)).filter (fun state => !state.isElement) =
      states.filter fun state => state ≠ .dark && !state.isElement := by
    rw [List.filter_filter]
    exact List.filter_congr fun state _ => Bool.and_comm _ _
  have helements : (states.filter (· ≠ .dark)).filter PseudoState.isElement =
      states.filter PseudoState.isElement := by
    rw [List.filter_filter]
    refine List.filter_congr fun state _ => ?_
    cases state <;> decide
  rw [suffixOf, hplain, helements]
  rfl

theorem opensNoWhere_ancestorOf (importance : Importance) (dark : Bool) :
    OpensNoWhere (ancestorOf importance dark) := by
  cases importance <;> cases dark <;> decide

/-- Where the parts of a rule come from: its defaults are the rendered defaults of a resolution, and
each declaration is an explicit one, marked or not. -/
theorem exists_resolution (hrule : ofParsed? ctx token = some rule) :
    ∃ resolution, Resolution.ofBase? ctx token.base = some resolution ∧
      rule.fallbacks =
        (resolution.declarations.filter Declaration.overridable).map Declaration.render ∧
      (∀ text ∈ rule.declarations, ∃ declaration ∈ resolution.declarations,
        declaration.overridable = false ∧
          (text = declaration.render ∨ text = declaration.makeImportant.render)) ∧
      OpensNoWhere rule.ancestor := by
  obtain ⟨resolution, hresolution, -, rfl⟩ := ofParsed?_eq_some_iff.mp hrule
  refine ⟨resolution, hresolution, rfl, fun text htext => ?_, opensNoWhere_ancestorOf _ _⟩
  obtain ⟨declaration, hdeclaration, rfl⟩ := List.mem_map.mp htext
  have hexplicit {d : Declaration}
      (hd : d ∈ resolution.declarations.filter fun d => !d.overridable) :
      d ∈ resolution.declarations ∧ d.overridable = false := by
    simpa using hd
  split at hdeclaration
  · obtain ⟨plain, hplain, rfl⟩ := List.mem_map.mp hdeclaration
    exact ⟨plain, (hexplicit hplain).1, (hexplicit hplain).2, .inr rfl⟩
  · exact ⟨declaration, (hexplicit hdeclaration).1, (hexplicit hdeclaration).2, .inl rfl⟩

/-- The rule of a parsed token keeps its default and its explicit declarations apart.  A default is
among the defaults only, and no mark is on it.  The suffix is the fragments of the plain states
followed by those of the pseudo-elements; the selector of the defaults has all of it but the
pseudo-elements inside `:where(…)`, and the selector of the declarations has nothing in one. -/
theorem defaults_ofParsed? (hrule : ofParsed? ctx token = some rule) :
    ∃ resolution, Resolution.ofBase? ctx token.base = some resolution ∧
      (∀ default ∈ resolution.declarations, default.overridable = true →
        default.render ∈ rule.fallbacks ∧ default.render ∉ rule.declarations) ∧
      (∀ fallback ∈ rule.fallbacks, ¬ Declaration.importantMark <:+: fallback) ∧
      rule.suffix =
        PseudoState.plainFragments token.states ++ PseudoState.elementFragments token.states ∧
      (∀ subject, zeroSpecificitySelector rule.ancestor subject rule.suffix =
        ":where(".toList ++ rule.ancestor ++ subject ++ PseudoState.plainFragments token.states
          ++ ')' :: PseudoState.elementFragments token.states) ∧
      ∀ className,
        rule.render className = rule.atRules.foldr braces
          (rule.defaultsText className ++
            braces (rule.selector className) ([' '].intercalate rule.declarations)) ∧
        ¬ ":where(".toList <:+: rule.selector className := by
  obtain ⟨resolution, hresolution, hfallbacks, hdeclarations, hancestor⟩ := exists_resolution hrule
  have hsuffix : rule.suffix =
      PseudoState.plainFragments token.states ++ PseudoState.elementFragments token.states := by
    rw [suffix_ofParsed? hrule, suffixOf_eq_fragments]
  refine ⟨resolution, hresolution, fun default hdefault hoverridable => ⟨?_, fun hexplicit => ?_⟩,
    fun fallback hfallback => ?_, hsuffix, fun subject => ?_,
    fun className => ⟨rule.render_eq_foldr className, ?_⟩⟩
  · rw [hfallbacks]
    exact List.mem_map_of_mem (List.mem_filter.mpr ⟨hdefault, hoverridable⟩)
  · obtain ⟨rfl, hnone⟩ :=
      Resolution.eq_defaultPosition_of_overridable hresolution hdefault hoverridable
    obtain ⟨declaration, hdeclaration, hplain, htext⟩ := hdeclarations _ hexplicit
    -- An explicit declaration with the text of the default would state a position.
    refine hnone declaration hdeclaration hplain ?_
    rcases htext with htext | htext
    · exact Resolution.property_of_render_eq htext.symm
    · rw [← Declaration.property_makeImportant declaration]
      exact Resolution.property_of_render_eq htext.symm
  · rw [hfallbacks] at hfallback
    obtain ⟨default, hdefault, rfl⟩ := List.mem_map.mp hfallback
    obtain ⟨hmem, hoverridable⟩ := List.mem_filter.mp hdefault
    obtain ⟨rfl, -⟩ := Resolution.eq_defaultPosition_of_overridable hresolution hmem hoverridable
    intro hmark
    have hbang : '!' ∈ Resolution.defaultPosition.render := hmark.subset (by decide)
    exact absurd hbang (by decide)
  · rw [hsuffix, PseudoState.zeroSpecificitySelector_fragments]
  · have hopens : OpensNoWhere rule.suffix := by
      rw [hsuffix]
      exact (OpensNoWhere.flatMap PseudoState.opensNoWhere_selector _).append
        (OpensNoWhere.flatMap PseudoState.opensNoWhere_selector _)
    exact ((hancestor.append (opensNoWhere_classSelector className)).append hopens).not_holds_where

/-- A marked offset in a breakpoint and three states: the position that it brings along is not
marked, and of its selector only the pseudo-element follows the parenthesis. -/
theorem defaults_ofParsed?_offset :
    let token : ParsedToken :=
      ⟨some "m".toList, [.before, .dark, .hover], .important, "top-1".toList⟩
    ∃ rule, ofParsed? offsetContext token = some rule ∧
      rule.fallbacks = ["position: relative;".toList] ∧
      rule.declarations = ["top: 4px !important;".toList] ∧
      zeroSpecificitySelector rule.ancestor ".x".toList rule.suffix =
        ":where(.dark .x:hover)::before".toList := by
  intro token
  have hsome : (ofParsed? offsetContext token).isSome = true := by decide +kernel
  obtain ⟨rule, hrule⟩ := Option.isSome_iff_exists.mp hsome
  have hparts : (ofParsed? offsetContext token).map
      (fun rule => (rule.ancestor, rule.declarations, rule.fallbacks)) =
        some (".dark ".toList, ["top: 4px !important;".toList], ["position: relative;".toList]) := by
    decide +kernel
  rw [hrule, Option.map_some, Option.some.injEq, Prod.mk.injEq, Prod.mk.injEq] at hparts
  obtain ⟨hancestor, hdeclarations, hfallbacks⟩ := hparts
  obtain ⟨-, -, -, -, -, hselector, -⟩ := defaults_ofParsed? hrule
  refine ⟨rule, hrule, hfallbacks, hdeclarations, ?_⟩
  rw [hselector, hancestor]
  decide

end Rule

end UtilityCss
