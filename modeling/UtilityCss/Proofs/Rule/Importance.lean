import UtilityCss.Proofs.Rule.Reading
import UtilityCss.Proofs.Token.Importance

/-!
What importance changes in the rules of a token, and what it leaves alone.  One mark changes the
declarations, two marks change the ancestor, and neither touches at-rules, states and defaults.
-/

namespace UtilityCss

variable {ctx : Context} {raw : Text}

namespace Declaration

/-- A rendered declaration with the mark behind its value, unless the value ends in it. -/
def markImportant (declaration : Text) : Text :=
  match Text.before? [';'] declaration with
  | some body =>
      if importantMark.isSuffixOf body then declaration
      else body ++ ' ' :: importantMark ++ [';']
  | none => declaration

/-- The mark holds no space, so behind a space it must have begun already. -/
theorem importantMark_suffix_iff (front value : Text) :
    importantMark <:+ front ++ ' ' :: value ↔ importantMark <:+ value := by
  have hvalue : ' ' :: value <:+ front ++ ' ' :: value := List.suffix_append _ _
  refine ⟨fun hmark => ?_, fun hmark => (hmark.trans (List.suffix_cons ' ' value)).trans hvalue⟩
  rcases List.suffix_or_suffix_of_suffix hmark hvalue with hwithin | hbeyond
  · rcases List.suffix_cons_iff.mp hwithin with heq | hbehind
    · exact absurd (heq ▸ List.mem_cons_self) (by decide : ' ' ∉ importantMark)
    · exact hbehind
  · exact absurd (hbeyond.subset List.mem_cons_self) (by decide)

theorem render_makeImportant {declaration : Declaration}
    (hexplicit : declaration.overridable = false) :
    declaration.makeImportant.render = markImportant declaration.render := by
  obtain ⟨property, value, overridable⟩ := declaration
  have hbody : Text.before? [';'] (render ⟨property, value, overridable⟩) =
      some (property ++ ':' :: ' ' :: value) :=
    Text.before?_eq_some_iff.mpr (by simp [render])
  have hends : importantMark.isSuffixOf (property ++ ':' :: ' ' :: value) =
      importantMark.isSuffixOf value := by
    have hspace : property ++ ':' :: ' ' :: value = (property ++ [':']) ++ ' ' :: value := by simp
    rw [hspace, Bool.eq_iff_iff, List.isSuffixOf_iff_suffix, List.isSuffixOf_iff_suffix,
      importantMark_suffix_iff]
  rw [markImportant, hbody]
  dsimp only at hexplicit ⊢
  rw [hends, makeImportant, hexplicit, Bool.false_or]
  split
  · rfl
  · simp [render]

end Declaration

namespace Rule

variable {rule : Rule} {rules : List Rule} {token : ParsedToken}

/-- The selector text in front of the classes of dark rules. -/
def darkAncestor (dark : Bool) : Text :=
  if dark then '.' :: darkClass ++ [' '] else []

/-- Whether a rule applies below a dark ancestor only. -/
def isDark (rule : Rule) : Bool :=
  (darkAncestor true).isSuffixOf rule.ancestor

/-- The rule that a token with these marks has, in terms of the rule that it has without. -/
def withImportance (importance : Importance) (rule : Rule) : Rule :=
  match importance with
  | .normal => rule
  | .important =>
      { rule with
        ancestor := darkAncestor rule.isDark
        declarations := rule.declarations.map Declaration.markImportant }
  | .highSpecificity =>
      { rule with ancestor := highSpecificityAncestor ++ darkAncestor rule.isDark }

theorem isSuffixOf_ancestorOf (importance : Importance) (dark : Bool) :
    (darkAncestor true).isSuffixOf (ancestorOf importance dark) = dark := by
  cases importance <;> cases dark <;> decide

theorem isDark_ofParsed? (hrule : ofParsed? ctx token = some rule) :
    rule.isDark = token.hasState .dark := by
  obtain ⟨resolution, -, -, rfl⟩ := ofParsed?_eq_some_iff.mp hrule
  exact isSuffixOf_ancestorOf _ _

theorem effectiveImportance_normal_ne (escalate : Bool) :
    effectiveImportance .normal escalate ≠ .important := by
  cases escalate <;> decide

/-- Marks on a parsed token show in its rule only.  A position keyword raises a token without marks
just as two marks do, and gives way to one. -/
theorem ofParsed?_withImportance (hnormal : token.importance = .normal)
    (importance : Importance) :
    ofParsed? ctx { token with importance } =
      (ofParsed? ctx token).map (withImportance importance) := by
  cases importance with
  | normal =>
      obtain ⟨breakpoint, states, importance, base⟩ := token
      cases hnormal
      exact (congrFun Option.map_id _).symm
  | important =>
      simp only [ofParsed?, bind, Option.map_bind, hnormal]
      refine Option.bind_congr fun resolution _ => ?_
      rw [Function.comp_apply]
      split
      · rfl
      · have himportant : effectiveImportance .important resolution.escalate = .important := rfl
        rw [himportant, if_pos rfl, if_neg (effectiveImportance_normal_ne _)]
        simp only [Option.map_some, withImportance, isDark, isSuffixOf_ancestorOf, List.map_map]
        have hmarked : (resolution.declarations.filter fun d => !d.overridable).map
              (Declaration.render ∘ Declaration.makeImportant) =
            (resolution.declarations.filter fun d => !d.overridable).map
              (Declaration.markImportant ∘ Declaration.render) :=
          List.map_congr_left fun declaration hdeclaration =>
            Declaration.render_makeImportant (by simpa using (List.mem_filter.mp hdeclaration).2)
        rw [hmarked]
        rfl
  | highSpecificity =>
      simp only [ofParsed?, bind, Option.map_bind, hnormal]
      refine Option.bind_congr fun resolution _ => ?_
      rw [Function.comp_apply]
      split
      · rfl
      · rw [if_neg (effectiveImportance_normal_ne _)]
        simp only [Option.map_some, withImportance, isDark, isSuffixOf_ancestorOf]
        rfl

/-- One more at-rule around a rule makes no difference to its marks. -/
theorem under_withImportance (outer : Option Text) (importance : Importance) (rule : Rule) :
    (rule.withImportance importance).under outer =
      (rule.under outer).withImportance importance := by
  cases outer with
  | none => rfl
  | some outer =>
      have hatRules : (rule.withImportance importance).atRules = rule.atRules := by
        cases importance <;> rfl
      rw [under, under, hatRules]
      split
      · rfl
      · cases importance <;> rfl

/-- Marks behind a token without any show in each of its rules and nowhere else. -/
theorem ofFrontForm_append_suffix (hraw : '!' ∉ raw) (importance : Importance) :
    ofFrontForm ctx (raw ++ importance.suffix) =
      (ofFrontForm ctx raw).map (withImportance importance) := by
  have hunmarked := unmarked_of_notMem hraw
  have hnormal : (ParsedToken.parse ctx.breakpoints raw).importance = .normal :=
    ParsedToken.importance_parse hunmarked
  unfold ofFrontForm
  dsimp only
  rw [ParsedToken.parse_append_suffix hunmarked,
    ParsedToken.expandShorthand?_withImportance hnormal]
  cases htokens : (ParsedToken.parse ctx.breakpoints raw).expandShorthand? ctx with
  | none =>
      dsimp only [Option.map_none]
      rw [ofParsed?_withImportance hnormal]
      cases ofParsed? ctx (ParsedToken.parse ctx.breakpoints raw) <;> rfl
  | some tokens =>
      simp only [Option.map_some, List.filterMap_map, List.map_filterMap]
      refine List.filterMap_congr fun expanded hexpanded => ?_
      have hmarked : Unmarked expanded := ParsedToken.unmarked_of_mem_expandShorthand? hnormal
        (ParsedToken.notMem_base_parse hraw) htokens hexpanded
      rw [Function.comp_apply, ParsedToken.parse_append_suffix hmarked,
        ofParsed?_withImportance (ParsedToken.importance_parse hmarked), Option.map_map,
        Option.map_map]
      exact Option.map_congr fun rule _ => under_withImportance _ importance rule

/-- The same of a token that may have its breakpoint at the end. -/
theorem ofToken?_append_suffix (hraw : '!' ∉ raw) (importance : Importance) :
    ofToken? ctx (raw ++ importance.suffix) =
      (ofToken? ctx raw).map (List.map (withImportance importance)) := by
  have hfront : '!' ∉ frontForm ctx.breakpoints raw := notMem_frontForm (by decide) hraw
  have hrules : ofFrontForm ctx (frontForm ctx.breakpoints (raw ++ importance.suffix)) =
      (ofFrontForm ctx (frontForm ctx.breakpoints raw)).map (withImportance importance) := by
    rw [frontForm_append_suffix (unmarked_of_notMem hraw), ofFrontForm_append_suffix hfront]
  rw [ofToken?_eq_match, hrules, ofToken?_eq_match]
  cases ofFrontForm ctx (frontForm ctx.breakpoints raw) <;> rfl

/-- Importance is a matter of its own.  A token without marks, the token with one and the token with
two have the same rules up to ancestors and declarations: one mark marks the declarations and takes
the raised ancestor away, two marks raise the ancestor and keep the declarations, and a rule is below
a dark ancestor if its reading has the state, which is the state of the whole token where breakpoints
are single segments. -/
theorem importance_orthogonal (hraw : '!' ∉ raw) :
    ofToken? ctx (raw ++ "!".toList) = (ofToken? ctx raw).map (List.map fun rule =>
      { rule with
        ancestor := darkAncestor rule.isDark
        declarations := rule.declarations.map Declaration.markImportant }) ∧
    ofToken? ctx (raw ++ "!!".toList) = (ofToken? ctx raw).map (List.map fun rule =>
      { rule with ancestor := highSpecificityAncestor ++ darkAncestor rule.isDark }) ∧
    ∀ rules, ofToken? ctx raw = some rules →
      List.Forall₂ (fun rule reading => rule.isDark = reading.hasState .dark) rules
        ((readings ctx raw).filter fun reading => (ofParsed? ctx reading).isSome) ∧
      ((∀ key ∈ ctx.breakpoints.keys, ':' ∉ key) → ∀ rule ∈ rules, rule.isDark =
        (ParsedToken.parse ctx.breakpoints (frontForm ctx.breakpoints raw)).hasState .dark) := by
  refine ⟨ofToken?_append_suffix hraw .important, ofToken?_append_suffix hraw .highSpecificity,
    fun rules hrules => ?_⟩
  have hdark := forall₂_readings (R := fun rule reading => rule.isDark = reading.hasState .dark)
    (fun reading rule hrule => by rw [isDark, ancestor_under]; exact isDark_ofParsed? hrule) hrules
  refine ⟨hdark, fun hkeys rule hrule => ?_⟩
  obtain ⟨reading, hreading, inner, hinner, rfl⟩ := exists_reading_of_mem hrules hrule
  rw [isDark, ancestor_under, ParsedToken.hasState, ← states_of_mem_readings hkeys hreading]
  exact isDark_ofParsed? hinner

/-- Tables with one offset. -/
def offsetContext : Context :=
  { tables := { properties := .ofList [("top".toList, ["top".toList])] } }

/-- Three dark offsets: each of the rules is below a dark ancestor, also with two marks. -/
theorem importance_orthogonal_offsets :
    let raw := "dark:top-1|2|3".toList
    '!' ∉ raw ∧ ∃ rules, ofToken? offsetContext raw = some rules ∧
      (∀ rule ∈ rules, rule.isDark = true) ∧
      ofToken? offsetContext (raw ++ "!!".toList) = some (rules.map fun rule =>
        { rule with ancestor := highSpecificityAncestor ++ darkAncestor rule.isDark }) := by
  intro raw
  have hraw : '!' ∉ raw := by decide
  have hsome : (ofToken? offsetContext raw).isSome = true := by decide +kernel
  have hkeys : ∀ key ∈ Breakpoints.standard.keys, ':' ∉ key := by decide +kernel
  have hdark : (ParsedToken.parse Breakpoints.standard
      (frontForm Breakpoints.standard raw)).hasState .dark = true := by decide +kernel
  obtain ⟨rules, hrules⟩ := Option.isSome_iff_exists.mp hsome
  obtain ⟨-, hraised, hstates⟩ := @importance_orthogonal offsetContext raw hraw
  refine ⟨hraw, rules, hrules, fun rule hrule => ?_, ?_⟩
  · rw [(hstates rules hrules).2 hkeys rule hrule]
    exact hdark
  · rw [hraised, hrules, Option.map_some]

/-- Two breakpoints, of which one has a key that reads like two states. -/
def stateLikeBreakpoints : Breakpoints :=
  .ofList
    [("dark:hover".toList, "(min-width: 1px)".toList), ("m".toList, "(max-width: 640px)".toList)]

/-- Behind such a key a shorthand without the dark state has a dark rule. -/
theorem isDark_without_state :
    let ctx : Context := { breakpoints := stateLikeBreakpoints }
    let raw := "p-1|2".toList
    '!' ∉ raw ∧ (ParsedToken.parse ctx.breakpoints raw).hasState .dark = false ∧
      (ofToken? ctx (raw ++ "!!".toList)).map (List.map ancestor) =
        some [highSpecificityAncestor ++ darkAncestor true, highSpecificityAncestor] := by
  decide +kernel

end Rule
end UtilityCss
