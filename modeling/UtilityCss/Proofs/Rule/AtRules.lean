import UtilityCss.Proofs.Rule.Reading
import UtilityCss.Proofs.Token.Expansion

/-!
The at-rules around the rules of a token.  A rule is inside the breakpoint that its token names in
front or behind an `@`; the rule of a value of a shorthand is inside the breakpoint of the value as
well, unless both have the same at-rule.
-/

namespace UtilityCss

namespace Rule

variable {ctx : Context} {raw : Text} {rule : Rule} {rules : List Rule} {token : ParsedToken}
  {place : ShorthandPlace} {outer : Option Text} {media : Text}

/-- The at-rules of a rule that belongs to one breakpoint and is put inside another one. -/
def nestedAtRules (outer : Option Text) (own : Text) : List Text :=
  match outer with
  | some outer => if own = outer then [outer] else [outer, own]
  | none => [own]

theorem under_eq_nestedAtRules {own : Text} (hatRules : rule.atRules = [own]) :
    rule.under outer = { rule with atRules := nestedAtRules outer own } := by
  obtain ⟨atRules, ancestor, suffix, declarations, fallbacks⟩ := rule
  cases hatRules
  cases outer with
  | none => rfl
  | some outer => by_cases hsame : own = outer <;> simp [under, nestedAtRules, hsame]

/-- The rule of a shorthand at one of its places, inside the breakpoint of the place only. -/
def ofPlace? (ctx : Context) (token : ParsedToken) (place : ShorthandPlace) : Option Rule :=
  let stem := (shorthandValues token.base).head?.bind (utilityStem? ctx.tables)
  ofParsed? ctx (ParsedToken.parse ctx.breakpoints (token.atPlace stem place).render)

theorem atRules_ofPlace? (hkeys : ∀ key ∈ ctx.breakpoints.keys, ':' ∉ key)
    (hplace : place ∈ shorthandPlaces ctx.breakpoints (shorthandValues token.base))
    (hrule : ofPlace? ctx token place = some rule) : rule.atRules = [mediaRule place.media] := by
  have hmedia := (mem_of_mem_shorthandPlaces hplace).1
  rw [ofPlace?, ParsedToken.parse_render_atPlace hkeys hplace] at hrule
  rw [atRules_ofParsed? hrule]
  simp [ParsedToken.withMarks, ParsedToken.atPlace, hmedia]

/-- The rules of a shorthand are those of its places, each inside its own breakpoint and that of the
shorthand. -/
theorem ofFrontForm_eq_of_fitting (hkeys : ∀ key ∈ ctx.breakpoints.keys, ':' ∉ key) (raw : Text) :
    let token := ParsedToken.parse ctx.breakpoints raw
    let outer := (token.breakpoint.bind ctx.breakpoints.get?).map mediaRule
    IsFittingShorthand ctx.breakpoints token.base →
      ofFrontForm ctx raw =
        (shorthandPlaces ctx.breakpoints (shorthandValues token.base)).filterMap fun place =>
          (ofPlace? ctx token place).map fun rule =>
            { rule with atRules := nestedAtRules outer (mediaRule place.media) } := by
  intro token outer hfitting
  have htokens := token.expandShorthand?_eq_map ctx
  rw [fittingValues?_eq_some_iff.mpr ⟨hfitting, rfl⟩, Option.map_some] at htokens
  rw [ofFrontForm]
  dsimp only
  rw [htokens]
  dsimp only
  rw [List.filterMap_map]
  refine List.filterMap_congr fun place hplace => ?_
  refine Option.map_congr fun rule hrule => ?_
  exact under_eq_nestedAtRules (atRules_ofPlace? hkeys hplace hrule)

theorem ofFrontForm_eq_of_not_fitting (raw : Text)
    (hnone : ¬ IsFittingShorthand ctx.breakpoints (ParsedToken.parse ctx.breakpoints raw).base) :
    ofFrontForm ctx raw = (ofParsed? ctx (ParsedToken.parse ctx.breakpoints raw)).toList := by
  rw [ofFrontForm]
  dsimp only
  rw [ParsedToken.expandShorthand?_eq_map, fittingValues?_eq_none_iff.mpr hnone]
  rfl

/-- No rule leaves the breakpoint of its token.  Where the token, with its breakpoint in front,
names a breakpoint, that one is the outermost at-rule of every rule, and the only one but for the
breakpoint of a value of a shorthand, where it has another at-rule.  Where it names none, a single
rule has no at-rule and the rule of a value just the one of the breakpoint of the value. -/
theorem atRules_ofToken? (hkeys : ∀ key ∈ ctx.breakpoints.keys, ':' ∉ key)
    (hrules : ofToken? ctx raw = some rules) :
    let token := ParsedToken.parse ctx.breakpoints (frontForm ctx.breakpoints raw)
    let places := shorthandPlaces ctx.breakpoints (shorthandValues token.base)
    (∀ key, token.breakpoint = some key → ∃ media, ctx.breakpoints.get? key = some media ∧
      (∀ rule ∈ rules, rule.atRules.head? = some (mediaRule media)) ∧
      (¬ IsFittingShorthand ctx.breakpoints token.base →
        ∀ rule ∈ rules, rule.atRules = [mediaRule media]) ∧
      (IsFittingShorthand ctx.breakpoints token.base →
        rules = places.filterMap fun place => (ofPlace? ctx token place).map fun rule =>
          { rule with
            atRules :=
              if mediaRule place.media = mediaRule media then [mediaRule media]
              else [mediaRule media, mediaRule place.media] })) ∧
    (token.breakpoint = none →
      (¬ IsFittingShorthand ctx.breakpoints token.base → ∀ rule ∈ rules, rule.atRules = []) ∧
      (IsFittingShorthand ctx.breakpoints token.base →
        rules = places.filterMap fun place => (ofPlace? ctx token place).map fun rule =>
          { rule with atRules := [mediaRule place.media] })) := by
  intro token places
  obtain ⟨-, hfront⟩ := ofToken?_eq_some_iff.mp hrules
  have hsingle : ¬ IsFittingShorthand ctx.breakpoints token.base → ∀ rule ∈ rules,
      rule.atRules = ((token.breakpoint.bind ctx.breakpoints.get?).map mediaRule).toList := by
    intro hnone rule hrule
    rw [← hfront, ofFrontForm_eq_of_not_fitting _ hnone, Option.mem_toList] at hrule
    exact atRules_ofParsed? hrule
  have hplaces := fun hfitting : IsFittingShorthand ctx.breakpoints token.base =>
    hfront.symm.trans (ofFrontForm_eq_of_fitting hkeys (frontForm ctx.breakpoints raw) hfitting)
  constructor
  · intro key hkey
    have hcontains := (ParsedToken.isCanonical_parse ctx.breakpoints
      (frontForm ctx.breakpoints raw)).contains key hkey
    obtain ⟨media, hmedia⟩ := OrderedMap.mem_keys_iff.mp (OrderedMap.contains_iff.mp hcontains)
    rw [hkey] at hsingle hplaces
    simp only [Option.bind_some, hmedia, Option.map_some, Option.toList_some] at hsingle hplaces
    refine ⟨media, hmedia, fun rule hrule => ?_, hsingle, hplaces⟩
    by_cases hfitting : IsFittingShorthand ctx.breakpoints token.base
    · rw [hplaces hfitting] at hrule
      obtain ⟨place, -, hplace⟩ := List.mem_filterMap.mp hrule
      obtain ⟨own, -, rfl⟩ := Option.map_eq_some_iff.mp hplace
      unfold nestedAtRules
      dsimp only
      split <;> rfl
    · rw [hsingle hfitting rule hrule]
      rfl
  · intro hkey
    rw [hkey] at hsingle hplaces
    exact ⟨hsingle, hplaces⟩

/-- Three paddings behind one breakpoint: the first of them is for that breakpoint itself. -/
theorem atRules_ofToken?_paddings :
    let ctx : Context := {}
    let raw := "p-1|2|3@m".toList
    (∀ key ∈ ctx.breakpoints.keys, ':' ∉ key) ∧
      ∃ rules, ofToken? ctx raw = some rules ∧
        (∀ rule ∈ rules, rule.atRules.head? = some "@media (max-width: 640px)".toList) ∧
        rules.map atRules =
          [["@media (max-width: 640px)".toList],
            ["@media (max-width: 640px)".toList,
              "@media (min-width: 641px) and (max-width: 1024px)".toList],
            ["@media (max-width: 640px)".toList, "@media (min-width: 1025px)".toList]] := by
  intro ctx raw
  have hkeys : ∀ key ∈ ctx.breakpoints.keys, ':' ∉ key := by decide +kernel
  have hsome : (ofToken? ctx raw).isSome = true := by decide +kernel
  obtain ⟨rules, hrules⟩ := Option.isSome_iff_exists.mp hsome
  obtain ⟨media, hmedia, hhead, -, hplaces⟩ :=
    (atRules_ofToken? hkeys hrules).1 "m".toList (by decide +kernel)
  have hnarrow : ctx.breakpoints.get? "m".toList = some "(max-width: 640px)".toList := by
    decide +kernel
  obtain rfl := Option.some.inj (hmedia.symm.trans hnarrow)
  refine ⟨hkeys, rules, hrules, hhead, ?_⟩
  rw [hplaces ⟨.pipe, by decide +kernel, by decide +kernel⟩]
  decide +kernel

end Rule

end UtilityCss
