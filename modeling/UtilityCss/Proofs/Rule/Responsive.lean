import UtilityCss.Proofs.Number.Digits
import UtilityCss.Proofs.Rule.Reading
import UtilityCss.Proofs.Token.Expansion
import UtilityCss.Proofs.Token.Stem

/-!
The rules of a responsive shorthand, against those of its single tokens.  The first value keeps its
utility; the others take the shortest known utility that the name begins with, which is another one
where that name begins with a known utility of its own.
-/

namespace UtilityCss

variable {ctx : Context} {breakpoints : Breakpoints} {raw token key name value first : Text}
  {values rest : List Text}

/-- A text without the characters that the token grammar reads. -/
def IsBare (text : Text) : Prop :=
  ∀ c ∈ text, c ∉ ":|[@!".toList

instance (text : Text) : Decidable (IsBare text) :=
  List.decidableBAll (fun c => c ∉ ":|[@!".toList) text

theorem IsBare.notMem {text : Text} {c : Char} (htext : IsBare text) (hc : c ∈ ":|[@!".toList) :
    c ∉ text := fun hmem => htext c hmem hc

/-- A value that is not empty and has neither dashes nor characters that the token grammar reads. -/
structure IsPlainValue (value : Text) : Prop where
  ne_nil : value ≠ []
  bare : IsBare value
  dash_notMem : '-' ∉ value

theorem isPlainValue_of_isDigits (hdigits : isDigits value = true) : IsPlainValue value := by
  have hreservedDigit : ∀ c ∈ ":|[@!".toList, c.isDigit = false := by simp
  refine ⟨(isDigits_iff.mp hdigits).1, fun c hmem hreserved => ?_,
    notMem_of_isDigits hdigits (by decide)⟩
  exact notMem_of_isDigits hdigits (hreservedDigit c hreserved) hmem

theorem isBare_of_isUtilityName (hname : isUtilityName name = true) : IsBare name := by
  intro c hmem hreserved
  have hreservedChar : ∀ c ∈ ":|[@!".toList, (c.isLower || c.isDigit || c = '-') = false := by
    simp
  have hc := forall_mem_of_isUtilityName hname c hmem
  rw [hreservedChar c hreserved] at hc
  cases hc

theorem IsBare.append_cons {front back : Text} {c : Char} (hfront : IsBare front)
    (hback : IsBare back) (hc : c ∉ ":|[@!".toList) : IsBare (front ++ c :: back) := by
  intro other hother
  rcases List.mem_append.mp hother with hmem | hmem
  · exact hfront other hmem
  · rcases List.mem_cons.mp hmem with rfl | hmem
    · exact hc
    · exact hback other hmem

namespace ParsedToken

/-- A text without colons and marks is a base. -/
theorem parse_of_notMem (hcolon : ':' ∉ raw) (hmark : '!' ∉ raw) :
    parse breakpoints raw = { base := raw } :=
  parse_of_stops hmark fun segment _ hsplit _ =>
    absurd (hsplit ▸ List.mem_append_right segment List.mem_cons_self) hcolon

/-- A base behind a breakpoint. -/
theorem parse_key (hkey : ':' ∉ key) (hcontains : breakpoints.contains key = true)
    (htoken : IsBare token) :
    parse breakpoints (key ++ ':' :: token) = { breakpoint := some key, base := token } := by
  have hread := @parse_render_of_breakpoint breakpoints key
    { breakpoint := some key, base := token } rfl hkey hcontains (htoken.notMem (by decide))
  rw [withMarks_eq_self (Or.inr (unmarked_of_notMem (htoken.notMem (by decide))))] at hread
  rw [← hread]
  simp [render, statePrefix, Importance.suffix]

end ParsedToken

theorem frontForm_of_notMem (hraw : '@' ∉ raw) : frontForm breakpoints raw = raw := by
  rcases frontForm_eq_or breakpoints raw with heq | ⟨token, key, -, hparts, -⟩
  · exact heq
  · rw [hparts] at hraw
    simp at hraw

/-- The tokens that the values of a shorthand stand for: the first one as it is written, the others
with the stem in front. -/
def valueTokens (stem first : Text) (rest : List Text) : List Text :=
  first :: rest.map fun value => stem ++ '-' :: value

namespace ParsedToken

theorem expandShorthand?_of_notMem (hcolon : ':' ∉ token) (hpipe : '|' ∉ token) :
    ({ base := token } : ParsedToken).expandShorthand? ctx = none := by
  have hnone : ¬ IsFittingShorthand ctx.breakpoints token := fun hfitting =>
    hfitting.separator_mem.elim hpipe hcolon
  rw [expandShorthand?, fittingValues?_eq_none_iff.mpr hnone]
  rfl

end ParsedToken

/-- A utility with as many plain values as there are breakpoints. -/
structure IsResponsive (ctx : Context) (name first : Text) (rest : List Text) : Prop where
  isName : isUtilityName name = true
  known : name ∈ ctx.tables.properties.keys
  values : ∀ value ∈ first :: rest, IsPlainValue value
  more : rest ≠ []
  count : (first :: rest).length = ctx.breakpoints.size

namespace IsResponsive

theorem plain_first (hresponsive : IsResponsive ctx name first rest) : IsPlainValue first :=
  hresponsive.values first List.mem_cons_self

theorem plain_rest (hresponsive : IsResponsive ctx name first rest) (hvalue : value ∈ rest) :
    IsPlainValue value :=
  hresponsive.values value (List.mem_cons_of_mem first hvalue)

theorem bare_parts (hresponsive : IsResponsive ctx name first rest) :
    ∀ part ∈ (name ++ '-' :: first) :: rest, IsBare part := by
  intro part hpart
  rcases List.mem_cons.mp hpart with rfl | hlater
  · exact (isBare_of_isUtilityName hresponsive.isName).append_cons hresponsive.plain_first.bare
      (by decide)
  · exact (hresponsive.plain_rest hlater).bare

/-- The characters that the grammar reads are not in the shorthand, but for the pipes. -/
theorem notMem (hresponsive : IsResponsive ctx name first rest) {c : Char}
    (hc : c ∈ ":[@!".toList) :
    c ∉ ['|'].intercalate ((name ++ '-' :: first) :: rest) := by
  have hreserved : ∀ c ∈ ":[@!".toList, c ≠ '|' ∧ c ∈ ":|[@!".toList := by simp
  intro hmem
  rcases mem_intercalate hmem with hpipe | ⟨part, hpart, hmem⟩
  · exact (hreserved c hc).1 hpipe
  · exact (hresponsive.bare_parts part hpart).notMem (hreserved c hc).2 hmem

theorem bare_stem (hresponsive : IsResponsive ctx name first rest) :
    IsBare (shortestUtility ctx.tables name) := by
  have hname := isBare_of_isUtilityName hresponsive.isName
  rcases shortestUtility_eq_or ctx.tables name with hself | ⟨behind, hfront⟩
  · rwa [hself]
  · intro c hc
    refine hname c ?_
    rw [hfront]
    exact List.mem_append_left _ hc

theorem bare_valueTokens (hresponsive : IsResponsive ctx name first rest)
    (htoken : token ∈ valueTokens (shortestUtility ctx.tables name) (name ++ '-' :: first) rest) :
    IsBare token := by
  rcases List.mem_cons.mp htoken with rfl | hlater
  · exact hresponsive.bare_parts _ List.mem_cons_self
  · obtain ⟨value, hvalue, rfl⟩ := List.mem_map.mp hlater
    exact hresponsive.bare_stem.append_cons (hresponsive.plain_rest hvalue).bare (by decide)

theorem fittingValues?_eq (hresponsive : IsResponsive ctx name first rest) :
    fittingValues? ctx.breakpoints (['|'].intercalate ((name ++ '-' :: first) :: rest)) =
      some ((name ++ '-' :: first) :: rest) := by
  have hbare := hresponsive.bare_parts
  refine fittingValues?_intercalate (Or.inl rfl) hresponsive.more (fun part hpart => ?_)
    hresponsive.count (valueSeparator?_intercalate (fun part hpart => ?_) hresponsive.more)
  · exact ⟨(hbare part hpart).notMem (by decide), (hbare part hpart).notMem (by decide)⟩
  · exact (hbare part hpart).notMem (by decide)

/-- The first value begins with the stem, the others get it. -/
theorem valueTokens_eq_map (hresponsive : IsResponsive ctx name first rest) :
    valueTokens (shortestUtility ctx.tables name) (name ++ '-' :: first) rest =
      ((name ++ '-' :: first) :: rest).map
        (withStem (some (shortestUtility ctx.tables name))) := by
  rw [valueTokens, List.map_cons, withStem_shortestUtility]
  refine congrArg _ (List.map_congr_left fun value hvalue => ?_)
  rw [withStem_of_dash_notMem _ (hresponsive.plain_rest hvalue).dash_notMem]

theorem expandShorthand?_eq (hresponsive : IsResponsive ctx name first rest) :
    ({ base := ['|'].intercalate ((name ++ '-' :: first) :: rest) } :
      ParsedToken).expandShorthand? ctx =
        some ((ctx.breakpoints.keys.zip (valueTokens (shortestUtility ctx.tables name)
          (name ++ '-' :: first) rest)).map fun entry => entry.1 ++ ':' :: entry.2) := by
  have hstem := utilityStem?_append hresponsive.isName hresponsive.known
    hresponsive.plain_first.dash_notMem
  have hne : ∀ value ∈ (name ++ '-' :: first) :: rest, value.isEmpty = false := by
    intro value hvalue
    rw [List.isEmpty_eq_false_iff]
    rcases List.mem_cons.mp hvalue with rfl | hlater
    · simp
    · exact (hresponsive.plain_rest hlater).ne_nil
  rw [ParsedToken.expandShorthand?, hresponsive.fittingValues?_eq, Option.map_some, List.head?_cons,
    Option.bind_some, hstem, hresponsive.valueTokens_eq_map, List.zip_map_right, List.map_map]
  refine congrArg some (List.filterMap_eq_map_iff_forall_eq_some.mpr fun entry hentry => ?_)
  dsimp only
  rw [hne entry.2 (List.of_mem_zip hentry).2]
  simp [ParsedToken.statePrefix, Importance.suffix]

end IsResponsive

namespace Rule

variable {media : Text}

/-- A rule inside the at-rule of a breakpoint and no other one. -/
def atMedia (media : Text) (rule : Rule) : Rule :=
  { rule with atRules := [mediaRule media] }

theorem ofParsed?_key (hmedia : ctx.breakpoints.get? key = some media) (base : Text) :
    ofParsed? ctx { breakpoint := some key, base } =
      (ofParsed? ctx { base }).map (atMedia media) := by
  unfold ofParsed?
  cases Resolution.ofBase? ctx base with
  | none => rfl
  | some resolution =>
      simp only [bind, Option.bind_some]
      split
      · rfl
      · simp [hmedia, atMedia, ParsedToken.hasState]

/-- A bare token has at most one rule. -/
theorem ofToken?_of_isBare (htoken : IsBare token) :
    ofToken? ctx token = (ofParsed? ctx { base := token }).map fun rule => [rule] := by
  have hcolon : ':' ∉ token := htoken.notMem (by decide)
  rw [ofToken?_eq_match, frontForm_of_notMem (htoken.notMem (by decide)), ofFrontForm]
  dsimp only
  rw [ParsedToken.parse_of_notMem hcolon (htoken.notMem (by decide)),
    ParsedToken.expandShorthand?_of_notMem hcolon (htoken.notMem (by decide))]
  cases ofParsed? ctx { base := token } <;> rfl

/-- Each value of a shorthand gives the rules of its token, inside its breakpoint. -/
theorem ofFrontForm_responsive (hresponsive : IsResponsive ctx name first rest)
    (hkeys : ∀ key ∈ ctx.breakpoints.keys, ':' ∉ key) :
    ofFrontForm ctx (['|'].intercalate ((name ++ '-' :: first) :: rest)) =
      (ctx.breakpoints.values.zip (valueTokens (shortestUtility ctx.tables name)
        (name ++ '-' :: first) rest)).flatMap fun entry =>
          ((ofToken? ctx entry.2).getD []).map (atMedia entry.1) := by
  rw [ofFrontForm, ParsedToken.parse_of_notMem (hresponsive.notMem (by decide))
    (hresponsive.notMem (by decide)), hresponsive.expandShorthand?_eq]
  dsimp only
  rw [List.filterMap_map, List.filterMap_eq_flatMap_toList, OrderedMap.keys, OrderedMap.values,
    List.zip_map_left, List.zip_map_left, List.flatMap_map, List.flatMap_map]
  refine List.flatMap_congr ?_
  rintro ⟨⟨key, media⟩, token⟩ hentry
  obtain ⟨hmem, htoken⟩ := List.of_mem_zip hentry
  have hbare := hresponsive.bare_valueTokens htoken
  have hmedia : ctx.breakpoints.get? key = some media := OrderedMap.mem_entries_iff.mp hmem
  have hknown : key ∈ ctx.breakpoints.keys := OrderedMap.mem_keys_iff.mpr ⟨media, hmedia⟩
  show ((ofParsed? ctx (ParsedToken.parse ctx.breakpoints (key ++ ':' :: token))).map
    (under none)).toList = ((ofToken? ctx token).getD []).map (atMedia media)
  rw [ParsedToken.parse_key (hkeys key hknown) (OrderedMap.contains_iff.mpr hknown) hbare,
    ofParsed?_key hmedia, ofToken?_of_isBare hbare]
  cases ofParsed? ctx { base := token } <;> rfl

/-- The single rule of each value under its own utility, and what becomes of them where the shorthand
repeats that utility. -/
theorem exists_singles (hresponsive : IsResponsive ctx name first rest)
    (hrules : ∀ value ∈ first :: rest, (ofToken? ctx (name ++ '-' :: value)).isSome = true) :
    ∃ singles : List Rule,
      (first :: rest).map (fun value => ofToken? ctx (name ++ '-' :: value)) =
        singles.map (fun rule => some [rule]) ∧
      (ctx.breakpoints.values.zip (valueTokens name (name ++ '-' :: first) rest)).flatMap
          (fun entry => ((ofToken? ctx entry.2).getD []).map (atMedia entry.1)) =
        List.zipWith atMedia ctx.breakpoints.values singles := by
  let single (value : Text) : Rule := (ofParsed? ctx { base := name ++ '-' :: value }).getD default
  have hsingle : ∀ value ∈ first :: rest,
      ofToken? ctx (name ++ '-' :: value) = some [single value] := by
    intro value hvalue
    have hname := isBare_of_isUtilityName hresponsive.isName
    have hbare : IsBare (name ++ '-' :: value) :=
      hname.append_cons (hresponsive.values value hvalue).bare (by decide)
    have hsome := hrules value hvalue
    rw [ofToken?_of_isBare hbare, Option.isSome_map] at hsome
    obtain ⟨rule, hrule⟩ := Option.isSome_iff_exists.mp hsome
    rw [ofToken?_of_isBare hbare, hrule]
    simp [single, hrule]
  refine ⟨(first :: rest).map single, ?_, ?_⟩
  · rw [List.map_map]
    exact List.map_congr_left hsingle
  · have htokens : valueTokens name (name ++ '-' :: first) rest =
        (first :: rest).map fun value => name ++ '-' :: value := rfl
    rw [htokens, List.zip_map_right, List.flatMap_map, List.zipWith_map_right,
      ← List.map_uncurry_zip_eq_zipWith, List.map_eq_flatMap]
    refine List.flatMap_congr ?_
    rintro ⟨media, value⟩ hentry
    simp [hsingle value (List.of_mem_zip hentry).2]

/-- The rules of a shorthand with one plain value for each breakpoint: those of the first value as it
is written and of the others under the shortest known utility that the name begins with, each inside
its breakpoint.  Where the name begins with no other known utility, the shorthand has just the single
rules of its values under that name, each inside its breakpoint. -/
theorem ofToken?_responsive (hresponsive : IsResponsive ctx name first rest)
    (hkeys : ∀ key ∈ ctx.breakpoints.keys, ':' ∉ key)
    (hrules : ∀ value ∈ first :: rest, (ofToken? ctx (name ++ '-' :: value)).isSome = true) :
    let raw := ['|'].intercalate ((name ++ '-' :: first) :: rest)
    let tokens := valueTokens (shortestUtility ctx.tables name) (name ++ '-' :: first) rest
    ofToken? ctx raw = some ((ctx.breakpoints.values.zip tokens).flatMap fun entry =>
        ((ofToken? ctx entry.2).getD []).map (atMedia entry.1)) ∧
      ((∀ shorter behind, name = shorter ++ '-' :: behind → shorter ∉ ctx.tables.properties.keys) →
        ∃ singles : List Rule, singles.length = ctx.breakpoints.size ∧
          (first :: rest).map (fun value => ofToken? ctx (name ++ '-' :: value)) =
            singles.map (fun rule => some [rule]) ∧
          ofToken? ctx raw = some (List.zipWith atMedia ctx.breakpoints.values singles)) := by
  intro raw tokens
  have hfront : frontForm ctx.breakpoints raw = raw :=
    frontForm_of_notMem (hresponsive.notMem (by decide))
  have hgeneral : ofToken? ctx raw = some ((ctx.breakpoints.values.zip tokens).flatMap fun entry =>
      ((ofToken? ctx entry.2).getD []).map (atMedia entry.1)) := by
    refine ofToken?_eq_some_iff.mpr ⟨?_, ?_⟩
    · obtain ⟨rules, hfirst⟩ := Option.isSome_iff_exists.mp (hrules first List.mem_cons_self)
      have hlength : ctx.breakpoints.values.length = (first :: rest).length := by
        rw [OrderedMap.values, List.length_map, hresponsive.count, OrderedMap.size]
      obtain ⟨media, medias, hmedias⟩ := List.exists_cons_of_length_eq_add_one hlength
      rw [hmedias, show tokens = (name ++ '-' :: first) :: _ from rfl, List.zip_cons_cons,
        List.flatMap_cons, hfirst]
      exact List.append_ne_nil_of_left_ne_nil
        (by simpa using (ofToken?_eq_some_iff.mp hfirst).1) _
    · rw [hfront]
      exact ofFrontForm_responsive hresponsive hkeys
  refine ⟨hgeneral, fun hnone => ?_⟩
  obtain ⟨singles, hsingles, hzip⟩ := exists_singles hresponsive hrules
  refine ⟨singles, ?_, hsingles, ?_⟩
  · have hlength := congrArg List.length hsingles
    rw [List.length_map, List.length_map] at hlength
    exact hlength.symm.trans hresponsive.count
  · rw [hgeneral, ← hzip]
    simp only [tokens, shortestUtility_eq_self hnone]

theorem isResponsive_standard (hname : isUtilityName name = true)
    (hknown : name ∈ Tables.builtin.properties.keys) :
    IsResponsive {} name "1".toList ["2".toList, "3".toList] where
  isName := hname
  known := hknown
  values value hvalue := by
    have hdigits : ∀ value ∈ ["1".toList, "2".toList, "3".toList], isDigits value = true := by
      decide
    exact isPlainValue_of_isDigits (hdigits value hvalue)
  more := List.cons_ne_nil _ _
  count := rfl

/-- A padding for each of the standard breakpoints. -/
theorem ofToken?_responsive_padding :
    let ctx : Context := {}
    let values := ["1".toList, "2".toList, "3".toList]
    IsResponsive ctx "p".toList "1".toList ["2".toList, "3".toList] ∧
      (∀ key ∈ ctx.breakpoints.keys, ':' ∉ key) ∧
      (∀ value ∈ values, (ofToken? ctx ("p".toList ++ '-' :: value)).isSome = true) ∧
      ∃ singles : List Rule, singles.length = 3 ∧
        values.map (fun value => ofToken? ctx ("p".toList ++ '-' :: value)) =
          singles.map (fun rule => some [rule]) ∧
        ofToken? ctx "p-1|2|3".toList =
          some (List.zipWith atMedia ctx.breakpoints.values singles) := by
  intro ctx values
  have hresponsive : IsResponsive ctx "p".toList "1".toList ["2".toList, "3".toList] :=
    isResponsive_standard (by decide) (by decide +kernel)
  have hkeys : ∀ key ∈ ctx.breakpoints.keys, ':' ∉ key := by decide +kernel
  have hrules : ∀ value ∈ values, (ofToken? ctx ("p".toList ++ '-' :: value)).isSome = true := by
    decide +kernel
  obtain ⟨-, hsingles⟩ := ofToken?_responsive hresponsive hkeys hrules
  refine ⟨hresponsive, hkeys, hrules, hsingles fun shorter behind heq => ?_⟩
  have hdash : '-' ∈ "p".toList := heq ▸ List.mem_append_right shorter List.mem_cons_self
  exact absurd hdash (by decide)

/-- The first value sets the gap between columns, the others that between rows as well. -/
theorem ofToken?_responsive_columnGap :
    let ctx : Context := {}
    IsResponsive ctx "gap-x".toList "1".toList ["2".toList, "3".toList] ∧
      (∀ key ∈ ctx.breakpoints.keys, ':' ∉ key) ∧
      ["1".toList, "2".toList, "3".toList].map (fun value =>
          (ofToken? ctx ("gap-x".toList ++ '-' :: value)).map (List.map Rule.declarations)) =
        [some [["column-gap: 4px;".toList]], some [["column-gap: 8px;".toList]],
          some [["column-gap: 12px;".toList]]] ∧
      (ofToken? ctx "gap-x-1|2|3".toList).map (List.map Rule.declarations) =
        some [["column-gap: 4px;".toList], ["gap: 8px;".toList], ["gap: 12px;".toList]] := by
  intro ctx
  exact ⟨isResponsive_standard (by decide) (by decide +kernel), by decide +kernel,
    by decide +kernel, by decide +kernel⟩

end Rule

end UtilityCss
