import Mathlib.Data.List.Forall2
import UtilityCss.Proofs.Token.Canonical

/-!
The tokens of a shorthand, read again.  Each is the canonical form of the shorthand with one
breakpoint and one value in it, and the walk cannot take the value for a modifier, since it is the
last segment; only marks at the end of a value can be read as marks of the token.
-/

namespace UtilityCss

variable {ctx : Context} {breakpoints : Breakpoints} {tables : Tables}
  {raw base key value first : Text} {values rest : List Text} {separator c : Char}

/-- A value of a shorthand and the breakpoint that it is for. -/
structure ShorthandPlace where
  key : Text
  media : Text
  value : Text
deriving DecidableEq

/-- The values of a shorthand with the breakpoints in their order, without those left empty. -/
def shorthandPlaces (breakpoints : Breakpoints) (values : List Text) : List ShorthandPlace :=
  ((breakpoints.entries.zip values).map fun pair => ⟨pair.1.1, pair.1.2, pair.2⟩).filter
    fun place => !place.value.isEmpty

theorem mem_of_mem_shorthandPlaces {place : ShorthandPlace}
    (hplace : place ∈ shorthandPlaces breakpoints values) :
    breakpoints.get? place.key = some place.media ∧ place.value ∈ values ∧ place.value ≠ [] := by
  obtain ⟨hzip, hne⟩ := List.mem_filter.mp hplace
  obtain ⟨⟨entry, value⟩, hpair, rfl⟩ := List.mem_map.mp hzip
  obtain ⟨hentry, hvalue⟩ := List.of_mem_zip hpair
  exact ⟨OrderedMap.mem_entries_iff.mp hentry, hvalue, by simpa using hne⟩

/-- Where there are enough breakpoints, each value that is not empty has its place. -/
theorem map_value_shorthandPlaces (hlength : values.length ≤ breakpoints.size) :
    (shorthandPlaces breakpoints values).map ShorthandPlace.value =
      values.filter fun value => !value.isEmpty := by
  have hvalues : (breakpoints.entries.zip values).map Prod.snd = values :=
    List.map_snd_zip hlength
  conv_rhs => rw [← hvalues, List.filter_map]
  rw [shorthandPlaces, List.filter_map, List.map_map]
  rfl

namespace ParsedToken

variable {token : ParsedToken} {place : ShorthandPlace} {tokens : List Text}

/-- A shorthand at one of its places: with the breakpoint, and the value under its utility. -/
def atPlace (token : ParsedToken) (stem : Option Text) (place : ShorthandPlace) : ParsedToken :=
  { token with breakpoint := some place.key, base := withStem stem place.value }

/-- The tokens of a shorthand are its canonical forms at its places. -/
theorem expandShorthand?_eq_map (ctx : Context) (token : ParsedToken) :
    token.expandShorthand? ctx = (fittingValues? ctx.breakpoints token.base).map fun values =>
      (shorthandPlaces ctx.breakpoints values).map fun place =>
        (token.atPlace (values.head?.bind (utilityStem? ctx.tables)) place).render := by
  refine Option.map_congr fun values _ => ?_
  rw [OrderedMap.keys, List.zip_map_left, List.filterMap_map, shorthandPlaces, List.filter_map,
    List.map_map, ← List.filterMap_eq_filter, List.map_filterMap]
  refine List.filterMap_congr fun pair _ => ?_
  by_cases hempty : pair.2 = []
  · simp [hempty, Option.guard]
  · simp [hempty, Option.guard, render, atPlace, statePrefix]

/-- A token with the marks at the end of its base read as its own. -/
def withMarks (token : ParsedToken) : ParsedToken :=
  let marked := Importance.split (token.base ++ token.importance.suffix)
  { token with importance := marked.2, base := marked.1 }

theorem withMarks_eq_self (hmarks : token.importance = .highSpecificity ∨ Unmarked token.base) :
    token.withMarks = token := by
  rw [withMarks, Importance.split_append_suffix_iff.mpr hmarks]

theorem render_withMarks (token : ParsedToken) : token.withMarks.render = token.render := by
  rw [render_eq, render_eq, List.append_assoc, List.append_assoc]
  exact congrArg _ (Importance.split_append _)

/-- A base of one segment behind a breakpoint is read as it is, up to its marks. -/
theorem parse_render_of_breakpoint (hkey : token.breakpoint = some key) (hcolon : ':' ∉ key)
    (hcontains : breakpoints.contains key = true) (hbase : ':' ∉ token.base) :
    parse breakpoints token.render = token.withMarks := by
  have hsegment : ':' ∉ token.withMarks.base := fun hmem => by
    have hmarked := List.mem_append_left token.withMarks.importance.suffix hmem
    rw [show token.withMarks.base ++ token.withMarks.importance.suffix =
      token.base ++ token.importance.suffix from Importance.split_append _] at hmarked
    exact (List.mem_append.mp hmarked).elim hbase token.importance.colon_notMem_suffix
  rw [← render_withMarks]
  refine IsCanonical.parse_render ⟨fun other hother => ?_, fun other hother => ?_, fun hnone => ?_,
    fun segment rest hsplit _ => ?_, Importance.eq_highSpecificity_or_unmarked _⟩
  · cases hkey.symm.trans hother
    exact hcontains
  · cases hkey.symm.trans hother
    exact hcolon
  · cases hkey.symm.trans hnone
  · exact absurd (hsplit ▸ List.mem_append_right segment List.mem_cons_self) hsegment

/-- The values of a shorthand bring no separator to its places. -/
theorem separator_notMem_atPlace
    (hplace : place ∈ shorthandPlaces breakpoints (shorthandValues token.base)) :
    let stem := (shorthandValues token.base).head?.bind (utilityStem? tables)
    ':' ∉ (token.atPlace stem place).base ∧ '|' ∉ (token.atPlace stem place).base := by
  have hvalue := (mem_of_mem_shorthandPlaces hplace).2.1
  constructor
  · exact notMem_withStem (by decide)
      (fun part hpart => (notMem_of_mem_shorthandValues hpart).2) hvalue
  · exact notMem_withStem (by decide)
      (fun part hpart => (notMem_of_mem_shorthandValues hpart).1) hvalue

/-- A token of a shorthand is read as the shorthand at its place, up to marks at the end of the
value. -/
theorem parse_render_atPlace (hkeys : ∀ key ∈ breakpoints.keys, ':' ∉ key)
    (hplace : place ∈ shorthandPlaces breakpoints (shorthandValues token.base)) :
    let stem := (shorthandValues token.base).head?.bind (utilityStem? tables)
    parse breakpoints (token.atPlace stem place).render = (token.atPlace stem place).withMarks := by
  have hkey : place.key ∈ breakpoints.keys :=
    OrderedMap.mem_keys_iff.mpr ⟨_, (mem_of_mem_shorthandPlaces hplace).1⟩
  exact parse_render_of_breakpoint rfl (hkeys _ hkey) (OrderedMap.contains_iff.mpr hkey)
    (separator_notMem_atPlace hplace).1

/-- A text without marks is a base, where its first segment stops the walk. -/
theorem parse_of_stops (hraw : '!' ∉ raw)
    (hstops : ∀ segment rest, raw = segment ++ ':' :: rest → ':' ∉ segment →
      PseudoState.ofName? segment = none ∧ breakpoints.contains segment = false) :
    parse breakpoints raw = { base := raw } := by
  have hcanonical : IsCanonical breakpoints { base := raw } :=
    { contains := by simp
      colon_notMem := by simp
      states := by simp
      base := fun segment rest hsplit hsegment =>
        (hstops segment rest hsplit hsegment).imp_right fun hkey _ => hkey
      marks := Or.inr (unmarked_of_notMem hraw) }
  have hrender : ({ base := raw } : ParsedToken).render = raw := List.append_nil raw
  rw [← hrender, hcanonical.parse_render, hrender]

/-- Without exclamation marks in the values, there are none to be read. -/
theorem withMarks_atPlace (htoken : '!' ∉ token.base)
    (hplace : place ∈ shorthandPlaces breakpoints (shorthandValues token.base)) :
    let stem := (shorthandValues token.base).head?.bind (utilityStem? tables)
    (token.atPlace stem place).withMarks = token.atPlace stem place := by
  refine withMarks_eq_self (Or.inr (unmarked_of_notMem ?_))
  exact notMem_withStem (by decide)
    (fun part hpart hmem => htoken (Text.mem_of_mem_splitOnP hpart hmem))
    (mem_of_mem_shorthandPlaces hplace).2.1

/-- The tokens of a shorthand, and what they are read as. -/
theorem forall₂_parse_expandToken (hkeys : ∀ key ∈ ctx.breakpoints.keys, ':' ∉ key)
    (hraw : '!' ∉ (Importance.split raw).1)
    (hfitting : IsFittingShorthand ctx.breakpoints (parse ctx.breakpoints raw).base) :
    let token := parse ctx.breakpoints raw
    let values := shorthandValues token.base
    let stem := values.head?.bind (utilityStem? ctx.tables)
    List.Forall₂ (fun expanded place =>
        parse ctx.breakpoints expanded = token.atPlace stem place ∧
          ':' ∉ (token.atPlace stem place).base ∧ '|' ∉ (token.atPlace stem place).base)
      (expandToken ctx raw) (shorthandPlaces ctx.breakpoints values) := by
  intro token values stem
  have htokens := token.expandShorthand?_eq_map ctx
  rw [fittingValues?_eq_some_iff.mpr ⟨hfitting, rfl⟩, Option.map_some] at htokens
  rw [expandToken, htokens, Option.getD_some, List.forall₂_map_left_iff, List.forall₂_same]
  intro place hplace
  have hbase : '!' ∉ token.base := fun hmem =>
    hraw ((base_parse_suffix ctx.breakpoints raw).subset hmem)
  refine ⟨?_, separator_notMem_atPlace hplace⟩
  show parse ctx.breakpoints (token.atPlace stem place).render = token.atPlace stem place
  rw [parse_render_atPlace hkeys hplace, withMarks_atPlace hbase hplace]

/-- A token stands for itself exactly if its base is no shorthand, or its values do not fit: the
tokens of a shorthand are no shorthands. -/
theorem expandToken_eq_singleton_iff (hkeys : ∀ key ∈ ctx.breakpoints.keys, ':' ∉ key)
    (hraw : '!' ∉ (Importance.split raw).1) :
    expandToken ctx raw = [raw] ↔
      ¬ IsFittingShorthand ctx.breakpoints (parse ctx.breakpoints raw).base := by
  constructor
  · intro hself hfitting
    have hread := forall₂_parse_expandToken hkeys hraw hfitting
    rw [hself] at hread
    obtain ⟨place, -, ⟨hplace, hcolon, hpipe⟩, -, -⟩ := List.forall₂_cons_left_iff.mp hread
    have hbase := congrArg ParsedToken.base hplace
    rcases hfitting.separator_mem with hmem | hmem
    · rw [hbase] at hmem
      exact hpipe hmem
    · rw [hbase] at hmem
      exact hcolon hmem
  · intro hnone
    rw [expandToken, expandShorthand?_eq_map, fittingValues?_eq_none_iff.mpr hnone]
    rfl

end ParsedToken

theorem mem_intercalate (hc : c ∈ [separator].intercalate values) :
    c = separator ∨ ∃ value ∈ values, c ∈ value := by
  induction values with
  | nil => cases hc
  | cons value rest ih =>
      cases rest with
      | nil => exact Or.inr ⟨value, List.mem_cons_self, by rwa [List.intercalate_singleton] at hc⟩
      | cons next others =>
          rw [List.intercalate_cons_cons, List.mem_append, List.mem_append,
            List.mem_singleton] at hc
          rcases hc with (hvalue | hseparator) | hlater
          · exact Or.inr ⟨value, List.mem_cons_self, hvalue⟩
          · exact Or.inl hseparator
          · refine (ih hlater).imp_right ?_
            rintro ⟨other, hother, hmem⟩
            exact ⟨other, List.mem_cons_of_mem value hother, hmem⟩

/-- The values of a shorthand that is written from them, with either separator. -/
theorem shorthandValues_intercalate (hseparator : separator = '|' ∨ separator = ':')
    (hne : values ≠ []) (hvalues : ∀ value ∈ values, '|' ∉ value ∧ ':' ∉ value) :
    shorthandValues ([separator].intercalate values) = values := by
  have hpart : ∀ value : Text, '|' ∉ value ∧ ':' ∉ value →
      ∀ c ∈ value, (c = '|' || c = ':') = false := by
    intro value hvalue c hc
    have hother : c ≠ '|' ∧ c ≠ ':' := by
      constructor
      · rintro rfl
        exact hvalue.1 hc
      · rintro rfl
        exact hvalue.2 hc
    simp [hother]
  induction values with
  | nil => exact absurd rfl hne
  | cons value rest ih =>
      have hfirst := hpart value (hvalues value List.mem_cons_self)
      cases rest with
      | nil =>
          rw [List.intercalate_singleton, shorthandValues]
          exact List.splitOnP_eq_singleton hfirst
      | cons next others =>
          have hrest := ih (List.cons_ne_nil next others) fun other hother =>
            hvalues other (List.mem_cons_of_mem value hother)
          rw [shorthandValues] at hrest ⊢
          rw [List.intercalate_cons_cons, List.append_assoc, List.singleton_append,
            List.splitOnP_append_cons_of_forall_mem hfirst separator (by simpa using hseparator),
            hrest]

/-- Values with pipes between them are written as a shorthand. -/
theorem valueSeparator?_intercalate (hvalues : ∀ value ∈ first :: rest, '[' ∉ value)
    (hmore : rest ≠ []) : valueSeparator? (['|'].intercalate (first :: rest)) = some .pipe := by
  have hbracket : '[' ∉ ['|'].intercalate (first :: rest) := by
    intro hmem
    rcases mem_intercalate hmem with hpipe | ⟨value, hvalue, hmem⟩
    · cases hpipe
    · exact hvalues value hvalue hmem
  have hpipe : '|' ∈ ['|'].intercalate (first :: rest) := by
    obtain ⟨next, others, rfl⟩ := List.exists_cons_of_ne_nil hmore
    rw [List.intercalate_cons_cons]
    simp
  rw [valueSeparator?, if_neg (by simpa using hbracket), if_pos (by simpa using hpipe)]

/-- Values in a colon spelling that is a shorthand are at least two. -/
theorem ne_nil_of_valueSeparator?_colon
    (hvalues : ∀ value ∈ first :: rest, '|' ∉ value ∧ ':' ∉ value)
    (hcolon : valueSeparator? ([':'].intercalate (first :: rest)) = some .colon) : rest ≠ [] := by
  rintro rfl
  obtain ⟨hpipe, hnone⟩ := hvalues first List.mem_cons_self
  rw [List.intercalate_singleton, valueSeparator?, Text.splitFirst_eq_none_iff.mpr hnone] at hcolon
  simp [hpipe] at hcolon

/-- Values that are joined by either separator are a base, where the first one is no modifier. -/
theorem ParsedToken.parse_intercalate (hseparator : separator = '|' ∨ separator = ':')
    (hvalues : ∀ value ∈ first :: rest, ':' ∉ value ∧ '!' ∉ value)
    (hkey : breakpoints.contains first = false) (hstate : PseudoState.ofName? first = none) :
    parse breakpoints ([separator].intercalate (first :: rest)) =
      { base := [separator].intercalate (first :: rest) } := by
  refine parse_of_stops (fun hmem => ?_) fun segment behind hsplit hsegment => ?_
  · rcases mem_intercalate hmem with rfl | ⟨value, hvalue, hmem⟩
    · simp at hseparator
    · exact (hvalues value hvalue).2 hmem
  · have hcolon : ':' ∈ [separator].intercalate (first :: rest) :=
      hsplit ▸ List.mem_append_right segment List.mem_cons_self
    cases rest with
    | nil => exact absurd hcolon (by simpa using (hvalues first List.mem_cons_self).1)
    | cons next others =>
        rcases mem_intercalate hcolon with rfl | ⟨value, hvalue, hmem⟩
        · -- The text is cut at its first colon, which stands behind the first value.
          have hcut := Text.splitFirst_append_cons hsegment behind
          rw [← hsplit, List.intercalate_cons_cons, List.append_assoc, List.singleton_append,
            Text.splitFirst_append_cons (hvalues first List.mem_cons_self).1] at hcut
          cases hcut
          exact ⟨hstate, hkey⟩
        · exact absurd hmem (hvalues value hvalue).1

/-- As many values as there are breakpoints fit them, whichever separator joins them. -/
theorem fittingValues?_intercalate {form : ValueSeparator}
    (hseparator : separator = '|' ∨ separator = ':') (hmore : rest ≠ [])
    (hvalues : ∀ value ∈ first :: rest, '|' ∉ value ∧ ':' ∉ value)
    (hlength : (first :: rest).length = breakpoints.size)
    (hform : valueSeparator? ([separator].intercalate (first :: rest)) = some form) :
    fittingValues? breakpoints ([separator].intercalate (first :: rest)) =
      some (first :: rest) := by
  have hsplit := shorthandValues_intercalate hseparator (List.cons_ne_nil first rest) hvalues
  refine fittingValues?_eq_some_iff.mpr ⟨⟨form, hform, ?_⟩, hsplit⟩
  rw [hsplit]
  cases form with
  | pipe => exact decide_eq_true hlength
  | colon =>
      have htwo : 2 ≤ (first :: rest).length := Nat.succ_le_succ (List.length_pos_iff.mpr hmore)
      rw [ValueSeparator.fits, Bool.and_eq_true]
      exact ⟨decide_eq_true htwo, decide_eq_true (Nat.le_of_eq hlength)⟩

/-- One value for each breakpoint: with colons between them, where that is a shorthand, they stand for
the same tokens as with pipes. -/
theorem expandToken_colon_eq_pipe
    (hvalues : ∀ value ∈ first :: rest, ∀ c ∈ ":|[!".toList, c ∉ value)
    (hlength : (first :: rest).length = ctx.breakpoints.size)
    (hkey : ctx.breakpoints.contains first = false)
    (hstate : PseudoState.ofName? first = none)
    (hcolon : valueSeparator? ([':'].intercalate (first :: rest)) = some .colon) :
    expandToken ctx ([':'].intercalate (first :: rest)) =
      expandToken ctx (['|'].intercalate (first :: rest)) := by
  have hseparators : ∀ value ∈ first :: rest, '|' ∉ value ∧ ':' ∉ value := fun value hvalue =>
    ⟨hvalues value hvalue '|' (by decide), hvalues value hvalue ':' (by decide)⟩
  have hmarks : ∀ value ∈ first :: rest, ':' ∉ value ∧ '!' ∉ value := fun value hvalue =>
    ⟨hvalues value hvalue ':' (by decide), hvalues value hvalue '!' (by decide)⟩
  have hmore : rest ≠ [] := ne_nil_of_valueSeparator?_colon hseparators hcolon
  have hpipe : valueSeparator? (['|'].intercalate (first :: rest)) = some .pipe :=
    valueSeparator?_intercalate (fun value hvalue => hvalues value hvalue '[' (by decide)) hmore
  rw [expandToken, ParsedToken.parse_intercalate (Or.inr rfl) hmarks hkey hstate,
    ParsedToken.expandShorthand?_eq_map,
    fittingValues?_intercalate (Or.inr rfl) hmore hseparators hlength hcolon,
    expandToken, ParsedToken.parse_intercalate (Or.inl rfl) hmarks hkey hstate,
    ParsedToken.expandShorthand?_eq_map,
    fittingValues?_intercalate (Or.inl rfl) hmore hseparators hlength hpipe]
  rfl

namespace ParsedToken

/-- The tokens of a shorthand are read as they were written.  A token without exclamation marks but
those of its importance stands for itself, or it is a shorthand whose values fit the breakpoints and
stands for one token for each value that is not empty; that token names the breakpoint of the value,
has the states and the importance of the shorthand, and its base holds no separator.  With one value
for each breakpoint it makes no difference whether colons or pipes are between them. -/
theorem expandToken_reads_back (hkeys : ∀ key ∈ ctx.breakpoints.keys, ':' ∉ key) :
    (∀ raw, '!' ∉ (Importance.split raw).1 →
      let token := parse ctx.breakpoints raw
      let values := shorthandValues token.base
      let places := shorthandPlaces ctx.breakpoints values
      (expandToken ctx raw = [raw] ↔ ¬ IsFittingShorthand ctx.breakpoints token.base) ∧
      (IsFittingShorthand ctx.breakpoints token.base →
        places.map ShorthandPlace.value = values.filter (fun value => !value.isEmpty) ∧
        List.Forall₂ (fun expanded place =>
            let reading := parse ctx.breakpoints expanded
            reading.breakpoint = some place.key ∧ reading.states = token.states ∧
              reading.importance = token.importance ∧ ':' ∉ reading.base ∧ '|' ∉ reading.base)
          (expandToken ctx raw) places)) ∧
    ∀ first rest, (∀ value ∈ first :: rest, ∀ c ∈ ":|[!".toList, c ∉ value) →
      (first :: rest).length = ctx.breakpoints.size → ctx.breakpoints.contains first = false →
      PseudoState.ofName? first = none →
      valueSeparator? ([':'].intercalate (first :: rest)) = some .colon →
      expandToken ctx ([':'].intercalate (first :: rest)) =
        expandToken ctx (['|'].intercalate (first :: rest)) := by
  refine ⟨fun raw hraw => ⟨expandToken_eq_singleton_iff hkeys hraw, fun hfitting => ⟨?_, ?_⟩⟩,
    fun first rest hvalues hlength hkey hstate hcolon =>
      expandToken_colon_eq_pipe hvalues hlength hkey hstate hcolon⟩
  · exact map_value_shorthandPlaces hfitting.length_le
  · refine (forall₂_parse_expandToken hkeys hraw hfitting).imp ?_
    rintro expanded place ⟨hread, hcolon, hpipe⟩
    rw [hread]
    exact ⟨rfl, rfl, rfl, hcolon, hpipe⟩

/-- A padding without a value for the second breakpoint, with a breakpoint, a state and a mark of its
own; and the two spellings of three paddings. -/
theorem expandToken_reads_back_padding :
    let ctx : Context := {}
    let raw := "m:hover:p-10||30!".toList
    let places : List ShorthandPlace :=
      [⟨"m".toList, "(max-width: 640px)".toList, "p-10".toList⟩,
        ⟨"d".toList, "(min-width: 1025px)".toList, "30".toList⟩]
    (∀ key ∈ ctx.breakpoints.keys, ':' ∉ key) ∧ '!' ∉ (Importance.split raw).1 ∧
      IsFittingShorthand ctx.breakpoints (parse ctx.breakpoints raw).base ∧
      List.Forall₂ (fun expanded (place : ShorthandPlace) =>
          let reading := parse ctx.breakpoints expanded
          reading.breakpoint = some place.key ∧ reading.states = [.hover] ∧
            reading.importance = .important ∧ ':' ∉ reading.base ∧ '|' ∉ reading.base)
        (expandToken ctx raw) places ∧
      expandToken ctx "p-1:2:3".toList = expandToken ctx "p-1|2|3".toList := by
  intro ctx raw places
  have hkeys : ∀ key ∈ ctx.breakpoints.keys, ':' ∉ key := by decide +kernel
  have hraw : '!' ∉ (Importance.split raw).1 := by decide +kernel
  have htoken : parse ctx.breakpoints raw =
      ⟨some "m".toList, [.hover], .important, "p-10||30".toList⟩ := by decide +kernel
  have hfitting : IsFittingShorthand ctx.breakpoints (parse ctx.breakpoints raw).base :=
    ⟨.pipe, by decide +kernel, by decide +kernel⟩
  have hplaces : shorthandPlaces ctx.breakpoints (shorthandValues "p-10||30".toList) = places := by
    decide +kernel
  obtain ⟨hread, hspellings⟩ := @expandToken_reads_back ctx hkeys
  have hreadings := ((hread raw hraw).2 hfitting).2
  simp only [htoken, hplaces] at hreadings
  refine ⟨hkeys, hraw, hfitting, hreadings, ?_⟩
  have hvalues : ∀ value ∈ ["p-1".toList, "2".toList, "3".toList], ∀ c ∈ ":|[!".toList,
      c ∉ value := by simp
  exact hspellings "p-1".toList ["2".toList, "3".toList] hvalues (by decide +kernel)
    (by decide +kernel) (by decide +kernel) (by decide +kernel)

end ParsedToken

end UtilityCss
