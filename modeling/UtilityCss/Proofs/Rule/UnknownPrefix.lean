import UtilityCss.Proofs.Rule.AtRules
import UtilityCss.Proofs.Rule.DocumentToken
import UtilityCss.Proofs.Token.Stem

/-!
Unknown prefixes.  A base that begins with a segment that is no breakpoint and no state is not a
utility, since no name holds its colon.  What is left is the shorthand: where there are pipes behind
the prefix, its colon separates values as well, and the prefix counts as the first of them.
-/

namespace UtilityCss

variable {ctx : Context} {breakpoints : Breakpoints} {tables : Tables}
  {raw front rest head : Text}

/-- A utility with a value has a dash in it. -/
theorem dash_mem_of_isUtilityWithValue (hhead : isUtilityWithValue head = true) : '-' ∈ head := by
  have hunsigned : (Text.after? ['-'] head).getD head ⊆ head := by
    cases hafter : Text.after? ['-'] head with
    | none => exact List.Subset.refl head
    | some behind =>
        rw [Text.after?_eq_some_iff.mp hafter]
        exact List.subset_append_right ['-'] behind
  refine hunsigned ?_
  by_contra hdash
  rw [isUtilityWithValue, Text.splitFirst_eq_none_iff.mpr hdash] at hhead
  cases hhead

/-- The first value of a base has no utility that the others could repeat, if it ends at a colon
before any dash. -/
theorem utilityStem?_append_colon (hdash : '-' ∉ front) :
    (shorthandValues (front ++ ':' :: rest)).head?.bind (utilityStem? tables) = none := by
  rw [shorthandValues, List.splitOnP_append_cons front rest (by decide),
    List.head?_append_of_ne_nil _ (List.splitOnP_ne_nil _ front), Option.bind_eq_none_iff]
  exact fun value hvalue => utilityStem?_eq_none fun hmem =>
    hdash (Text.mem_of_mem_splitOnP (List.mem_of_head? hvalue) hmem)

/-- The colon behind a prefix without a dash makes no shorthand, so that only a pipe does. -/
theorem valueSeparator?_append_colon (hdash : '-' ∉ front) :
    valueSeparator? (front ++ ':' :: rest) =
      if '[' ∉ front ++ ':' :: rest ∧ '|' ∈ front ++ ':' :: rest then some .pipe else none := by
  unfold valueSeparator?
  by_cases hbracket : '[' ∈ front ++ ':' :: rest
  · rw [if_pos (by simpa using hbracket), if_neg (by simp [hbracket])]
  · rw [if_neg (by simpa using hbracket)]
    by_cases hpipe : '|' ∈ front ++ ':' :: rest
    · rw [if_pos (by simpa using hpipe), if_pos ⟨hbracket, hpipe⟩]
    · rw [if_neg (by simpa using hpipe), if_neg fun hboth => hpipe hboth.2]
      split
      · rename_i head behind hsplit
        refine if_neg fun hhead => hdash ?_
        exact Text.subset_of_splitFirst hsplit (dash_mem_of_isUtilityWithValue hhead)
      · rfl

theorem isFittingShorthand_append_colon_iff (hdash : '-' ∉ front) :
    IsFittingShorthand breakpoints (front ++ ':' :: rest) ↔
      ('[' ∉ front ++ ':' :: rest ∧ '|' ∈ front ++ ':' :: rest) ∧
        (shorthandValues (front ++ ':' :: rest)).length = breakpoints.size := by
  unfold IsFittingShorthand
  rw [valueSeparator?_append_colon hdash]
  split
  · rename_i hwritten
    constructor
    · rintro ⟨separator, hseparator, hfits⟩
      cases hseparator
      exact ⟨hwritten, of_decide_eq_true hfits⟩
    · exact fun hboth => ⟨.pipe, rfl, decide_eq_true hboth.2⟩
  · rename_i hwritten
    refine iff_of_false ?_ fun hboth => hwritten hboth.1
    rintro ⟨separator, hseparator, -⟩
    cases hseparator

namespace Rule

/-- A token whose base has an unknown prefix has a rule only as a shorthand with one value for each
breakpoint, the prefix being the first one, where one of the values is a utility by itself. -/
theorem ofToken?_eq_none_iff_of_unknownSegment
    (hnames : ∀ name ∈ ctx.tables.properties.keys ++ ctx.tables.keywords.keys
      ++ ctx.breakpoints.keys, ':' ∉ name)
    (hdash : '-' ∉ front) (hbracket : '[' ∉ front)
    (hbase : (ParsedToken.parse ctx.breakpoints (frontForm ctx.breakpoints raw)).base =
      front ++ ':' :: rest) :
    let token := ParsedToken.parse ctx.breakpoints (frontForm ctx.breakpoints raw)
    let values := shorthandValues token.base
    ofToken? ctx raw = none ↔
      ('[' ∉ token.base → '|' ∈ token.base → values.length = ctx.breakpoints.size →
        ∀ place ∈ shorthandPlaces ctx.breakpoints values,
          ofParsed? ctx (token.atPlace none place).withMarks = none) := by
  intro token values
  have hkeys : ∀ key ∈ ctx.breakpoints.keys, ':' ∉ key := fun key hkey =>
    hnames key (List.mem_append_right _ hkey)
  have hvalues : values = shorthandValues (front ++ ':' :: rest) := congrArg shorthandValues hbase
  have hstem : values.head?.bind (utilityStem? ctx.tables) = none := by
    rw [hvalues]
    exact utilityStem?_append_colon hdash
  have hfits : IsFittingShorthand ctx.breakpoints token.base ↔
      ('[' ∉ token.base ∧ '|' ∈ token.base) ∧ values.length = ctx.breakpoints.size := by
    have hsegment := @isFittingShorthand_append_colon_iff ctx.breakpoints front rest hdash
    rwa [← hbase] at hsegment
  rw [ofToken?_eq_none_iff]
  by_cases hfitting : IsFittingShorthand ctx.breakpoints token.base
  · obtain ⟨⟨hopen, hpipe⟩, hlength⟩ := hfits.mp hfitting
    have hplaces : ∀ place ∈ shorthandPlaces ctx.breakpoints values,
        ofPlace? ctx token place = ofParsed? ctx (token.atPlace none place).withMarks := by
      intro place hplace
      have hread := @ParsedToken.parse_render_atPlace _ ctx.tables _ _ hkeys hplace
      rw [hstem] at hread
      rw [ofPlace?, hstem, hread]
    rw [ofFrontForm_eq_of_fitting hkeys _ hfitting, List.filterMap_eq_nil_iff]
    simp only [Option.map_eq_none_iff]
    constructor
    · intro hnone _ _ _ place hplace
      rw [← hplaces place hplace]
      exact hnone place hplace
    · intro hnone place hplace
      rw [hplaces place hplace]
      exact hnone hopen hpipe hlength place hplace
  -- Read as a single token, the base is no utility, for its colon is in no name.
  · have hsingle : ofParsed? ctx token = none := by
      refine ofParsed?_eq_none ?_
      rw [hbase]
      refine Resolution.ofBase?_eq_none_of_colon (fun hkeyword => ?_) (fun name hname _ => ?_)
        hbracket
      · exact hnames _ (List.mem_append_left _ (List.mem_append_right _ hkeyword))
          (List.mem_append_right front List.mem_cons_self)
      · exact hnames name (List.mem_append_left _ (List.mem_append_left _ hname))
    rw [ofFrontForm_eq_of_not_fitting _ hfitting, Option.toList_eq_nil_iff]
    exact iff_of_true hsingle fun hopen hpipe hlength =>
      absurd (hfits.mpr ⟨⟨hopen, hpipe⟩, hlength⟩) hfitting

/-- No name of the built-in tables or of a standard breakpoint holds a separator. -/
theorem separator_notMem_standard :
    let ctx : Context := {}
    ∀ name ∈ ctx.tables.properties.keys ++ ctx.tables.keywords.keys ++ ctx.breakpoints.keys,
      ':' ∉ name ∧ '|' ∉ name := by
  decide +kernel

/-- A prefix, an empty value and one more: neither the prefix nor the last one is a utility. -/
theorem ofToken?_eq_none_iff_wobble :
    let ctx : Context := {}
    let raw := "hover:wobble:|8!".toList
    (∀ name ∈ ctx.tables.properties.keys ++ ctx.tables.keywords.keys ++ ctx.breakpoints.keys,
        ':' ∉ name) ∧
      (ParsedToken.parse ctx.breakpoints (frontForm ctx.breakpoints raw)).base =
        "wobble".toList ++ ':' :: "|8".toList ∧
      ofToken? ctx raw = none := by
  intro ctx raw
  have hnames : ∀ name ∈ ctx.tables.properties.keys ++ ctx.tables.keywords.keys
      ++ ctx.breakpoints.keys, ':' ∉ name := fun name hname =>
    (separator_notMem_standard name hname).1
  have hbase : (ParsedToken.parse ctx.breakpoints (frontForm ctx.breakpoints raw)).base =
      "wobble".toList ++ ':' :: "|8".toList := by decide +kernel
  refine ⟨hnames, hbase, ?_⟩
  refine (ofToken?_eq_none_iff_of_unknownSegment hnames (by decide) (by decide)
    hbase).mpr fun _ _ _ => ?_
  decide +kernel

/-- A prefix that nothing knows, and a padding with a pipe: the padding is read as the value for the
second breakpoint. -/
theorem ofToken?_wobble_pipe :
    let ctx : Context := {}
    let raw := "wobble:p-4|8".toList
    (∀ name ∈ ctx.tables.properties.keys ++ ctx.tables.keywords.keys ++ ctx.breakpoints.keys,
        ':' ∉ name ∧ '|' ∉ name) ∧
      (ParsedToken.parse ctx.breakpoints (frontForm ctx.breakpoints raw)).base =
        "wobble".toList ++ ':' :: "p-4|8".toList ∧
      (∀ c ∈ "-[|".toList, c ∉ "wobble".toList) ∧
      ofToken? ctx raw =
        some
          [{ atRules := ["@media (min-width: 641px) and (max-width: 1024px)".toList]
             declarations := ["padding: 16px;".toList] }] :=
  ⟨separator_notMem_standard, by decide +kernel, by simp, by decide +kernel⟩

end Rule

end UtilityCss
