import UtilityCss.Media
import UtilityCss.Proofs.Number.Digits
import UtilityCss.Proofs.Text.Trim

/-!
The widths that a media text admits.  A text that only speaks of the viewport width is cut at
` and ` into features, each of which bounds the width on one side, and a width is admitted exactly if
all of them admit it.  A text with a part of any other kind admits no width.  The at-rule of a text
admits the widths of the text.
-/

namespace UtilityCss

variable {text part separator number rest : Text} {c : Char} {side : BoundSide} {limit : Binary64}
  {bound : WidthBound}

namespace Text

theorem splitFirstText_eq_some {before after : Text}
    (hsplit : splitFirstText separator text = some (before, after)) :
    text = before ++ separator ++ after := by
  induction text generalizing before with
  | nil => cases hsplit
  | cons first rest ih =>
      rw [splitFirstText] at hsplit
      split at hsplit
      · rename_i behind hbehind
        cases hsplit
        rw [List.nil_append]
        exact after?_eq_some_iff.mp hbehind
      · obtain ⟨⟨front, behind⟩, hrest, heq⟩ := Option.map_eq_some_iff.mp hsplit
        cases heq
        rw [ih hrest, List.cons_append, List.cons_append]

theorem splitOnText_nil (separator : Text) : splitOnText separator [] = [[]] := by
  unfold splitOnText
  split <;> rfl

/-- A character that the separator lacks is left in one of the parts. -/
theorem exists_mem_splitOnText (hc : c ∈ text) (hseparator : c ∉ separator) :
    ∃ part ∈ splitOnText separator text, c ∈ part := by
  fun_induction splitOnText separator text with
  | case1 text hempty => exact ⟨text, List.mem_singleton_self text, hc⟩
  | case2 text hempty hnone => exact ⟨text, List.mem_singleton_self text, hc⟩
  | case3 text hempty before after hsplit hlength ih =>
      rw [splitFirstText_eq_some hsplit, List.mem_append, List.mem_append] at hc
      rcases hc with (hbefore | hmark) | hafter
      · exact ⟨before, List.mem_cons_self, hbefore⟩
      · exact absurd hmark hseparator
      · obtain ⟨part, hpart, hmem⟩ := ih hafter
        exact ⟨part, List.mem_cons_of_mem before hpart, hmem⟩

end Text

/-- The name of the feature that bounds a width on one side. -/
def BoundSide.featureName : BoundSide → Text
  | .atLeast => "min-width".toList
  | .atMost => "max-width".toList

/-- A number in decimal notation, with what it stands for. -/
inductive IsPlainDecimal : Text → Binary64 → Prop
  | whole {digits : Text} (hdigits : isDigits digits = true) :
      IsPlainDecimal digits (.ofDecimal false (digitsValue digits) 0)
  | pointed {whole fraction : Text} (hwhole : isDigits whole = true)
      (hfraction : isDigits fraction = true) :
      IsPlainDecimal (whole ++ '.' :: fraction)
        (.ofDecimal false (digitsValue (whole ++ fraction)) (-(fraction.length : Int)))

/-- A width feature such as `(min-width: 641px)` with its bound.  White space may stand around the
name and the value. -/
inductive IsWidthFeature : Text → WidthBound → Prop
  | mk {front behind gap back number : Text} {limit : Binary64} (side : BoundSide)
      (hfront : front.IsBlank) (hbehind : behind.IsBlank) (hgap : gap.IsBlank)
      (hback : back.IsBlank) (hnumber : IsPlainDecimal number limit) :
      IsWidthFeature
        ('(' :: (front ++ (side.featureName ++ (behind ++ ':' :: (gap ++ (number ++
          ("px".toList ++ (back ++ [')'])))))))) ⟨side, limit⟩

namespace IsPlainDecimal

theorem of_readPlainDecimal (hread : readPlainDecimal text = some (limit, rest)) :
    ∃ number, IsPlainDecimal number limit ∧ text = number ++ rest := by
  unfold readPlainDecimal at hread
  split at hread
  · cases hread
  · rename_i whole behind hwhole hspan
    obtain ⟨hwhole, rfl⟩ := eq_append_of_spanDigits hspan hwhole
    split at hread
    · rename_i tail
      split at hread
      · cases hread
        exact ⟨whole, .whole hwhole, rfl⟩
      · rename_i fraction after hfraction hspan
        obtain ⟨hfraction, rfl⟩ := eq_append_of_spanDigits hspan hfraction
        cases hread
        refine ⟨whole ++ '.' :: fraction, .pointed hwhole hfraction, ?_⟩
        rw [List.append_assoc, List.cons_append]
    · cases hread
      exact ⟨whole, .whole hwhole, rfl⟩

/-- A number is read to its end where nothing follows that could belong to it. -/
theorem readPlainDecimal_append (hnumber : IsPlainDecimal number limit)
    (hrest : ∀ c ∈ rest.head?, c.isDigit = false ∧ c ≠ '.') :
    readPlainDecimal (number ++ rest) = some (limit, rest) := by
  have hend : ∀ c ∈ rest.head?, c.isDigit = false := fun c hc => (hrest c hc).1
  cases hnumber with
  | whole hdigits =>
      obtain ⟨first, others, rfl⟩ := List.exists_cons_of_ne_nil (isDigits_iff.mp hdigits).1
      rw [readPlainDecimal, spanDigits_of_isDigits hdigits hend]
      dsimp only
      split
      · exact absurd rfl (hrest '.' rfl).2
      · rfl
  | @pointed whole fraction hwhole hfraction =>
      obtain ⟨first, others, rfl⟩ := List.exists_cons_of_ne_nil (isDigits_iff.mp hwhole).1
      obtain ⟨second, more, rfl⟩ := List.exists_cons_of_ne_nil (isDigits_iff.mp hfraction).1
      have hpoint : ∀ c ∈ ('.' :: (second :: more ++ rest)).head?, c.isDigit = false := by
        rintro c ⟨rfl⟩
        decide
      have htext : first :: others ++ '.' :: second :: more ++ rest =
          first :: others ++ '.' :: (second :: more ++ rest) := by
        rw [List.append_assoc]
        rfl
      rw [htext, readPlainDecimal, spanDigits_of_isDigits hwhole hpoint]
      simp only [spanDigits_of_isDigits hfraction hend]

/-- A number begins with a digit. -/
theorem head?_eq (hnumber : IsPlainDecimal number limit) :
    ∃ c, number.head? = some c ∧ c.isDigit = true := by
  cases hnumber with
  | whole hdigits =>
      obtain ⟨hne, hall⟩ := isDigits_iff.mp hdigits
      exact ⟨_, List.head?_eq_some_head hne, hall _ (List.head_mem hne)⟩
  | pointed hwhole _ =>
      obtain ⟨hne, hall⟩ := isDigits_iff.mp hwhole
      rw [List.head?_append_of_ne_nil _ hne]
      exact ⟨_, List.head?_eq_some_head hne, hall _ (List.head_mem hne)⟩

/-- A number has no comma. -/
theorem comma_notMem (hnumber : IsPlainDecimal number limit) : ',' ∉ number := by
  have hcomma : Char.isDigit ',' = false := by decide
  cases hnumber with
  | whole hwhole => exact notMem_of_isDigits hwhole hcomma
  | pointed hwhole hfraction =>
      rw [List.mem_append, List.mem_cons, not_or, not_or]
      exact ⟨notMem_of_isDigits hwhole hcomma, by decide, notMem_of_isDigits hfraction hcomma⟩

end IsPlainDecimal

theorem readFeatureName_eq_some_iff :
    readFeatureName text = some (side, rest) ↔ text = side.featureName ++ rest := by
  unfold readFeatureName
  constructor
  · intro hread
    split at hread
    · rename_i behind hbehind
      cases hread
      exact Text.after?_eq_some_iff.mp hbehind
    · obtain ⟨behind, hbehind, heq⟩ := Option.map_eq_some_iff.mp hread
      cases heq
      exact Text.after?_eq_some_iff.mp hbehind
  · rintro rfl
    cases side <;> rfl

namespace IsWidthFeature

variable {feature : Text}

theorem of_readFeature (hread : readFeature feature = some bound) :
    IsWidthFeature feature bound := by
  simp only [readFeature, bind, Option.bind_eq_some_iff, Text.after?_eq_some_iff] at hread
  obtain ⟨inside, rfl, ⟨side, named⟩, hname, valued, hcolon, ⟨limit, unit⟩, hnumber, ended, hunit,
    hend⟩ := hread
  split at hend
  · rename_i hparen
    cases hend
    obtain ⟨front, hfront, hinside⟩ := Text.exists_blanks_append_trimStart inside
    obtain ⟨behind, hbehind, hnamed⟩ := Text.exists_blanks_append_trimStart named
    obtain ⟨gap, hgap, hvalued⟩ := Text.exists_blanks_append_trimStart valued
    obtain ⟨back, hback, hended⟩ := Text.exists_blanks_append_trimStart ended
    obtain ⟨number, hdecimal, htext⟩ := IsPlainDecimal.of_readPlainDecimal hnumber
    dsimp only at hcolon hunit ⊢
    rw [hinside, readFeatureName_eq_some_iff.mp hname, hnamed, hcolon, hvalued, htext, hunit,
      hended, hparen]
    exact .mk side hfront hbehind hgap hback hdecimal
  · cases hend

/-- The steps of reading a feature, put together. -/
theorem readFeature_of_steps {inside named valued unit ended : Text}
    (hinside : feature = ['('] ++ inside)
    (hname : inside.trimStart = side.featureName ++ named)
    (hcolon : named.trimStart = [':'] ++ valued)
    (hnumber : readPlainDecimal valued.trimStart = some (limit, unit))
    (hunit : unit = "px".toList ++ ended) (hend : ended.trimStart = [')']) :
    readFeature feature = some ⟨side, limit⟩ := by
  simp only [readFeature, Option.bind_eq_bind, Option.bind_some,
    Text.after?_eq_some_iff.mpr hinside, readFeatureName_eq_some_iff.mpr hname,
    Text.after?_eq_some_iff.mpr hcolon, hnumber, Text.after?_eq_some_iff.mpr hunit, if_pos hend]

theorem readFeature_eq (hfeature : IsWidthFeature feature bound) :
    readFeature feature = some bound := by
  obtain ⟨side, hfront, hbehind, hgap, hback, hnumber⟩ := hfeature
  rename_i front behind gap back number limit
  have hname : ∀ rest : Text, ∀ c ∈ (side.featureName ++ rest).head?, isBlank c = false := by
    rintro rest c hc
    cases side <;> cases hc <;> decide
  have hdigit : ∀ rest : Text, ∀ c ∈ (number ++ rest).head?, isBlank c = false := by
    obtain ⟨first, hhead, hfirst⟩ := hnumber.head?_eq
    intro rest c hc
    rw [List.head?_append, hhead, Option.some_or, Option.mem_some_iff] at hc
    exact hc ▸ isBlank_eq_false_of_isDigit hfirst
  have hmark : ∀ (mark : Char) (rest : Text), isBlank mark = false →
      ∀ c ∈ (mark :: rest).head?, isBlank c = false := by
    rintro mark rest hblank c ⟨rfl⟩
    exact hblank
  have hunit : ∀ c ∈ ("px".toList ++ (back ++ [')'])).head?, c.isDigit = false ∧ c ≠ '.' := by
    rintro c hc
    cases hc
    decide
  have hread : readPlainDecimal
      (Text.trimStart (gap ++ (number ++ ("px".toList ++ (back ++ [')']))))) =
        some (limit, "px".toList ++ (back ++ [')'])) := by
    rw [hgap.trimStart_append_eq (hdigit _)]
    exact hnumber.readPlainDecimal_append hunit
  exact readFeature_of_steps rfl (hfront.trimStart_append_eq (hname _))
    (hbehind.trimStart_append_eq (hmark ':' _ (by decide))) hread rfl
    (hback.trimStart_append_eq (hmark ')' _ (by decide)))

theorem comma_notMem (hfeature : IsWidthFeature feature bound) : ',' ∉ feature := by
  obtain ⟨side, hfront, hbehind, hgap, hback, hnumber⟩ := hfeature
  have hblank : ∀ {blanks : Text}, blanks.IsBlank → ',' ∉ blanks := fun hblanks hmem =>
    absurd (hblanks ',' hmem) (by decide)
  have hname : ',' ∉ side.featureName := by cases side <;> decide
  simp only [List.mem_cons, List.mem_append, not_or]
  refine ⟨by decide, hblank hfront, hname, hblank hbehind, by decide, hblank hgap,
    hnumber.comma_notMem, by decide, hblank hback, by decide, by simp⟩

theorem ne_nil (hfeature : IsWidthFeature feature bound) : feature ≠ [] := by
  obtain ⟨⟩ := hfeature
  exact List.cons_ne_nil _ _

end IsWidthFeature

theorem readFeature_eq_some_iff {feature : Text} :
    readFeature feature = some bound ↔ IsWidthFeature feature bound :=
  ⟨.of_readFeature, IsWidthFeature.readFeature_eq⟩

/-- The parts of a media text that state its features. -/
def mediaFeatures (media : Text) : List Text :=
  (Text.splitOnText " and ".toList (mediaQuery media)).map Text.trim

/-- Reading every entry and testing them all is testing each entry that is read. -/
theorem any_all_mapM {α β : Type} (read : α → Option β) (test : β → Bool) (entries : List α) :
    (entries.mapM read).any (fun values => values.all test) =
      entries.all fun entry => (read entry).any test := by
  induction entries with
  | nil => rfl
  | cons entry rest ih =>
      rw [List.mapM_cons, List.all_cons, ← ih]
      cases read entry with
      | none => rfl
      | some value =>
          cases rest.mapM read with
          | none => simp
          | some values => simp

/-- A text with a comma has a part that is no feature. -/
theorem exists_not_feature_of_comma {media : Text} (hcomma : ',' ∈ mediaQuery media) :
    ∃ feature ∈ mediaFeatures media, ∀ bound, ¬ IsWidthFeature feature bound := by
  obtain ⟨part, hpart, hmem⟩ := Text.exists_mem_splitOnText hcomma
    (show ',' ∉ " and ".toList by decide)
  refine ⟨part.trim, List.mem_map_of_mem hpart, fun bound hfeature => ?_⟩
  exact hfeature.comma_notMem (Text.mem_trim hmem (by decide))

theorem matchesWidth_eq_any (media : Text) (width : Binary64) :
    matchesWidth media width =
      (widthBounds? media).any fun bounds => bounds.all fun bound => bound.admits width := by
  unfold matchesWidth
  cases widthBounds? media <;> rfl

/-- A width is admitted exactly if every part of the text is a feature that admits it. -/
theorem matchesWidth_iff_forall_feature (media : Text) (width : Binary64) :
    matchesWidth media width = true ↔
      ∀ feature ∈ mediaFeatures media,
        ∃ bound, IsWidthFeature feature bound ∧ bound.admits width = true := by
  have hread : ((mediaFeatures media).all fun feature =>
      (readFeature feature).any fun bound => bound.admits width) = true ↔
        ∀ feature ∈ mediaFeatures media,
          ∃ bound, IsWidthFeature feature bound ∧ bound.admits width = true := by
    simp only [List.all_eq_true, Option.any_eq_true, readFeature_eq_some_iff]
  rw [matchesWidth_eq_any, widthBounds?]
  split
  · rename_i hquery
    refine iff_of_false Bool.false_ne_true fun hall => ?_
    rcases Bool.or_eq_true_iff.mp hquery with hempty | hcomma
    · have hfeature : [] ∈ mediaFeatures media := by
        rw [mediaFeatures, List.isEmpty_iff.mp hempty, Text.splitOnText_nil]
        exact List.mem_singleton_self _
      obtain ⟨bound, hbound, -⟩ := hall [] hfeature
      exact hbound.ne_nil rfl
    · obtain ⟨feature, hfeature, hnone⟩ :=
        exists_not_feature_of_comma (List.contains_iff_mem.mp hcomma)
      obtain ⟨bound, hbound, -⟩ := hall feature hfeature
      exact hnone bound hbound
  · rw [any_all_mapM, ← hread, mediaFeatures, List.all_map]
    rfl

/-- The at-rule of a media text has the query of the text. -/
theorem mediaQuery_mediaRule (media : Text) : mediaQuery (mediaRule media) = mediaQuery media := by
  unfold mediaRule
  split
  · rw [mediaQuery, mediaQuery, Text.trim_trim]
  · rename_i hstart
    have hplain : Text.after? "@media".toList media.trim = none := by
      refine Option.eq_none_iff_forall_ne_some.mpr fun rest hafter => ?_
      have hhead := media.head?_trim_eq
      rw [Text.after?_eq_some_iff.mp hafter] at hhead
      obtain ⟨behind, hbehind⟩ := List.head?_eq_some_iff.mp hhead.symm
      exact hstart behind hbehind
    have hright : mediaQuery media = media.trim := by
      rw [mediaQuery, hplain, Option.getD_none, Text.trim_trim]
    rw [hright]
    by_cases hempty : media.trim = []
    · rw [hempty]
      decide
    · have hrule : Text.trim ("@media ".toList ++ media.trim) = "@media ".toList ++ media.trim := by
        rw [Text.trim, Text.trimStart_eq_self (by rintro c ⟨rfl⟩; decide),
          Text.trimEnd_append _ (by rwa [Text.trimEnd_trim]), Text.trimEnd_trim]
      have hname : Text.after? "@media".toList ("@media ".toList ++ media.trim) =
          some (' ' :: media.trim) := Text.after?_eq_some_iff.mpr rfl
      have hspace : Text.IsBlank [' '] := List.forall_mem_singleton.mpr rfl
      rw [mediaQuery, hrule, hname, Option.getD_some]
      exact (hspace.trim_append media.trim).trans media.trim_trim

/-- The widths that a media text admits have no gap.  They are those that every part of the text
admits as a width feature, so that a part of any other kind leaves none, and the at-rule of the text
admits the same ones. -/
theorem matchesWidth_of_media (media : Text) :
    (∀ low width high : Binary64, matchesWidth media low = true → matchesWidth media high = true →
      low.le width = true → width.le high = true → matchesWidth media width = true) ∧
    (∀ width, matchesWidth media width = true ↔ ∀ feature ∈ mediaFeatures media,
      ∃ bound, IsWidthFeature feature bound ∧ bound.admits width = true) ∧
    ∀ width, matchesWidth (mediaRule media) width = matchesWidth media width := by
  refine ⟨fun low width high hlow hhigh hlw hwh => ?_, matchesWidth_iff_forall_feature media,
    fun width => ?_⟩
  · rw [matchesWidth_iff_forall_feature] at hlow hhigh ⊢
    intro feature hfeature
    obtain ⟨bound, hbound, hadmitsLow⟩ := hlow feature hfeature
    obtain ⟨other, hother, hadmitsHigh⟩ := hhigh feature hfeature
    -- A feature has one bound, so both widths are on the same side of the same limit.
    obtain rfl : bound = other :=
      Option.some.inj (hbound.readFeature_eq.symm.trans hother.readFeature_eq)
    exact ⟨bound, hbound, WidthBound.admits_between hadmitsLow hadmitsHigh hlw hwh⟩
  · have hsame : widthBounds? (mediaRule media) = widthBounds? media := by
      rw [widthBounds?, widthBounds?, mediaQuery_mediaRule]
    rw [matchesWidth_eq_any, matchesWidth_eq_any, hsame]

/-- Between both ends of the medium viewports, as text and as at-rule, and just below them. -/
theorem matchesWidth_of_media_medium :
    let media := "(min-width: 641px) and (max-width: 1024px)".toList
    matchesWidth media (.ofNat 641) = true ∧ matchesWidth media (.ofNat 1024) = true ∧
      (Binary64.ofNat 641).le (.ofNat 800) = true ∧ (Binary64.ofNat 800).le (.ofNat 1024) = true ∧
      matchesWidth media (.ofNat 800) = true ∧ matchesWidth (mediaRule media) (.ofNat 800) = true ∧
      matchesWidth media (.ofNat 640) = false := by
  intro media
  obtain ⟨hbetween, -, hrule⟩ := matchesWidth_of_media media
  have hlow : matchesWidth media (.ofNat 641) = true := by decide +kernel
  have hhigh : matchesWidth media (.ofNat 1024) = true := by decide +kernel
  have habove : (Binary64.ofNat 641).le (.ofNat 800) = true := by decide +kernel
  have hbelow : (Binary64.ofNat 800).le (.ofNat 1024) = true := by decide +kernel
  have hmiddle := hbetween (.ofNat 641) (.ofNat 800) (.ofNat 1024) hlow hhigh habove hbelow
  exact ⟨hlow, hhigh, habove, hbelow, hmiddle, (hrule _).trans hmiddle, by decide +kernel⟩

end UtilityCss
