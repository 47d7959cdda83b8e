import UtilityCss.Proofs.Text.Split
import UtilityCss.Token.Shorthand

/-!
The utility that a shorthand repeats.  It is read off the first value as the shortest known utility
that the value begins with, so a utility whose name begins with another one, as `gap-x` with `gap`,
gives way to the shorter one.
-/

namespace UtilityCss

namespace Text

variable {mark : Char} {text front rest : Text}

theorem cuts_eq_nil (htext : mark ∉ text) : cuts mark text = [] := by
  induction text with
  | nil => rfl
  | cons head tail ih =>
      rw [List.mem_cons, not_or] at htext
      rw [cuts, if_neg (Ne.symm htext.1), ih htext.2]
      rfl

/-- The cuts of a text that goes on behind a mark: those of its front, and one at that mark. -/
theorem cuts_append_cons (hrest : mark ∉ rest) :
    cuts mark (front ++ mark :: rest) =
      (cuts mark front).map (fun cut => (cut.1, cut.2 ++ mark :: rest)) ++ [(front, rest)] := by
  induction front with
  | nil => simp [cuts, cuts_eq_nil hrest]
  | cons head tail ih =>
      by_cases hhead : head = mark
      · simp [cuts, ih, hhead]
      · simp [cuts, ih, hhead]

end Text

variable {tables : Tables} {name value : Text}

/-- The name of a utility: a small letter, then small letters, digits and dashes. -/
def isUtilityName : Text → Bool
  | first :: rest => first.isLower && rest.all fun c => c.isLower || c.isDigit || c = '-'
  | [] => false

theorem forall_mem_of_isUtilityName (hname : isUtilityName name = true) :
    ∀ c ∈ name, (c.isLower || c.isDigit || c = '-') = true := by
  cases name with
  | nil => cases hname
  | cons first rest =>
      rw [isUtilityName, Bool.and_eq_true, List.all_eq_true] at hname
      intro c hc
      rcases List.mem_cons.mp hc with rfl | hrest
      · simp [hname.1]
      · exact hname.2 c hrest

/-- The name of a utility has no sign. -/
theorem after?_of_isUtilityName (hname : isUtilityName name = true) (more : Text) :
    Text.after? ['-'] (name ++ more) = none := by
  cases name with
  | nil => cases hname
  | cons first rest =>
      have hfirst : first ≠ '-' := by
        rintro rfl
        cases hname
      rw [List.cons_append, Text.after?, if_neg (Ne.symm hfirst)]

/-- The shortest known utility that a name begins with up to a dash, else the name itself. -/
def shortestUtility (tables : Tables) (name : Text) : Text :=
  (((Text.cuts '-' name).find? fun cut => tables.properties.contains cut.1).map Prod.fst).getD name

theorem shortestUtility_eq_or (tables : Tables) (name : Text) :
    shortestUtility tables name = name ∨
      ∃ rest, name = shortestUtility tables name ++ '-' :: rest := by
  unfold shortestUtility
  cases hcut : (Text.cuts '-' name).find? fun cut => tables.properties.contains cut.1 with
  | none => exact Or.inl rfl
  | some cut => exact Or.inr ⟨cut.2, Text.eq_append_of_mem_cuts (List.mem_of_find?_eq_some hcut)⟩

/-- A name that begins with no other known utility is its own stem. -/
theorem shortestUtility_eq_self
    (hnone : ∀ shorter rest, name = shorter ++ '-' :: rest → shorter ∉ tables.properties.keys) :
    shortestUtility tables name = name := by
  have hcuts : (Text.cuts '-' name).find? (fun cut => tables.properties.contains cut.1) = none := by
    rw [List.find?_eq_none]
    intro cut hcut
    rw [OrderedMap.contains_iff]
    exact hnone cut.1 cut.2 (Text.eq_append_of_mem_cuts hcut)
  rw [shortestUtility, hcuts]
  rfl

/-- Without a dash there is no utility to repeat. -/
theorem utilityStem?_eq_none (hvalue : '-' ∉ value) : utilityStem? tables value = none := by
  have hsign : Text.after? ['-'] value = none := by
    refine Option.eq_none_iff_forall_ne_some.mpr fun rest hafter => hvalue ?_
    rw [Text.after?_eq_some_iff.mp hafter]
    exact List.mem_cons_self
  rw [utilityStem?, hsign]
  dsimp only
  rw [Text.cuts_eq_nil hvalue, Text.splitLast_eq_none hvalue]
  rfl

/-- The stem of a known utility with a value. -/
theorem utilityStem?_append (hname : isUtilityName name = true)
    (hknown : name ∈ tables.properties.keys) (hvalue : '-' ∉ value) :
    utilityStem? tables (name ++ '-' :: value) = some (shortestUtility tables name) := by
  have hlast : tables.properties.contains name = true := OrderedMap.contains_iff.mpr hknown
  rw [utilityStem?, after?_of_isUtilityName hname, shortestUtility]
  dsimp only
  rw [Text.cuts_append_cons hvalue, List.find?_append, List.find?_map]
  simp only [Function.comp_def]
  cases (Text.cuts '-' name).find? fun cut => tables.properties.contains cut.1 with
  | none => simp [hlast]
  | some cut => rfl

/-- The first value begins with its own stem already. -/
theorem withStem_shortestUtility (tables : Tables) (name value : Text) :
    withStem (some (shortestUtility tables name)) (name ++ '-' :: value) =
      name ++ '-' :: value := by
  have hprefix : shortestUtility tables name ++ ['-'] <+: name ++ '-' :: value := by
    rcases shortestUtility_eq_or tables name with hself | ⟨rest, hname⟩
    · exact ⟨value, by rw [hself, List.append_assoc, List.singleton_append]⟩
    · refine ⟨rest ++ '-' :: value, ?_⟩
      calc shortestUtility tables name ++ ['-'] ++ (rest ++ '-' :: value)
          = (shortestUtility tables name ++ '-' :: rest) ++ '-' :: value := by simp
        _ = name ++ '-' :: value := by rw [← hname]
  rw [withStem]
  exact if_pos (List.isPrefixOf_iff_prefix.mpr hprefix)

/-- A value without a dash gets the stem in front. -/
theorem withStem_of_dash_notMem (stem : Text) (hvalue : '-' ∉ value) :
    withStem (some stem) value = stem ++ '-' :: value := by
  have hprefix : ¬ (stem ++ ['-']).isPrefixOf value = true := by
    rw [List.isPrefixOf_iff_prefix]
    exact fun hstart => hvalue (hstart.subset (List.mem_append_right stem List.mem_cons_self))
  rw [withStem, if_neg hprefix, List.append_assoc, List.singleton_append]

end UtilityCss
