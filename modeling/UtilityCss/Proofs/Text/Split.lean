import UtilityCss.Text

/-!
Texts cut into parts: what the parts hold, and what becomes of them when texts are joined.
-/

namespace UtilityCss.Text

variable {text before after part separator ending : Text} {mark c : Char}

/-- A front and a character stand in front of any ending that lacks the character. -/
theorem exists_eq_append_cons (hends : before ++ c :: after = text ++ ending)
    (hc : c ∉ ending) : ∃ inner, text = before ++ c :: inner := by
  rcases List.append_eq_append_iff.mp hends with ⟨inner, htext, hback⟩ | ⟨inner, -, hending⟩
  · cases inner with
    | nil =>
        rw [List.nil_append] at hback
        exact absurd (hback ▸ List.mem_cons_self) hc
    | cons head inner =>
        obtain ⟨rfl, -⟩ := List.cons.inj hback
        exact ⟨inner, htext⟩
  · exact absurd (hending ▸ List.mem_append_right inner List.mem_cons_self) hc

/-- A front and a character stand in front of any other character that the front lacks. -/
theorem exists_eq_append_cons_of_ne (heq : before ++ c :: after = text ++ mark :: ending)
    (hmark : mark ∉ before) (hne : c ≠ mark) :
    ∃ inner, text = before ++ c :: inner := by
  rcases List.append_eq_append_iff.mp heq with ⟨inner, htext, hback⟩ | ⟨inner, hfront, hending⟩
  · cases inner with
    | nil => exact absurd (List.cons.inj hback).1 hne
    | cons head inner =>
        obtain ⟨rfl, -⟩ := List.cons.inj hback
        exact ⟨inner, htext⟩
  · cases inner with
    | nil => exact absurd (List.cons.inj hending).1.symm hne
    | cons head inner =>
        obtain ⟨rfl, -⟩ := List.cons.inj hending
        rw [hfront, List.mem_append, not_or] at hmark
        exact absurd List.mem_cons_self hmark.2

theorem splitFirst_append_cons (hmark : mark ∉ before) (after : Text) :
    splitFirst mark (before ++ mark :: after) = some (before, after) := by
  induction before with
  | nil => rw [List.nil_append, splitFirst, if_pos rfl]
  | cons c rest ih =>
      rw [List.mem_cons, not_or] at hmark
      rw [List.cons_append, splitFirst, if_neg (Ne.symm hmark.1), ih hmark.2]
      rfl

/-- A text that goes on is cut where it was. -/
theorem splitFirst_append (hsplit : splitFirst mark text = some (before, after)) (more : Text) :
    splitFirst mark (text ++ more) = some (before, after ++ more) := by
  obtain ⟨rfl, hmark⟩ := splitFirst_eq_some hsplit
  rw [List.append_assoc, List.cons_append]
  exact splitFirst_append_cons hmark (after ++ more)

/-- The first mark of a text does not stand behind any other. -/
theorem subset_of_splitFirst {front rest : Text}
    (hsplit : splitFirst mark (front ++ mark :: rest) = some (before, after)) : before ⊆ front := by
  cases hfront : splitFirst mark front with
  | none =>
      rw [splitFirst_append_cons (splitFirst_eq_none_iff.mp hfront)] at hsplit
      cases hsplit
      exact List.Subset.refl _
  | some cut =>
      rw [splitFirst_append hfront] at hsplit
      cases hsplit
      rw [(splitFirst_eq_some hfront).1]
      exact List.subset_append_left _ _

/-- Where the separator does not begin, the first cut is the one of the rest. -/
theorem splitFirstText_cons_of_after?_eq_none {rest : Text}
    (hafter : after? separator (c :: rest) = none) :
    splitFirstText separator (c :: rest) =
      (splitFirstText separator rest).map fun (before, after) => (c :: before, after) := by
  rw [splitFirstText, hafter]

/-- A doubled character does not begin in a text without it, whatever follows. -/
theorem splitFirstText_doubled_append {front : Text} (hfront : mark ∉ front)
    (ending : Text) :
    splitFirstText [mark, mark] (front ++ ending) =
      (splitFirstText [mark, mark] ending).map fun (before, after) => (front ++ before, after) := by
  induction front with
  | nil => exact (congrFun Option.map_id _).symm
  | cons c rest ih =>
      rw [List.mem_cons, not_or] at hfront
      have hafter : after? [mark, mark] (c :: (rest ++ ending)) = none := by
        rw [after?, if_neg hfront.1]
      rw [List.cons_append, splitFirstText_cons_of_after?_eq_none hafter, ih hfront.2,
        Option.map_map]
      rfl

theorem splitLast_eq_some (hsplit : splitLast mark text = some (before, after)) :
    text = before ++ mark :: after := by
  induction text generalizing before with
  | nil => cases hsplit
  | cons first rest ih =>
      rw [splitLast] at hsplit
      cases hrest : splitLast mark rest with
      | some cut =>
          obtain ⟨front, behind⟩ := cut
          simp only [hrest, Option.some.injEq, Prod.mk.injEq] at hsplit
          obtain ⟨rfl, rfl⟩ := hsplit
          rw [ih hrest, List.cons_append]
      | none =>
          simp only [hrest] at hsplit
          split at hsplit
          · rename_i hfirst
            cases hsplit
            rw [hfirst, List.nil_append]
          · cases hsplit

theorem splitLast_eq_none (hmark : mark ∉ text) : splitLast mark text = none := by
  refine Option.eq_none_iff_forall_ne_some.mpr fun cut hcut => hmark ?_
  rw [splitLast_eq_some hcut]
  exact List.mem_append_right _ List.mem_cons_self

theorem eq_append_of_mem_cuts (hcut : (before, after) ∈ cuts mark text) :
    text = before ++ mark :: after := by
  induction text generalizing before with
  | nil => cases hcut
  | cons first rest ih =>
      have hlater : (before, after) ∈ (cuts mark rest).map (fun cut => (first :: cut.1, cut.2)) →
          first :: rest = before ++ mark :: after := by
        intro hmem
        obtain ⟨⟨front, behind⟩, hrest, heq⟩ := List.mem_map.mp hmem
        simp only [Prod.mk.injEq] at heq
        obtain ⟨rfl, rfl⟩ := heq
        rw [ih hrest, List.cons_append]
      rw [cuts] at hcut
      dsimp only at hcut
      split at hcut
      · rename_i hfirst
        rcases List.mem_cons.mp hcut with heq | hmem
        · cases heq
          rw [hfirst, List.nil_append]
        · exact hlater hmem
      · exact hlater hcut

theorem before?_eq_none_iff : before? separator text = none ↔ ∀ rest, text ≠ rest ++ separator := by
  simp only [Option.eq_none_iff_forall_ne_some, ne_eq, before?_eq_some_iff]

theorem forall_mem_splitOnP {isMark : Char → Bool} :
    ∀ part ∈ text.splitOnP isMark, ∀ c ∈ part, isMark c = false := by
  induction text with
  | nil =>
      intro part hpart c hc
      rw [List.splitOnP_nil, List.mem_singleton] at hpart
      subst hpart
      cases hc
  | cons head rest ih =>
      intro part hpart c hc
      rw [List.splitOnP_cons_eq_if_modifyHead] at hpart
      split at hpart
      · rcases List.mem_cons.mp hpart with rfl | hrest
        · cases hc
        · exact ih part hrest c hc
      · rename_i hhead
        obtain ⟨first, others, hparts⟩ :=
          List.exists_cons_of_ne_nil (List.splitOnP_ne_nil isMark rest)
        rw [hparts, List.modifyHead_cons] at hpart
        rw [hparts] at ih
        rcases List.mem_cons.mp hpart with rfl | hothers
        · rcases List.mem_cons.mp hc with rfl | hfirst
          · exact Bool.not_eq_true _ ▸ hhead
          · exact ih first List.mem_cons_self c hfirst
        · exact ih part (List.mem_cons_of_mem first hothers) c hc

/-- Every character of a part is one of the text. -/
theorem mem_of_mem_splitOnP {isMark : Char → Bool} (hpart : part ∈ text.splitOnP isMark)
    (hc : c ∈ part) : c ∈ text := by
  induction text generalizing part with
  | nil =>
      rw [List.splitOnP_nil, List.mem_singleton] at hpart
      exact hpart ▸ hc
  | cons head rest ih =>
      rw [List.splitOnP_cons_eq_if_modifyHead] at hpart
      obtain ⟨first, others, hparts⟩ :=
        List.exists_cons_of_ne_nil (List.splitOnP_ne_nil isMark rest)
      rw [hparts] at hpart ih
      split at hpart
      · rcases List.mem_cons.mp hpart with rfl | hrest
        · cases hc
        · exact List.mem_cons_of_mem head (ih hrest hc)
      · rw [List.modifyHead_cons] at hpart
        rcases List.mem_cons.mp hpart with rfl | hothers
        · rcases List.mem_cons.mp hc with rfl | hfirst
          · exact List.mem_cons_self
          · exact List.mem_cons_of_mem head (ih List.mem_cons_self hfirst)
        · exact List.mem_cons_of_mem head (ih (List.mem_cons_of_mem first hothers) hc)

theorem notMem_of_mem_splitOn (hpart : part ∈ text.splitOn mark) : mark ∉ part := fun hmem => by
  rw [List.splitOn_eq_splitOnP] at hpart
  simpa using forall_mem_splitOnP part hpart mark hmem

/-- The first of several parts stands in front of the first mark. -/
theorem exists_of_splitOn_cons_cons {next : Text} {rest : List Text}
    (hsplit : text.splitOn mark = part :: next :: rest) :
    mark ∉ part ∧ ∃ behind, text = part ++ mark :: behind := by
  refine ⟨notMem_of_mem_splitOn (hsplit ▸ List.mem_cons_self), [mark].intercalate (next :: rest), ?_⟩
  rw [← @List.intercalate_splitOn _ text _ _ mark, hsplit, List.intercalate_cons_cons,
    List.append_assoc, List.singleton_append]

/-- The last part of one text and the first part of the next grow together. -/
theorem exists_splitOn_append (mark : Char) (text more : Text) :
    ∃ parts last first others, text.splitOn mark = parts ++ [last] ∧
      more.splitOn mark = first :: others ∧
      (text ++ more).splitOn mark = parts ++ (last ++ first) :: others := by
  obtain ⟨first, others, hmore⟩ := List.exists_cons_of_ne_nil (List.splitOn_ne_nil mark more)
  suffices hparts : ∃ parts last, text.splitOn mark = parts ++ [last] ∧
      (text ++ more).splitOn mark = parts ++ (last ++ first) :: others by
    obtain ⟨parts, last, htext, hjoined⟩ := hparts
    exact ⟨parts, last, first, others, htext, hmore, hjoined⟩
  induction text with
  | nil => exact ⟨[], [], rfl, hmore⟩
  | cons head rest ih =>
      obtain ⟨parts, last, hrest, hjoined⟩ := ih
      rw [List.cons_append, List.splitOn_cons_eq_if_modifyHead,
        List.splitOn_cons_eq_if_modifyHead, hrest, hjoined]
      split
      · exact ⟨[] :: parts, last, rfl, rfl⟩
      · cases parts with
        | nil => exact ⟨[], head :: last, rfl, rfl⟩
        | cons part others => exact ⟨(head :: part) :: others, last, rfl, rfl⟩

/-- Parts that end a list, joined, end the joined list. -/
theorem intercalate_suffix {rest parts : List Text} (hrest : rest <:+ parts) :
    separator.intercalate rest <:+ separator.intercalate parts := by
  induction parts with
  | nil =>
      obtain rfl := List.suffix_nil.mp hrest
      exact List.suffix_refl _
  | cons part others ih =>
      rcases List.suffix_cons_iff.mp hrest with rfl | hlater
      · exact List.suffix_refl _
      · refine (ih hlater).trans ?_
        cases others with
        | nil => exact List.nil_suffix
        | cons next more =>
            rw [List.intercalate_cons_cons]
            exact List.suffix_append _ _

end UtilityCss.Text
