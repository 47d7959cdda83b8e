import UtilityCss.Proofs.Page.LastClaim

/-!
An element at a width.  Its conditions only depend on the width it has, its inline style on the one
before as well: a condition that begins writes over everyone else, whereas a property that is handed
back goes to the last claimant in attribute order.
-/

namespace UtilityCss

theorem WidthBound.admits_nan (bound : WidthBound) : bound.admits .nan = false := by
  unfold admits
  split
  · exact Binary64.le_nan_right bound.limit
  · exact Binary64.le_nan_left bound.limit

/-- A condition at a width, whatever it was before. -/
def Condition.standing (payloadStyle : Text → InlineStyle) (width : Binary64)
    (condition : Condition) : Condition :=
  if condition.token.bound.admits width then
    condition.begun (payloadStyle condition.token.payload)
  else condition.ended

theorem Condition.token_standing (payloadStyle : Text → InlineStyle) (width : Binary64)
    (condition : Condition) : (condition.standing payloadStyle width).token = condition.token := by
  unfold standing
  split <;> rfl

theorem Condition.active_standing (payloadStyle : Text → InlineStyle) (width : Binary64)
    (condition : Condition) :
    (condition.standing payloadStyle width).active = condition.token.bound.admits width := by
  unfold standing
  split
  · rename_i hadmits
    exact hadmits.symm
  · rename_i hadmits
    rw [Bool.not_eq_true] at hadmits
    exact hadmits.symm

/-- The conditions of an element forget the width that it had. -/
theorem Condition.settled_standing (payloadStyle : Text → InlineStyle) (before width : Binary64)
    (condition : Condition) :
    (condition.standing payloadStyle before).settled payloadStyle width =
      condition.standing payloadStyle width := by
  rw [settled, active_standing, token_standing]
  cases hbefore : condition.token.bound.admits before <;>
    cases hwidth : condition.token.bound.admits width <;>
      simp [standing, hbefore, hwidth, begun, ended]

namespace Page

variable {start page : Page} {id : ElementId} {before width : Binary64} {property : Text}

/-- What the last of the conditions writes for a property, among those whose bounds apply. -/
def lastValue? (page : Page) (id : ElementId) (applies : WidthBound → Bool) (property : Text) :
    Option Text :=
  ((page.conditions id).values.filterMap fun condition =>
    if applies condition.token.bound then
      (page.compiler.payloadStyle condition.token.payload).get? property
    else none).getLast?

/-- What the last condition in attribute order writes that is active at a width. -/
def valueAt? (page : Page) (id : ElementId) (width : Binary64) (property : Text) : Option Text :=
  page.lastValue? id (fun bound => bound.admits width) property

/-- What the last condition in attribute order writes that begins when the width changes. -/
def newcomer? (page : Page) (id : ElementId) (before width : Binary64) (property : Text) :
    Option Text :=
  page.lastValue? id (fun bound => bound.admits width && !bound.admits before) property

theorem lastValue?_eq_none_iff {applies : WidthBound → Bool} :
    page.lastValue? id applies property = none ↔
      ∀ token condition, (page.conditions id).get? token = some condition →
        applies condition.token.bound = true →
          (page.compiler.payloadStyle condition.token.payload).get? property = none := by
  rw [lastValue?, List.getLast?_eq_none_iff, List.filterMap_eq_nil_iff]
  constructor
  · intro hnone token condition hcondition happlies
    have hvalue := hnone condition (OrderedMap.mem_values_iff.mpr ⟨token, hcondition⟩)
    rwa [if_pos happlies] at hvalue
  · intro hnone condition hmem
    obtain ⟨token, hcondition⟩ := OrderedMap.mem_values_iff.mp hmem
    split
    · rename_i happlies
      exact hnone token condition hcondition happlies
    · rfl

theorem lastValue?_congr {applies applies' : WidthBound → Bool}
    (hsame : ∀ token condition, (page.conditions id).get? token = some condition →
      (page.compiler.payloadStyle condition.token.payload).get? property ≠ none →
        applies condition.token.bound = applies' condition.token.bound) :
    page.lastValue? id applies property = page.lastValue? id applies' property := by
  refine congrArg List.getLast? (List.filterMap_congr fun condition hmem => ?_)
  obtain ⟨token, hcondition⟩ := OrderedMap.mem_values_iff.mp hmem
  by_cases hvalue : (page.compiler.payloadStyle condition.token.payload).get? property = none
  · rw [hvalue, ite_self, ite_self]
  · rw [hsame token condition hcondition hvalue]

/-- The conditions of an element are as at a width, given how they started. -/
structure StandsAt (start page : Page) (id : ElementId) (width : Binary64) : Prop where
  contains : page.document.contains id = true
  keys_eq : (page.conditions id).keys = (start.conditions id).keys
  get?_eq : ∀ token, (page.conditions id).get? token =
    ((start.conditions id).get? token).map
      (Condition.standing start.compiler.payloadStyle width)
  payloadStyle_eq : ∀ payload,
    page.compiler.payloadStyle payload = start.compiler.payloadStyle payload

/-- The conditions of an element are new: none has begun. -/
def Fresh (page : Page) (id : ElementId) : Prop :=
  ∀ token condition, (page.conditions id).get? token = some condition →
    condition = { token := condition.token }

/-- New conditions are as at a width that is not a number, which no bound admits. -/
theorem Fresh.standsAt (hfresh : start.Fresh id) (hid : start.document.contains id = true) :
    StandsAt start start id .nan where
  contains := hid
  keys_eq := rfl
  get?_eq token := by
    cases hcondition : (start.conditions id).get? token with
    | none => rfl
    | some condition =>
        rw [Option.map_some, Condition.standing, WidthBound.admits_nan, if_neg Bool.false_ne_true,
          hfresh token condition hcondition]
        rfl
  payloadStyle_eq _ := rfl

theorem context_evaluate (page : Page) (id : ElementId) (width : Binary64) :
    (page.evaluate id width).compiler.context = page.compiler.context := by
  have hbegun := foldl_eq_of_step (fun page => page.compiler.context)
    (fun page token => context_activate page id token)
    (changing (page.conditions id) width true)
  exact (hbegun _).trans (congrArg Compiler.context (compiler_foldl_deactivate page id _))

theorem StandsAt.evaluate (hstands : StandsAt start page id before) (width : Binary64) :
    StandsAt start (page.evaluate id width) id width where
  contains := ((changesOnly_evaluate page id width).contains_eq id).trans hstands.contains
  keys_eq := (keys_evaluate page id width).trans hstands.keys_eq
  get?_eq token := by
    rw [get?_evaluate, hstands.get?_eq, Option.map_map, funext hstands.payloadStyle_eq]
    congr 1
    funext condition
    exact Condition.settled_standing _ before width condition
  payloadStyle_eq payload :=
    (Compiler.payloadStyle_eq_of_context (context_evaluate page id width) payload).trans
      (hstands.payloadStyle_eq payload)

/-- What the conditions that begin at a width write, read off the conditions as they started. -/
theorem StandsAt.getLast?_begun (hstands : StandsAt start page id before) (width : Binary64)
    (property : Text) :
    ((changing (page.conditions id) width true).filterMap
      (page.payloadValue? id property)).getLast? = start.newcomer? id before width property := by
  have hbegun := filterMap_changing (page.conditions id) width true fun condition =>
    (page.compiler.payloadStyle condition.token.payload).get? property
  rw [newcomer?, lastValue?, OrderedMap.filterMap_values]
  refine congrArg List.getLast? (hbegun.trans ?_)
  rw [hstands.keys_eq]
  refine List.filterMap_congr fun token _ => ?_
  rw [hstands.get?_eq]
  cases (start.conditions id).get? token with
  | none => rfl
  | some condition =>
      rw [Option.map_some, Option.bind_some, Option.bind_some, Condition.active_standing,
        Condition.token_standing, hstands.payloadStyle_eq]
      cases condition.token.bound.admits before <;> cases condition.token.bound.admits width <;> rfl

/-- The conditions that end at a width are those that would begin on the way back. -/
theorem StandsAt.hasSet_iff (hstands : StandsAt start page id before) (width : Binary64)
    (property : Text) :
    page.HasSet id (changing (page.conditions id) width false) property ↔
      start.newcomer? id width before property ≠ none := by
  rw [newcomer?, ne_eq, lastValue?_eq_none_iff]
  push Not
  constructor
  · rintro ⟨token, htoken, condition, hcondition, hkey⟩
    obtain ⟨same, hsame, hactive, hends⟩ := mem_changing_iff.mp htoken
    rw [hcondition, Option.some.injEq] at hsame
    subst hsame
    rw [hstands.get?_eq, Option.map_eq_some_iff] at hcondition
    obtain ⟨old, hold, rfl⟩ := hcondition
    rw [Condition.active_standing] at hactive
    rw [Condition.token_standing] at hends
    rw [ne_eq, Bool.not_eq_false] at hactive
    refine ⟨token, old, hold, ?_, ?_⟩
    · rw [hactive, hends]
      rfl
    · rw [Condition.standing, if_pos hactive] at hkey
      rw [← OrderedMap.contains_iff] at hkey
      exact Option.ne_none_iff_isSome.mpr hkey
  · rintro ⟨token, old, hold, happlies, hvalue⟩
    rw [Bool.and_eq_true, Bool.not_eq_true'] at happlies
    have hcondition : (page.conditions id).get? token =
        some (old.begun (start.compiler.payloadStyle old.token.payload)) := by
      rw [hstands.get?_eq, hold, Option.map_some, Condition.standing, if_pos happlies.1]
    refine ⟨token, mem_changing_iff.mpr ⟨_, hcondition, ?_, happlies.2⟩, _, hcondition, ?_⟩
    · exact Bool.true_eq_false.mp
    · rw [← OrderedMap.contains_iff]
      exact Option.ne_none_iff_isSome.mp hvalue

/-- While nothing begins, what is claimed after the ends is what is claimed at the new width. -/
theorem StandsAt.claimedValue?_ended (hstands : StandsAt start page id before)
    (hnewcomer : start.newcomer? id before width property = none) :
    claimedValue? (((changing (page.conditions id) width false).foldl
        (fun page token => page.deactivate id token) page).conditions id) property =
      start.valueAt? id width property := by
  have hkeys := foldl_eq_of_step (fun page => (page.conditions id).keys)
    (fun page token => keys_deactivate page id token)
    (changing (page.conditions id) width false) page
  rw [claimedValue?_eq, valueAt?, lastValue?, OrderedMap.filterMap_values]
  refine congrArg List.getLast? ?_
  rw [hkeys, hstands.keys_eq]
  refine List.filterMap_congr fun token _ => ?_
  rw [get?_foldl_deactivate, hstands.get?_eq]
  cases hold : (start.conditions id).get? token with
  | none => rfl
  | some old =>
      have hcondition : (page.conditions id).get? token =
          some (old.standing start.compiler.payloadStyle before) := by
        rw [hstands.get?_eq, hold, Option.map_some]
      have hends : token ∈ changing (page.conditions id) width false ↔
          old.token.bound.admits before = true ∧ old.token.bound.admits width = false := by
        simp only [mem_changing_iff, hcondition, Option.some.injEq, exists_eq_left',
          Condition.active_standing, Condition.token_standing, ne_eq, Bool.not_eq_false]
      rw [Option.map_some, Option.map_some, Option.bind_some, Option.bind_some]
      simp only [hends]
      cases hbefore : old.token.bound.admits before with
      | true =>
          cases hwidth : old.token.bound.admits width with
          | true => simp [Condition.standing, hbefore, Condition.claim?, Condition.begun]
          | false => simp [claim?_ended]
      | false =>
          have hstanding : old.standing start.compiler.payloadStyle before = old.ended := by
            rw [Condition.standing, if_neg (Bool.not_eq_true _ ▸ hbefore)]
          cases hwidth : old.token.bound.admits width with
          | true =>
              have hvalue := lastValue?_eq_none_iff.mp hnewcomer token old hold
              simp [hstanding, claim?_ended, hvalue, hbefore, hwidth]
          | false => simp [hstanding, claim?_ended]

/-- The style after an evaluation: newcomers write first of all, then properties of ended conditions
go back to whoever claims them last, and the rest stays. -/
theorem StandsAt.style?_evaluate (hstands : StandsAt start page id before) (width : Binary64)
    (property : Text) :
    (page.evaluate id width).document.style? id property =
      (start.newcomer? id before width property).or
        (if start.newcomer? id width before property = none then
          page.document.style? id property
        else start.valueAt? id width property) := by
  have hnodup := nodup_changing (page.conditions id) width false
  have hkept := (ChangesOnly.foldl (changing (page.conditions id) width false) page
    fun page token => changesOnly_deactivate page id token).contains_eq id
  have hpayload : ∀ token, ((changing (page.conditions id) width false).foldl
      (fun page token => page.deactivate id token) page).payloadValue? id property token =
        page.payloadValue? id property token := by
    intro token
    rw [payloadValue?, payloadValue?, get?_foldl_deactivate, compiler_foldl_deactivate]
    cases (page.conditions id).get? token with
    | none => rfl
    | some condition =>
        rw [Option.map_some, Option.bind_some, Option.bind_some]
        split <;> rfl
  rw [Page.evaluate, style?_foldl_activate (hkept.trans hstands.contains), funext hpayload,
    hstands.getLast?_begun]
  cases hnewcomer : start.newcomer? id before width property with
  | some value => rfl
  | none =>
      rw [Option.none_or, Option.none_or]
      split
      · rename_i hends
        refine style?_foldl_deactivate_of_unset hstands.contains hnodup ?_
        rw [hstands.hasSet_iff]
        exact not_not_intro hends
      · rename_i hends
        rw [style?_foldl_deactivate_of_set hstands.contains hnodup
          ((hstands.hasSet_iff width property).mpr hends)]
        exact hstands.claimedValue?_ended hnewcomer

theorem StandsAt.reportWidth (hstands : StandsAt start page id before) (width : Binary64) :
    StandsAt start (page.reportWidth id width) id before where
  contains := (document_reportWidth page id width) ▸ hstands.contains
  keys_eq := (conditions_reportWidth page id width) ▸ hstands.keys_eq
  get?_eq := (conditions_reportWidth page id width) ▸ hstands.get?_eq
  payloadStyle_eq := (compiler_reportWidth page id width) ▸ hstands.payloadStyle_eq

theorem lastValue?_of_not_tracked (hstands : StandsAt start page id before)
    (htracked : page.isTracked id = false) (applies : WidthBound → Bool) (property : Text) :
    start.lastValue? id applies property = none := by
  rw [lastValue?_eq_none_iff]
  intro token condition hcondition
  have hpage := hstands.get?_eq token
  rw [conditions_of_not_tracked htracked, hcondition] at hpage
  cases hpage

theorem StandsAt.resize (hstands : StandsAt start page id before) (width : Binary64) :
    StandsAt start (page.resize id width) id width := by
  cases htracked : page.isTracked id with
  | true =>
      rw [resize_of_tracked htracked]
      exact (hstands.reportWidth width).evaluate width
  | false =>
      rw [resize_of_not_tracked htracked]
      refine ⟨hstands.contains, hstands.keys_eq, fun token => ?_, hstands.payloadStyle_eq⟩
      have hpage := hstands.get?_eq token
      rw [conditions_of_not_tracked htracked] at hpage ⊢
      cases hold : (start.conditions id).get? token with
      | none => rfl
      | some condition =>
          rw [hold] at hpage
          cases hpage

theorem StandsAt.style?_resize (hstands : StandsAt start page id before) (width : Binary64)
    (property : Text) :
    (page.resize id width).document.style? id property =
      (start.newcomer? id before width property).or
        (if start.newcomer? id width before property = none then
          page.document.style? id property
        else start.valueAt? id width property) := by
  cases htracked : page.isTracked id with
  | true =>
      rw [resize_of_tracked htracked, (hstands.reportWidth width).style?_evaluate,
        document_reportWidth]
  | false =>
      have hnone := lastValue?_of_not_tracked hstands htracked
      rw [resize_of_not_tracked htracked, newcomer?, newcomer?, hnone, hnone, if_pos rfl,
        Option.none_or]

end Page

end UtilityCss
