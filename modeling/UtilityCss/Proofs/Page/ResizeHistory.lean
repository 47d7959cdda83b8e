import UtilityCss.Proofs.Page.Standing

/-!
How far an element's inline style depends on the widths it had before.
-/

namespace UtilityCss

namespace Page

variable {start page : Page} {id : ElementId} {before width : Binary64} {property : Text}

/-- A sequence of size reports on one element. -/
def resizes (page : Page) (id : ElementId) (widths : List Binary64) : Page :=
  widths.foldl (fun page width => page.resize id width) page

theorem resizes_concat (page : Page) (id : ElementId) (widths : List Binary64)
    (width : Binary64) :
    page.resizes id (widths ++ [width]) = (page.resizes id widths).resize id width := by
  rw [resizes, List.foldl_append]
  rfl

theorem Fresh.standsAt_resizes (hfresh : start.Fresh id)
    (hid : start.document.contains id = true) (widths : List Binary64) :
    StandsAt start (start.resizes id widths) id (widths.getLast?.getD .nan) := by
  induction widths using List.reverseRecOn with
  | nil => exact hfresh.standsAt hid
  | append_singleton earlier width ih =>
      rw [resizes_concat, List.getLast?_concat, Option.getD_some]
      exact ih.resize width

theorem Fresh.style?_resizes_concat (hfresh : start.Fresh id)
    (hid : start.document.contains id = true) (earlier : List Binary64) (width : Binary64)
    (property : Text) :
    (start.resizes id (earlier ++ [width])).document.style? id property =
      (start.newcomer? id (earlier.getLast?.getD .nan) width property).or
        (if start.newcomer? id width (earlier.getLast?.getD .nan) property = none then
          (start.resizes id earlier).document.style? id property
        else start.valueAt? id width property) := by
  rw [resizes_concat]
  exact (hfresh.standsAt_resizes hid earlier).style?_resize width property

/-- No history shows at a width: whatever begins there agrees with attribute order, and an inline
style that the element had of its own is not lost on the way. -/
structure HistoryFree (start : Page) (id : ElementId) (width : Binary64) : Prop where
  newcomer_eq : ∀ property before value, start.newcomer? id before width property = some value →
    start.valueAt? id width property = some value
  unclaimed : ∀ property, start.document.style? id property ≠ none →
    start.valueAt? id width property = none →
      ∀ before, start.valueAt? id before property = none

theorem newcomer?_nan (start : Page) (id : ElementId) (width : Binary64) (property : Text) :
    start.newcomer? id .nan width property = start.valueAt? id width property :=
  lastValue?_congr fun _ condition _ _ => by
    rw [WidthBound.admits_nan, Bool.not_false, Bool.and_true]

theorem valueAt?_nan (start : Page) (id : ElementId) (property : Text) :
    start.valueAt? id .nan property = none := by
  rw [valueAt?, lastValue?_eq_none_iff]
  intro token condition hcondition happlies
  rw [WidthBound.admits_nan] at happlies
  cases happlies

theorem newcomer?_eq_none (hvalue : start.valueAt? id width property = none) (before : Binary64) :
    start.newcomer? id before width property = none := by
  rw [valueAt?, lastValue?_eq_none_iff] at hvalue
  rw [newcomer?, lastValue?_eq_none_iff]
  intro token condition hcondition happlies
  rw [Bool.and_eq_true] at happlies
  exact hvalue token condition hcondition happlies.1

/-- Where nobody claims a property, every claimant elsewhere is a newcomer there. -/
theorem newcomer?_of_unclaimed (hvalue : start.valueAt? id width property = none)
    (before : Binary64) :
    start.newcomer? id width before property = start.valueAt? id before property := by
  rw [valueAt?, lastValue?_eq_none_iff] at hvalue
  refine lastValue?_congr fun token condition hcondition hclaims => ?_
  have hadmits : condition.token.bound.admits width = false := by
    rw [← Bool.not_eq_true]
    exact fun hadmits => hclaims (hvalue token condition hcondition hadmits)
  rw [hadmits, Bool.not_false, Bool.and_true]

/-- The first report gives every property to its last claimant. -/
theorem Fresh.style?_resize (hfresh : start.Fresh id) (hid : start.document.contains id = true)
    (width : Binary64) (property : Text) :
    (start.resize id width).document.style? id property =
      (start.valueAt? id width property).or (start.document.style? id property) := by
  rw [(hfresh.standsAt hid).style?_resize, newcomer?_nan,
    newcomer?_eq_none (valueAt?_nan start id property), if_pos rfl]

/-- Two widths at which the same conditions claim a property. -/
def SameClaimants (start : Page) (id : ElementId) (property : Text) (before width : Binary64) :
    Prop :=
  ∀ token condition, (start.conditions id).get? token = some condition →
    (start.compiler.payloadStyle condition.token.payload).get? property ≠ none →
      condition.token.bound.admits before = condition.token.bound.admits width

theorem SameClaimants.valueAt?_eq (hsame : start.SameClaimants id property before width) :
    start.valueAt? id before property = start.valueAt? id width property :=
  lastValue?_congr fun token condition hcondition hclaims =>
    hsame token condition hcondition hclaims

theorem sameClaimants_of_newcomer?
    (hbegins : start.newcomer? id before width property = none)
    (hends : start.newcomer? id width before property = none) :
    start.SameClaimants id property before width := by
  rw [newcomer?, lastValue?_eq_none_iff] at hbegins hends
  intro token condition hcondition hclaims
  have hbegin := mt (hbegins token condition hcondition) hclaims
  have hend := mt (hends token condition hcondition) hclaims
  cases hbefore : condition.token.bound.admits before <;>
    cases hwidth : condition.token.bound.admits width <;>
      simp [hbefore, hwidth] at hbegin hend ⊢

/-- A property that someone claims at a width has the last claimant's value, after any history, when
newcomers at that width agree with it. -/
theorem Fresh.style?_resizes_of_claimed (hfresh : start.Fresh id)
    (hid : start.document.contains id = true) {value : Text}
    (hvalue : start.valueAt? id width property = some value)
    (hnewcomer : ∀ before written, start.newcomer? id before width property = some written →
      written = value)
    (earlier : List Binary64) {last : Binary64}
    (hlast : start.SameClaimants id property last width) :
    (start.resizes id (earlier ++ [last])).document.style? id property = some value := by
  have hvalueAt : start.valueAt? id last property = some value :=
    hlast.valueAt?_eq.trans hvalue
  induction earlier using List.reverseRecOn generalizing last with
  | nil =>
      have honce := hfresh.style?_resize hid last property
      rwa [hvalueAt, Option.some_or] at honce
  | append_singleton earlier previous ih =>
      rw [hfresh.style?_resizes_concat hid, List.getLast?_concat, Option.getD_some]
      cases hbegins : start.newcomer? id previous last property with
      | some written =>
          have hsame : start.newcomer? id previous width property = some written := by
            rw [← hbegins]
            refine lastValue?_congr fun token condition hcondition hclaims => ?_
            rw [hlast token condition hcondition hclaims]
          rw [Option.some_or, hnewcomer previous written hsame]
      | none =>
          rw [Option.none_or]
          split
          · rename_i hends
            have hprevious : start.SameClaimants id property previous width := by
              intro token condition hcondition hclaims
              rw [sameClaimants_of_newcomer? hbegins hends token condition hcondition hclaims,
                hlast token condition hcondition hclaims]
            exact ih hprevious (hprevious.valueAt?_eq.trans hvalue)
          · exact hvalueAt

/-- A property that nobody claims at a width is as it was to begin with, after any history, unless
some condition has taken it over on the way. -/
theorem Fresh.style?_resizes_of_unclaimed (hfresh : start.Fresh id)
    (hid : start.document.contains id = true)
    (hown : start.document.style? id property ≠ none →
      ∀ before, start.valueAt? id before property = none)
    (earlier : List Binary64) {last : Binary64}
    (hlast : start.valueAt? id last property = none) :
    (start.resizes id (earlier ++ [last])).document.style? id property =
      start.document.style? id property := by
  induction earlier using List.reverseRecOn generalizing last with
  | nil =>
      have honce := hfresh.style?_resize hid last property
      rwa [hlast, Option.none_or] at honce
  | append_singleton earlier previous ih =>
      rw [hfresh.style?_resizes_concat hid, List.getLast?_concat, Option.getD_some,
        newcomer?_eq_none hlast, newcomer?_of_unclaimed hlast, Option.none_or]
      split
      · rename_i hprevious
        exact ih hprevious
      · rename_i hprevious
        rw [hlast]
        by_contra hstyle
        exact hprevious (hown (Ne.symm hstyle) previous)

theorem Fresh.historyFree_iff (hfresh : start.Fresh id)
    (hid : start.document.contains id = true) :
    (∀ earlier earlier' property,
      (start.resizes id (earlier ++ [width])).document.style? id property =
        (start.resizes id (earlier' ++ [width])).document.style? id property) ↔
      start.HistoryFree id width := by
  constructor
  · intro hagree
    have htwice : ∀ before property,
        (start.newcomer? id before width property).or
          (if start.newcomer? id width before property = none then
            (start.resizes id [before]).document.style? id property
          else start.valueAt? id width property) =
        (start.valueAt? id width property).or (start.document.style? id property) := by
      intro before property
      have hbefore := hfresh.style?_resizes_concat hid [before] width property
      rw [List.getLast?_singleton, Option.getD_some] at hbefore
      rw [← hbefore, ← hfresh.style?_resize hid width property]
      exact hagree [before] [] property
    refine ⟨fun property before value hnewcomer => ?_, fun property hown hvalue before => ?_⟩
    · have hfirst := htwice before property
      rw [hnewcomer, Option.some_or] at hfirst
      cases hvalue : start.valueAt? id width property with
      | some claimed =>
          rw [hvalue, Option.some_or] at hfirst
          exact hfirst.symm
      | none =>
          rw [newcomer?_eq_none hvalue] at hnewcomer
          cases hnewcomer
    · have hfirst := htwice before property
      rw [newcomer?_eq_none hvalue, newcomer?_of_unclaimed hvalue, hvalue, Option.none_or,
        Option.none_or] at hfirst
      by_contra hclaimed
      rw [if_neg hclaimed] at hfirst
      exact hown hfirst.symm
  · intro hfree
    have hall : ∀ earlier property,
        (start.resizes id (earlier ++ [width])).document.style? id property =
          (start.valueAt? id width property).or (start.document.style? id property) := by
      intro earlier property
      cases hvalue : start.valueAt? id width property with
      | some value =>
          refine hfresh.style?_resizes_of_claimed hid hvalue (fun before written hwritten => ?_)
            earlier fun _ _ _ _ => rfl
          have hsame := hfree.newcomer_eq property before written hwritten
          rw [hvalue, Option.some.injEq] at hsame
          exact hsame.symm
      | none =>
          exact hfresh.style?_resizes_of_unclaimed hid
            (fun hown => hfree.unclaimed property hown hvalue) earlier hvalue
    intro earlier earlier' property
    rw [hall, hall]

theorem fresh_of_not_tracked (htracked : page.isTracked id = false) : page.Fresh id := by
  intro token condition hcondition
  rw [conditions_of_not_tracked htracked] at hcondition
  cases hcondition

/-- A sync of an element that is not tracked yet leaves new conditions only. -/
theorem fresh_sync (htracked : page.isTracked id = false) (tokens : List Text) :
    (page.sync id tokens).Fresh id := by
  obtain ⟨hconditions, hwidth⟩ := container?_track page id
  rw [width?_of_not_tracked htracked] at hwidth
  unfold sync
  dsimp only
  split
  · exact fresh_of_not_tracked htracked
  split
  · exact fresh_of_not_tracked htracked
  split
  · rename_i htracking
    rw [syncConditions_eq]
    dsimp only
    rw [width?_rekey, hwidth]
    split
    · exact fresh_of_not_tracked (isTracked_teardown _ id)
    · intro token condition hcondition
      rw [get?_rekey htracking, hconditions, conditions_of_not_tracked htracked,
        Option.map_eq_some_iff] at hcondition
      obtain ⟨query, -, rfl⟩ := hcondition
      rfl
  · rename_i htracking
    exact fresh_of_not_tracked (Bool.not_eq_true _ ▸ htracking)

/-- From new conditions on, the inline style at a width is the same after all size reports that end
there exactly when no history shows at that width. -/
theorem resizes_agree_iff (hid : page.document.contains id = true)
    (htracked : page.isTracked id = false) (tokens : List Text) (width : Binary64) :
    (∀ earlier earlier' property,
      ((page.sync id tokens).resizes id (earlier ++ [width])).document.style? id property =
        ((page.sync id tokens).resizes id (earlier' ++ [width])).document.style? id property) ↔
      (page.sync id tokens).HistoryFree id width := by
  have hcontains : (page.sync id tokens).document.contains id = true :=
    ((changesOnly_sync page id tokens).contains_eq id).trans hid
  exact (fresh_sync htracked tokens).historyFree_iff hcontains

theorem resizes_agree_iff_on_root :
    ({} : Page).document.contains Document.root = true ∧
      ({} : Page).isTracked Document.root = false ∧
      ((∀ earlier earlier' property,
        ((({} : Page).sync Document.root ["max-600:flex".toList, "max-300:flex".toList]).resizes
            Document.root (earlier ++ [.ofNat 200])).document.style? Document.root property =
          ((({} : Page).sync Document.root ["max-600:flex".toList, "max-300:flex".toList]).resizes
            Document.root (earlier' ++ [.ofNat 200])).document.style? Document.root property) ↔
        (({} : Page).sync Document.root ["max-600:flex".toList, "max-300:flex".toList]).HistoryFree
          Document.root (.ofNat 200)) :=
  ⟨rfl, rfl, resizes_agree_iff rfl rfl _ _⟩

/-- Both conditions are active at 300 and claim the padding.  The first one in attribute order has
it when it begins alone. -/
theorem resizes_disagree_on_root :
    ((({} : Page).sync Document.root ["min-100:p-1".toList, "max-500:p-2".toList]).resizes
        Document.root [.ofNat 300]).document.style? Document.root "padding".toList =
          some "8px".toList ∧
      ((({} : Page).sync Document.root ["min-100:p-1".toList, "max-500:p-2".toList]).resizes
        Document.root [.ofNat 50, .ofNat 300]).document.style? Document.root "padding".toList =
          some "4px".toList := by
  decide +kernel

end Page

end UtilityCss
