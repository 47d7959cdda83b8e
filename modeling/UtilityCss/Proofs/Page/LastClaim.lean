import UtilityCss.Proofs.Page.Syncing

/-!
Which value an inline property has after an evaluation.  Conditions that begin write in attribute
order, so the last of them decides; a property that only ended conditions have set goes to the
last condition that still claims it.
-/

namespace UtilityCss

theorem OrderedMap.filterMap_values {α β γ : Type} [DecidableEq α] (m : OrderedMap α β)
    (read : β → Option γ) :
    m.values.filterMap read = m.keys.filterMap fun key => (m.get? key).bind read := by
  rw [values, keys, List.filterMap_map, List.filterMap_map]
  refine List.filterMap_congr fun entry hentry => ?_
  have hget : m.get? entry.1 = some entry.2 := OrderedMap.mem_entries_iff.mp hentry
  rw [Function.comp_apply, Function.comp_apply, hget, Option.bind_some]

/-- What a condition holds of a property while it is active. -/
def Condition.claim? (property : Text) (condition : Condition) : Option Text :=
  if condition.active then condition.applied.get? property else none

namespace Page

variable {page : Page} {id : ElementId} {property : Text}
  {conditions conditions' : OrderedMap Text Condition}

theorem claimedValue?_eq (conditions : OrderedMap Text Condition) (property : Text) :
    claimedValue? conditions property =
      (conditions.keys.filterMap fun token =>
        (conditions.get? token).bind (Condition.claim? property)).getLast? :=
  congrArg List.getLast? (conditions.filterMap_values (Condition.claim? property))

theorem claimedValue?_congr (hkeys : conditions'.keys = conditions.keys)
    (hclaim : ∀ token, (conditions'.get? token).bind (Condition.claim? property) =
      (conditions.get? token).bind (Condition.claim? property)) :
    claimedValue? conditions' property = claimedValue? conditions property := by
  rw [claimedValue?_eq, claimedValue?_eq, hkeys, funext hclaim]

/-- Some condition among tokens has set a property. -/
def HasSet (page : Page) (id : ElementId) (tokens : List Text) (property : Text) : Prop :=
  ∃ token ∈ tokens, ∃ condition, (page.conditions id).get? token = some condition ∧
    property ∈ condition.applied.keys

theorem claim?_ended (condition : Condition) (property : Text) :
    condition.ended.claim? property = none := rfl

theorem claim?_eq_none {condition : Condition} (hunset : property ∉ condition.applied.keys) :
    condition.claim? property = none := by
  rw [Condition.claim?, OrderedMap.get?_eq_none_iff.mpr hunset, ite_self]

/-- The end of conditions that have not set a property does not touch its claims. -/
theorem claimedValue?_foldl_deactivate {tokens : List Text}
    (hunset : ¬page.HasSet id tokens property) :
    claimedValue? ((tokens.foldl (fun page token => page.deactivate id token) page).conditions id)
        property = claimedValue? (page.conditions id) property := by
  refine claimedValue?_congr ?_ fun token => ?_
  · exact foldl_eq_of_step (fun page => (page.conditions id).keys)
      (fun page token => keys_deactivate page id token) tokens page
  · rw [get?_foldl_deactivate]
    cases hcondition : (page.conditions id).get? token with
    | none => rfl
    | some condition =>
        rw [Option.map_some, Option.bind_some, Option.bind_some]
        split
        · rename_i htoken
          have hkey : property ∉ condition.applied.keys := fun hkey =>
            hunset ⟨token, htoken, condition, hcondition, hkey⟩
          rw [claim?_ended, claim?_eq_none hkey]
        · rfl

/-- A condition that has ended has set nothing. -/
theorem hasSet_deactivate_iff {token : Text} {rest : List Text} (htoken : token ∉ rest) :
    (page.deactivate id token).HasSet id rest property ↔ page.HasSet id rest property := by
  refine exists_congr fun later => and_congr_right fun hlater => ?_
  have hne : later ≠ token := fun heq => htoken (heq ▸ hlater)
  rw [get?_deactivate]
  simp [hne]

theorem style?_foldl_deactivate_of_unset (hid : page.document.contains id = true)
    {tokens : List Text} (hnodup : tokens.Nodup) (hunset : ¬page.HasSet id tokens property) :
    (tokens.foldl (fun page token => page.deactivate id token) page).document.style? id property =
      page.document.style? id property := by
  induction tokens generalizing page with
  | nil => rfl
  | cons token rest ih =>
      obtain ⟨htoken, hrest⟩ := List.nodup_cons.mp hnodup
      have hkept := (changesOnly_deactivate page id token).contains_eq id
      have hrestUnset : ¬(page.deactivate id token).HasSet id rest property := by
        rw [hasSet_deactivate_iff htoken]
        rintro ⟨later, hlater, hset⟩
        exact hunset ⟨later, List.mem_cons_of_mem token hlater, hset⟩
      rw [List.foldl_cons, ih (hkept.trans hid) hrest hrestUnset]
      cases hcondition : (page.conditions id).get? token with
      | none => rw [deactivate_of_none hcondition]
      | some condition =>
          rw [style?_deactivate hid hcondition, if_neg]
          exact fun hkey => hunset ⟨token, List.mem_cons_self, condition, hcondition, hkey⟩

/-- Of the conditions that have set a property the one that ends last hands it over; the claims
are then those of the end. -/
theorem style?_foldl_deactivate_of_set (hid : page.document.contains id = true)
    {tokens : List Text} (hnodup : tokens.Nodup) (hset : page.HasSet id tokens property) :
    (tokens.foldl (fun page token => page.deactivate id token) page).document.style? id property =
      claimedValue?
        ((tokens.foldl (fun page token => page.deactivate id token) page).conditions id)
        property := by
  induction tokens generalizing page with
  | nil =>
      obtain ⟨token, htoken, -⟩ := hset
      cases htoken
  | cons token rest ih =>
      obtain ⟨htoken, hrest⟩ := List.nodup_cons.mp hnodup
      have hkept := (changesOnly_deactivate page id token).contains_eq id
      rw [List.foldl_cons]
      by_cases hlater : (page.deactivate id token).HasSet id rest property
      · exact ih (hkept.trans hid) hrest hlater
      · rw [style?_foldl_deactivate_of_unset (hkept.trans hid) hrest hlater,
          claimedValue?_foldl_deactivate hlater]
        rw [hasSet_deactivate_iff htoken] at hlater
        obtain ⟨setter, hsetter, condition, hcondition, hkey⟩ := hset
        rcases List.mem_cons.mp hsetter with rfl | hsetter
        · rw [style?_deactivate hid hcondition, if_pos hkey, conditions_deactivate hcondition]
        · exact absurd ⟨setter, hsetter, condition, hcondition, hkey⟩ hlater

/-- The payload of a token's condition, as far as it writes a property. -/
def payloadValue? (page : Page) (id : ElementId) (property token : Text) : Option Text :=
  ((page.conditions id).get? token).bind fun condition =>
    (page.compiler.payloadStyle condition.token.payload).get? property

theorem payloadValue?_activate (page : Page) (id : ElementId) (token property probe : Text) :
    (page.activate id token).payloadValue? id property probe =
      page.payloadValue? id property probe := by
  have hpayload := Compiler.payloadStyle_eq_of_context (context_activate page id token)
  rw [payloadValue?, payloadValue?, get?_activate]
  cases (page.conditions id).get? probe with
  | none => rfl
  | some condition =>
      rw [Option.map_some, Option.bind_some, Option.bind_some, hpayload]
      split <;> rfl

theorem style?_foldl_activate (hid : page.document.contains id = true) (tokens : List Text)
    (property : Text) :
    (tokens.foldl (fun page token => page.activate id token) page).document.style? id property =
      (tokens.filterMap (page.payloadValue? id property)).getLast?.or
        (page.document.style? id property) := by
  induction tokens generalizing page with
  | nil => rfl
  | cons token rest ih =>
      have hkept := (changesOnly_activate page id token).contains_eq id
      have hfirst : (page.activate id token).document.style? id property =
          (page.payloadValue? id property token).or (page.document.style? id property) := by
        cases hcondition : (page.conditions id).get? token with
        | none => rw [activate_of_none hcondition, payloadValue?, hcondition]; rfl
        | some condition =>
            rw [style?_activate hid hcondition, payloadValue?, hcondition, Option.bind_some]
      rw [List.foldl_cons, ih (hkept.trans hid), hfirst,
        funext (payloadValue?_activate page id token property), List.filterMap_cons]
      cases page.payloadValue? id property token with
      | none => rfl
      | some value =>
          rw [List.getLast?_cons]
          cases (rest.filterMap (page.payloadValue? id property)).getLast? <;> rfl

theorem filterMap_changing {γ : Type} (conditions : OrderedMap Text Condition) (width : Binary64)
    (active : Bool) (read : Condition → Option γ) :
    (changing conditions width active).filterMap (fun token => (conditions.get? token).bind read) =
      conditions.keys.filterMap fun token => (conditions.get? token).bind fun condition =>
        if condition.active ≠ active ∧ condition.token.bound.admits width = active then
          read condition
        else none := by
  rw [changing, OrderedMap.keys, List.filterMap_map, List.filterMap_map, List.filterMap_filter]
  refine List.filterMap_congr fun entry hentry => ?_
  have hget : conditions.get? entry.1 = some entry.2 := OrderedMap.mem_entries_iff.mp hentry
  rw [Function.comp_apply, Function.comp_apply, hget, Option.bind_some, Option.bind_some]
  simp only [Bool.and_eq_true, decide_eq_true_eq]

end Page

end UtilityCss
