import UtilityCss.Proofs.Page.Claims

/-!
The evaluation of an element's conditions at a width.  Afterwards each condition is active exactly
when its bound admits the width, and the claims on the inline style are kept.
-/

namespace UtilityCss

/-- A condition brought in line with a width, given the style of its payload. -/
def Condition.settled (payloadStyle : Text → InlineStyle) (width : Binary64)
    (condition : Condition) : Condition :=
  if condition.active = condition.token.bound.admits width then condition
  else if condition.token.bound.admits width then
    condition.begun (payloadStyle condition.token.payload)
  else condition.ended

theorem Condition.token_settled (payloadStyle : Text → InlineStyle) (width : Binary64)
    (condition : Condition) : (condition.settled payloadStyle width).token = condition.token := by
  unfold settled
  split
  · rfl
  · split <;> rfl

theorem Condition.active_settled (payloadStyle : Text → InlineStyle) (width : Binary64)
    (condition : Condition) :
    (condition.settled payloadStyle width).active = condition.token.bound.admits width := by
  unfold settled
  split
  · assumption
  · split
    · rename_i hadmits
      rw [hadmits]
      rfl
    · rename_i hadmits
      rw [Bool.not_eq_true] at hadmits
      rw [hadmits]
      rfl

namespace Page

variable {page before after : Page} {id : ElementId} {token : Text} {condition : Condition}

theorem ChangesOnly.contains_eq (hchange : ChangesOnly id before after) (probe : ElementId) :
    after.document.contains probe = before.document.contains probe :=
  Document.contains_eq_of_skeleton (congrArg Setting.skeleton hchange.setting_eq) probe

/-- The inline style of an element is what its active conditions claim. -/
def Claimed (page : Page) (id : ElementId) : Prop :=
  Claims (page.conditions id) (page.document.style? id)

/-- The same apart from properties that are left over. -/
def ClaimedBut (page : Page) (id : ElementId) (leftover : Text → Prop) : Prop :=
  ClaimsBut leftover (page.conditions id) (page.document.style? id)

theorem claimed_iff : page.Claimed id ↔ page.ClaimedBut id fun _ => False :=
  claims_iff

theorem get?_deactivate (page : Page) (id : ElementId) (token probe : Text) :
    ((page.deactivate id token).conditions id).get? probe =
      ((page.conditions id).get? probe).map fun condition =>
        if probe = token then condition.ended else condition := by
  cases hcondition : (page.conditions id).get? token with
  | none =>
      rw [deactivate_of_none hcondition]
      by_cases hprobe : probe = token
      · rw [hprobe, hcondition]
        rfl
      · simp [hprobe]
  | some condition =>
      rw [conditions_deactivate hcondition, OrderedMap.get?_insert]
      by_cases hprobe : probe = token
      · simp [hprobe, hcondition]
      · simp [hprobe]

theorem get?_foldl_deactivate (page : Page) (id : ElementId) (tokens : List Text) (probe : Text) :
    ((tokens.foldl (fun page token => page.deactivate id token) page).conditions id).get? probe =
      ((page.conditions id).get? probe).map fun condition =>
        if probe ∈ tokens then condition.ended else condition := by
  induction tokens generalizing page with
  | nil => simp
  | cons token rest ih =>
      rw [List.foldl_cons, ih, get?_deactivate, Option.map_map]
      congr 1
      funext condition
      by_cases hprobe : probe = token <;> by_cases hrest : probe ∈ rest <;>
        simp [hprobe, hrest, Condition.ended]

theorem get?_activate (page : Page) (id : ElementId) (token probe : Text) :
    ((page.activate id token).conditions id).get? probe =
      ((page.conditions id).get? probe).map fun condition =>
        if probe = token then condition.begun (page.compiler.payloadStyle condition.token.payload)
        else condition := by
  cases hcondition : (page.conditions id).get? token with
  | none =>
      rw [activate_of_none hcondition]
      by_cases hprobe : probe = token
      · rw [hprobe, hcondition]
        rfl
      · simp [hprobe]
  | some condition =>
      rw [conditions_activate hcondition, OrderedMap.get?_insert]
      by_cases hprobe : probe = token
      · simp [hprobe, hcondition]
      · simp [hprobe]

theorem get?_foldl_activate (page : Page) (id : ElementId) (tokens : List Text) (probe : Text) :
    ((tokens.foldl (fun page token => page.activate id token) page).conditions id).get? probe =
      ((page.conditions id).get? probe).map fun condition =>
        if probe ∈ tokens then
          condition.begun (page.compiler.payloadStyle condition.token.payload)
        else condition := by
  induction tokens generalizing page with
  | nil => simp
  | cons token rest ih =>
      have hpayload : ∀ payload, (page.activate id token).compiler.payloadStyle payload =
          page.compiler.payloadStyle payload :=
        Compiler.payloadStyle_eq_of_context (context_activate page id token)
      rw [List.foldl_cons, ih, get?_activate, Option.map_map]
      congr 1
      funext condition
      by_cases hprobe : probe = token <;> by_cases hrest : probe ∈ rest <;>
        simp [hprobe, hrest, hpayload, Condition.begun]

theorem compiler_foldl_deactivate (page : Page) (id : ElementId) (tokens : List Text) :
    (tokens.foldl (fun page token => page.deactivate id token) page).compiler = page.compiler :=
  foldl_eq_of_step Page.compiler (fun page token => compiler_deactivate page id token) tokens page

theorem mem_changing_iff {conditions : OrderedMap Text Condition} {width : Binary64}
    {active : Bool} :
    token ∈ changing conditions width active ↔
      ∃ condition, conditions.get? token = some condition ∧ condition.active ≠ active ∧
        condition.token.bound.admits width = active := by
  simp only [changing, List.mem_map, List.mem_filter, Prod.exists, exists_and_right,
    exists_eq_right, OrderedMap.mem_entries_iff, Bool.and_eq_true, decide_eq_true_eq]

theorem nodup_changing (conditions : OrderedMap Text Condition) (width : Binary64)
    (active : Bool) : (changing conditions width active).Nodup :=
  conditions.nodup_keys.sublist (List.filter_sublist.map Prod.fst)

/-- The evaluation settles every condition by itself. -/
theorem get?_evaluate (page : Page) (id : ElementId) (width : Binary64) (probe : Text) :
    ((page.evaluate id width).conditions id).get? probe =
      ((page.conditions id).get? probe).map
        (Condition.settled page.compiler.payloadStyle width) := by
  unfold evaluate
  dsimp only
  rw [get?_foldl_activate, get?_foldl_deactivate, Option.map_map, compiler_foldl_deactivate]
  cases hcondition : (page.conditions id).get? probe with
  | none => rfl
  | some condition =>
      simp only [Option.map_some, Function.comp_apply, mem_changing_iff, hcondition,
        Option.some.injEq, exists_eq_left']
      cases hactive : condition.active <;>
        cases hadmits : condition.token.bound.admits width <;>
          simp [Condition.settled, hactive, hadmits]

theorem keys_deactivate (page : Page) (id : ElementId) (token : Text) :
    ((page.deactivate id token).conditions id).keys = (page.conditions id).keys := by
  cases hcondition : (page.conditions id).get? token with
  | none => rw [deactivate_of_none hcondition]
  | some condition =>
      have hkey : token ∈ (page.conditions id).keys :=
        OrderedMap.mem_keys_iff.mpr ⟨condition, hcondition⟩
      rw [conditions_deactivate hcondition, OrderedMap.keys_insert, if_pos hkey]

theorem keys_activate (page : Page) (id : ElementId) (token : Text) :
    ((page.activate id token).conditions id).keys = (page.conditions id).keys := by
  cases hcondition : (page.conditions id).get? token with
  | none => rw [activate_of_none hcondition]
  | some condition =>
      have hkey : token ∈ (page.conditions id).keys :=
        OrderedMap.mem_keys_iff.mpr ⟨condition, hcondition⟩
      rw [conditions_activate hcondition, OrderedMap.keys_insert, if_pos hkey]

theorem keys_evaluate (page : Page) (id : ElementId) (width : Binary64) :
    ((page.evaluate id width).conditions id).keys = (page.conditions id).keys := by
  let keysOf : Page → List Text := fun page => (page.conditions id).keys
  have hended := foldl_eq_of_step keysOf (fun page token => keys_deactivate page id token)
    (changing (page.conditions id) width false) page
  have hbegun := foldl_eq_of_step keysOf (fun page token => keys_activate page id token)
    (changing (page.conditions id) width true)
  exact (hbegun _).trans hended

theorem width?_evaluate (page : Page) (id : ElementId) (width : Binary64) :
    (page.evaluate id width).width? id = page.width? id := by
  let widthOf : Page → Option Binary64 := fun page => page.width? id
  have hended := foldl_eq_of_step widthOf (fun page token => width?_deactivate page id token)
    (changing (page.conditions id) width false) page
  have hbegun := foldl_eq_of_step widthOf (fun page token => width?_activate page id token)
    (changing (page.conditions id) width true)
  exact (hbegun _).trans hended

theorem isTracked_updateContainer (page : Page) (id : ElementId)
    (change : ContainerState → ContainerState) :
    (page.updateContainer id change).isTracked id = page.isTracked id := by
  rw [Bool.eq_iff_iff, isTracked_iff, isTracked_iff, container?_updateContainer]
  simp

theorem isTracked_evaluate (page : Page) (id : ElementId) (width : Binary64) :
    (page.evaluate id width).isTracked id = page.isTracked id := by
  have hdeactivate : ∀ page : Page, ∀ token,
      (page.deactivate id token).isTracked id = page.isTracked id := by
    intro page token
    unfold deactivate
    split
    · exact isTracked_updateContainer page id _
    · rfl
  have hactivate : ∀ page : Page, ∀ token,
      (page.activate id token).isTracked id = page.isTracked id := by
    intro page token
    unfold activate
    split
    · exact isTracked_updateContainer _ id _
    · rfl
  have hbegun := foldl_eq_of_step (fun page : Page => page.isTracked id) hactivate
    (changing (page.conditions id) width true)
  have hended := foldl_eq_of_step (fun page : Page => page.isTracked id) hdeactivate
    (changing (page.conditions id) width false) page
  exact (hbegun _).trans hended

/-- The page with a width that was reported, before anything is evaluated. -/
def reportWidth (page : Page) (id : ElementId) (width : Binary64) : Page :=
  page.updateContainer id fun state => { state with width := some width }

theorem resize_of_tracked (htracked : page.isTracked id = true) (width : Binary64) :
    page.resize id width = (page.reportWidth id width).evaluate id width := by
  rw [resize, if_pos htracked]
  rfl

theorem resize_of_not_tracked (htracked : page.isTracked id = false) (width : Binary64) :
    page.resize id width = page := by
  rw [resize, htracked, if_neg Bool.false_ne_true]

theorem teardown_of_not_tracked (htracked : page.isTracked id = false) : page.teardown id = page := by
  rw [teardown, htracked, if_neg Bool.false_ne_true]

theorem conditions_reportWidth (page : Page) (id : ElementId) (width : Binary64) :
    (page.reportWidth id width).conditions id = page.conditions id := by
  simp only [conditions_eq, reportWidth, container?_updateContainer, Option.map_map]
  rfl

theorem width?_reportWidth (htracked : page.isTracked id = true) (width : Binary64) :
    (page.reportWidth id width).width? id = some width := by
  obtain ⟨state, hstate⟩ := isTracked_iff.mp htracked
  simp [width?, reportWidth, container?_updateContainer, hstate]

theorem document_reportWidth (page : Page) (id : ElementId) (width : Binary64) :
    (page.reportWidth id width).document = page.document :=
  document_updateContainer page id _

theorem compiler_reportWidth (page : Page) (id : ElementId) (width : Binary64) :
    (page.reportWidth id width).compiler = page.compiler :=
  compiler_updateContainer page id _

variable {leftover : Text → Prop}

theorem ClaimedBut.deactivate (hclaimed : page.ClaimedBut id leftover)
    (hid : page.document.contains id = true) (token : Text) :
    (page.deactivate id token).ClaimedBut id leftover := by
  cases hcondition : (page.conditions id).get? token with
  | none =>
      rw [deactivate_of_none hcondition]
      exact hclaimed
  | some condition =>
      rw [ClaimedBut, funext (style?_deactivate hid hcondition), conditions_deactivate hcondition]
      refine hclaimed.release hcondition (fun other hother => ?_) (fun left hleft => ?_)
      · rw [OrderedMap.get?_insert, if_neg hother]
      · rw [OrderedMap.get?_insert, if_pos rfl, Option.some.injEq] at hleft
        rw [← hleft]
        exact ⟨rfl, rfl⟩

theorem ClaimedBut.dropCondition (hclaimed : page.ClaimedBut id leftover)
    (hid : page.document.contains id = true) (token : Text) :
    (page.dropCondition id token).ClaimedBut id leftover := by
  cases hcondition : (page.conditions id).get? token with
  | none =>
      rw [dropCondition_of_none hcondition]
      exact hclaimed
  | some condition =>
      rw [ClaimedBut, funext (style?_dropCondition hid hcondition),
        conditions_dropCondition hcondition]
      refine hclaimed.release hcondition (fun other hother => ?_) (fun left hleft => ?_)
      · rw [OrderedMap.get?_erase, if_neg hother]
      · rw [OrderedMap.get?_erase, if_pos rfl] at hleft
        cases hleft

theorem ClaimedBut.activate (hclaimed : page.ClaimedBut id leftover) (hid : page.document.contains id = true)
    (hinactive : ∀ condition, (page.conditions id).get? token = some condition →
      condition.active = false) :
    (page.activate id token).ClaimedBut id leftover := by
  cases hcondition : (page.conditions id).get? token with
  | none =>
      rw [activate_of_none hcondition]
      exact hclaimed
  | some condition =>
      rw [ClaimedBut, funext (style?_activate hid hcondition), conditions_activate hcondition]
      exact hclaimed.begin hcondition (hinactive condition hcondition) _

theorem ClaimedBut.foldl_deactivate (hclaimed : page.ClaimedBut id leftover)
    (hid : page.document.contains id = true) (tokens : List Text) :
    (tokens.foldl (fun page token => page.deactivate id token) page).ClaimedBut id leftover := by
  induction tokens generalizing page with
  | nil => exact hclaimed
  | cons token rest ih =>
      have hkept := (changesOnly_deactivate page id token).contains_eq id
      exact ih (hclaimed.deactivate hid token) (hkept.trans hid)

theorem ClaimedBut.foldl_dropCondition (hclaimed : page.ClaimedBut id leftover)
    (hid : page.document.contains id = true) (tokens : List Text) :
    (tokens.foldl (fun page token => page.dropCondition id token) page).ClaimedBut id leftover := by
  induction tokens generalizing page with
  | nil => exact hclaimed
  | cons token rest ih =>
      have hkept := (changesOnly_dropCondition page id token).contains_eq id
      exact ih (hclaimed.dropCondition hid token) (hkept.trans hid)

/-- The conditions that are still to begin stay inactive while others begin. -/
theorem ClaimedBut.foldl_activate (hclaimed : page.ClaimedBut id leftover)
    (hid : page.document.contains id = true) {tokens : List Text} (hnodup : tokens.Nodup)
    (hinactive : ∀ token ∈ tokens, ∀ condition, (page.conditions id).get? token = some condition →
      condition.active = false) :
    (tokens.foldl (fun page token => page.activate id token) page).ClaimedBut id leftover := by
  induction tokens generalizing page with
  | nil => exact hclaimed
  | cons token rest ih =>
      obtain ⟨htoken, hrest⟩ := List.nodup_cons.mp hnodup
      have hkept := (changesOnly_activate page id token).contains_eq id
      have hfirst := hclaimed.activate hid (hinactive token List.mem_cons_self)
      refine ih hfirst (hkept.trans hid) hrest fun later hlater condition hcondition => ?_
      have hne : later ≠ token := fun heq => htoken (heq ▸ hlater)
      rw [get?_activate, Option.map_eq_some_iff] at hcondition
      obtain ⟨old, hold, rfl⟩ := hcondition
      rw [if_neg hne]
      exact hinactive later (List.mem_cons_of_mem token hlater) old hold

theorem ClaimedBut.evaluate (hclaimed : page.ClaimedBut id leftover) (hid : page.document.contains id = true)
    (width : Binary64) : (page.evaluate id width).ClaimedBut id leftover := by
  have hended := hclaimed.foldl_deactivate hid (changing (page.conditions id) width false)
  have hkept := (ChangesOnly.foldl (changing (page.conditions id) width false) page
    fun page token => changesOnly_deactivate page id token).contains_eq id
  refine hended.foldl_activate (hkept.trans hid) (nodup_changing _ width true) ?_
  intro token htoken condition hcondition
  obtain ⟨old, hold, hactive, -⟩ := mem_changing_iff.mp htoken
  rw [get?_foldl_deactivate, hold, Option.map_some, Option.some.injEq] at hcondition
  rw [← hcondition]
  split
  · rfl
  · simpa using hactive

theorem Claimed.evaluate (hclaimed : page.Claimed id) (hid : page.document.contains id = true)
    (width : Binary64) : (page.evaluate id width).Claimed id :=
  claimed_iff.mpr ((claimed_iff.mp hclaimed).evaluate hid width)

end Page

end UtilityCss
