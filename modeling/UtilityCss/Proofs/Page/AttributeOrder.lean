import UtilityCss.Proofs.OrderedMap
import UtilityCss.Proofs.Page.ContainerCalls
import UtilityCss.Proofs.Page.Event

/-!
The order in which the conditions of an element stand.  A sync leaves the conditions that stay where
they are and puts the new ones behind them, so the order is that of the attribute as long as the
attribute only grows at its end.
-/

namespace UtilityCss

namespace Page

variable {page : Page} {id : ElementId} {token : Text} {tokens before names : List Text}

/-- The order of an element's conditions after a sync: those that stay, as they stood before, and then
the new ones, as they first occur. -/
def syncOrder (before names : List Text) : List Text :=
  before.filter (· ∈ names) ++ names.eraseDups.filter (· ∉ before)

theorem syncOrder_nil_right (before : List Text) : syncOrder before [] = [] := by
  simp [syncOrder]

/-- The order is that of first occurrence exactly when what stays comes first there. -/
theorem syncOrder_eq_eraseDups_iff :
    syncOrder before names = names.eraseDups ↔ before.filter (· ∈ names) <+: names.eraseDups := by
  constructor
  · intro heq
    exact ⟨_, heq⟩
  · rintro ⟨rest, hrest⟩
    have hnodup := nodup_eraseDups names
    rw [← hrest, List.nodup_append] at hnodup
    have hkept : (before.filter (· ∈ names)).filter (· ∉ before) = [] := by
      rw [List.filter_filter, List.filter_eq_nil_iff]
      simp +contextual
    have hnew : rest.filter (· ∉ before) = rest := by
      rw [List.filter_eq_self]
      intro name hname
      have hmem : name ∈ names := by
        rw [← List.mem_eraseDups, ← hrest]
        exact List.mem_append_right _ hname
      rw [decide_eq_true_eq]
      intro hbefore
      exact hnodup.2.2 name (List.mem_filter.mpr ⟨hbefore, by simpa using hmem⟩) name hname rfl
    rw [syncOrder, ← hrest, List.filter_append, hkept, hnew, List.nil_append]

theorem keys_foldl_insertNew (queries : List (Text × ContainerToken))
    (conditions : OrderedMap Text Condition) :
    (queries.foldl (fun conditions (text, token) => conditions.insertNew text { token })
        conditions).keys =
      conditions.keys ++ (queries.map Prod.fst).eraseDups.filter (· ∉ conditions.keys) := by
  induction queries using List.reverseRecOn with
  | nil => simp
  | append_singleton earlier query ih =>
      rw [List.foldl_append, List.foldl_cons, List.foldl_nil, OrderedMap.keys_insertNew, ih,
        List.map_append, List.map_cons, List.map_nil, eraseDups_concat]
      by_cases hearlier : query.1 ∈ earlier.map Prod.fst
      · rw [if_pos hearlier, if_pos]
        by_cases hkey : query.1 ∈ conditions.keys
        · exact List.mem_append_left _ hkey
        · refine List.mem_append_right _ (List.mem_filter.mpr ⟨List.mem_eraseDups.mpr hearlier, ?_⟩)
          rwa [decide_eq_true_eq]
      · rw [if_neg hearlier, List.filter_append]
        by_cases hkey : query.1 ∈ conditions.keys
        · simp [hkey]
        · have hnew : query.1 ∉ (earlier.map Prod.fst).eraseDups.filter (· ∉ conditions.keys) :=
            fun hmem => hearlier (List.mem_eraseDups.mp (List.mem_of_mem_filter hmem))
          have hlast : [query.1].filter (· ∉ conditions.keys) = [query.1] := by simp [hkey]
          rw [hlast, if_neg, List.append_assoc]
          rw [List.mem_append, not_or]
          exact ⟨hkey, hnew⟩

theorem keys_dropCondition (page : Page) (id : ElementId) (token : Text) :
    ((page.dropCondition id token).conditions id).keys =
      (page.conditions id).keys.filter (· ≠ token) := by
  cases hcondition : (page.conditions id).get? token with
  | none =>
      rw [dropCondition_of_none hcondition, eq_comm, List.filter_eq_self]
      intro key hkey
      rw [decide_eq_true_eq]
      rintro rfl
      exact OrderedMap.get?_eq_none_iff.mp hcondition hkey
  | some condition => rw [conditions_dropCondition hcondition, OrderedMap.keys_erase]

theorem keys_foldl_dropCondition (page : Page) (id : ElementId) (tokens : List Text) :
    ((tokens.foldl (fun page token => page.dropCondition id token) page).conditions id).keys =
      (page.conditions id).keys.filter (· ∉ tokens) := by
  induction tokens generalizing page with
  | nil => simp
  | cons token rest ih =>
      rw [List.foldl_cons, ih, keys_dropCondition, List.filter_filter]
      refine List.filter_congr fun key _ => ?_
      simp [Bool.and_comm]

theorem keys_rekey (htracked : page.isTracked id = true)
    (queries : List (Text × ContainerToken)) :
    ((page.rekey id queries).conditions id).keys =
      syncOrder (page.conditions id).keys (queries.map Prod.fst) := by
  rw [rekey, conditions_addConditions ((isTracked_foldl_dropCondition page id _).trans htracked),
    keys_foldl_insertNew, keys_foldl_dropCondition, syncOrder]
  have hkept : (page.conditions id).keys.filter (· ∉ (page.conditions id).keys.filter
      (· ∉ queries.map Prod.fst)) =
        (page.conditions id).keys.filter (· ∈ queries.map Prod.fst) := by
    refine List.filter_congr fun key hkey => ?_
    rw [decide_eq_decide, List.mem_filter, decide_eq_true_eq]
    simp [hkey]
  rw [hkept]
  congr 1
  refine List.filter_congr fun name hname => ?_
  rw [List.mem_eraseDups] at hname
  simp [hname]

theorem keys_syncConditions (htracked : page.isTracked id = true)
    (queries : List (Text × ContainerToken)) :
    ((page.syncConditions id queries).conditions id).keys =
      syncOrder (page.conditions id).keys (queries.map Prod.fst) := by
  rw [syncConditions_eq]
  dsimp only
  split
  · rename_i hempty
    have hkeys := keys_rekey htracked queries
    rw [OrderedMap.isEmpty_iff.mp hempty] at hkeys
    rw [conditions_of_not_tracked (isTracked_teardown _ id), ← hkeys]
    rfl
  · split
    · split
      · rw [keys_evaluate, keys_rekey htracked]
      · exact keys_rekey htracked queries
    · exact keys_rekey htracked queries

theorem keys_sync (hid : id ≠ .null) (hobserver : page.document.sizeObserver = true)
    (tokens : List Text) :
    ((page.sync id tokens).conditions id).keys =
      syncOrder (page.conditions id).keys (containerNames tokens) := by
  by_cases hnames : containerNames tokens = []
  · cases htracked : page.isTracked id with
    | true => rw [sync_of_tracked hobserver htracked, keys_syncConditions htracked, containerNames]
    | false =>
        rw [sync_of_nothing htracked hnames, hnames, syncOrder_nil_right,
          conditions_of_not_tracked htracked]
        rfl
  · rw [sync_of_names hid hobserver hnames, keys_syncConditions (isTracked_track hid),
      (container?_track page id).1, containerNames]

/-- Without a size observer a sync tracks nothing. -/
theorem isTracked_sync_of_no_observer (hobserver : page.document.sizeObserver = false)
    (id target : ElementId) (tokens : List Text) :
    (page.sync target tokens).isTracked id = page.isTracked id := by
  obtain ⟨change, hsync⟩ := sync_of_no_observer hobserver target tokens
  rw [hsync]
  rfl

end Page

namespace ContainerCall

open Page (containerNames syncOrder)

/-- What a call does to the order in which the conditions of an element stand. -/
def order (id : ElementId) (before : List Text) : ContainerCall → List Text
  | sync target tokens =>
      if target = id then syncOrder before (containerNames tokens) else before
  | resize _ _ | editCompiler _ => before

variable {page : Page} {id : ElementId}

theorem keys_apply (hid : page.document.contains id = true)
    (hobserver : page.document.sizeObserver = true) (call : ContainerCall) :
    ((call.apply page).conditions id).keys = call.order id (page.conditions id).keys := by
  cases call with
  | sync target tokens =>
      rw [order]
      split
      · rename_i htarget
        subst htarget
        exact Page.keys_sync (Page.ne_null_of_contains hid) hobserver tokens
      · rename_i htarget
        have hview := (Page.changesOnly_sync page target tokens).view_eq id (Ne.symm htarget)
        have hcontainer : (page.sync target tokens).container? id = page.container? id :=
          congrArg Page.ElementView.container hview
        rw [apply, Page.conditions_eq, hcontainer, ← Page.conditions_eq]
  | resize target width => exact (Page.sameRegistrations_resize page target width).keys_eq id
  | editCompiler change => rfl

theorem keys_foldl_apply (hid : page.document.contains id = true)
    (hobserver : page.document.sizeObserver = true) (calls : List ContainerCall) :
    ((calls.foldl apply page).conditions id).keys =
      calls.foldl (order id) (page.conditions id).keys := by
  induction calls generalizing page with
  | nil => rfl
  | cons call rest ih =>
      obtain ⟨hobserver', hcontains⟩ := Page.setting_call page call id
      rw [List.foldl_cons, ih (hcontains.trans hid) (hobserver'.trans hobserver),
        keys_apply hid hobserver, List.foldl_cons]

theorem contains_foldl_apply (hid : page.document.contains id = true)
    (calls : List ContainerCall) : (calls.foldl apply page).document.contains id = true :=
  (foldl_eq_of_step (fun page => page.document.contains id)
    (fun page call => (Page.setting_call page call id).2) calls page).trans hid

theorem sizeObserver_foldl_apply (page : Page) (calls : List ContainerCall) :
    (calls.foldl apply page).document.sizeObserver = page.document.sizeObserver :=
  foldl_eq_of_step (fun page => page.document.sizeObserver)
    (fun page call => (Page.setting_call page call Document.root).1) calls page

theorem isTracked_foldl_apply_of_no_observer (hobserver : page.document.sizeObserver = false)
    (calls : List ContainerCall) :
    (calls.foldl apply page).isTracked id = page.isTracked id := by
  induction calls generalizing page with
  | nil => rfl
  | cons call rest ih =>
      have hsetting := (Page.setting_call page call id).1
      rw [List.foldl_cons, ih (hsetting.trans hobserver)]
      cases call with
      | sync target tokens => exact Page.isTracked_sync_of_no_observer hobserver id target tokens
      | resize target width => exact (Page.sameRegistrations_resize page target width).isTracked_eq id
      | editCompiler change => rfl

/-- The order in which the conditions of an element stand after calls, if it had none before. -/
def orderAfter (id : ElementId) (calls : List ContainerCall) : List Text :=
  calls.foldl (order id) []

/-- After every sync that leaves an element tracked its conditions stand in the order in which they
came to stay.  That is the order of the attribute exactly if the tokens that stay come first there,
as they stood before. -/
theorem attributeOrder_of_calls (hid : page.document.contains id = true)
    (htracked : page.isTracked id = false) (calls : List ContainerCall) (tokens : List Text) :
    let before := orderAfter id calls
    let names := Page.containerNames tokens
    let after := (calls.foldl apply page).sync id tokens
    after.isTracked id = true →
      (after.conditions id).keys = syncOrder before names ∧
        ((after.conditions id).keys = names.eraseDups ↔
          before.filter (· ∈ names) <+: names.eraseDups) := by
  intro before names after hafter
  have hid' := contains_foldl_apply hid calls
  cases hobserver : page.document.sizeObserver with
  | false =>
      have hsetting := (sizeObserver_foldl_apply page calls).trans hobserver
      have huntracked : after.isTracked id = false :=
        (Page.isTracked_sync_of_no_observer hsetting id id tokens).trans
          ((isTracked_foldl_apply_of_no_observer hobserver calls).trans htracked)
      exact absurd (huntracked.symm.trans hafter) Bool.false_ne_true
  | true =>
      have hsetting := (sizeObserver_foldl_apply page calls).trans hobserver
      have hkeys : (after.conditions id).keys = syncOrder before names := by
        rw [Page.keys_sync (Page.ne_null_of_contains hid') hsetting, keys_foldl_apply hid hobserver,
          Page.conditions_of_not_tracked htracked]
        rfl
      refine ⟨hkeys, ?_⟩
      rw [hkeys]
      exact Page.syncOrder_eq_eraseDups_iff

/-- A token that is added behind the others, one that is taken away and one that comes back: the last
attribute shows the tokens in the order in which their conditions came to stay. -/
def growingAttribute : List ContainerCall :=
  [.sync Document.root ["max-600:flex".toList, "min-100:p-1".toList],
    .resize Document.root (.ofNat 300),
    .sync Document.root ["min-100:p-1".toList, "m-2".toList, "max-500:p-2".toList]]

theorem attributeOrder_of_growingAttribute :
    let tokens := ["min-100:p-1".toList, "max-500:p-2".toList, "max-600:flex".toList,
      "max-500:p-2".toList]
    let after := (growingAttribute.foldl apply {}).sync Document.root tokens
    ({} : Page).document.contains Document.root = true ∧
      ({} : Page).isTracked Document.root = false ∧ after.isTracked Document.root = true ∧
        (after.conditions Document.root).keys =
          ["min-100:p-1".toList, "max-500:p-2".toList, "max-600:flex".toList] := by
  intro tokens after
  have hafter : after.isTracked Document.root = true := by decide +kernel
  obtain ⟨-, hkeys⟩ := attributeOrder_of_calls rfl rfl growingAttribute tokens hafter
  exact ⟨rfl, rfl, hafter, (hkeys.mpr (by decide +kernel)).trans (by decide +kernel)⟩

/-- A token that is written in front of the one that is there already: its condition stands behind. -/
theorem attributeOrder_lost_in_front :
    let after := [ContainerCall.sync Document.root ["min-100:p-1".toList],
      .sync Document.root ["max-500:p-2".toList, "min-100:p-1".toList]].foldl apply {}
    after.isTracked Document.root = true ∧
      (after.conditions Document.root).keys = ["min-100:p-1".toList, "max-500:p-2".toList] ∧
        (Page.containerNames ["max-500:p-2".toList, "min-100:p-1".toList]).eraseDups =
          ["max-500:p-2".toList, "min-100:p-1".toList] := by
  decide +kernel

end ContainerCall

end UtilityCss
