import UtilityCss.Proofs.Page.Processing

/-!
The visits that a batch of changes amounts to.  No visit moves an element, so what is attached
when the batch begins is attached at every visit.
-/

namespace UtilityCss

/-- What a page does to one element while it handles a batch. -/
inductive Visit where
  | process (id : ElementId)
  | release (id : ElementId)
deriving DecidableEq

namespace Visit

def target : Visit → ElementId
  | process id => id
  | release id => id

def apply (page : Page) : Visit → Page
  | process id => page.process id
  | release id => page.releaseElement id

/-- The visits to an element and everything below it. -/
def below (doc : Document) (visit : ElementId → Visit) (id : ElementId) : List Visit :=
  (doc.subtree id).map visit

/-- An element that is reported as taken away is released, unless it is attached again. -/
def ofRemoved (doc : Document) (id : ElementId) : List Visit :=
  if doc.isConnected id then [] else below doc release id

/-- An element that is reported as attached is processed, unless it is not attached anymore. -/
def ofAdded (doc : Document) (id : ElementId) : List Visit :=
  if doc.isConnected id then below doc process id else []

/-- The visits that one change asks for. -/
def ofMutation (doc : Document) : Mutation → List Visit
  | .childList added removed => removed.flatMap (ofRemoved doc) ++ added.flatMap (ofAdded doc)
  | .classAttribute target => if doc.isConnected target then [process target] else []

/-- A plan of visits that depends on the links of a document only. -/
def IsStable {α : Type} (plan : Document → α → List Visit) : Prop :=
  ∀ {before after : Document}, after.skeleton = before.skeleton → plan after = plan before

theorem below_eq_of_skeleton {before after : Document}
    (hskeleton : after.skeleton = before.skeleton) (visit : ElementId → Visit) (id : ElementId) :
    below after visit id = below before visit id := by
  rw [below, below, Document.subtree_eq_of_skeleton hskeleton]

theorem isStable_ofRemoved : IsStable ofRemoved := by
  intro before after hskeleton
  funext id
  rw [ofRemoved, ofRemoved, Document.isConnected_eq_of_skeleton hskeleton,
    below_eq_of_skeleton hskeleton]

theorem isStable_ofAdded : IsStable ofAdded := by
  intro before after hskeleton
  funext id
  rw [ofAdded, ofAdded, Document.isConnected_eq_of_skeleton hskeleton,
    below_eq_of_skeleton hskeleton]

theorem isStable_ofMutation : IsStable ofMutation := by
  intro before after hskeleton
  funext mutation
  cases mutation with
  | childList added removed =>
      rw [ofMutation, ofMutation, isStable_ofRemoved hskeleton, isStable_ofAdded hskeleton]
  | classAttribute target =>
      rw [ofMutation, ofMutation, Document.isConnected_eq_of_skeleton hskeleton]

theorem changesOnly_apply (page : Page) (visit : Visit) :
    Page.ChangesOnly visit.target page (visit.apply page) := by
  cases visit with
  | process id => exact Page.changesOnly_process page id
  | release id => exact Page.changesOnly_releaseElement page id

theorem demand_apply (page : Page) (visit : Visit) (probe : ElementId) :
    (visit.apply page).demand probe = page.demand probe := by
  cases visit with
  | process id => exact Page.demand_process page id probe
  | release id => exact Page.demand_releaseElement page id probe

/-- What holds between all pages that only differ by visits holds over a run of visits. -/
theorem setting_foldl (visits : List Visit) (page : Page) :
    (visits.foldl apply page).setting = page.setting :=
  foldl_eq_of_step Page.setting (fun page visit => (changesOnly_apply page visit).setting_eq)
    visits page

theorem demand_foldl (visits : List Visit) (page : Page) (probe : ElementId) :
    (visits.foldl apply page).demand probe = page.demand probe :=
  foldl_eq_of_step (fun page => page.demand probe)
    (fun page visit => demand_apply page visit probe) visits page

/-- A loop whose steps are runs of planned visits is the run of all of them. -/
theorem foldl_plan {α : Type} {step : Page → α → Page} {plan : Document → α → List Visit}
    (hplan : IsStable plan)
    (hstep : ∀ page item, step page item = (plan page.document item).foldl apply page)
    (items : List α) (page : Page) :
    items.foldl step page = (items.flatMap (plan page.document)).foldl apply page := by
  induction items generalizing page with
  | nil => rfl
  | cons item rest ih =>
      have hskeleton : (step page item).document.skeleton = page.document.skeleton := by
        rw [hstep]
        exact congrArg Page.Setting.skeleton (setting_foldl _ page)
      rw [List.foldl_cons, ih, hplan hskeleton, List.flatMap_cons, List.foldl_append, hstep]

end Visit

namespace Page

theorem scan_eq (page : Page) (id : ElementId) :
    page.scan id = (Visit.below page.document Visit.process id).foldl Visit.apply page := by
  rw [scan, Visit.below, List.foldl_map]
  rfl

theorem release_eq (page : Page) (id : ElementId) :
    page.release id = (Visit.below page.document Visit.release id).foldl Visit.apply page := by
  rw [release, Visit.below, List.foldl_map]
  rfl

theorem handleMutation_eq (page : Page) (mutation : Mutation) :
    page.handleMutation mutation =
      (Visit.ofMutation page.document mutation).foldl Visit.apply page := by
  cases mutation with
  | classAttribute target =>
      rw [handleMutation, Visit.ofMutation]
      split <;> rfl
  | childList added removed =>
      have hremoved := Visit.foldl_plan Visit.isStable_ofRemoved
        (fun page id => show (if page.document.isConnected id then page else page.release id) =
            (Visit.ofRemoved page.document id).foldl Visit.apply page by
          rw [Visit.ofRemoved, release_eq]
          split <;> rfl) removed page
      have hadded := Visit.foldl_plan Visit.isStable_ofAdded
        (fun page id => show (if page.document.isConnected id then page.scan id else page) =
            (Visit.ofAdded page.document id).foldl Visit.apply page by
          rw [Visit.ofAdded, scan_eq]
          split <;> rfl) added
      have hskeleton := congrArg Setting.skeleton
        (Visit.setting_foldl (removed.flatMap (Visit.ofRemoved page.document)) page)
      rw [handleMutation, Visit.ofMutation, List.foldl_append, hremoved, hadded,
        Visit.isStable_ofAdded hskeleton]

theorem handleMutations_eq (page : Page) (mutations : List Mutation) :
    page.handleMutations mutations =
      (mutations.flatMap (Visit.ofMutation page.document)).foldl Visit.apply page :=
  Visit.foldl_plan Visit.isStable_ofMutation handleMutation_eq mutations page

end Page

namespace Visit

variable {doc : Document} {page : Page} {id : ElementId} {visit : Visit} {visits : List Visit}

/-- Attached elements are processed, the others are released.  Null handles among the children are
processed as well. -/
def Fits (doc : Document) : Visit → Prop
  | process id => doc.isConnected id = true ∨ id = .null
  | release id => doc.isConnected id = false

theorem fits_of_skeleton {before after : Document} (hskeleton : after.skeleton = before.skeleton) :
    visit.Fits after ↔ visit.Fits before := by
  cases visit with
  | process id => simp only [Fits, Document.isConnected_eq_of_skeleton hskeleton]
  | release id => simp only [Fits, Document.isConnected_eq_of_skeleton hskeleton]

theorem fits_of_mem_ofAdded (hforest : doc.IsForest) (hvisit : visit ∈ ofAdded doc id) :
    visit.Fits doc := by
  rw [ofAdded] at hvisit
  split at hvisit
  · rename_i hconnected
    obtain ⟨probe, hprobe, rfl⟩ := List.mem_map.mp hvisit
    cases hcontains : doc.contains probe with
    | true =>
        have hbelow := (hforest.mem_subtree_iff hcontains).mp hprobe
        exact Or.inl (hforest.isConnected_iff.mpr
          (hbelow.trans (hforest.isConnected_iff.mp hconnected)))
    | false =>
        rcases hforest.eq_null_of_mem_preorder hprobe hcontains with rfl | hnull
        · exact Or.inl hconnected
        · exact Or.inr hnull
  · cases hvisit

theorem fits_of_mem_ofRemoved (hforest : doc.IsForest)
    (hroot : doc.parent? Document.root = none) (hvisit : visit ∈ ofRemoved doc id) :
    visit.Fits doc := by
  rw [ofRemoved] at hvisit
  split at hvisit
  · cases hvisit
  · rename_i hdetached
    obtain ⟨probe, hprobe, rfl⟩ := List.mem_map.mp hvisit
    rw [Fits, ← Bool.not_eq_true]
    intro hconnected
    have hbelow := (hforest.mem_subtree_iff (hforest.contains_of_isConnected hconnected)).mp hprobe
    exact hdetached (hforest.isConnected_iff.mpr
      (Document.below_root_of_below hroot hbelow (hforest.isConnected_iff.mp hconnected)))

/-- Every visit of a batch fits, whatever the batch reports. -/
theorem fits_of_mem_ofMutation (hforest : doc.IsForest)
    (hroot : doc.parent? Document.root = none) {mutation : Mutation}
    (hvisit : visit ∈ ofMutation doc mutation) : visit.Fits doc := by
  cases mutation with
  | childList added removed =>
      rw [ofMutation, List.mem_append, List.mem_flatMap, List.mem_flatMap] at hvisit
      rcases hvisit with ⟨id, -, hremoved⟩ | ⟨id, -, hadded⟩
      · exact fits_of_mem_ofRemoved hforest hroot hremoved
      · exact fits_of_mem_ofAdded hforest hadded
  | classAttribute target =>
      rw [ofMutation] at hvisit
      split at hvisit
      · rename_i hconnected
        rw [List.mem_singleton] at hvisit
        subst hvisit
        exact Or.inl hconnected
      · cases hvisit

/-- Visits of a page whose links fit together, with nothing registered that cannot be. -/
structure Ready (page : Page) : Prop where
  forest : page.document.IsForest
  observable : page.Observable
  idle_null : page.Idle .null

theorem agrees_apply (hready : Ready page) (hfits : visit.Fits page.document)
    (hid : page.document.isConnected id = true) (hvisit : visit = process id ∨ page.Agrees id) :
    (visit.apply page).Agrees id := by
  by_cases htarget : id = visit.target
  · cases visit with
    | process probe =>
        change id = probe at htarget
        subst htarget
        exact Page.agrees_process (hready.forest.contains_of_isConnected hid) hready.observable
    | release probe =>
        change id = probe at htarget
        subst htarget
        rw [Fits, hid] at hfits
        cases hfits
  · rcases hvisit with rfl | hagrees
    · exact absurd rfl htarget
    · exact hagrees.of_changesOnly (changesOnly_apply page visit) htarget

theorem idle_apply (hready : Ready page) (hfits : visit.Fits page.document)
    (hid : page.document.isConnected id = false) (hvisit : visit = release id ∨ page.Idle id) :
    (visit.apply page).Idle id := by
  by_cases htarget : id = visit.target
  · cases visit with
    | process probe =>
        change id = probe at htarget
        subst htarget
        rcases hfits with hconnected | rfl
        · rw [hid] at hconnected
          cases hconnected
        · rw [apply, Page.process_null hready.idle_null]
          exact hready.idle_null
    | release probe =>
        change id = probe at htarget
        subst htarget
        exact Page.idle_releaseElement page id
  · rcases hvisit with rfl | hidle
    · exact absurd rfl htarget
    · exact hidle.of_changesOnly (changesOnly_apply page visit) htarget

theorem Ready.apply (hready : Ready page) (visit : Visit) : Ready (visit.apply page) := by
  have hsetting := (changesOnly_apply page visit).setting_eq
  have hskeleton : (visit.apply page).document.skeleton = page.document.skeleton :=
    congrArg Page.Setting.skeleton hsetting
  have hobserver : (visit.apply page).document.sizeObserver = page.document.sizeObserver :=
    congrArg Page.Setting.sizeObserver hsetting
  refine ⟨hready.forest.of_skeleton hskeleton, fun hnone id => ?_, ?_⟩
  · rw [hobserver] at hnone
    by_cases htarget : id = visit.target
    · cases visit with
      | process probe =>
          change id = probe at htarget
          subst htarget
          rw [Visit.apply, Page.isTracked, Page.containers_process_of_no_observer hnone]
          exact hready.observable hnone id
      | release probe =>
          change id = probe at htarget
          subst htarget
          exact (Page.idle_releaseElement page id).not_tracked
    · have hview := (changesOnly_apply page visit).view_eq id htarget
      have hcontainer : (visit.apply page).container? id = page.container? id :=
        congrArg Page.ElementView.container hview
      exact (congrArg Option.isSome hcontainer).trans (hready.observable hnone id)
  · by_cases htarget : ElementId.null = visit.target
    · cases visit with
      | process probe =>
          obtain rfl : ElementId.null = probe := htarget
          rw [Visit.apply, Page.process_null hready.idle_null]
          exact hready.idle_null
      | release probe =>
          obtain rfl : ElementId.null = probe := htarget
          exact Page.idle_releaseElement page .null
    · exact hready.idle_null.of_changesOnly (changesOnly_apply page visit) htarget

/-- A run of visits serves whom it meets and keeps everyone else as they are. -/
theorem foldl_apply (hready : Ready page) (hfits : ∀ visit ∈ visits, visit.Fits page.document) :
    Ready (visits.foldl apply page) ∧
      (∀ id, page.document.isConnected id = true →
        process id ∈ visits ∨ page.Agrees id → (visits.foldl apply page).Agrees id) ∧
      ∀ id, page.document.isConnected id = false →
        release id ∈ visits ∨ page.Idle id → (visits.foldl apply page).Idle id := by
  induction visits generalizing page with
  | nil =>
      refine ⟨hready, fun id _ hid => ?_, fun id _ hid => ?_⟩
      · exact hid.resolve_left List.not_mem_nil
      · exact hid.resolve_left List.not_mem_nil
  | cons visit rest ih =>
      have hfirst := hfits visit List.mem_cons_self
      have hskeleton : (visit.apply page).document.skeleton = page.document.skeleton :=
        congrArg Page.Setting.skeleton (changesOnly_apply page visit).setting_eq
      have hconnected := Document.isConnected_eq_of_skeleton hskeleton
      obtain ⟨hafter, hagrees, hidle⟩ := ih (hready.apply visit) fun later hlater =>
        (fits_of_skeleton hskeleton).mpr (hfits later (List.mem_cons_of_mem visit hlater))
      refine ⟨hafter, fun id hid hvisit => ?_, fun id hid hvisit => ?_⟩
      · refine hagrees id ((hconnected id).trans hid) ?_
        rw [List.mem_cons] at hvisit
        rcases hvisit with (heq | hlater) | hbefore
        · exact Or.inr (agrees_apply hready hfirst hid (Or.inl heq.symm))
        · exact Or.inl hlater
        · exact Or.inr (agrees_apply hready hfirst hid (Or.inr hbefore))
      · refine hidle id ((hconnected id).trans hid) ?_
        rw [List.mem_cons] at hvisit
        rcases hvisit with (heq | hlater) | hbefore
        · exact Or.inr (idle_apply hready hfirst hid (Or.inl heq.symm))
        · exact Or.inl hlater
        · exact Or.inr (idle_apply hready hfirst hid (Or.inr hbefore))

end Visit

end UtilityCss
