import UtilityCss.Page.Reactor
import UtilityCss.Proofs.Document.Skeleton

/-!
Serving an element is local.  It leaves the tree and the settings of a page alone, and everything
that document and page keep of other elements.
-/

namespace UtilityCss

namespace Document

variable {id other : ElementId} {before middle after : Document}

/-- What a document keeps of one element: its node and the registrations of its host. -/
structure ElementView where
  element : Option Element
  sizeObserved : Bool
  threshold : Option Binary64

def view (doc : Document) (id : ElementId) : ElementView :=
  ⟨doc.element? id, doc.sizeObserved.contains id, doc.intersections.get? id⟩

/-- A change of a document that is about one element only and moves none. -/
structure ChangesOnly (id : ElementId) (before after : Document) : Prop where
  skeleton_eq : after.skeleton = before.skeleton
  sizeObserver_eq : after.sizeObserver = before.sizeObserver
  view_eq : ∀ other, other ≠ id → after.view other = before.view other

theorem ChangesOnly.refl (id : ElementId) (doc : Document) : ChangesOnly id doc doc :=
  ⟨rfl, rfl, fun _ _ => rfl⟩

theorem ChangesOnly.trans (hfirst : ChangesOnly id before middle)
    (hsecond : ChangesOnly id middle after) : ChangesOnly id before after where
  skeleton_eq := hsecond.skeleton_eq.trans hfirst.skeleton_eq
  sizeObserver_eq := hsecond.sizeObserver_eq.trans hfirst.sizeObserver_eq
  view_eq other hother := (hsecond.view_eq other hother).trans (hfirst.view_eq other hother)

theorem ChangesOnly.foldl {α : Type} {step : Document → α → Document} (items : List α)
    (doc : Document) (hstep : ∀ doc item, ChangesOnly id doc (step doc item)) :
    ChangesOnly id doc (items.foldl step doc) := by
  induction items generalizing doc with
  | nil => exact ChangesOnly.refl id doc
  | cons item rest ih => exact (hstep doc item).trans (ih (step doc item))

theorem view_update_of_ne (doc : Document) (change : Element → Element) (hother : other ≠ id) :
    (doc.update id change).view other = doc.view other := by
  have helement : (doc.update id change).element? other = doc.element? other := by
    rw [element?_update, if_neg hother]
  rw [view, helement, view]
  cases id <;> rfl

theorem changesOnly_update (doc : Document) (id : ElementId) {change : Element → Element}
    (hparent : ∀ element, (change element).parent = element.parent)
    (hchildren : ∀ element, (change element).children = element.children) :
    ChangesOnly id doc (doc.update id change) where
  skeleton_eq := skeleton_update doc id hparent hchildren
  sizeObserver_eq := sizeObserver_update doc id change
  view_eq _ hother := view_update_of_ne doc change hother

theorem changesOnly_addClass (doc : Document) (id : ElementId) (name : Text) :
    ChangesOnly id doc (doc.addClass id name) :=
  changesOnly_update doc id (fun _ => rfl) (fun _ => rfl)

theorem changesOnly_removeClass (doc : Document) (id : ElementId) (name : Text) :
    ChangesOnly id doc (doc.removeClass id name) :=
  changesOnly_update doc id (fun _ => rfl) (fun _ => rfl)

theorem changesOnly_setStyle (doc : Document) (id : ElementId) (property value : Text) :
    ChangesOnly id doc (doc.setStyle id property value) :=
  changesOnly_update doc id (fun _ => rfl) (fun _ => rfl)

theorem changesOnly_removeStyle (doc : Document) (id : ElementId) (property : Text) :
    ChangesOnly id doc (doc.removeStyle id property) :=
  changesOnly_update doc id (fun _ => rfl) (fun _ => rfl)

theorem changesOnly_observeSize (doc : Document) (id : ElementId) :
    ChangesOnly id doc (doc.observeSize id) := by
  unfold observeSize
  split
  · exact ChangesOnly.refl id doc
  · refine ⟨rfl, rfl, fun other hother => ?_⟩
    simp [view, element?, hother]

theorem changesOnly_unobserveSize (doc : Document) (id : ElementId) :
    ChangesOnly id doc (doc.unobserveSize id) := by
  refine ⟨rfl, rfl, fun other hother => ?_⟩
  simp [view, unobserveSize, element?, hother]

theorem changesOnly_observeIntersection (doc : Document) (id : ElementId) (threshold : Binary64) :
    ChangesOnly id doc (doc.observeIntersection id threshold) := by
  refine ⟨rfl, rfl, fun other hother => ?_⟩
  simp [view, observeIntersection, element?, OrderedMap.get?_insert, hother]

theorem changesOnly_unobserveIntersection (doc : Document) (id : ElementId) :
    ChangesOnly id doc (doc.unobserveIntersection id) := by
  refine ⟨rfl, rfl, fun other hother => ?_⟩
  simp [view, unobserveIntersection, element?, OrderedMap.get?_erase, hother]

end Document

namespace Compiler

@[simp]
theorem breakpoints_compile (compiler : Compiler) (name : Text) :
    (compiler.compile name).breakpoints = compiler.breakpoints := by
  unfold compile
  split <;> rfl

@[simp]
theorem breakpoints_inlineStyle (compiler : Compiler) (name : Text) :
    (compiler.inlineStyle name).1.breakpoints = compiler.breakpoints := by
  unfold inlineStyle
  split <;> rfl

end Compiler

namespace Page

variable {id other : ElementId} {before middle after : Page}

/-- What stays while a page serves its elements. -/
structure Setting where
  skeleton : List (Option ElementId × List ElementId)
  sizeObserver : Bool
  breakpoints : Breakpoints
  now : Nat

def setting (page : Page) : Setting :=
  ⟨page.document.skeleton, page.document.sizeObserver, page.compiler.breakpoints, page.now⟩

/-- Everything that a page keeps of one element. -/
structure ElementView where
  document : Document.ElementView
  container : Option ContainerState
  observed : Bool
  scheduled : Option (List Text)
  queued : List DeferredClass

def view (page : Page) (id : ElementId) : ElementView :=
  ⟨page.document.view id, page.container? id, page.isObserved id, page.scheduled.get? id,
    page.queue.filter fun task => task.target = id⟩

/-- A change of a page that is about one element only. -/
structure ChangesOnly (id : ElementId) (before after : Page) : Prop where
  setting_eq : after.setting = before.setting
  view_eq : ∀ other, other ≠ id → after.view other = before.view other

theorem ChangesOnly.refl (id : ElementId) (page : Page) : ChangesOnly id page page :=
  ⟨rfl, fun _ _ => rfl⟩

theorem ChangesOnly.trans (hfirst : ChangesOnly id before middle)
    (hsecond : ChangesOnly id middle after) : ChangesOnly id before after where
  setting_eq := hsecond.setting_eq.trans hfirst.setting_eq
  view_eq other hother := (hsecond.view_eq other hother).trans (hfirst.view_eq other hother)

theorem ChangesOnly.foldl {α : Type} {step : Page → α → Page} (items : List α) (page : Page)
    (hstep : ∀ page item, ChangesOnly id page (step page item)) :
    ChangesOnly id page (items.foldl step page) := by
  induction items generalizing page with
  | nil => exact ChangesOnly.refl id page
  | cons item rest ih => exact (hstep page item).trans (ih (step page item))

theorem changesOnly_withDocument {page : Page} {change : Document → Document}
    (hchange : Document.ChangesOnly id page.document (change page.document)) :
    ChangesOnly id page (page.withDocument change) where
  setting_eq := by
    simp only [setting, withDocument, hchange.skeleton_eq, hchange.sizeObserver_eq]
  view_eq other hother := by
    rw [view, view, withDocument, hchange.view_eq other hother]
    rfl

theorem changesOnly_withCompiler {page : Page} {change : Compiler → Compiler} (id : ElementId)
    (hchange : (change page.compiler).breakpoints = page.compiler.breakpoints) :
    ChangesOnly id page (page.withCompiler change) where
  setting_eq := by simp only [setting, withCompiler, hchange]
  view_eq _ _ := rfl

/-- A page whose container states differ for one element only. -/
theorem changesOnly_withContainers {page : Page} {containers : OrderedMap ElementId ContainerState}
    (hcontainers : ∀ other, other ≠ id → containers.get? other = page.containers.get? other) :
    ChangesOnly id page { page with containers } where
  setting_eq := rfl
  view_eq other hother := by
    simp only [view, container?, hcontainers other hother]
    rfl

theorem changesOnly_updateContainer (page : Page) (id : ElementId)
    (change : ContainerState → ContainerState) :
    ChangesOnly id page (page.updateContainer id change) := by
  unfold updateContainer
  split
  · refine changesOnly_withContainers fun other hother => ?_
    rw [OrderedMap.get?_insert, if_neg hother]
  · exact ChangesOnly.refl id page

theorem changesOnly_releaseStyles (page : Page) (id : ElementId) (properties : List Text) :
    ChangesOnly id page (page.releaseStyles id properties) := by
  refine changesOnly_withDocument (Document.ChangesOnly.foldl properties _ fun doc property => ?_)
  split
  · exact Document.changesOnly_setStyle doc id property _
  · exact Document.changesOnly_removeStyle doc id property

theorem changesOnly_teardown (page : Page) (id : ElementId) :
    ChangesOnly id page (page.teardown id) := by
  unfold teardown
  split
  · have hobserved : ChangesOnly id page (page.withDocument fun doc => doc.unobserveSize id) :=
      changesOnly_withDocument (Document.changesOnly_unobserveSize page.document id)
    refine hobserved.trans (changesOnly_withContainers fun other hother => ?_)
    rw [OrderedMap.get?_erase, if_neg hother]
    rfl
  · exact ChangesOnly.refl id page

theorem changesOnly_updateCondition (page : Page) (id : ElementId) (token : Text)
    (change : Condition → Condition) :
    ChangesOnly id page (page.updateCondition id token change) :=
  changesOnly_updateContainer page id _

theorem changesOnly_deactivate (page : Page) (id : ElementId) (token : Text) :
    ChangesOnly id page (page.deactivate id token) := by
  unfold deactivate
  split
  · exact (changesOnly_updateCondition page id token _).trans (changesOnly_releaseStyles _ id _)
  · exact ChangesOnly.refl id page

theorem changesOnly_activate (page : Page) (id : ElementId) (token : Text) :
    ChangesOnly id page (page.activate id token) := by
  unfold activate
  split
  · rename_i condition _
    have hcompiled : ChangesOnly id page
        (page.withCompiler fun compiler => (compiler.inlineStyle condition.token.payload).1) :=
      changesOnly_withCompiler id (Compiler.breakpoints_inlineStyle _ _)
    refine (hcompiled.trans (changesOnly_withDocument ?_)).trans
      (changesOnly_updateCondition _ id token _)
    exact Document.ChangesOnly.foldl _ _ fun doc (property, value) =>
      Document.changesOnly_setStyle doc id property value
  · exact ChangesOnly.refl id page

theorem changesOnly_evaluate (page : Page) (id : ElementId) (width : Binary64) :
    ChangesOnly id page (page.evaluate id width) :=
  (ChangesOnly.foldl _ page fun page token => changesOnly_deactivate page id token).trans
    (ChangesOnly.foldl _ _ fun page token => changesOnly_activate page id token)

theorem changesOnly_resize (page : Page) (id : ElementId) (width : Binary64) :
    ChangesOnly id page (page.resize id width) := by
  unfold resize
  split
  · exact (changesOnly_updateContainer page id _).trans (changesOnly_evaluate _ id width)
  · exact ChangesOnly.refl id page

theorem changesOnly_dropCondition (page : Page) (id : ElementId) (token : Text) :
    ChangesOnly id page (page.dropCondition id token) := by
  unfold dropCondition
  split
  · exact (changesOnly_updateContainer page id _).trans (changesOnly_releaseStyles _ id _)
  · exact ChangesOnly.refl id page

theorem changesOnly_track (page : Page) (id : ElementId) : ChangesOnly id page (page.track id) := by
  unfold track
  split
  · exact ChangesOnly.refl id page
  · have hobserving : ChangesOnly id page (page.withDocument fun doc => doc.observeSize id) :=
      changesOnly_withDocument (Document.changesOnly_observeSize page.document id)
    dsimp only
    split
    · exact hobserving
    · refine hobserving.trans (changesOnly_withContainers fun other hother => ?_)
      rw [OrderedMap.get?_insert, if_neg hother]

theorem changesOnly_syncConditions (page : Page) (id : ElementId)
    (queries : List (Text × ContainerToken)) :
    ChangesOnly id page (page.syncConditions id queries) := by
  have hextended : ∀ stale : List Text, ChangesOnly id page
      ((stale.foldl (fun page text => page.dropCondition id text) page).addConditions id queries) :=
    fun stale =>
      (ChangesOnly.foldl stale page fun page text => changesOnly_dropCondition page id text).trans
        (changesOnly_updateContainer _ id _)
  unfold syncConditions
  dsimp only
  split
  · exact (hextended _).trans (changesOnly_teardown _ id)
  · split
    · split
      · exact (hextended _).trans (changesOnly_evaluate _ id _)
      · exact hextended _
    · exact hextended _

theorem changesOnly_sync (page : Page) (id : ElementId) (tokens : List Text) :
    ChangesOnly id page (page.sync id tokens) := by
  unfold sync
  dsimp only
  split
  · exact ChangesOnly.refl id page
  · split
    · exact changesOnly_withCompiler id rfl
    · split
      · exact (changesOnly_track page id).trans (changesOnly_syncConditions _ id _)
      · exact changesOnly_track page id

theorem changesOnly_withObserved {page : Page} {observed : List ElementId}
    (hobserved : ∀ other, other ≠ id → observed.contains other = page.isObserved other) :
    ChangesOnly id page { page with observed } where
  setting_eq := rfl
  view_eq other hother := by
    simp only [view, isObserved, hobserved other hother]
    rfl

theorem changesOnly_observe (page : Page) (id : ElementId) :
    ChangesOnly id page (page.observe id) := by
  unfold observe
  split
  · exact ChangesOnly.refl id page
  · have hregistered : ChangesOnly id page
        (page.withDocument fun doc => doc.observeIntersection id visibilityThreshold) :=
      changesOnly_withDocument (Document.changesOnly_observeIntersection page.document id _)
    refine hregistered.trans (changesOnly_withObserved fun other hother => ?_)
    split <;> simp [isObserved, withDocument, hother]

theorem changesOnly_unobserve (page : Page) (id : ElementId) :
    ChangesOnly id page (page.unobserve id) := by
  unfold unobserve
  split
  · have hregistered : ChangesOnly id page
        (page.withDocument fun doc => doc.unobserveIntersection id) :=
      changesOnly_withDocument (Document.changesOnly_unobserveIntersection page.document id)
    have hsilent : ChangesOnly id page
        { page with
          document := page.document.unobserveIntersection id
          observed := page.observed.filter (· ≠ id) } := by
      refine hregistered.trans (changesOnly_withObserved fun other hother => ?_)
      simp [isObserved, withDocument, hother]
    dsimp only
    split
    · exact hsilent.trans (changesOnly_withDocument (Document.changesOnly_removeClass _ id _))
    · exact hsilent
  · exact ChangesOnly.refl id page

theorem changesOnly_intersect (page : Page) (id : ElementId) (ratio : Binary64) :
    ChangesOnly id page (page.intersect id ratio) := by
  unfold intersect
  split
  · exact ChangesOnly.refl id page
  · split
    · exact changesOnly_withDocument (Document.changesOnly_addClass page.document id _)
    · exact changesOnly_withDocument (Document.changesOnly_removeClass page.document id _)

theorem changesOnly_defer (page : Page) (id : ElementId) (name : Text) (now : Nat) :
    ChangesOnly id page (page.defer id name now) := by
  unfold defer
  split
  · exact ChangesOnly.refl id page
  · dsimp only
    split
    · exact ChangesOnly.refl id page
    · refine ⟨rfl, fun other hother => ?_⟩
      simp [view, container?, isObserved, OrderedMap.get?_insert, hother, Ne.symm hother]

theorem changesOnly_forget (page : Page) (id : ElementId) :
    ChangesOnly id page (page.forget id) := by
  refine (changesOnly_unobserve page id).trans ⟨rfl, fun other hother => ?_⟩
  have hqueue : ∀ tasks : List DeferredClass,
      (tasks.filter fun task => task.target ≠ id).filter (fun task => task.target = other) =
        tasks.filter fun task => task.target = other := by
    intro tasks
    rw [List.filter_filter]
    refine List.filter_congr fun task _ => ?_
    by_cases htarget : task.target = other <;> simp [htarget, hother]
  simp only [view, forget, container?, isObserved, OrderedMap.get?_erase, if_neg hother, hqueue]

theorem changesOnly_serveToken (page : Page) (id : ElementId) (token : Text) :
    ChangesOnly id page (page.serveToken id token) := by
  unfold serveToken
  split
  · exact ChangesOnly.refl id page
  · split
    · exact changesOnly_defer page id _ _
    · exact changesOnly_withCompiler id (Compiler.breakpoints_compile _ _)

theorem changesOnly_process (page : Page) (id : ElementId) :
    ChangesOnly id page (page.process id) := by
  have hserved : ∀ tokens : List Text, ChangesOnly id page
      (tokens.foldl (fun page token => page.serveToken id token) page) := fun tokens =>
    ChangesOnly.foldl tokens page fun page token => changesOnly_serveToken page id token
  unfold process
  dsimp only
  split
  · exact ((hserved _).trans (changesOnly_observe _ id)).trans (changesOnly_sync _ id _)
  · exact ((hserved _).trans (changesOnly_unobserve _ id)).trans (changesOnly_sync _ id _)

theorem changesOnly_releaseElement (page : Page) (id : ElementId) :
    ChangesOnly id page (page.releaseElement id) :=
  (changesOnly_teardown page id).trans (changesOnly_forget _ id)

end Page

end UtilityCss
