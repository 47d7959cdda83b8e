import UtilityCss.Proofs.Document.Record
import UtilityCss.Proofs.Page.Processing

/-!
What happens to a page between two batches of changes.  Nothing of it registers an element or
forgets one, so all that can go wrong in the meantime is that a link or a class attribute has
changed.
-/

namespace UtilityCss

namespace Page

variable {page before middle after : Page} {id : ElementId}

/-- Two pages with the same elements registered for the same conditions. -/
structure SameRegistrations (before after : Page) : Prop where
  sizeObserver_eq : after.document.sizeObserver = before.document.sizeObserver
  breakpoints_eq : after.compiler.breakpoints = before.compiler.breakpoints
  isTracked_eq : ∀ id, after.isTracked id = before.isTracked id
  keys_eq : ∀ id, (after.conditions id).keys = (before.conditions id).keys
  isObserved_eq : ∀ id, after.isObserved id = before.isObserved id
  idle : ∀ id, before.Idle id → after.Idle id

theorem SameRegistrations.trans (hfirst : SameRegistrations before middle)
    (hsecond : SameRegistrations middle after) : SameRegistrations before after where
  sizeObserver_eq := hsecond.sizeObserver_eq.trans hfirst.sizeObserver_eq
  breakpoints_eq := hsecond.breakpoints_eq.trans hfirst.breakpoints_eq
  isTracked_eq id := (hsecond.isTracked_eq id).trans (hfirst.isTracked_eq id)
  keys_eq id := (hsecond.keys_eq id).trans (hfirst.keys_eq id)
  isObserved_eq id := (hsecond.isObserved_eq id).trans (hfirst.isObserved_eq id)
  idle id hidle := hsecond.idle id (hfirst.idle id hidle)

/-- A page that keeps its containers and its observed elements, and queues nothing new. -/
theorem sameRegistrations_of_eq (hobserver : after.document.sizeObserver =
      before.document.sizeObserver)
    (hbreakpoints : after.compiler.breakpoints = before.compiler.breakpoints)
    (hcontainers : after.containers = before.containers)
    (hobserved : after.observed = before.observed)
    (hscheduled : after.scheduled = before.scheduled) (hqueue : ∀ task ∈ after.queue,
      task ∈ before.queue) : SameRegistrations before after where
  sizeObserver_eq := hobserver
  breakpoints_eq := hbreakpoints
  isTracked_eq id := by rw [isTracked, hcontainers, isTracked]
  keys_eq id := by rw [conditions, container?, hcontainers]; rfl
  isObserved_eq id := by rw [isObserved, hobserved, isObserved]
  idle id hidle :=
    hidle.of_eq (by rw [isTracked, hcontainers, isTracked])
      (by rw [isObserved, hobserved, isObserved]) (by rw [hscheduled]) hqueue

theorem SameRegistrations.refl (page : Page) : SameRegistrations page page :=
  sameRegistrations_of_eq rfl rfl rfl rfl rfl fun _ htask => htask

theorem sameRegistrations_withDocument {change : Document → Document}
    (hobserver : (change page.document).sizeObserver = page.document.sizeObserver) :
    SameRegistrations page (page.withDocument change) :=
  sameRegistrations_of_eq hobserver rfl rfl rfl rfl fun _ htask => htask

theorem sameRegistrations_of_changesOnly (hchange : ChangesOnly id before after)
    (hbystanders : after.bystanders = before.bystanders)
    (htracked : after.isTracked id = before.isTracked id)
    (hkeys : (after.conditions id).keys = (before.conditions id).keys) :
    SameRegistrations before after := by
  have hcontainer : ∀ {probe}, probe ≠ id → after.container? probe = before.container? probe :=
    fun hprobe => congrArg ElementView.container (hchange.view_eq _ hprobe)
  have hobserved : after.observed = before.observed := congrArg Bystanders.observed hbystanders
  have hscheduled : after.scheduled = before.scheduled := congrArg Bystanders.scheduled hbystanders
  have hqueue : after.queue = before.queue := congrArg Bystanders.queue hbystanders
  have htrackedAll : ∀ probe, after.isTracked probe = before.isTracked probe := by
    intro probe
    by_cases hprobe : probe = id
    · rw [hprobe, htracked]
    · exact congrArg Option.isSome (hcontainer hprobe)
  have hobservedAll : ∀ probe, after.isObserved probe = before.isObserved probe := by
    intro probe
    rw [isObserved, hobserved, isObserved]
  refine ⟨congrArg Setting.sizeObserver hchange.setting_eq,
    congrArg Setting.breakpoints hchange.setting_eq, htrackedAll, fun probe => ?_, hobservedAll,
    fun probe hidle => hidle.of_eq (htrackedAll probe) (hobservedAll probe) ?_ ?_⟩
  · by_cases hprobe : probe = id
    · rw [hprobe, hkeys]
    · rw [conditions_eq, hcontainer hprobe, ← conditions_eq]
  · rw [hscheduled]
  · rw [hqueue]
    exact fun _ htask => htask

/-- An element that agreed with its class tokens still does, unless its class attribute has
changed. -/
theorem Agrees.of_sameRegistrations (hagrees : before.Agrees id)
    (hsame : SameRegistrations before after)
    (hname : after.document.className id = before.document.className id) : after.Agrees id := by
  have hdemand : after.demand id = before.demand id := by
    rw [demand, demand, hsame.sizeObserver_eq, hsame.breakpoints_eq, Document.classes, hname]
    rfl
  refine ⟨?_, fun token => ?_, ?_⟩
  · rw [hsame.isTracked_eq, hdemand]
    exact hagrees.isTracked_iff
  · rw [hsame.keys_eq, hdemand]
    exact hagrees.mem_keys_iff token
  · rw [hsame.isObserved_eq, hdemand]
    exact hagrees.isObserved_eq

theorem sameRegistrations_resize (page : Page) (id : ElementId) (width : Binary64) :
    SameRegistrations page (page.resize id width) := by
  cases htracked : page.isTracked id with
  | false =>
      rw [resize_of_not_tracked htracked]
      exact SameRegistrations.refl page
  | true =>
      refine sameRegistrations_of_changesOnly (changesOnly_resize page id width)
        (bystanders_resize page id width) ?_ ?_
      · rw [resize_of_tracked htracked, isTracked_evaluate, reportWidth, isTracked_updateContainer]
      · rw [resize_of_tracked htracked, keys_evaluate, conditions_reportWidth]

theorem sameRegistrations_intersect (page : Page) (id : ElementId) (ratio : Binary64) :
    SameRegistrations page (page.intersect id ratio) := by
  unfold intersect
  split
  · exact SameRegistrations.refl page
  · split
    · exact sameRegistrations_withDocument (Document.sizeObserver_update _ id _)
    · exact sameRegistrations_withDocument (Document.sizeObserver_update _ id _)

theorem sameRegistrations_handleViewport (page : Page) (width : Binary64) :
    SameRegistrations page (page.handleViewport width) := by
  unfold handleViewport
  split
  · refine sameRegistrations_withDocument
      (foldl_eq_of_step Document.sizeObserver (fun doc entry => ?_) _ _)
    dsimp only
    split
    · exact Document.sizeObserver_update doc Document.root _
    · exact Document.sizeObserver_update doc Document.root _
  · exact SameRegistrations.refl page

theorem sameRegistrations_withCompiler {change : Compiler → Compiler}
    (hbreakpoints : (change page.compiler).breakpoints = page.compiler.breakpoints) :
    SameRegistrations page (page.withCompiler change) :=
  sameRegistrations_of_eq rfl hbreakpoints rfl rfl rfl fun _ htask => htask

theorem sameRegistrations_foldl {α : Type} {step : Page → α → Page}
    (hstep : ∀ page item, SameRegistrations page (step page item)) (items : List α) (page : Page) :
    SameRegistrations page (items.foldl step page) := by
  induction items generalizing page with
  | nil => exact SameRegistrations.refl page
  | cons item rest ih => exact (hstep page item).trans (ih (step page item))

theorem sameRegistrations_applyDue (page : Page) (now : Nat) :
    SameRegistrations page (page.applyDue now).1 := by
  refine sameRegistrations_of_eq
    (foldl_eq_of_step Document.sizeObserver (fun doc task => ?_) _ _) rfl rfl rfl rfl
    fun task htask => (List.mem_filter.mp htask).1
  exact Document.sizeObserver_update doc task.target _

theorem sameRegistrations_advanceTime (page : Page) (time : Nat) :
    SameRegistrations page (page.advanceTime time) := by
  unfold advanceTime
  dsimp only
  have hclock : SameRegistrations page { page with now := max page.now time } :=
    sameRegistrations_of_eq rfl rfl rfl rfl rfl fun _ htask => htask
  refine (hclock.trans (sameRegistrations_applyDue _ _)).trans
    (sameRegistrations_foldl (fun page task => ?_) _ _)
  exact sameRegistrations_withCompiler (Compiler.breakpoints_compile _ _)

end Page

/-- What can happen to a page between two batches: an edit of its document, a report of its host,
an edit of its compiler. -/
inductive Event where
  | edit (operation : Document.Operation)
  | resize (id : ElementId) (width : Binary64)
  | intersect (id : ElementId) (ratio : Binary64)
  | viewport (width : Binary64)
  | advanceTime (time : Nat)
  | editCompiler (change : Compiler → Compiler)

namespace Event

variable {page : Page} {event : Event} {events : List Event}

def apply (page : Page) : Event → Page
  | edit operation => page.withDocument fun doc => operation.apply doc
  | resize id width => page.resize id width
  | intersect id ratio => page.intersect id ratio
  | viewport width => page.handleViewport width
  | advanceTime time => page.advanceTime time
  | editCompiler change => page.withCompiler change

/-- Edits are on elements that exist, give the root no parent, and leave the breakpoints alone. -/
def Allowed (page : Page) : Event → Prop
  | edit operation => operation.Known page.document ∧ operation.SparesRoot
  | editCompiler change => (change page.compiler).breakpoints = page.compiler.breakpoints
  | _ => True

/-- What the host notes about an event; class attributes also change by what the page itself
does. -/
def records (page : Page) (event : Event) : List Record :=
  let links := match event with
    | edit operation => operation.linkRecords page.document
    | _ => []
  links ++ Document.classRecords page.document (event.apply page).document

/-- The notes on a sequence of events, in order. -/
def journal (page : Page) : List Event → List Record
  | [] => []
  | event :: rest => event.records page ++ journal (event.apply page) rest

def AllAllowed (page : Page) : List Event → Prop
  | [] => True
  | event :: rest => event.Allowed page ∧ AllAllowed (event.apply page) rest

theorem skeleton_apply (page : Page) (hedit : ∀ operation, event ≠ edit operation) :
    (event.apply page).document.skeleton = page.document.skeleton := by
  cases event with
  | edit operation => exact absurd rfl (hedit operation)
  | resize id width =>
      exact congrArg Page.Setting.skeleton (Page.changesOnly_resize page id width).setting_eq
  | intersect id ratio =>
      exact congrArg Page.Setting.skeleton (Page.changesOnly_intersect page id ratio).setting_eq
  | viewport width =>
      rw [apply, Page.handleViewport]
      split
      · refine foldl_eq_of_step Document.skeleton (fun doc entry => ?_) _ _
        dsimp only
        split
        · exact Document.skeleton_addClass doc Document.root _
        · exact Document.skeleton_removeClass doc Document.root _
      · rfl
  | advanceTime time =>
      have hcompile : ∀ (page : Page) (task : DeferredClass),
          (page.withCompiler fun compiler => compiler.compile task.name).document =
            page.document := fun _ _ => rfl
      rw [apply, Page.advanceTime]
      dsimp only
      rw [foldl_eq_of_step Page.document hcompile]
      exact foldl_eq_of_step Document.skeleton
        (fun doc (task : DeferredClass) => Document.skeleton_addClass doc task.target task.name) _ _
  | editCompiler change => rfl

theorem sameRegistrations_apply (hallowed : event.Allowed page) :
    Page.SameRegistrations page (event.apply page) := by
  cases event with
  | edit operation =>
      show Page.SameRegistrations page (page.withDocument fun doc => operation.apply doc)
      apply Page.sameRegistrations_withDocument
      exact Document.Operation.sizeObserver_apply page.document operation
  | resize id width => exact Page.sameRegistrations_resize page id width
  | intersect id ratio => exact Page.sameRegistrations_intersect page id ratio
  | viewport width => exact Page.sameRegistrations_handleViewport page width
  | advanceTime time => exact Page.sameRegistrations_advanceTime page time
  | editCompiler change => exact Page.sameRegistrations_withCompiler hallowed

theorem accounts_records (page : Page) (event : Event) :
    Document.Accounts page.document (event.apply page).document (event.records page) := by
  cases event with
  | edit operation => exact operation.accounts page.document
  | resize id width => exact Document.accounts_of_skeleton (skeleton_apply page (by simp))
  | intersect id ratio => exact Document.accounts_of_skeleton (skeleton_apply page (by simp))
  | viewport width => exact Document.accounts_of_skeleton (skeleton_apply page (by simp))
  | advanceTime time => exact Document.accounts_of_skeleton (skeleton_apply page (by simp))
  | editCompiler change => exact Document.accounts_of_skeleton (skeleton_apply page (by simp))

theorem isForest_apply (hforest : page.document.IsForest) (hallowed : event.Allowed page) :
    (event.apply page).document.IsForest := by
  cases event with
  | edit operation => exact operation.isForest_apply hforest hallowed.1
  | resize id width => exact hforest.of_skeleton (skeleton_apply page (by simp))
  | intersect id ratio => exact hforest.of_skeleton (skeleton_apply page (by simp))
  | viewport width => exact hforest.of_skeleton (skeleton_apply page (by simp))
  | advanceTime time => exact hforest.of_skeleton (skeleton_apply page (by simp))
  | editCompiler change => exact hforest.of_skeleton (skeleton_apply page (by simp))

theorem parent?_root_apply (hforest : page.document.IsForest) (hallowed : event.Allowed page)
    (hroot : page.document.parent? Document.root = none) :
    (event.apply page).document.parent? Document.root = none := by
  have hkept : (∀ operation, event ≠ edit operation) →
      (event.apply page).document.parent? Document.root = none := fun hedit =>
    (Document.parent?_eq_of_skeleton (skeleton_apply page hedit) Document.root).trans hroot
  cases event with
  | edit operation => exact Document.Operation.parent?_root_apply hforest hallowed.2 hroot
  | resize id width => exact hkept (by simp)
  | intersect id ratio => exact hkept (by simp)
  | viewport width => exact hkept (by simp)
  | advanceTime time => exact hkept (by simp)
  | editCompiler change => exact hkept (by simp)

/-- What a sequence of events leaves: a forest with the root on top, the registrations that were
there, and a journal of all that changed. -/
structure Leaves (before after : Page) (records : List Record) : Prop where
  forest : after.document.IsForest
  root_parent : after.document.parent? Document.root = none
  registrations : Page.SameRegistrations before after
  accounts : Document.Accounts before.document after.document records

theorem leaves_foldl (hforest : page.document.IsForest)
    (hroot : page.document.parent? Document.root = none) (hallowed : AllAllowed page events) :
    Leaves page (events.foldl apply page) (journal page events) := by
  induction events generalizing page with
  | nil => exact ⟨hforest, hroot, Page.SameRegistrations.refl page, Document.Accounts.refl _⟩
  | cons event rest ih =>
      obtain ⟨hfirst, hrest⟩ := hallowed
      have hleaves := ih (isForest_apply hforest hfirst) (parent?_root_apply hforest hfirst hroot)
        hrest
      exact ⟨hleaves.forest, hleaves.root_parent,
        (sameRegistrations_apply hfirst).trans hleaves.registrations,
        (accounts_records page event).trans hleaves.accounts⟩

end Event

end UtilityCss
