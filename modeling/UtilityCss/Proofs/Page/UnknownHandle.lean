import UtilityCss.Proofs.Document.UnknownHandle
import UtilityCss.Proofs.Page.Observation

/-!
Handles that refer to no element, wherever they are passed in.  A document and a page keep lists of
handles beside the elements: lists of children, what the host observes, and the bookkeeping of the
page.  Some calls enter a handle there without looking up its element; all the others leave the lists
as they are, unless such a call has been about the same handle before.
-/

namespace UtilityCss

namespace Document

variable {doc before after : Document} {id : ElementId} {operation : Operation}

/-- The lists of handles that go with a document. -/
structure HandleLists where
  children : ElementId → List ElementId
  observers : Observers

def handleLists (doc : Document) : HandleLists :=
  ⟨doc.children, doc.observers⟩

/-- The host observes nothing of a handle. -/
structure Unobserved (doc : Document) (id : ElementId) : Prop where
  not_size : id ∉ doc.sizeObserved
  not_intersection : doc.intersections.get? id = none

/-- Whether an operation enters a handle in one of the lists although it refers to no element: as a
child of an element that exists, or at the host. -/
def Operation.Enters (doc : Document) (id : ElementId) : Operation → Prop
  | .appendChild parent child => child = id ∧ doc.contains parent = true
  | .observeSize target => target = id ∧ id ∉ doc.sizeObserved
  | .observeIntersection target threshold =>
      target = id ∧ doc.intersections.get? id ≠ some threshold
  | _ => False

theorem Unobserved.of_observers (hunobserved : before.Unobserved id)
    (hobservers : after.observers = before.observers) : after.Unobserved id := by
  have hsizes : after.sizeObserved = before.sizeObserved := congrArg Observers.sizes hobservers
  have hintersections : after.intersections = before.intersections :=
    congrArg Observers.intersections hobservers
  refine ⟨?_, ?_⟩
  · rw [hsizes]
    exact hunobserved.not_size
  · rw [hintersections]
    exact hunobserved.not_intersection

theorem Unobserved.of_view (hunobserved : before.Unobserved id)
    (hview : after.view id = before.view id) : after.Unobserved id := by
  have hsize : after.sizeObserved.contains id = before.sizeObserved.contains id :=
    congrArg ElementView.sizeObserved hview
  refine ⟨?_, (congrArg ElementView.threshold hview).trans hunobserved.not_intersection⟩
  rw [← List.contains_iff_mem, hsize, List.contains_iff_mem]
  exact hunobserved.not_size

/-- What an operation tells the host is about the handle it is given. -/
theorem Unobserved.apply (hunobserved : doc.Unobserved id) (hhandle : id ∉ operation.handles) :
    (operation.apply doc).Unobserved id := by
  have hview : ∀ {target}, id ∉ [target] → ChangesOnly target doc (operation.apply doc) →
      (operation.apply doc).Unobserved id := fun htarget hchange =>
    hunobserved.of_view (hchange.view_eq id (mt List.mem_singleton.mpr htarget))
  have hspared : operation.SparesObservers → (operation.apply doc).Unobserved id := fun hspares =>
    hunobserved.of_observers (Operation.observers_apply hspares doc)
  cases operation with
  | observeSize target => exact hview hhandle (changesOnly_observeSize doc target)
  | unobserveSize target => exact hview hhandle (changesOnly_unobserveSize doc target)
  | observeIntersection target threshold =>
      exact hview hhandle (changesOnly_observeIntersection doc target threshold)
  | unobserveIntersection target => exact hview hhandle (changesOnly_unobserveIntersection doc target)
  | _ => exact hspared trivial

/-- An operation that does not enter the handle leaves the lists as they are.  Apart from an element
that `append` creates it changes nothing at all. -/
theorem handleLists_apply (hid : doc.contains id = false) (hunobserved : doc.Unobserved id)
    (hhandle : id ∈ operation.handles) (henters : ¬ operation.Enters doc id) :
    (operation.apply doc).handleLists = doc.handleLists := by
  have hupdate : ∀ {target}, id ∈ [target] → ∀ change,
      (doc.update target change).handleLists = doc.handleLists := by
    intro target htarget change
    rw [← List.mem_singleton.mp htarget, update_of_not_contains hid]
  cases operation with
  | create className => cases hhandle
  | append parent className =>
      have hparent : doc.contains parent = false := List.mem_singleton.mp hhandle ▸ hid
      have hspares : (Operation.append parent className).SparesObservers := trivial
      rw [handleLists, Operation.observers_apply hspares doc, Operation.apply,
        children_append_of_not_contains hparent, handleLists]
  | appendChild parent child =>
      have hparent : doc.contains parent = false := by
        rcases List.mem_cons.mp hhandle with rfl | hchild
        · exact hid
        · rw [Bool.eq_false_iff]
          exact fun hparent => henters ⟨(List.mem_singleton.mp hchild).symm, hparent⟩
      rw [Operation.apply, appendChild_of_not_contains_parent hparent]
  | detach target =>
      rw [Operation.apply, ← List.mem_singleton.mp hhandle, detach_of_not_contains hid]
  | setClassName target className => exact hupdate hhandle _
  | addClass target name => exact hupdate hhandle _
  | removeClass target name => exact hupdate hhandle _
  | setStyle target property value => exact hupdate hhandle _
  | removeStyle target property => exact hupdate hhandle _
  | observeSize target =>
      exact absurd ⟨(List.mem_singleton.mp hhandle).symm, hunobserved.not_size⟩ henters
  | unobserveSize target =>
      have hsizes : doc.sizeObserved.filter (· ≠ target) = doc.sizeObserved := by
        rw [← List.mem_singleton.mp hhandle, List.filter_eq_self]
        intro other hother
        rw [decide_eq_true_eq]
        rintro rfl
        exact hunobserved.not_size hother
      rw [Operation.apply, unobserveSize, hsizes]
  | observeIntersection target threshold =>
      refine absurd ⟨(List.mem_singleton.mp hhandle).symm, ?_⟩ henters
      rw [hunobserved.not_intersection]
      exact (Option.some_ne_none _).symm
  | unobserveIntersection target =>
      rw [Operation.apply, unobserveIntersection, ← List.mem_singleton.mp hhandle,
        OrderedMap.erase_of_get?_eq_none hunobserved.not_intersection]

theorem handleLists_ne_of_enters (hparents : doc.ParentsExist) (hid : doc.contains id = false)
    (henters : operation.Enters doc id) :
    (operation.apply doc).handleLists ≠ doc.handleLists := by
  intro hlists
  cases operation with
  | appendChild parent child =>
      obtain ⟨rfl, hparent⟩ := henters
      have hchildren := congrFun (congrArg HandleLists.children hlists) parent
      change (doc.appendChild parent child).children parent = doc.children parent at hchildren
      rw [hparents.children_appendChild hparent hid] at hchildren
      exact List.cons_ne_nil child [] (List.append_right_eq_self.mp hchildren)
  | observeSize target =>
      obtain ⟨rfl, hsize⟩ := henters
      have hsizes := congrArg (fun lists => lists.observers.sizes) hlists
      change (doc.observeSize target).sizeObserved = doc.sizeObserved at hsizes
      rw [Document.observeSize, if_neg hsize] at hsizes
      exact List.cons_ne_nil target [] (List.append_right_eq_self.mp hsizes)
  | observeIntersection target threshold =>
      obtain ⟨rfl, hthreshold⟩ := henters
      have hintersections := congrArg (fun lists => lists.observers.intersections.get? target) hlists
      change (doc.intersections.insert target threshold).get? target =
        doc.intersections.get? target at hintersections
      rw [OrderedMap.get?_insert, if_pos rfl] at hintersections
      exact hthreshold hintersections.symm
  | _ => exact henters

end Document

namespace Page

variable {page before after : Page} {id : ElementId} {tokens : List Text}

/-- The bookkeeping of a page: container states, observed elements and deferred classes. -/
structure Registrations where
  containers : OrderedMap ElementId ContainerState
  observed : List ElementId
  scheduled : OrderedMap ElementId (List Text)
  queue : List DeferredClass

def registrations (page : Page) : Registrations :=
  ⟨page.containers, page.observed, page.scheduled, page.queue⟩

/-- Wherever a page and its document write handles down. -/
structure Books where
  lists : Document.HandleLists
  registrations : Registrations

def books (page : Page) : Books :=
  ⟨page.document.handleLists, page.registrations⟩

/-- Neither the page nor the host keeps anything of a handle. -/
structure Unregistered (page : Page) (id : ElementId) : Prop where
  idle : page.Idle id
  unobserved : page.document.Unobserved id

theorem Idle.of_registrations (hidle : before.Idle id)
    (hregistrations : after.registrations = before.registrations) : after.Idle id := by
  have hcontainers : after.containers = before.containers :=
    congrArg Registrations.containers hregistrations
  have hobserved : after.observed = before.observed :=
    congrArg Registrations.observed hregistrations
  have hscheduled : after.scheduled = before.scheduled :=
    congrArg Registrations.scheduled hregistrations
  have hqueue : after.queue = before.queue := congrArg Registrations.queue hregistrations
  refine hidle.of_eq ?_ ?_ ?_ ?_
  · rw [isTracked, hcontainers, isTracked]
  · rw [isObserved, hobserved, isObserved]
  · rw [hscheduled]
  · rw [hqueue]
    exact fun _ htask => htask

theorem Unregistered.of_books (hunregistered : before.Unregistered id)
    (hbooks : after.books = before.books) : after.Unregistered id :=
  ⟨hunregistered.idle.of_registrations (congrArg Books.registrations hbooks),
    hunregistered.unobserved.of_observers (congrArg (fun books => books.lists.observers) hbooks)⟩

theorem unregistered_new (sizeObserver : Bool) (compiler : Compiler) (id : ElementId) :
    ({ document := { sizeObserver }, compiler } : Page).Unregistered id :=
  ⟨⟨rfl, rfl, rfl, fun _ htask => absurd htask List.not_mem_nil⟩, ⟨List.not_mem_nil, rfl⟩⟩

/-- The null handle gets as far as the host: it is asked to observe the size, and then there is
nowhere to keep the conditions. -/
theorem sync_null (htracked : page.isTracked .null = false)
    (hobserver : page.document.sizeObserver = true) (hnames : containerNames tokens ≠ []) :
    page.sync .null tokens = page.withDocument fun doc => doc.observeSize .null := by
  have htrack : page.track .null = page.withDocument fun doc => doc.observeSize .null := by
    rw [track, htracked]
    rfl
  have hstill : (page.withDocument fun doc => doc.observeSize .null).isTracked .null = false :=
    htracked
  unfold sync
  dsimp only
  rw [isEmpty_containerTokens hnames, hobserver, htrack, hstill]
  rfl

theorem registrations_sync_null (htracked : page.isTracked .null = false) (tokens : List Text) :
    (page.sync .null tokens).registrations = page.registrations := by
  by_cases hnames : containerNames tokens = []
  · rw [sync_of_nothing htracked hnames]
  · cases hobserver : page.document.sizeObserver with
    | true =>
        rw [sync_null htracked hobserver hnames]
        rfl
    | false =>
        obtain ⟨change, hsync⟩ := sync_of_no_observer hobserver .null tokens
        rw [hsync]
        rfl

/-- What the bookkeeping of a page can be asked to do for an element. -/
inductive Request where
  | sync (tokens : List Text)
  | teardown
  | observe
  | unobserve
  | defer (name : Text) (now : Nat)
  | forget

namespace Request

variable {request : Request}

def apply (page : Page) (target : ElementId) : Request → Page
  | sync tokens => page.sync target tokens
  | teardown => page.teardown target
  | observe => page.observe target
  | unobserve => page.unobserve target
  | defer name now => page.defer target name now
  | forget => page.forget target

/-- Whether a request enters its target in the books.  The null handle cannot be a key of what the
page keeps; what is left of it is what the host is asked for. -/
def Enters (page : Page) (id : ElementId) : Request → Prop
  | sync tokens =>
      page.document.sizeObserver = true ∧ containerNames tokens ≠ [] ∧
        page.isTracked id = false ∧ (id = .null → id ∉ page.document.sizeObserved)
  | observe =>
      page.isObserved id = false ∧
        (id = .null → page.document.intersections.get? id ≠ some visibilityThreshold)
  | defer name _ => id ≠ .null ∧ name ∉ (page.scheduled.get? id).getD []
  | teardown | unobserve | forget => False

theorem changesOnly_apply (page : Page) (target : ElementId) (request : Request) :
    ChangesOnly target page (request.apply page target) := by
  cases request with
  | sync tokens => exact changesOnly_sync page target tokens
  | teardown => exact changesOnly_teardown page target
  | observe => exact changesOnly_observe page target
  | unobserve => exact changesOnly_unobserve page target
  | defer name now => exact changesOnly_defer page target name now
  | forget => exact changesOnly_forget page target

theorem books_apply (hunregistered : page.Unregistered id) (henters : ¬ request.Enters page id) :
    (request.apply page id).books = page.books := by
  have hidle := hunregistered.idle
  cases request with
  | sync tokens =>
      by_cases hnames : containerNames tokens = []
      · rw [apply, sync_of_nothing hidle.not_tracked hnames]
      · cases hobserver : page.document.sizeObserver with
        | true =>
            exact absurd ⟨hobserver, hnames, hidle.not_tracked,
              fun _ => hunregistered.unobserved.not_size⟩ henters
        | false =>
            obtain ⟨change, hsync⟩ := sync_of_no_observer hobserver id tokens
            rw [apply, hsync]
            rfl
  | teardown => rw [apply, teardown_of_not_tracked hidle.not_tracked]
  | observe =>
      refine absurd ⟨hidle.not_observed, fun _ => ?_⟩ henters
      rw [hunregistered.unobserved.not_intersection]
      exact (Option.some_ne_none _).symm
  | unobserve => rw [apply, unobserve_of_not_observed hidle.not_observed]
  | defer name now =>
      by_cases hid : id = .null
      · rw [apply, Page.defer, if_pos hid]
      · refine absurd ⟨hid, ?_⟩ henters
        rw [hidle.not_scheduled]
        exact List.not_mem_nil
  | forget => rw [apply, forget_of_idle hidle]

theorem books_ne_of_enters (henters : request.Enters page id) :
    (request.apply page id).books ≠ page.books := by
  intro hbooks
  cases request with
  | sync tokens =>
      obtain ⟨hobserver, hnames, htracked, hnull⟩ := henters
      by_cases hid : id = .null
      · subst hid
        have hsizes := congrArg (fun books => books.lists.observers.sizes) hbooks
        rw [apply, sync_null htracked hobserver hnames] at hsizes
        change (page.document.observeSize .null).sizeObserved = page.document.sizeObserved at hsizes
        rw [Document.observeSize, if_neg (hnull rfl)] at hsizes
        exact List.cons_ne_nil _ [] (List.append_right_eq_self.mp hsizes)
      · have hcontainers := congrArg (fun books => books.registrations.containers) hbooks
        have hafter := isTracked_sync hid hobserver tokens
        rw [isEmpty_containerTokens hnames] at hafter
        change (page.sync id tokens).containers = page.containers at hcontainers
        rw [Page.isTracked, hcontainers] at hafter
        exact Bool.false_ne_true (htracked.symm.trans hafter)
  | observe =>
      obtain ⟨hobserved, hnull⟩ := henters
      by_cases hid : id = .null
      · subst hid
        have hthreshold :=
          congrArg (fun books => books.lists.observers.intersections.get? .null) hbooks
        rw [apply, Page.observe, hobserved, if_neg Bool.false_ne_true] at hthreshold
        change (page.document.intersections.insert .null visibilityThreshold).get? .null =
          page.document.intersections.get? .null at hthreshold
        rw [OrderedMap.get?_insert, if_pos rfl] at hthreshold
        exact hnull rfl hthreshold.symm
      · have hlist := congrArg (fun books => books.registrations.observed) hbooks
        have hafter : (page.observe id).isObserved id = true := isObserved_observe hid
        change (page.observe id).observed = page.observed at hlist
        rw [Page.isObserved, hlist] at hafter
        exact Bool.false_ne_true (hobserved.symm.trans hafter)
  | defer name now =>
      obtain ⟨hid, hname⟩ := henters
      have hqueue := congrArg (fun books => books.registrations.queue) hbooks
      change (page.defer id name now).queue = page.queue at hqueue
      rw [Page.defer, if_neg hid, if_neg hname] at hqueue
      exact List.cons_ne_nil _ [] (List.append_right_eq_self.mp hqueue)
  | teardown => exact henters
  | unobserve => exact henters
  | forget => exact henters

theorem registrations_apply_null (hidle : page.Idle .null) (request : Request) :
    (request.apply page .null).registrations = page.registrations := by
  cases request with
  | sync tokens => exact registrations_sync_null hidle.not_tracked tokens
  | teardown => rw [apply, teardown_of_not_tracked hidle.not_tracked]
  | observe =>
      rw [apply, Page.observe, hidle.not_observed]
      rfl
  | unobserve => rw [apply, unobserve_of_not_observed hidle.not_observed]
  | defer name now => rfl
  | forget => rw [apply, forget_of_idle hidle]

end Request

/-- Whatever can be called on a page: what may happen between two batches, and each request to the
bookkeeping by itself. -/
inductive Call where
  | ofEvent (event : Event)
  | ofRequest (request : Request) (target : ElementId)

namespace Call

variable {start : Page} {call : Call} {calls : List Call}

def apply (page : Page) : Call → Page
  | ofEvent event => event.apply page
  | ofRequest request target => request.apply page target

def run (page : Page) (calls : List Call) : Page :=
  calls.foldl apply page

/-- The handles that a caller passes in. -/
def handles : Call → List ElementId
  | ofEvent (.edit operation) => operation.handles
  | ofEvent (.resize id _) | ofEvent (.intersect id _) => [id]
  | ofEvent _ => []
  | ofRequest _ target => [target]

/-- Whether a call enters a handle that refers to no element in the books. -/
def Enters (page : Page) (id : ElementId) : Call → Prop
  | ofEvent (.edit operation) => operation.Enters page.document id
  | ofEvent _ => False
  | ofRequest request target => target = id ∧ request.Enters page id

/-- Some call of a run entered a handle. -/
def Entered (page : Page) (calls : List Call) (id : ElementId) : Prop :=
  ∃ earlier call later, calls = earlier ++ call :: later ∧ call.Enters (run page earlier) id

theorem run_concat (page : Page) (calls : List Call) (call : Call) :
    run page (calls ++ [call]) = call.apply (run page calls) := by
  rw [run, List.foldl_append]
  rfl

theorem contains_apply (hid : page.document.contains id = true) (call : Call) :
    (call.apply page).document.contains id = true := by
  cases call with
  | ofEvent event => exact (event.accounts_records page).contains hid
  | ofRequest request target => exact ((request.changesOnly_apply page target).contains_eq id).trans hid

theorem parentsExist_apply (hparents : page.document.ParentsExist) (call : Call) :
    (call.apply page).document.ParentsExist := by
  cases call with
  | ofEvent event =>
      cases event with
      | edit operation => exact operation.parentsExist_apply hparents
      | _ => exact hparents.of_skeleton (Event.skeleton_apply page (by simp))
  | ofRequest request target =>
      exact hparents.of_skeleton
        (congrArg Setting.skeleton (request.changesOnly_apply page target).setting_eq)

theorem parentsExist_run (hparents : page.document.ParentsExist) (calls : List Call) :
    (run page calls).document.ParentsExist :=
  List.foldlRecOn (motive := fun page => page.document.ParentsExist) calls apply hparents
    fun _ hcurrent call _ => parentsExist_apply hcurrent call

/-- What a call does to the bookkeeping is about the handle it is given. -/
theorem idle_apply (hidle : page.Idle id) (hhandle : id ∉ call.handles) :
    (call.apply page).Idle id := by
  cases call with
  | ofEvent event =>
      cases event with
      | edit operation => exact hidle.of_registrations rfl
      | resize target width =>
          exact hidle.of_changesOnly (changesOnly_resize page target width)
            (mt List.mem_singleton.mpr hhandle)
      | intersect target ratio =>
          exact hidle.of_changesOnly (changesOnly_intersect page target ratio)
            (mt List.mem_singleton.mpr hhandle)
      | viewport width => exact (sameRegistrations_handleViewport page width).idle id hidle
      | advanceTime time => exact (sameRegistrations_advanceTime page time).idle id hidle
      | editCompiler change => exact hidle.of_registrations rfl
  | ofRequest request target =>
      exact hidle.of_changesOnly (request.changesOnly_apply page target)
        (mt List.mem_singleton.mpr hhandle)

theorem unregistered_apply_of_not_mem (hunregistered : page.Unregistered id)
    (hhandle : id ∉ call.handles) : (call.apply page).Unregistered id := by
  refine ⟨idle_apply hunregistered.idle hhandle, ?_⟩
  cases call with
  | ofEvent event =>
      cases event with
      | edit operation => exact hunregistered.unobserved.apply hhandle
      | _ => exact hunregistered.unobserved.of_observers (observers_event page (by simp))
  | ofRequest request target =>
      have hview := (request.changesOnly_apply page target).view_eq id
        (mt List.mem_singleton.mpr hhandle)
      exact hunregistered.unobserved.of_view (congrArg ElementView.document hview)

/-- A report on an element of which nothing is kept means nothing. -/
theorem edit_or_apply_eq (hidle : page.Idle id) {event : Event}
    (hhandle : id ∈ (ofEvent event).handles) :
    (∃ operation, event = .edit operation) ∨ event.apply page = page := by
  cases event with
  | edit operation => exact Or.inl ⟨operation, rfl⟩
  | resize target width =>
      rw [← List.mem_singleton.mp hhandle]
      exact Or.inr (resize_of_not_tracked hidle.not_tracked width)
  | intersect target ratio =>
      rw [← List.mem_singleton.mp hhandle]
      exact Or.inr (intersect_of_not_observed hidle.not_observed ratio)
  | viewport width => cases hhandle
  | advanceTime time => cases hhandle
  | editCompiler change => cases hhandle

theorem books_apply (hid : page.document.contains id = false)
    (hunregistered : page.Unregistered id) (hhandle : id ∈ call.handles)
    (henters : ¬ call.Enters page id) : (call.apply page).books = page.books := by
  cases call with
  | ofEvent event =>
      rcases edit_or_apply_eq hunregistered.idle hhandle with ⟨operation, rfl⟩ | hpage
      · have hlists := Document.handleLists_apply hid hunregistered.unobserved hhandle henters
        exact congrArg (fun lists => Books.mk lists page.registrations) hlists
      · exact congrArg books hpage
  | ofRequest request target =>
      have htarget : id = target := List.mem_singleton.mp hhandle
      subst htarget
      exact Request.books_apply hunregistered fun hrequest => henters ⟨rfl, hrequest⟩

theorem unregistered_apply (hid : page.document.contains id = false)
    (hunregistered : page.Unregistered id) (henters : ¬ call.Enters page id) :
    (call.apply page).Unregistered id := by
  by_cases hhandle : id ∈ call.handles
  · exact hunregistered.of_books (books_apply hid hunregistered hhandle henters)
  · exact unregistered_apply_of_not_mem hunregistered hhandle

theorem books_ne_of_enters (hparents : page.document.ParentsExist)
    (hid : page.document.contains id = false) (henters : call.Enters page id) :
    (call.apply page).books ≠ page.books := by
  cases call with
  | ofEvent event =>
      cases event with
      | edit operation =>
          exact fun hbooks => Document.handleLists_ne_of_enters hparents hid henters
            (congrArg Books.lists hbooks)
      | _ => exact absurd henters not_false
  | ofRequest request target =>
      obtain ⟨rfl, hrequest⟩ := henters
      exact Request.books_ne_of_enters hrequest

theorem mem_handles_of_enters (henters : call.Enters page id) : id ∈ call.handles := by
  cases call with
  | ofEvent event =>
      cases event with
      | edit operation =>
          cases operation with
          | appendChild parent child =>
              exact henters.1 ▸ List.mem_cons_of_mem parent List.mem_cons_self
          | observeSize target => exact henters.1 ▸ List.mem_cons_self
          | observeIntersection target threshold => exact henters.1 ▸ List.mem_cons_self
          | _ => exact absurd henters not_false
      | _ => exact absurd henters not_false
  | ofRequest request target => exact henters.1 ▸ List.mem_cons_self

/-- What is registered under a handle without element was entered by some call. -/
theorem unregistered_or_entered (hstart : start.Unregistered id)
    (hid : (run start calls).document.contains id = false) :
    (run start calls).Unregistered id ∨ Entered start calls id := by
  induction calls using List.reverseRecOn with
  | nil => exact Or.inl hstart
  | append_singleton earlier call ih =>
      rw [run_concat] at hid ⊢
      -- an element that exists is never lost, so the handle had none before the last call either
      have hbefore : (run start earlier).document.contains id = false := by
        rw [Bool.eq_false_iff]
        intro hcontains
        rw [contains_apply hcontains call] at hid
        cases hid
      rcases ih hbefore with hunregistered | ⟨first, entering, later, rfl, henters⟩
      · by_cases henters : call.Enters (run start earlier) id
        · exact Or.inr ⟨earlier, call, [], rfl, henters⟩
        · exact Or.inl (unregistered_apply hbefore hunregistered henters)
      · exact Or.inr ⟨first, entering, later ++ [call], by simp, henters⟩

theorem registrations_apply_null (hidle : page.Idle .null) (hhandle : .null ∈ call.handles) :
    (call.apply page).registrations = page.registrations := by
  cases call with
  | ofEvent event =>
      rcases edit_or_apply_eq hidle hhandle with ⟨operation, rfl⟩ | hpage
      · rfl
      · exact congrArg registrations hpage
  | ofRequest request target =>
      have htarget : .null = target := List.mem_singleton.mp hhandle
      subst htarget
      exact Request.registrations_apply_null hidle request

theorem idle_null_run (hstart : start.Idle .null) (calls : List Call) :
    (run start calls).Idle .null := by
  refine List.foldlRecOn (motive := fun page => page.Idle .null) calls apply hstart
    fun page hidle call _ => ?_
  by_cases hhandle : .null ∈ call.handles
  · exact hidle.of_registrations (registrations_apply_null hidle hhandle)
  · exact idle_apply hidle hhandle

/-- After any calls a call on a handle without element changes the books exactly if it enters the
handle, unless an earlier call entered it: an attachment to an element that exists, a request to the
host, a sync with container tokens, an observation, a deferral.  For the null handle the bookkeeping
of the page never changes. -/
theorem books_of_calls (sizeObserver : Bool) (compiler : Compiler) (calls : List Call)
    {id : ElementId} {call : Call}
    (hid : (run { document := { sizeObserver }, compiler } calls).document.contains id = false)
    (hhandle : id ∈ call.handles) :
    let start : Page := { document := { sizeObserver }, compiler }
    let before := run start calls
    let after := call.apply before
    (call.Enters before id → after.books ≠ before.books) ∧
      (¬ call.Enters before id → after.books = before.books ∨ Entered start calls id) ∧
      (id = .null → after.registrations = before.registrations) := by
  intro start before after
  have hstart : ∀ id, start.Unregistered id := unregistered_new sizeObserver compiler
  have hparents : start.document.ParentsExist := Document.parentsExist_new sizeObserver
  refine ⟨books_ne_of_enters (parentsExist_run hparents calls) hid, fun henters => ?_, ?_⟩
  · rcases unregistered_or_entered (hstart id) hid with hunregistered | hentered
    · exact Or.inl (books_apply hid hunregistered hhandle henters)
    · exact Or.inr hentered
  · rintro rfl
    exact registrations_apply_null (idle_null_run (hstart .null).idle calls) hhandle

/-- An element with a condition, and nothing about any other handle. -/
def oneContainer : List Call :=
  [.ofEvent (.edit (.append Document.root "max-320:flex".toList)),
    .ofRequest (.sync ["max-320:flex".toList]) (.element 1),
    .ofEvent (.resize (.element 1) (.ofNat 300))]

/-- A number that was never given out is ignored; the null handle is observed by the host, while the
page keeps nothing of it. -/
theorem books_of_oneContainer :
    let page := run {} oneContainer
    let resize : Call := .ofEvent (.resize (.element 7) (.ofNat 200))
    let observe : Call := .ofRequest .observe .null
    page.document.contains (.element 7) = false ∧ .element 7 ∈ resize.handles ∧
      (resize.apply page).books = page.books ∧
        page.document.contains .null = false ∧ .null ∈ observe.handles ∧
          (observe.apply page).books ≠ page.books ∧
            (observe.apply page).registrations = page.registrations := by
  intro page resize observe
  have hnumber : page.document.contains (.element 7) = false := by decide +kernel
  have hnull : page.document.contains .null = false := rfl
  have hresize : .element 7 ∈ resize.handles := List.mem_cons_self
  have hobserve : .null ∈ observe.handles := List.mem_cons_self
  have hnamed : ∀ call ∈ oneContainer, .element 7 ∉ call.handles := by decide
  have henters : observe.Enters page .null :=
    ⟨rfl, by decide +kernel, fun _ => by decide +kernel⟩
  obtain ⟨-, hignored, -⟩ := books_of_calls true {} oneContainer hnumber hresize
  obtain ⟨hchanged, -, hkept⟩ := books_of_calls true {} oneContainer hnull hobserve
  refine ⟨hnumber, hresize, ?_, hnull, hobserve, hchanged henters, hkept rfl⟩
  rcases hignored not_false with hbooks | ⟨earlier, call, later, hcalls, hentered⟩
  · exact hbooks
  · have hcall : call ∈ oneContainer :=
      hcalls ▸ List.mem_append_right earlier List.mem_cons_self
    exact absurd (mem_handles_of_enters hentered) (hnamed call hcall)

/-- The null handle as a child of the root, with its size observed although no conditions are kept,
and with its intersection observed although the page does not. -/
theorem books_changed_by_null :
    ({} : Page).document.contains .null = false ∧
      ({} : Page).document.children Document.root = [] ∧
      (Call.apply {} (.ofEvent (.edit (.appendChild Document.root .null)))).document.children
        Document.root = [.null] ∧
      let synced := Call.apply {} (.ofRequest (.sync ["min-100:p-1".toList]) .null)
      let observed := Call.apply {} (.ofRequest .observe .null)
      synced.document.sizeObserved = [.null] ∧ synced.isTracked .null = false ∧
        observed.document.intersections.get? .null = some visibilityThreshold ∧
        observed.isObserved .null = false := by
  decide +kernel

end Call

end Page

end UtilityCss
