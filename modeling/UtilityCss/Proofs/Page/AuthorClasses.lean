import UtilityCss.Proofs.Document.ClassEdits
import UtilityCss.Proofs.Page.Delivery
import UtilityCss.Proofs.Page.Viewport

/-!
The classes of the author.  What the page takes from a class attribute has the prefix of the page's
own classes, and what it gives goes to the end.  So the classes without that prefix stay as they are,
in their order, and only reports of the width and moves of the clock append to them.
-/

namespace UtilityCss

namespace Document

open Page (IsViewportClass viewportClass)

variable {doc before middle after : Document} {id target : ElementId} {name : Text}
  {origin : Text → Prop}

/-- The classes of an element without those that have the prefix of the viewport classes. -/
def authorClasses (doc : Document) (id : ElementId) : List Text :=
  (doc.classes id).filter fun name => ¬ IsViewportClass name

theorem authorClasses_congr (hclasses : after.classes id = before.classes id) :
    after.authorClasses id = before.authorClasses id := by
  rw [authorClasses, hclasses, authorClasses]

/-- A class with the prefix is taken away unnoticed. -/
theorem authorClasses_of_filter (hname : IsViewportClass name)
    (hclasses : after.classes id = (before.classes id).filter (· ≠ name)) :
    after.authorClasses id = before.authorClasses id := by
  rw [authorClasses, hclasses, List.filter_filter, authorClasses]
  refine List.filter_congr fun other _ => ?_
  by_cases hother : other = name
  · simp [hother, hname]
  · simp [hother]

/-- The classes of the author stay, and those that follow them come from somewhere. -/
def Appends (id : ElementId) (before after : Document) (origin : Text → Prop) : Prop :=
  ∃ appended, after.authorClasses id = before.authorClasses id ++ appended ∧
    ∀ name ∈ appended, origin name

theorem appends_of_eq (hclasses : after.authorClasses id = before.authorClasses id) :
    Appends id before after origin :=
  ⟨[], hclasses.trans (List.append_nil _).symm, by simp⟩

theorem Appends.mono {wider : Text → Prop} (happends : Appends id before after origin)
    (hwider : ∀ name, origin name → wider name) : Appends id before after wider := by
  obtain ⟨appended, heq, horigin⟩ := happends
  exact ⟨appended, heq, fun name hname => hwider name (horigin name hname)⟩

theorem Appends.trans (hfirst : Appends id before middle origin)
    (hsecond : Appends id middle after origin) : Appends id before after origin := by
  obtain ⟨first, hmiddle, horigin⟩ := hfirst
  obtain ⟨second, hafter, hlater⟩ := hsecond
  refine ⟨first ++ second, ?_, fun name hname => ?_⟩
  · rw [hafter, hmiddle, List.append_assoc]
  · exact (List.mem_append.mp hname).elim (horigin name) (hlater name)

/-- Classes with the prefix come unnoticed as well. -/
theorem Appends.eq_of_viewport (happends : Appends id before after origin)
    (horigin : ∀ name, origin name → IsViewportClass name) :
    after.authorClasses id = before.authorClasses id := by
  obtain ⟨appended, heq, hnames⟩ := happends
  have hnone : appended = [] := by
    rw [List.eq_nil_iff_forall_not_mem]
    intro name hname
    have hauthor : name ∈ after.authorClasses id := heq ▸ List.mem_append_right _ hname
    exact of_decide_eq_true (List.mem_filter.mp hauthor).2 (horigin name (hnames name hname))
  rw [heq, hnone, List.append_nil]

theorem appends_foldl {α : Type} {step : Document → α → Document} {items : List α}
    (hstep : ∀ doc, ∀ item ∈ items, Appends id doc (step doc item) origin) (doc : Document) :
    Appends id doc (items.foldl step doc) origin := by
  induction items generalizing doc with
  | nil => exact appends_of_eq rfl
  | cons item rest ih =>
      have hfirst := hstep doc item List.mem_cons_self
      refine hfirst.trans (ih (fun doc item hitem => ?_) (step doc item))
      exact hstep doc item (List.mem_cons_of_mem _ hitem)

theorem appends_addClass (doc : Document) (target : ElementId) (name : Text) :
    Appends id doc (doc.addClass target name) fun other => target = id ∧ other ∈ name.words := by
  by_cases htarget : id = target
  · subst htarget
    cases hid : doc.contains id with
    | false =>
        refine appends_of_eq (authorClasses_congr ?_)
        rw [classes_addClass_of_not_contains name hid, classes_eq_nil_of_not_contains hid]
    | true =>
        have hclasses := classes_addClass doc id name hid
        split at hclasses
        · exact appends_of_eq (authorClasses_congr hclasses)
        · refine ⟨name.words.filter fun name => ¬ IsViewportClass name, ?_, fun other hother => ?_⟩
          · rw [authorClasses, hclasses, List.filter_append, authorClasses]
          · exact ⟨rfl, (List.mem_filter.mp hother).1⟩
  · exact appends_of_eq (authorClasses_congr
      (congrArg Text.words (className_update_of_ne _ htarget)))

theorem authorClasses_removeClass (hname : IsViewportClass name) (target : ElementId) :
    (doc.removeClass target name).authorClasses id = doc.authorClasses id := by
  by_cases htarget : id = target
  · subst htarget
    exact authorClasses_of_filter hname (classes_removeClass doc id name)
  · exact authorClasses_congr (congrArg Text.words (className_update_of_ne _ htarget))

theorem appends_toggleViewport (width : Binary64) (doc : Document) (entry : Text × Text) :
    Appends id doc (toggleViewport width doc entry) fun name =>
      root = id ∧ matchesWidth entry.2 width = true ∧ name ∈ (viewportClass entry.1).words := by
  unfold toggleViewport
  split
  · rename_i hmatches
    exact (appends_addClass doc root _).mono fun name hname => ⟨hname.1, hmatches, hname.2⟩
  · exact appends_of_eq
      (authorClasses_removeClass (Page.isViewportClass_viewportClass entry.1) root)

end Document

namespace Page

open Document (Appends appends_of_eq authorClasses_congr authorClasses_of_filter)

variable {page : Page} {id : ElementId}

theorem isViewportClass_visibleClass : IsViewportClass visibleClass :=
  visibleClass_eq ▸ isViewportClass_viewportClass PseudoState.visible.name

theorem authorClasses_visit (page : Page) (visit : Visit) (id : ElementId) :
    (visit.apply page).document.authorClasses id = page.document.authorClasses id := by
  by_cases htarget : id = visit.target
  · have hclasses : (visit.apply page).document.classes id = page.document.classes id ∨
        (visit.apply page).document.classes id =
          (page.document.classes id).filter (· ≠ visibleClass) := by
      subst htarget
      cases visit with
      | process id => exact classes_process page id
      | release id => exact classes_releaseElement page id
    exact hclasses.elim authorClasses_congr
      (authorClasses_of_filter isViewportClass_visibleClass)
  · exact authorClasses_congr ((Visit.changesOnly_apply page visit).classes_eq htarget)

/-- The visibility class comes and goes unnoticed. -/
theorem authorClasses_intersect (page : Page) (target : ElementId) (ratio : Binary64)
    (id : ElementId) :
    (page.intersect target ratio).document.authorClasses id = page.document.authorClasses id := by
  unfold intersect
  split
  · rfl
  · split
    · refine (Document.appends_addClass page.document target visibleClass).eq_of_viewport ?_
      rintro name ⟨-, hname⟩
      exact List.mem_singleton.mp hname ▸ isViewportClass_visibleClass
    · exact Document.authorClasses_removeClass isViewportClass_visibleClass target

theorem appends_handleViewport (page : Page) (width : Binary64) (id : ElementId) :
    Appends id page.document (page.handleViewport width).document fun name =>
      id = Document.root ∧ ∃ key, page.Shows key width ∧ name ∈ (viewportClass key).words := by
  cases henabled : page.compiler.bodyClass with
  | false =>
      rw [handleViewport, if_neg (by rw [henabled]; exact Bool.false_ne_true)]
      exact appends_of_eq rfl
  | true =>
      rw [handleViewport_of_bodyClass henabled]
      refine Document.appends_foldl (fun doc entry hentry => ?_) page.document
      refine (Document.appends_toggleViewport width doc entry).mono ?_
      rintro name ⟨rfl, hmatches, hname⟩
      have hmedia := (OrderedMap.mem_entries_iff).mp hentry
      exact ⟨rfl, entry.1, ⟨henabled, entry.2, hmedia, hmatches⟩, hname⟩

theorem appends_advanceTime (page : Page) (time : Nat) (id : ElementId) :
    Appends id page.document (page.advanceTime time).document fun name =>
      ∃ task ∈ page.applied time, task.target = id ∧ name ∈ task.name.words := by
  rw [document_advanceTime]
  refine Document.appends_foldl (fun doc task htask => ?_) page.document
  refine (Document.appends_addClass doc task.target task.name).mono ?_
  rintro name ⟨htarget, hname⟩
  exact ⟨task, htask, htarget, hname⟩

end Page

namespace Turn

open Document (Appends appends_of_eq authorClasses_congr)

variable {page start : Page} {id : ElementId} {turn : Turn} {turns : List Turn}

/-- No edit of the document in this turn writes the class attribute of an element. -/
def SparesClasses (id : ElementId) : Turn → Prop
  | ofEvent (.edit operation) => operation.SparesClasses id
  | _ => True

/-- Where a class comes from that a turn appends: a report of the width gives the root the class of a
breakpoint, or a move of the clock adds a deferred class. -/
def IsSource (page : Page) (id : ElementId) (name : Text) : Turn → Prop
  | ofEvent (.viewport width) =>
      id = Document.root ∧ ∃ key, page.Shows key width ∧ name ∈ (Page.viewportClass key).words
  | ofEvent (.advanceTime time) =>
      ∃ task ∈ page.applied time, task.target = id ∧ name ∈ task.name.words
  | _ => False

theorem contains_apply (hid : page.document.contains id = true) (turn : Turn) :
    (turn.apply page).document.contains id = true := by
  rw [← run_steps]
  exact Step.contains_run hid _

/-- What one turn does to the classes of the author. -/
theorem appends_apply (hid : page.document.contains id = true)
    (hspares : turn.SparesClasses id) :
    Appends id page.document (turn.apply page).document fun name =>
      turn.IsSource page id name := by
  rcases eq_ofEvent_or_visits page turn with ⟨event, rfl⟩ | ⟨visits, hvisits⟩
  · cases event with
    | edit operation =>
        have hname := Document.Operation.className_apply hspares hid
        exact appends_of_eq (authorClasses_congr (congrArg Text.words hname))
    | resize target width =>
        exact appends_of_eq (authorClasses_congr
          (Page.classes_eq_of_bystanders (Page.bystanders_resize page target width) id))
    | intersect target ratio =>
        exact appends_of_eq (Page.authorClasses_intersect page target ratio id)
    | viewport width => exact Page.appends_handleViewport page width id
    | advanceTime time => exact Page.appends_advanceTime page time id
    | editCompiler change => exact appends_of_eq rfl
  · rw [hvisits]
    exact appends_of_eq (foldl_eq_of_step (fun page => page.document.authorClasses id)
      (fun page visit => Page.authorClasses_visit page visit id) visits page)

end Turn

namespace Page

variable {start : Page} {id : ElementId} {turns : List Turn}

/-- In every run in which no edit writes the class attribute of an element: after any turns the
element has the classes of the author that it had before, in the same order, and after these what
the turns have appended one after the other.  Each of the appended classes comes from a report of the
width or from a move of the clock. -/
theorem authorClasses_of_turns (hid : start.document.contains id = true)
    (hturns : ∀ turn ∈ turns, turn.SparesClasses id) :
    ∃ appended : List (List Text), appended.length = turns.length ∧
      (turns.foldl Turn.apply start).document.authorClasses id =
        start.document.authorClasses id ++ appended.flatten ∧
      ∀ n turn names, turns[n]? = some turn → appended[n]? = some names →
        let page := (turns.take n).foldl Turn.apply start
        (turn.apply page).document.authorClasses id = page.document.authorClasses id ++ names ∧
          ∀ name ∈ names, turn.IsSource page id name := by
  induction turns generalizing start with
  | nil => exact ⟨[], rfl, (List.append_nil _).symm, fun n turn names hturn => by cases hturn⟩
  | cons first rest ih =>
      obtain ⟨names, hfirst, hsource⟩ := Turn.appends_apply hid (hturns first List.mem_cons_self)
      obtain ⟨later, hlength, hlast, hlater⟩ := ih (Turn.contains_apply hid first)
        fun turn hturn => hturns turn (List.mem_cons_of_mem first hturn)
      refine ⟨names :: later, congrArg Nat.succ hlength, ?_, ?_⟩
      · rw [List.foldl_cons, hlast, hfirst, List.append_assoc, List.flatten_cons]
      · intro n turn appended hturn happended
        cases n with
        | zero =>
            cases hturn
            cases happended
            exact ⟨hfirst, hsource⟩
        | succ n => exact hlater n turn appended hturn happended

/-- The root has its classes in an unusual layout, and one breakpoint has white space in its key. -/
def crowdedRoot : Page where
  document := { elements := [{ className := " grid  p-4 grid onload:late".toList }] }
  compiler :=
    { bodyClass := true
      breakpoints := .ofList [("a b".toList, "(max-width: 640px)".toList)] }

def crowdedTurns : List Turn :=
  [.start, .ofEvent (.edit (.append Document.root "p-1".toList)),
    .ofEvent (.viewport (.ofNat 500)), .ofEvent (.advanceTime 200),
    .ofEvent (.viewport (.ofNat 900))]

theorem authorClasses_crowdedTurns :
    let page := crowdedTurns.foldl Turn.apply crowdedRoot
    crowdedRoot.document.contains Document.root = true ∧
      (∀ turn ∈ crowdedTurns, turn.SparesClasses Document.root) ∧
      page.document.authorClasses Document.root =
        crowdedRoot.document.authorClasses Document.root ++ ["b".toList, "late".toList] ∧
      ∃ appended : List (List Text), appended.length = crowdedTurns.length ∧
        appended.flatten = ["b".toList, "late".toList] := by
  intro page
  have hspares : ∀ turn ∈ crowdedTurns, turn.SparesClasses Document.root := by
    simp [crowdedTurns, Turn.SparesClasses, Document.Operation.SparesClasses]
  have hclasses : page.document.authorClasses Document.root =
      crowdedRoot.document.authorClasses Document.root ++ ["b".toList, "late".toList] := by
    decide +kernel
  have hroot : crowdedRoot.document.contains Document.root = true := rfl
  obtain ⟨appended, hlength, hlast, -⟩ := authorClasses_of_turns hroot hspares
  exact ⟨hroot, hspares, hclasses, appended, hlength,
    List.append_cancel_left (hlast.symm.trans hclasses)⟩

end Page

end UtilityCss
