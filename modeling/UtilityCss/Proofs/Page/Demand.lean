import UtilityCss.Page.Reactor
import UtilityCss.Proofs.Page.Bystanders

/-!
What the class tokens of an element demand of a page: container conditions and the visibility class.
The class that the page itself adds and takes away demands nothing.
-/

namespace UtilityCss

theorem ContainerToken.parse?_visibleClass : ContainerToken.parse? visibleClass = none := by
  decide

namespace Page

variable {page before after : Page} {id probe : ElementId}

theorem wantsVisibility_visibleClass (breakpoints : Breakpoints) :
    wantsVisibility breakpoints visibleClass = false := by
  have hsplit : Importance.split visibleClass = (visibleClass, .normal) := by decide
  have hsegments : visibleClass.splitOn ':' = [visibleClass] := by decide
  have hstate : (ParsedToken.parse breakpoints visibleClass).hasState .visible = false := by
    simp only [ParsedToken.parse, hsplit, hsegments]
    rfl
  rw [wantsVisibility, hstate, Bool.and_false]

/-- What the class tokens of an element ask for. -/
structure Demand where
  names : List Text
  visible : Bool

def demand (page : Page) (id : ElementId) : Demand where
  names :=
    if page.document.sizeObserver then containerNames (page.document.classes id) else []
  visible := (page.document.classes id).any (wantsVisibility page.compiler.breakpoints)

/-- What is registered for an element is what its class tokens ask for. -/
structure Agrees (page : Page) (id : ElementId) : Prop where
  isTracked_iff : page.isTracked id = true ↔ (page.demand id).names ≠ []
  mem_keys_iff : ∀ token, token ∈ (page.conditions id).keys ↔ token ∈ (page.demand id).names
  isObserved_eq : page.isObserved id = (page.demand id).visible

/-- Nothing is kept for an element. -/
structure Idle (page : Page) (id : ElementId) : Prop where
  not_tracked : page.isTracked id = false
  not_observed : page.isObserved id = false
  not_scheduled : page.scheduled.get? id = none
  not_queued : ∀ task ∈ page.queue, task.target ≠ id

theorem containerNames_filter (tokens : List Text) :
    containerNames (tokens.filter (· ≠ visibleClass)) = containerNames tokens := by
  rw [containerNames, containerNames, containerTokens, containerTokens, List.filterMap_filter]
  congr 1
  refine List.filterMap_congr fun token _ => ?_
  by_cases htoken : token = visibleClass
  · rw [htoken, ContainerToken.parse?_visibleClass, if_neg (by simp)]
    rfl
  · rw [if_pos (by simpa using htoken)]

theorem any_wantsVisibility_filter (breakpoints : Breakpoints) (tokens : List Text) :
    (tokens.filter (· ≠ visibleClass)).any (wantsVisibility breakpoints) =
      tokens.any (wantsVisibility breakpoints) := by
  rw [List.any_filter]
  congr 1
  funext token
  by_cases htoken : token = visibleClass
  · rw [htoken, wantsVisibility_visibleClass, Bool.and_false]
  · rw [decide_eq_true htoken, Bool.true_and]

theorem demand_eq_of_classes (hsetting : after.setting = before.setting)
    (hclasses : after.document.classes id = before.document.classes id ∨
      after.document.classes id = (before.document.classes id).filter (· ≠ visibleClass)) :
    after.demand id = before.demand id := by
  have hobserver : after.document.sizeObserver = before.document.sizeObserver :=
    congrArg Setting.sizeObserver hsetting
  have hbreakpoints : after.compiler.breakpoints = before.compiler.breakpoints :=
    congrArg Setting.breakpoints hsetting
  rw [demand, demand, hobserver, hbreakpoints]
  rcases hclasses with hsame | hfiltered
  · rw [hsame]
  · rw [hfiltered, containerNames_filter, any_wantsVisibility_filter]

theorem ChangesOnly.classes_eq (hchange : ChangesOnly id before after) (hprobe : probe ≠ id) :
    after.document.classes probe = before.document.classes probe := by
  have helement : after.document.element? probe = before.document.element? probe :=
    congrArg (fun view => view.document.element) (hchange.view_eq probe hprobe)
  rw [Document.classes, Document.classes, Document.className_eq, Document.className_eq, helement]

theorem demand_of_changesOnly (hchange : ChangesOnly id before after) (hprobe : probe ≠ id) :
    after.demand probe = before.demand probe :=
  demand_eq_of_classes hchange.setting_eq (Or.inl (hchange.classes_eq hprobe))

theorem Agrees.of_changesOnly (hagrees : before.Agrees probe) (hchange : ChangesOnly id before after)
    (hprobe : probe ≠ id) : after.Agrees probe := by
  have hview := hchange.view_eq probe hprobe
  have hcontainer : after.container? probe = before.container? probe :=
    congrArg ElementView.container hview
  have hobserved : after.isObserved probe = before.isObserved probe :=
    congrArg ElementView.observed hview
  have htracked : after.isTracked probe = before.isTracked probe :=
    congrArg Option.isSome hcontainer
  have hdemand := demand_of_changesOnly hchange hprobe
  refine ⟨?_, fun token => ?_, ?_⟩
  · rw [htracked, hdemand]
    exact hagrees.isTracked_iff
  · rw [conditions_eq, hcontainer, ← conditions_eq, hdemand]
    exact hagrees.mem_keys_iff token
  · rw [hobserved, hdemand]
    exact hagrees.isObserved_eq

theorem Idle.of_eq (hidle : before.Idle id) (htracked : after.isTracked id = before.isTracked id)
    (hobserved : after.isObserved id = before.isObserved id)
    (hscheduled : after.scheduled.get? id = before.scheduled.get? id)
    (hqueue : ∀ task ∈ after.queue, task ∈ before.queue) : after.Idle id where
  not_tracked := htracked.trans hidle.not_tracked
  not_observed := hobserved.trans hidle.not_observed
  not_scheduled := hscheduled.trans hidle.not_scheduled
  not_queued task htask := hidle.not_queued task (hqueue task htask)

theorem Idle.of_changesOnly (hidle : before.Idle probe) (hchange : ChangesOnly id before after)
    (hprobe : probe ≠ id) : after.Idle probe := by
  have hview := hchange.view_eq probe hprobe
  have hcontainer : after.container? probe = before.container? probe :=
    congrArg ElementView.container hview
  have hqueued : after.queue.filter (fun task => task.target = probe) =
      before.queue.filter (fun task => task.target = probe) := congrArg ElementView.queued hview
  refine ⟨?_, ?_, ?_, fun task htask htarget => ?_⟩
  · exact (congrArg Option.isSome hcontainer).trans hidle.not_tracked
  · exact (congrArg ElementView.observed hview).trans hidle.not_observed
  · exact (congrArg ElementView.scheduled hview).trans hidle.not_scheduled
  · have hmem : task ∈ after.queue.filter fun task => task.target = probe :=
      List.mem_filter.mpr ⟨htask, decide_eq_true htarget⟩
    rw [hqueued] at hmem
    exact hidle.not_queued task (List.mem_filter.mp hmem).1 htarget

end Page

end UtilityCss
