import UtilityCss.Proofs.Page.Turn

/-!
What the host observes and what a page keeps of it.  An element's size is observed while the page has
conditions for it, and its intersection while the page keeps its visibility class up to date.  The two
sides are written in different places, and no order of turns takes them apart.
-/

namespace UtilityCss

namespace Document

/-- The elements that a host observes. -/
structure Observers where
  sizes : List ElementId
  intersections : OrderedMap ElementId Binary64

def observers (doc : Document) : Observers :=
  ⟨doc.sizeObserved, doc.intersections⟩

@[simp]
theorem observers_update (doc : Document) (id : ElementId) (change : Element → Element) :
    (doc.update id change).observers = doc.observers := by
  cases id <;> rfl

@[simp]
theorem observers_detach (doc : Document) (id : ElementId) :
    (doc.detach id).observers = doc.observers := by
  unfold detach
  split
  · rw [observers_update, observers_update]
  · rfl

@[simp]
theorem observers_appendChild (doc : Document) (parent child : ElementId) :
    (doc.appendChild parent child).observers = doc.observers := by
  rw [appendChild_eq]
  split
  · rw [attach, observers_update, observers_update, observers_detach]
  · rfl

/-- An operation that does not ask the host to observe anything, or to stop. -/
def Operation.SparesObservers : Operation → Prop
  | .observeSize _ | .unobserveSize _ | .observeIntersection _ _ | .unobserveIntersection _ => False
  | _ => True

theorem Operation.observers_apply {operation : Operation} (hspares : operation.SparesObservers)
    (doc : Document) : (operation.apply doc).observers = doc.observers := by
  cases operation with
  | create className => rfl
  | append parent className => exact observers_appendChild (doc.create className).1 parent _
  | appendChild parent child => exact observers_appendChild doc parent child
  | detach id => exact observers_detach doc id
  | setClassName id className => exact observers_update doc id _
  | addClass id name => exact observers_update doc id _
  | removeClass id name => exact observers_update doc id _
  | setStyle id property value => exact observers_update doc id _
  | removeStyle id property => exact observers_update doc id _
  | observeSize id => cases hspares
  | unobserveSize id => cases hspares
  | observeIntersection id threshold => cases hspares
  | unobserveIntersection id => cases hspares

end Document

namespace Page

variable {page before after : Page} {id probe : ElementId}

theorem observers_releaseStyles (page : Page) (id : ElementId) (properties : List Text) :
    (page.releaseStyles id properties).document.observers = page.document.observers := by
  refine foldl_eq_of_step Document.observers (fun doc property => ?_) properties page.document
  split
  · exact Document.observers_update doc id _
  · exact Document.observers_update doc id _

theorem observers_deactivate (page : Page) (id : ElementId) (token : Text) :
    (page.deactivate id token).document.observers = page.document.observers := by
  unfold deactivate
  split
  · rw [observers_releaseStyles, updateCondition, document_updateContainer]
  · rfl

theorem observers_activate (page : Page) (id : ElementId) (token : Text) :
    (page.activate id token).document.observers = page.document.observers := by
  unfold activate
  split
  · dsimp only
    rw [updateCondition, document_updateContainer]
    exact foldl_eq_of_step Document.observers
      (fun doc (entry : Text × Text) => Document.observers_update doc id _) _ page.document
  · rfl

theorem observers_evaluate (page : Page) (id : ElementId) (width : Binary64) :
    (page.evaluate id width).document.observers = page.document.observers :=
  (foldl_eq_of_step (fun page => page.document.observers)
      (fun page token => observers_activate page id token) _ _).trans
    (foldl_eq_of_step (fun page => page.document.observers)
      (fun page token => observers_deactivate page id token) _ page)

theorem observers_resize (page : Page) (id : ElementId) (width : Binary64) :
    (page.resize id width).document.observers = page.document.observers := by
  unfold resize
  split
  · rw [observers_evaluate, document_updateContainer]
  · rfl

theorem observers_rekey (page : Page) (id : ElementId)
    (queries : List (Text × ContainerToken)) :
    (page.rekey id queries).document.observers = page.document.observers := by
  rw [rekey, addConditions, document_updateContainer]
  refine foldl_eq_of_step (fun page => page.document.observers) (fun page token => ?_) _ page
  unfold dropCondition
  split
  · rw [observers_releaseStyles, document_updateContainer]
  · rfl

/-- The host observes the size of an element if the page tracks it. -/
def SizeInStep (page : Page) (id : ElementId) : Prop :=
  id ∈ page.document.sizeObserved ↔ page.isTracked id = true

/-- The host observes the intersection of an element, at the one threshold there is, if the page
observes it. -/
def ThresholdInStep (page : Page) (id : ElementId) : Prop :=
  page.document.intersections.get? id =
    if page.isObserved id then some visibilityThreshold else none

/-- Host and page agree about an element, and an element that is tracked has a condition. -/
structure HostInStep (page : Page) (id : ElementId) : Prop where
  size : page.SizeInStep id
  keys_ne_nil : page.isTracked id = true → (page.conditions id).keys ≠ []
  threshold : page.ThresholdInStep id

theorem SizeInStep.of_eq (hsize : before.SizeInStep id)
    (hobservers : after.document.observers = before.document.observers)
    (htracked : after.isTracked id = before.isTracked id) : after.SizeInStep id := by
  have hsizes : after.document.sizeObserved = before.document.sizeObserved :=
    congrArg Document.Observers.sizes hobservers
  rw [SizeInStep, hsizes, htracked]
  exact hsize

theorem ThresholdInStep.of_eq (hthreshold : before.ThresholdInStep id)
    (hobservers : after.document.observers = before.document.observers)
    (hobserved : after.isObserved id = before.isObserved id) : after.ThresholdInStep id := by
  have hintersections : after.document.intersections = before.document.intersections :=
    congrArg Document.Observers.intersections hobservers
  rw [ThresholdInStep, hintersections, hobserved]
  exact hthreshold

theorem HostInStep.of_eq (hinstep : before.HostInStep id)
    (hobservers : after.document.observers = before.document.observers)
    (htracked : after.isTracked id = before.isTracked id)
    (hkeys : (after.conditions id).keys = (before.conditions id).keys)
    (hobserved : after.isObserved id = before.isObserved id) : after.HostInStep id where
  size := hinstep.size.of_eq hobservers htracked
  keys_ne_nil := by
    rw [htracked, hkeys]
    exact hinstep.keys_ne_nil
  threshold := hinstep.threshold.of_eq hobservers hobserved

theorem HostInStep.of_sameRegistrations (hinstep : before.HostInStep id)
    (hobservers : after.document.observers = before.document.observers)
    (hsame : SameRegistrations before after) : after.HostInStep id :=
  hinstep.of_eq hobservers (hsame.isTracked_eq id) (hsame.keys_eq id) (hsame.isObserved_eq id)

/-- Serving another element changes neither side. -/
theorem HostInStep.of_changesOnly (hinstep : before.HostInStep id)
    (hchange : ChangesOnly probe before after) (hid : id ≠ probe) : after.HostInStep id := by
  have hview := hchange.view_eq id hid
  have hcontainer : after.container? id = before.container? id :=
    congrArg ElementView.container hview
  have htracked : after.isTracked id = before.isTracked id := congrArg Option.isSome hcontainer
  have hobserved : after.isObserved id = before.isObserved id :=
    congrArg ElementView.observed hview
  have hsize : after.document.sizeObserved.contains id = before.document.sizeObserved.contains id :=
    congrArg (fun view => view.document.sizeObserved) hview
  have hthreshold : after.document.intersections.get? id = before.document.intersections.get? id :=
    congrArg (fun view => view.document.threshold) hview
  refine ⟨?_, ?_, ?_⟩
  · rw [SizeInStep, ← List.contains_iff_mem, hsize, htracked, List.contains_iff_mem]
    exact hinstep.size
  · rw [htracked, conditions_eq, hcontainer, ← conditions_eq]
    exact hinstep.keys_ne_nil
  · rw [ThresholdInStep, hthreshold, hobserved]
    exact hinstep.threshold

/-- Without conditions an element is let go of on both sides. -/
theorem hostInStep_teardown (hsize : page.SizeInStep id) (hthreshold : page.ThresholdInStep id) :
    (page.teardown id).HostInStep id := by
  have hgone := isTracked_teardown page id
  refine ⟨?_, fun htracked => ?_, ?_⟩
  · rw [SizeInStep, hgone]
    unfold teardown
    split
    · simp [Document.unobserveSize]
    · rename_i htracked
      exact hsize.trans (by simp [htracked])
  · rw [hgone] at htracked
    cases htracked
  · unfold teardown
    split
    · exact hthreshold
    · exact hthreshold

theorem sizeInStep_track (hsize : page.SizeInStep id) (hid : id ≠ .null) :
    (page.track id).SizeInStep id := by
  by_cases htracked : page.isTracked id
  · rw [track, if_pos htracked]
    exact hsize
  · rw [track, if_neg htracked, if_neg hid]
    refine iff_of_true ?_ (isTracked_iff.mpr ⟨{}, ?_⟩)
    · show id ∈ (page.document.observeSize id).sizeObserved
      unfold Document.observeSize
      split
      · assumption
      · exact List.mem_append_right _ List.mem_cons_self
    · rw [container?, OrderedMap.get?_insert, if_pos rfl]

theorem thresholdInStep_track (hthreshold : page.ThresholdInStep id) :
    (page.track id).ThresholdInStep id := by
  have hobserve : (page.document.observeSize id).intersections = page.document.intersections := by
    unfold Document.observeSize
    split <;> rfl
  unfold track
  split
  · exact hthreshold
  · have hobserved : (page.document.observeSize id).intersections.get? id =
        if page.isObserved id then some visibilityThreshold else none := by
      rw [hobserve]
      exact hthreshold
    dsimp only
    split
    · exact hobserved
    · exact hobserved

/-- An element that is tracked keeps its conditions, or it is let go of when none is left. -/
theorem hostInStep_syncConditions (hsize : page.SizeInStep id)
    (hthreshold : page.ThresholdInStep id) (queries : List (Text × ContainerToken)) :
    (page.syncConditions id queries).HostInStep id := by
  have hobserved : (page.rekey id queries).isObserved id = page.isObserved id := by
    have hlist : (page.rekey id queries).observed = page.observed :=
      congrArg Bystanders.observed (bystanders_rekey page id queries)
    rw [isObserved, hlist, isObserved]
  have hsize' := hsize.of_eq (observers_rekey page id queries) (isTracked_rekey page id queries)
  have hthreshold' := hthreshold.of_eq (observers_rekey page id queries) hobserved
  rw [syncConditions_eq]
  dsimp only
  split
  · exact hostInStep_teardown hsize' hthreshold'
  · rename_i hfull
    rw [OrderedMap.isEmpty_iff] at hfull
    have hrekeyed : (page.rekey id queries).HostInStep id := ⟨hsize', fun _ => hfull, hthreshold'⟩
    split
    · rename_i width _
      split
      · have hlist : ((page.rekey id queries).evaluate id width).observed =
            (page.rekey id queries).observed :=
          congrArg Bystanders.observed (bystanders_evaluate _ id width)
        exact hrekeyed.of_eq (observers_evaluate _ id width) (isTracked_evaluate _ id width)
          (keys_evaluate _ id width) (congrArg (fun observed => observed.contains id) hlist)
      · exact hrekeyed
    · exact hrekeyed

theorem HostInStep.sync (hinstep : page.HostInStep id) (hid : id ≠ .null) (tokens : List Text) :
    (page.sync id tokens).HostInStep id := by
  unfold Page.sync
  dsimp only
  split
  · exact hinstep
  · split
    · exact hinstep.of_eq rfl rfl rfl rfl
    · have hsize := sizeInStep_track hinstep.size hid
      have hthreshold := thresholdInStep_track hinstep.threshold
      split
      · exact hostInStep_syncConditions hsize hthreshold _
      · rename_i huntracked
        refine ⟨hsize, fun htracked => absurd htracked huntracked, hthreshold⟩

theorem HostInStep.observe (hinstep : page.HostInStep id) (hid : id ≠ .null) :
    (page.observe id).HostInStep id := by
  refine ⟨?_, ?_, ?_⟩
  · unfold Page.observe
    split
    · exact hinstep.size
    · exact hinstep.size
  · rw [isTracked, conditions, container?, containers_observe]
    exact hinstep.keys_ne_nil
  · rw [ThresholdInStep, isObserved_observe hid, if_pos rfl]
    unfold Page.observe
    split
    · rename_i hobserved
      exact hinstep.threshold.trans (if_pos hobserved)
    · exact (OrderedMap.get?_insert _ id id _).trans (if_pos rfl)

theorem HostInStep.unobserve (hinstep : page.HostInStep id) : (page.unobserve id).HostInStep id := by
  refine ⟨?_, ?_, ?_⟩
  · have hsizes : (page.unobserve id).document.sizeObserved = page.document.sizeObserved := by
      unfold Page.unobserve
      split
      · dsimp only
        split
        · exact congrArg Document.Observers.sizes (Document.observers_update _ id _)
        · rfl
      · rfl
    rw [SizeInStep, hsizes, isTracked, containers_unobserve]
    exact hinstep.size
  · rw [isTracked, conditions, container?, containers_unobserve]
    exact hinstep.keys_ne_nil
  · rw [ThresholdInStep, isObserved_unobserve, if_neg Bool.false_ne_true]
    have hgone : (page.document.unobserveIntersection id).intersections.get? id = none :=
      (OrderedMap.get?_erase _ id id).trans (if_pos rfl)
    unfold Page.unobserve
    split
    · dsimp only
      split
      · refine Eq.trans ?_ hgone
        exact congrArg (fun observers => observers.intersections.get? id)
          (Document.observers_update _ id _)
      · exact hgone
    · rename_i hobserved
      exact hinstep.threshold.trans (if_neg hobserved)

theorem HostInStep.process (hinstep : page.HostInStep id) (hid : id ≠ .null) :
    (page.process id).HostInStep id := by
  let served := (page.document.classes id).foldl (fun page token => page.serveToken id token) page
  have hsetting : served.tokenSetting = page.tokenSetting :=
    tokenSetting_foldl_serveToken page id (page.document.classes id)
  have hdocument : served.document = page.document := congrArg TokenSetting.document hsetting
  have hcontainers : served.containers = page.containers :=
    congrArg TokenSetting.containers hsetting
  have hobserved : served.observed = page.observed := congrArg TokenSetting.observed hsetting
  have hserved : served.HostInStep id :=
    hinstep.of_eq (by rw [hdocument]) (by rw [isTracked, hcontainers, isTracked])
      (by rw [conditions, container?, hcontainers, conditions, container?])
      (by rw [isObserved, hobserved, isObserved])
  rw [process_eq]
  refine HostInStep.sync ?_ hid _
  rw [prepare, watch]
  split
  · exact hserved.observe hid
  · exact hserved.unobserve

theorem HostInStep.releaseElement (hinstep : page.HostInStep id) :
    (page.releaseElement id).HostInStep id := by
  have hdown := hostInStep_teardown hinstep.size hinstep.threshold
  exact hdown.unobserve.of_eq rfl rfl rfl rfl

theorem HostInStep.visit (hinstep : page.HostInStep id) (hid : id ≠ .null) (visit : Visit) :
    (visit.apply page).HostInStep id := by
  by_cases htarget : id = visit.target
  · cases visit with
    | process target =>
        change id = target at htarget
        subst htarget
        exact hinstep.process hid
    | release target =>
        change id = target at htarget
        subst htarget
        exact hinstep.releaseElement
  · exact hinstep.of_changesOnly (Visit.changesOnly_apply page visit) htarget

/-- Between two batches the host observes what it did, unless it is asked to directly. -/
theorem observers_event (page : Page) {event : Event}
    (hspares : ∀ operation, event = .edit operation → operation.SparesObservers) :
    (event.apply page).document.observers = page.document.observers := by
  cases event with
  | edit operation => exact Document.Operation.observers_apply (hspares operation rfl) _
  | resize target width => exact observers_resize page target width
  | intersect target ratio =>
      rw [Event.apply, intersect]
      split
      · rfl
      · split
        · exact Document.observers_update _ target _
        · exact Document.observers_update _ target _
  | viewport width =>
      rw [Event.apply, handleViewport]
      split
      · refine foldl_eq_of_step Document.observers (fun doc entry => ?_) _ page.document
        dsimp only
        split
        · exact Document.observers_update doc Document.root _
        · exact Document.observers_update doc Document.root _
      · rfl
  | advanceTime time =>
      have hcompile : ∀ (page : Page) (task : DeferredClass),
          (page.withCompiler fun compiler => compiler.compile task.name).document =
            page.document := fun _ _ => rfl
      rw [Event.apply, advanceTime]
      dsimp only
      rw [foldl_eq_of_step Page.document hcompile]
      exact foldl_eq_of_step Document.observers
        (fun doc (task : DeferredClass) => Document.observers_update doc task.target _) _ _
  | editCompiler change => rfl

/-- Between two batches nothing is registered or dropped, whatever becomes of the tables. -/
theorem HostInStep.event (hinstep : page.HostInStep id) {event : Event}
    (hspares : ∀ operation, event = .edit operation → operation.SparesObservers) :
    (event.apply page).HostInStep id := by
  have hobservers := observers_event page hspares
  cases event with
  | edit operation => exact hinstep.of_eq hobservers rfl rfl rfl
  | resize target width =>
      exact hinstep.of_sameRegistrations hobservers (sameRegistrations_resize page target width)
  | intersect target ratio =>
      exact hinstep.of_sameRegistrations hobservers (sameRegistrations_intersect page target ratio)
  | viewport width =>
      exact hinstep.of_sameRegistrations hobservers (sameRegistrations_handleViewport page width)
  | advanceTime time =>
      exact hinstep.of_sameRegistrations hobservers (sameRegistrations_advanceTime page time)
  | editCompiler change => exact hinstep.of_eq rfl rfl rfl rfl

theorem hostInStep_run (sizeObserver : Bool) (compiler : Compiler) (hid : id ≠ .null)
    {steps : List Step}
    (hsteps : ∀ operation, .ofEvent (.edit operation) ∈ steps → operation.SparesObservers) :
    (Step.run { document := { sizeObserver }, compiler } steps).HostInStep id := by
  induction steps using List.reverseRecOn with
  | nil =>
      refine ⟨iff_of_false List.not_mem_nil Bool.false_ne_true, fun htracked => ?_, rfl⟩
      cases htracked
  | append_singleton earlier step ih =>
      have hinstep := ih fun operation hmem => hsteps operation (List.mem_append_left _ hmem)
      rw [Step.run_concat]
      cases step with
      | ofVisit visit => exact hinstep.visit hid visit
      | ofEvent event =>
          refine hinstep.event ?_
          rintro operation rfl
          exact hsteps operation (List.mem_append_right _ List.mem_cons_self)

/-- Whatever happens in whatever order, as long as nobody else asks the host to observe: the host
observes exactly what the page keeps books of, and whatever is tracked has a condition. -/
theorem hostInStep_of_turns (sizeObserver : Bool) (compiler : Compiler) {turns : List Turn}
    (hturns : ∀ operation, .ofEvent (.edit operation) ∈ turns → operation.SparesObservers) :
    let page := turns.foldl Turn.apply { document := { sizeObserver }, compiler }
    ∀ id, page.document.contains id = true →
      (id ∈ page.document.sizeObserved ↔ page.isTracked id = true) ∧
        (page.isTracked id = true → (page.conditions id).keys ≠ []) ∧
        ∀ threshold, page.document.intersections.get? id = some threshold ↔
          page.isObserved id = true ∧ threshold = visibilityThreshold := by
  intro page id hid
  have hinstep : page.HostInStep id := by
    show (turns.foldl Turn.apply { document := { sizeObserver }, compiler }).HostInStep id
    rw [← Turn.run_history]
    exact hostInStep_run sizeObserver compiler (ne_null_of_contains hid)
      fun operation hmem => hturns operation (Turn.mem_of_ofEvent_mem_history hmem)
  refine ⟨hinstep.size, hinstep.keys_ne_nil, fun threshold => ?_⟩
  rw [hinstep.threshold]
  cases page.isObserved id with
  | true => simp [eq_comm]
  | false => simp

/-- Two elements that are observed in both ways, until one of them is taken away. -/
def oneOfTwoLeaves : List Turn :=
  [.ofEvent (.edit (.append Document.root "max-320:flex visible:opacity-100".toList)),
    .ofEvent (.edit (.append Document.root "max-320:flex visible:opacity-100".toList)), .start,
    .ofEvent (.resize (.element 1) (.ofNat 100)), .ofEvent (.edit (.detach (.element 2))),
    .ofBatch [.childList [] [.element 2]]]

/-- The host still observes the one that stays, and the other no longer. -/
theorem hostInStep_of_oneOfTwoLeaves :
    (∀ operation, .ofEvent (.edit operation) ∈ oneOfTwoLeaves → operation.SparesObservers) ∧
      let page := oneOfTwoLeaves.foldl Turn.apply {}
      page.isTracked (.element 1) = true ∧ .element 1 ∈ page.document.sizeObserved ∧
        (page.conditions (.element 1)).keys ≠ [] ∧
        page.document.intersections.get? (.element 1) = some visibilityThreshold ∧
        page.document.contains (.element 2) = true ∧ .element 2 ∉ page.document.sizeObserved ∧
        page.isTracked (.element 2) = false ∧
        ∀ threshold, page.document.intersections.get? (.element 2) ≠ some threshold := by
  have hspares : ∀ operation, .ofEvent (.edit operation) ∈ oneOfTwoLeaves →
      operation.SparesObservers := by
    simp [oneOfTwoLeaves, Document.Operation.SparesObservers]
  have hrun : let page := oneOfTwoLeaves.foldl Turn.apply {}
      page.document.contains (.element 1) = true ∧ page.isTracked (.element 1) = true ∧
        page.isObserved (.element 1) = true ∧ page.document.contains (.element 2) = true ∧
        page.isTracked (.element 2) = false ∧ page.isObserved (.element 2) = false := by
    decide +kernel
  obtain ⟨hstays, htracked, hobserved, hleaves, huntracked, hunobserved⟩ := hrun
  obtain ⟨hsize, hkeys, hthreshold⟩ := hostInStep_of_turns true {} hspares (.element 1) hstays
  obtain ⟨hgone, -, hsilent⟩ := hostInStep_of_turns true {} hspares (.element 2) hleaves
  have hregistered := (hthreshold visibilityThreshold).mpr ⟨hobserved, rfl⟩
  refine ⟨hspares, htracked, hsize.mpr htracked, hkeys htracked, hregistered, hleaves,
    fun hmem => ?_, huntracked, fun threshold hget => ?_⟩
  · exact Bool.false_ne_true (huntracked.symm.trans (hgone.mp hmem))
  · exact Bool.false_ne_true (hunobserved.symm.trans ((hsilent threshold).mp hget).1)

end Page

end UtilityCss
