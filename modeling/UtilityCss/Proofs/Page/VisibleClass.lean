import UtilityCss.Proofs.Document.ClassEdits
import UtilityCss.Proofs.Page.Delivery
import UtilityCss.Proofs.Page.Gating
import UtilityCss.Proofs.Page.Redelivery
import UtilityCss.Proofs.Page.Viewport

/-!
The visibility class over the life of a page.  An element that carries the class is observed, except
where the class was left on it: an element that is released while it is away keeps the class and is
forgotten, and a breakpoint whose key holds white space may have the class among the words of its
own.
-/

namespace UtilityCss

namespace Step

/-- A property of every step of a run, with the page that the step meets. -/
def Always (property : Step → Page → Prop) (page : Page) : List Step → Prop
  | [] => True
  | step :: rest => property step page ∧ Always property (step.apply page) rest

instance decidableAlways (property : Step → Page → Prop)
    [∀ step page, Decidable (property step page)] (page : Page) :
    (steps : List Step) → Decidable (Always property page steps)
  | [] => inferInstanceAs (Decidable True)
  | step :: rest =>
      have := decidableAlways property (step.apply page) rest
      inferInstanceAs (Decidable (property step page ∧ Always property (step.apply page) rest))

variable {property : Step → Page → Prop} {page : Page} {first second : List Step} {step : Step}

theorem always_append_iff : Always property page (first ++ second) ↔
    Always property page first ∧ Always property (run page first) second := by
  induction first generalizing page with
  | nil => exact (and_iff_right trivial).symm
  | cons step rest ih =>
      rw [List.cons_append, Always, Always, ih, and_assoc]
      rfl

theorem Always.at (halways : Always property page (first ++ step :: second)) :
    property step (run page first) :=
  (always_append_iff.mp halways).2.1

end Step

namespace Page

variable {page start : Page} {id : ElementId} {name : Text} {step : Step} {steps : List Step}

/-- No element carries the visibility class that did not carry it before. -/
def GivesNoVisibility (before after : Document) : Prop :=
  ∀ number < after.elements.length, visibleClass ∈ after.classes (.element number) →
    visibleClass ∈ before.classes (.element number)

instance (before after : Document) : Decidable (GivesNoVisibility before after) :=
  inferInstanceAs (Decidable (∀ number < after.elements.length,
    visibleClass ∈ after.classes (.element number) →
      visibleClass ∈ before.classes (.element number)))

theorem GivesNoVisibility.mem {before after : Document} (hgives : GivesNoVisibility before after)
    (hclass : visibleClass ∈ after.classes id) : visibleClass ∈ before.classes id := by
  obtain ⟨number, hlt, rfl⟩ :=
    Document.contains_iff_exists_number.mp (Document.contains_of_mem_classes hclass)
  exact hgives number hlt hclass

/-- What a report of the width can bring: the words of the class of a breakpoint that matches. -/
theorem mem_classes_handleViewport_words {width : Binary64}
    (hname : name ∈ (page.handleViewport width).document.classes id) :
    name ∈ page.document.classes id ∨
      id = Document.root ∧ ∃ key, page.Shows key width ∧ name ∈ (viewportClass key).words := by
  cases henabled : page.compiler.bodyClass with
  | false =>
      rw [handleViewport, if_neg (by rw [henabled]; exact Bool.false_ne_true)] at hname
      exact Or.inl hname
  | true =>
      rw [handleViewport_of_bodyClass henabled] at hname
      have hstep : ∀ doc (entry : Text × Text),
          name ∈ (Document.toggleViewport width doc entry).classes id → name ∈ doc.classes id ∨
            Document.root = id ∧ matchesWidth entry.2 width = true ∧
              name ∈ (viewportClass entry.1).words := by
        intro doc entry hentry
        unfold Document.toggleViewport at hentry
        split at hentry
        · rename_i hmatches
          refine (Document.mem_classes_addClass_target hentry).imp_right fun hword => ?_
          exact ⟨hword.1, hmatches, hword.2⟩
        · exact Or.inl (Document.mem_classes_of_removeClass hentry)
      refine (Document.mem_classes_foldl hstep hname).imp_right ?_
      rintro ⟨entry, hentry, rfl, hmatches, hword⟩
      have hmedia := OrderedMap.mem_entries_iff.mp hentry
      exact ⟨rfl, entry.1, ⟨henabled, entry.2, hmedia, hmatches⟩, hword⟩

/-- What a move of the clock can bring: the words of a class that is due. -/
theorem mem_classes_advanceTime {time : Nat}
    (hname : name ∈ (page.advanceTime time).document.classes id) :
    name ∈ page.document.classes id ∨ ∃ task ∈ page.queue, name ∈ task.name.words := by
  rw [document_advanceTime] at hname
  have hstep : ∀ (doc : Document) (task : DeferredClass),
      name ∈ (doc.addClass task.target task.name).classes id →
        name ∈ doc.classes id ∨ name ∈ task.name.words := fun doc task hadded =>
    (Document.mem_classes_addClass_target hadded).imp_right And.right
  refine (Document.mem_classes_foldl hstep hname).imp_right ?_
  rintro ⟨task, htask, hword⟩
  exact ⟨task, (applied_sublist page time).subset htask, hword⟩

end Page

namespace Step

open Page (viewportClass)

variable {page : Page} {id : ElementId} {step : Step} {steps : List Step}

/-- Whatever may give out the visibility class besides the observation does not: neither an edit of
the document, nor a breakpoint of that name, nor a deferred class. -/
def SparesVisibility : Step → Page → Prop
  | ofEvent (.edit operation), page =>
      Page.GivesNoVisibility page.document (operation.apply page.document)
  | ofEvent (.viewport _), page => PseudoState.visible.name ∉ page.compiler.breakpoints.keys
  | ofVisit (.process id), page => deferralMark ++ visibleClass ∉ page.document.classes id
  | _, _ => True

instance (page : Page) : (step : Step) → Decidable (step.SparesVisibility page)
  | ofEvent (.edit operation) =>
      inferInstanceAs (Decidable
        (Page.GivesNoVisibility page.document (operation.apply page.document)))
  | ofEvent (.resize _ _) => inferInstanceAs (Decidable True)
  | ofEvent (.intersect _ _) => inferInstanceAs (Decidable True)
  | ofEvent (.viewport _) =>
      inferInstanceAs (Decidable (PseudoState.visible.name ∉ page.compiler.breakpoints.keys))
  | ofEvent (.advanceTime _) => inferInstanceAs (Decidable True)
  | ofEvent (.editCompiler _) => inferInstanceAs (Decidable True)
  | ofVisit (.process id) =>
      inferInstanceAs (Decidable (deferralMark ++ visibleClass ∉ page.document.classes id))
  | ofVisit (.release _) => inferInstanceAs (Decidable True)

/-- Only attached elements are processed.  A null handle among the children is processed as well. -/
def ProcessesAttached : Step → Page → Prop
  | ofVisit (.process id), page => page.document.isConnected id = true ∨ id = .null
  | _, _ => True

/-- A step that leaves the visibility class on an element that is not observed afterwards: the
element is released while it is away, or a report gives the root a class with white space in it. -/
def Strands (id : ElementId) : Step → Page → Prop
  | ofVisit (.release target), page =>
      target = id ∧ page.isObserved id = true ∧ page.document.isConnected id = false
  | ofEvent (.viewport width), page =>
      id = Document.root ∧ ∃ key, page.Shows key width ∧ ¬ Page.IsPlainKey key ∧
        visibleClass ∈ (viewportClass key).words
  | _, _ => False

end Step

namespace Page

variable {page start : Page} {id : ElementId} {step : Step} {steps : List Step}

theorem notMem_classes_unobserve (hobserved : page.isObserved id = true)
    (hconnected : page.document.isConnected id = true) :
    visibleClass ∉ (page.unobserve id).document.classes id := by
  have hkept : (page.document.unobserveIntersection id).isConnected id = true :=
    (Document.isConnected_eq_of_skeleton
      (Document.skeleton_unobserveIntersection page.document id) id).trans hconnected
  rw [unobserve, if_pos hobserved]
  dsimp only
  rw [if_pos hkept, withDocument, Document.classes_removeClass]
  simp

/-- A step that keeps the observation of an element as it is. -/
theorem observed_or_of_eq {after : Page} (hobserved : after.isObserved id = page.isObserved id)
    (hclass : visibleClass ∈ page.document.classes id) :
    after.isObserved id = true ∨
      visibleClass ∈ page.document.classes id ∧ page.isObserved id = false := by
  rw [hobserved]
  cases page.isObserved id with
  | true => exact Or.inl rfl
  | false => exact Or.inr ⟨hclass, rfl⟩

theorem classes_intersect_of_not_observed {target : ElementId} (ratio : Binary64)
    (hobserved : page.isObserved id = false) :
    (page.intersect target ratio).document.classes id = page.document.classes id := by
  by_cases htarget : id = target
  · subst htarget
    rw [intersect_of_not_observed hobserved]
  · exact (changesOnly_intersect page target ratio).classes_eq htarget

/-- An attached element that is processed without the state in its tokens loses the class. -/
theorem visibleClass_process (hid : id ≠ .null) (hconnected : page.document.isConnected id = true)
    (hclass : visibleClass ∈ (page.process id).document.classes id) :
    (page.process id).isObserved id = true ∨
      visibleClass ∈ page.document.classes id ∧ page.isObserved id = false := by
  cases hvisible : (page.demand id).visible with
  | true => exact Or.inl ((isObserved_process hid).trans hvisible)
  | false =>
      refine Or.inr ⟨classes_visit_subset page (.process id) id hclass, ?_⟩
      rw [← Bool.not_eq_true]
      intro hobserved
      rw [process_eq, document_sync_classes, prepare, watch, hvisible,
        if_neg Bool.false_ne_true] at hclass
      let served := (page.document.classes id).foldl (fun page token => page.serveToken id token)
        page
      have hsetting : served.tokenSetting = page.tokenSetting :=
        tokenSetting_foldl_serveToken page id (page.document.classes id)
      have hregistered : served.observed = page.observed := congrArg TokenSetting.observed hsetting
      have hdocument : served.document = page.document := congrArg TokenSetting.document hsetting
      refine notMem_classes_unobserve ?_ ?_ hclass
      · rwa [isObserved, hregistered]
      · rwa [hdocument]

/-- An element that is released loses the class, unless it is away. -/
theorem visibleClass_releaseElement
    (hclass : visibleClass ∈ (page.releaseElement id).document.classes id) :
    page.isObserved id = true ∧ page.document.isConnected id = false ∨
      visibleClass ∈ page.document.classes id ∧ page.isObserved id = false := by
  cases hobserved : page.isObserved id with
  | false => exact Or.inr ⟨classes_visit_subset page (.release id) id hclass, rfl⟩
  | true =>
      refine Or.inl ⟨rfl, ?_⟩
      rw [← Bool.not_eq_true]
      intro hconnected
      have hskeleton := congrArg Setting.skeleton (changesOnly_teardown page id).setting_eq
      have hregistered : (page.teardown id).observed = page.observed :=
        congrArg Bystanders.observed (bystanders_teardown page id)
      refine @notMem_classes_unobserve (page.teardown id) id ?_ ?_ hclass
      · rwa [isObserved, hregistered]
      · exact (Document.isConnected_eq_of_skeleton hskeleton id).trans hconnected

/-- A breakpoint that is not named after the state has its class only if its key holds white space. -/
theorem not_isPlainKey_of_mem_words {key : Text} (hkey : key ≠ PseudoState.visible.name)
    (hword : visibleClass ∈ (viewportClass key).words) : ¬ IsPlainKey key := by
  intro hplain
  rw [words_viewportClass hplain, List.mem_singleton, visibleClass_eq] at hword
  exact hkey (viewportClass_injective hword).symm

/-- Where the visibility class comes from: an element that carries it after a step is observed, or
the step strands the class on it, or it carried the class before without being observed. -/
theorem visibleClass_step (hattached : step.ProcessesAttached page)
    (hspares : step.SparesVisibility page)
    (hqueue : ∀ task ∈ page.queue, visibleClass ∉ task.name.words)
    (hclass : visibleClass ∈ (step.apply page).document.classes id) :
    (step.apply page).isObserved id = true ∨ step.Strands id page ∨
      visibleClass ∈ page.document.classes id ∧ page.isObserved id = false := by
  have hkept : (step.apply page).isObserved id = page.isObserved id →
      visibleClass ∈ page.document.classes id → (step.apply page).isObserved id = true ∨
        step.Strands id page ∨
          visibleClass ∈ page.document.classes id ∧ page.isObserved id = false :=
    fun hobserved hbefore => (observed_or_of_eq hobserved hbefore).imp_right Or.inr
  cases step with
  | ofEvent event =>
      cases event with
      | edit operation => exact hkept rfl (GivesNoVisibility.mem hspares hclass)
      | resize target width =>
          have hbystanders := bystanders_resize page target width
          refine hkept ((sameRegistrations_resize page target width).isObserved_eq id) ?_
          rwa [Step.apply, Event.apply, classes_eq_of_bystanders hbystanders] at hclass
      | intersect target ratio =>
          have hobserved := (sameRegistrations_intersect page target ratio).isObserved_eq id
          cases hbefore : page.isObserved id with
          | true => exact Or.inl (hobserved.trans hbefore)
          | false =>
              refine Or.inr (Or.inr ⟨?_, rfl⟩)
              rwa [Step.apply, Event.apply,
                classes_intersect_of_not_observed ratio hbefore] at hclass
      | viewport width =>
          have hobserved := (sameRegistrations_handleViewport page width).isObserved_eq id
          rcases mem_classes_handleViewport_words hclass with hbefore | ⟨hid, key, hshows, hword⟩
          · exact hkept hobserved hbefore
          · have hknown : key ∈ page.compiler.breakpoints.keys := by
              obtain ⟨-, media, hmedia, -⟩ := hshows
              exact OrderedMap.mem_keys_iff.mpr ⟨media, hmedia⟩
            have hkey : key ≠ PseudoState.visible.name := fun heq => hspares (heq ▸ hknown)
            have hblank := not_isPlainKey_of_mem_words hkey hword
            exact Or.inr (Or.inl ⟨hid, key, hshows, hblank, hword⟩)
      | advanceTime time =>
          have hobserved := (sameRegistrations_advanceTime page time).isObserved_eq id
          rcases mem_classes_advanceTime hclass with hbefore | ⟨task, htask, hword⟩
          · exact hkept hobserved hbefore
          · exact absurd hword (hqueue task htask)
      | editCompiler change => exact hkept rfl hclass
  | ofVisit visit =>
      by_cases htarget : id = visit.target
      · subst htarget
        cases visit with
        | process target =>
            have hid := ne_null_of_contains (Document.contains_of_mem_classes hclass)
            refine (visibleClass_process hid (hattached.resolve_right hid) hclass).imp_right ?_
            exact Or.inr
        | release target =>
            exact Or.inr ((visibleClass_releaseElement hclass).imp_left fun haway => ⟨rfl, haway⟩)
      · have hchange := Visit.changesOnly_apply page visit
        refine hkept (congrArg ElementView.observed (hchange.view_eq id htarget)) ?_
        rwa [Step.apply, hchange.classes_eq htarget] at hclass

end Page

namespace Turn

variable {page : Page} {visits : List Visit} {turns : List Turn}

theorem processesAttached_of_fits {visit : Visit} (hfits : visit.Fits page.document) :
    (Step.ofVisit visit).ProcessesAttached page := by
  cases visit with
  | process id => exact hfits
  | release id => trivial

theorem always_attached_visits
    (hvisits : ∀ visit ∈ visits, (Step.ofVisit visit).ProcessesAttached page) :
    Step.Always Step.ProcessesAttached page (visits.map Step.ofVisit) := by
  induction visits generalizing page with
  | nil => trivial
  | cons visit rest ih =>
      refine ⟨hvisits visit List.mem_cons_self, ih fun other hother => ?_⟩
      have hsame := hvisits other (List.mem_cons_of_mem visit hother)
      have hchange := Visit.changesOnly_apply page visit
      have hskeleton := congrArg Page.Setting.skeleton hchange.setting_eq
      cases other with
      | process id =>
          exact hsame.imp_left (Document.isConnected_eq_of_skeleton hskeleton id).trans
      | release id => trivial

theorem always_attached_steps (hforest : page.document.IsForest) (turn : Turn) :
    Step.Always Step.ProcessesAttached page (turn.steps page.document) := by
  cases turn with
  | start =>
      have hroot : page.document.isConnected Document.root = true :=
        hforest.isConnected_iff.mpr .refl
      refine always_attached_visits fun visit hvisit => processesAttached_of_fits ?_
      have hadded : visit ∈ Visit.ofAdded page.document Document.root := by
        rwa [Visit.ofAdded, if_pos hroot]
      exact Visit.fits_of_mem_ofAdded hforest hadded
  | ofEvent event => exact ⟨trivial, trivial⟩
  | ofBatch mutations =>
      refine always_attached_visits fun visit hvisit => ?_
      obtain ⟨mutation, -, hmem⟩ := List.mem_flatMap.mp hvisit
      cases mutation with
      | childList added removed =>
          rcases List.mem_append.mp hmem with hremoved | hadded
          · obtain ⟨id, -, hid⟩ := List.mem_flatMap.mp hremoved
            rw [Visit.ofRemoved] at hid
            split at hid
            · cases hid
            · obtain ⟨probe, -, rfl⟩ := List.mem_map.mp hid
              trivial
          · obtain ⟨id, -, hid⟩ := List.mem_flatMap.mp hadded
            exact processesAttached_of_fits (Visit.fits_of_mem_ofAdded hforest hid)
      | classAttribute target =>
          rw [Visit.ofMutation] at hmem
          split at hmem
          · rename_i hconnected
            obtain rfl := List.mem_singleton.mp hmem
            exact Or.inl hconnected
          · cases hmem

theorem always_attached_history (hready : Visit.Ready page) (hknown : AllKnown page turns) :
    Step.Always Step.ProcessesAttached page (history page turns) := by
  induction turns generalizing page with
  | nil => trivial
  | cons turn rest ih =>
      refine Step.always_append_iff.mpr ⟨always_attached_steps hready.forest turn, ?_⟩
      rw [run_steps]
      exact ih (ready_apply hready hknown.1) hknown.2

end Turn

namespace Page

variable {start : Page} {id : ElementId} {step : Step} {steps : List Step}

/-- The visibility class was stranded on an element by some step, and has been there after every
step since. -/
def Stranded (start : Page) (steps : List Step) (id : ElementId) : Prop :=
  ∃ before step after, steps = before ++ step :: after ∧ step.Strands id (Step.run start before) ∧
    ∀ passed, passed <+: after →
      visibleClass ∈ (Step.run start (before ++ step :: passed)).document.classes id

theorem Stranded.concat (hstranded : start.Stranded steps id)
    (hclass : visibleClass ∈ (Step.run start (steps ++ [step])).document.classes id) :
    start.Stranded (steps ++ [step]) id := by
  obtain ⟨before, cause, after, rfl, hstrands, hkept⟩ := hstranded
  refine ⟨before, cause, after ++ [step], by simp, hstrands, fun passed hpassed => ?_⟩
  rcases List.prefix_concat_iff.mp hpassed with rfl | hearlier
  · simpa using hclass
  · exact hkept passed hearlier

theorem stranded_concat_of_strands (hstrands : step.Strands id (Step.run start steps))
    (hclass : visibleClass ∈ (Step.run start (steps ++ [step])).document.classes id) :
    start.Stranded (steps ++ [step]) id := by
  refine ⟨steps, step, [], rfl, hstrands, fun passed hpassed => ?_⟩
  rwa [List.prefix_nil.mp hpassed]

/-- No deferred class is that of visibility, since no processed element has a token for it. -/
theorem visibleClass_notMem_words_of_queue {document : Document} {compiler : Compiler}
    (hspares : Step.Always Step.SparesVisibility { document, compiler } steps) :
    ∀ task ∈ (Step.run { document, compiler } steps).queue, visibleClass ∉ task.name.words := by
  intro task htask hword
  have hwaits := ((ledger_run document compiler steps).queue_iff task).mp htask
  obtain ⟨before, after, rfl, hdefers, -⟩ := hwaits.seenSince
  rw [hdefers.words_eq, List.mem_singleton] at hword
  exact hspares.at (hword ▸ hdefers.2)

theorem observed_or_stranded {document : Document} {compiler : Compiler}
    (hnone : visibleClass ∉ document.classes id)
    (hattached : Step.Always Step.ProcessesAttached { document, compiler } steps)
    (hspares : Step.Always Step.SparesVisibility { document, compiler } steps)
    (hclass : visibleClass ∈ (Step.run { document, compiler } steps).document.classes id) :
    (Step.run { document, compiler } steps).isObserved id = true ∨
      ({ document, compiler } : Page).Stranded steps id := by
  -- On the end of the run: the step that stranded the class is looked for from the start.
  induction steps using List.reverseRecOn with
  | nil => exact absurd hclass hnone
  | append_singleton earlier step ih =>
      obtain ⟨hearlier, hlast⟩ := Step.always_append_iff.mp hattached
      obtain ⟨hspared, hspares⟩ := Step.always_append_iff.mp hspares
      have horigin := hclass
      rw [Step.run_concat] at horigin ⊢
      have hqueue := visibleClass_notMem_words_of_queue hspared
      rcases visibleClass_step hlast.1 hspares.1 hqueue horigin
        with hobserved | hstrands | ⟨hbefore, hunobserved⟩
      · exact Or.inl hobserved
      · exact Or.inr (stranded_concat_of_strands hstrands hclass)
      · have hstranded := (ih hearlier hspared hbefore).resolve_left (by simp [hunobserved])
        exact Or.inr (hstranded.concat hclass)

/-- In every run in which nothing but the observation gives out the visibility class, whatever else
happens in whatever order: an element that carries the class is observed, or the class was left on it
and has been there ever since, by a release of the element while it was away or, on the root, by a
breakpoint with white space in its key.  Where no step leaves the class behind like this, every
element that carries it is observed. -/
theorem visibleClass_of_turns (sizeObserver : Bool) (compiler : Compiler) {turns : List Turn}
    (hknown : Turn.AllKnown { document := { sizeObserver }, compiler } turns)
    (hspares : Step.Always Step.SparesVisibility { document := { sizeObserver }, compiler }
      (Turn.history { document := { sizeObserver }, compiler } turns)) (id : ElementId) :
    let start : Page := { document := { sizeObserver }, compiler }
    let steps := Turn.history start turns
    let page := turns.foldl Turn.apply start
    visibleClass ∈ page.document.classes id →
      (page.isObserved id = true ∨ start.Stranded steps id) ∧
        ((∀ before step after, steps = before ++ step :: after →
            ¬ step.Strands id (Step.run start before)) → page.isObserved id = true) := by
  intro start steps page hclass
  have hnone : visibleClass ∉ start.document.classes id := by
    intro hmem
    obtain ⟨number, hlt, rfl⟩ :=
      Document.contains_iff_exists_number.mp (Document.contains_of_mem_classes hmem)
    obtain rfl := Nat.lt_one_iff.mp hlt
    cases hmem
  have hattached := Turn.always_attached_history (Visit.ready_new sizeObserver compiler) hknown
  have hpage : Step.run start steps = page := Turn.run_history start turns
  rw [← hpage] at hclass ⊢
  have hreason := observed_or_stranded hnone hattached hspares hclass
  refine ⟨hreason, fun hnever => hreason.resolve_right ?_⟩
  rintro ⟨before, step, after, heq, hstrands, -⟩
  exact hnever before step after heq hstrands

/-- A start and then rounds, as turns. -/
def turnsOfRounds (rounds : List Round) : List Turn :=
  .start :: rounds.flatMap fun round => round.events.map Turn.ofEvent ++ [.ofBatch round.batch]

theorem foldl_turnsOfRounds (page : Page) (rounds : List Round) :
    (turnsOfRounds rounds).foldl Turn.apply page = rounds.foldl Round.apply page.start := by
  rw [turnsOfRounds, List.foldl_cons, List.foldl_flatMap]
  refine congrArg (fun apply => rounds.foldl apply page.start) ?_
  funext page round
  rw [List.foldl_append, List.foldl_map]
  rfl

def AllValid (page : Page) : List Round → Prop
  | [] => True
  | round :: rest => round.Valid page ∧ AllValid (round.apply page) rest

theorem Running.rounds {page : Page} (hpage : page.Running) {rounds : List Round}
    (hrounds : page.AllValid rounds) : (rounds.foldl Round.apply page).Running := by
  induction rounds generalizing page with
  | nil => exact hpage
  | cons round rest ih => exact ih (hpage.round round hrounds.1) hrounds.2

/-- An element is taken away while it is in view, loses the token of the state in the meantime, and
comes back. -/
def lostWhileAway : List Round :=
  [{ events := [.edit (.append Document.root "visible:opacity-100".toList)]
     batch := [.childList [.element 1] []] },
    { events := [.intersect (.element 1) (.ofNat 1)], batch := [.classAttribute (.element 1)] },
    { events := [.edit (.detach (.element 1))], batch := [.childList [] [.element 1]] },
    { events :=
        [.edit (.removeClass (.element 1) "visible:opacity-100".toList),
          .edit (.appendChild Document.root (.element 1))]
      batch := [.classAttribute (.element 1), .childList [.element 1] []] }]

theorem stranded_of_lostWhileAway :
    let turns := turnsOfRounds lostWhileAway
    Turn.AllKnown { document := { sizeObserver := true } } turns ∧
      Step.Always Step.SparesVisibility { document := { sizeObserver := true } }
        (Turn.history { document := { sizeObserver := true } } turns) ∧
      visibleClass ∈ (turns.foldl Turn.apply {}).document.classes (.element 1) ∧
      ({} : Page).Stranded (Turn.history {} turns) (.element 1) := by
  intro turns
  have hknown : Turn.AllKnown { document := { sizeObserver := true } } turns := by decide +kernel
  have hspares : Step.Always Step.SparesVisibility { document := { sizeObserver := true } }
      (Turn.history { document := { sizeObserver := true } } turns) := by decide +kernel
  have hclass : visibleClass ∈ (turns.foldl Turn.apply {}).document.classes (.element 1) := by
    decide +kernel
  have hunobserved : (turns.foldl Turn.apply {}).isObserved (.element 1) = false := by
    decide +kernel
  obtain ⟨hreason, -⟩ := visibleClass_of_turns true {} hknown hspares (.element 1) hclass
  exact ⟨hknown, hspares, hclass, hreason.resolve_left (by simp [hunobserved])⟩

/-- Although every change is reported by the next batch, the element is attached, carries the class
and is not observed. -/
theorem visibleClass_outlives_observation :
    let turns := turnsOfRounds lostWhileAway
    let page : Page := turns.foldl Turn.apply {}
    page.Running ∧ Step.Always Step.SparesVisibility {} (Turn.history {} turns) ∧
      page.document.isConnected (.element 1) = true ∧
      visibleClass ∈ page.document.classes (.element 1) ∧
      page.isObserved (.element 1) = false := by
  intro turns page
  have hvalid : ({} : Page).start.AllValid lostWhileAway := by
    refine ⟨⟨⟨⟨?_, ?_⟩, trivial⟩, ?_⟩, ⟨⟨trivial, trivial⟩, ?_⟩, ⟨⟨⟨?_, ?_⟩, trivial⟩, ?_⟩,
      ⟨⟨⟨?_, ?_⟩, ⟨?_, ?_⟩, trivial⟩, ?_⟩, trivial⟩ <;> decide +kernel
  have hrunning : page.Running := by
    show ((turnsOfRounds lostWhileAway).foldl Turn.apply {}).Running
    rw [foldl_turnsOfRounds]
    exact (Running.start {} (.new true) rfl).rounds hvalid
  exact ⟨hrunning, by decide +kernel, by decide +kernel, by decide +kernel, by decide +kernel⟩

end Page

end UtilityCss
