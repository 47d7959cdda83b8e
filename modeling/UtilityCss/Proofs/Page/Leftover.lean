import UtilityCss.Proofs.Page.Accounting
import UtilityCss.Proofs.Page.Turn

/-!
Inline styles over the whole life of a page, in any order of starts, events and batches.  A property
is on an element exactly while an active condition of the element claims it, or while it is left over
from a release of the element.
-/

namespace UtilityCss

/-- An event that writes no inline style itself. -/
def Event.SparesStyles : Event → Prop
  | .edit operation => operation.SparesStyles
  | _ => True

namespace Step

def SparesStyles : Step → Prop
  | ofEvent event => event.SparesStyles
  | ofVisit _ => True

end Step

namespace Turn

variable {page : Page} {turn : Turn}

/-- Nothing but the page itself writes inline styles in this turn. -/
def SparesStyles : Turn → Prop
  | ofEvent event => event.SparesStyles
  | _ => True

theorem sparesStyles_of_mem_history {turns : List Turn} (hturns : ∀ turn ∈ turns, turn.SparesStyles)
    {step : Step} (hstep : step ∈ history page turns) : step.SparesStyles := by
  cases step with
  | ofEvent event => exact hturns (.ofEvent event) (mem_of_ofEvent_mem_history hstep)
  | ofVisit visit => trivial

end Turn

namespace Page

variable {start page : Page} {id : ElementId} {property : Text} {leftover : Text → Prop}

/-- An active condition of an element has set a property to a value. -/
def ClaimsValue (page : Page) (id : ElementId) (property value : Text) : Prop :=
  ∃ token condition, (page.conditions id).get? token = some condition ∧
    condition.active = true ∧ condition.applied.get? property = some value

/-- A property that was on an element when it was released, and has been there after every step
since. -/
def Leftover (start : Page) (steps : List Step) (id : ElementId) (property : Text) : Prop :=
  ∃ before after, steps = before ++ .ofVisit (.release id) :: after ∧
    ∀ passed, passed <+: after → ∃ value,
      (Step.run start (before ++ .ofVisit (.release id) :: passed)).document.style? id property =
        some value

theorem Leftover.exists_value {steps : List Step} (hleftover : start.Leftover steps id property) :
    ∃ value, (Step.run start steps).document.style? id property = some value := by
  obtain ⟨before, after, rfl, hkept⟩ := hleftover
  exact hkept after (List.prefix_refl after)

theorem Leftover.concat {steps : List Step} (hleftover : start.Leftover steps id property)
    {step : Step} {value : Text}
    (hvalue : (Step.run start (steps ++ [step])).document.style? id property = some value) :
    start.Leftover (steps ++ [step]) id property := by
  obtain ⟨before, after, rfl, hkept⟩ := hleftover
  refine ⟨before, after ++ [step], by simp, fun passed hpassed => ?_⟩
  rcases List.prefix_concat_iff.mp hpassed with rfl | hearlier
  · exact ⟨value, by simpa using hvalue⟩
  · exact hkept passed hearlier

theorem leftover_concat_release {steps : List Step} {value : Text}
    (hvalue : (Step.run start (steps ++ [.ofVisit (.release id)])).document.style? id property =
      some value) : start.Leftover (steps ++ [.ofVisit (.release id)]) id property := by
  refine ⟨steps, [], rfl, fun passed hpassed => ?_⟩
  rw [List.prefix_nil.mp hpassed]
  exact ⟨value, hvalue⟩

theorem Accounted.event (haccounted : page.Accounted id leftover) {event : Event}
    (hspares : event.SparesStyles) : (event.apply page).Accounted id leftover := by
  have hcontains : page.document.contains id = true →
      (event.apply page).document.contains id = true := (Event.accounts_records page event).contains
  cases event with
  | edit operation =>
      refine haccounted.of_sameStyles ?_ hcontains
      exact ⟨rfl, Document.Operation.styles_apply hspares page.document⟩
  | resize target width =>
      by_cases htarget : id = target
      · subst htarget
        exact haccounted.resize width
      · exact haccounted.of_changesOnly (changesOnly_resize page target width) htarget
  | intersect target ratio =>
      exact haccounted.of_sameStyles (sameStyles_intersect page target ratio) hcontains
  | viewport width =>
      exact haccounted.of_sameStyles (sameStyles_handleViewport page width) hcontains
  | advanceTime time =>
      exact haccounted.of_sameStyles (sameStyles_advanceTime page time) hcontains
  | editCompiler change => exact haccounted.of_sameStyles ⟨rfl, fun _ => rfl⟩ hcontains

theorem Accounted.visit (haccounted : page.Accounted id leftover) {visit : Visit}
    (hvisit : visit ≠ .release id) : (visit.apply page).Accounted id leftover := by
  by_cases htarget : id = visit.target
  · subst htarget
    cases visit with
    | process target => exact haccounted.process
    | release target => exact absurd rfl hvisit
  · exact haccounted.of_changesOnly (Visit.changesOnly_apply page visit) htarget

theorem Accounted.step {earlier : List Step}
    (haccounted : (Step.run start earlier).Accounted id (start.Leftover earlier id)) {step : Step}
    (hspares : step.SparesStyles) :
    (Step.run start (earlier ++ [step])).Accounted id (start.Leftover (earlier ++ [step]) id) := by
  -- What a step does not bring in was left over before, and it still is if it is still there.
  have hkept : (step.apply (Step.run start earlier)).Accounted id (start.Leftover earlier id) →
      (Step.run start (earlier ++ [step])).Accounted id
        (start.Leftover (earlier ++ [step]) id) := by
    rw [← Step.run_concat]
    intro hafter
    exact hafter.mono fun hvalue hleftover => hleftover.concat hvalue
  cases step with
  | ofEvent event => exact hkept (haccounted.event hspares)
  | ofVisit visit =>
      by_cases hvisit : visit = .release id
      · subst hvisit
        have hafter : Step.run start (earlier ++ [.ofVisit (.release id)]) =
            (Step.run start earlier).releaseElement id := Step.run_concat start earlier _
        rw [hafter]
        refine accounted_releaseElement fun {property value} hvalue => ?_
        rw [← hafter] at hvalue
        exact leftover_concat_release hvalue
      · exact hkept (haccounted.visit hvisit)

/-- A page that has not begun, on a document without inline styles. -/
theorem accounted_new {document : Document} (compiler : Compiler)
    (hstyle : ∀ id property, document.style? id property = none) (id : ElementId) :
    ({ document, compiler } : Page).Accounted id leftover := by
  refine ⟨ClaimsBut.of_no_conditions fun {property value} hvalue => ?_, fun htracked => ?_⟩
  · rw [hstyle] at hvalue
    cases hvalue
  · cases htracked

theorem accounted_run {document : Document} (compiler : Compiler)
    (hstyle : ∀ id property, document.style? id property = none) {steps : List Step}
    (hsteps : ∀ step ∈ steps, step.SparesStyles) (id : ElementId) :
    (Step.run { document, compiler } steps).Accounted id
      (({ document, compiler } : Page).Leftover steps id) := by
  -- On the end of the run: a leftover is judged by the whole run, not by what is still to come.
  induction steps using List.reverseRecOn with
  | nil => exact accounted_new compiler hstyle id
  | append_singleton earlier step ih =>
      have hearlier := ih fun other hother => hsteps other (List.mem_append_left _ hother)
      exact hearlier.step (hsteps step (List.mem_append_right _ (List.mem_singleton_self step)))

/-- Whatever happens in whatever order, on a document whose inline styles only the page writes: what
is set on an element is claimed by an active condition or left over, and what is claimed or left over
is set. -/
theorem claimed_or_leftover_of_turns {document : Document} (compiler : Compiler)
    (hstyle : ∀ id property, document.style? id property = none) {turns : List Turn}
    (hturns : ∀ turn ∈ turns, turn.SparesStyles) (id : ElementId) (property : Text) :
    let start : Page := { document, compiler }
    let page := turns.foldl Turn.apply start
    (∀ value, page.document.style? id property = some value →
      page.ClaimsValue id property value ∨
        start.Leftover (Turn.history start turns) id property) ∧
    ((∃ value, page.ClaimsValue id property value) ∨
        start.Leftover (Turn.history start turns) id property →
      ∃ value, page.document.style? id property = some value) := by
  intro start page
  have hpage : Step.run start (Turn.history start turns) = page := Turn.run_history start turns
  have hsteps : ∀ step ∈ Turn.history start turns, step.SparesStyles :=
    fun _ hstep => Turn.sparesStyles_of_mem_history hturns hstep
  have haccounted := accounted_run compiler hstyle hsteps id
  rw [hpage] at haccounted
  refine ⟨fun value hvalue => haccounted.claimed.claimed hvalue, ?_⟩
  rintro (⟨value, token, condition, hcondition, hactive, hclaim⟩ | hleftover)
  · exact haccounted.claimed.present hcondition hactive hclaim
  · rw [← hpage]
    exact hleftover.exists_value

theorem style?_new (sizeObserver : Bool) (id : ElementId) (property : Text) :
    ({ sizeObserver } : Document).style? id property = none := by
  rcases id with _ | _ | number <;> rfl

/-- An element is taken away while its condition holds, and comes back to a width at which it does
not. -/
def awayAndBack : List Turn :=
  [.ofEvent (.edit (.append Document.root "max-320:flex".toList)), .start,
    .ofEvent (.resize (.element 1) (.ofNat 100)), .ofEvent (.edit (.detach (.element 1))),
    .ofBatch [.childList [] [.element 1]],
    .ofEvent (.edit (.appendChild Document.root (.element 1))),
    .ofBatch [.childList [.element 1] []], .ofEvent (.resize (.element 1) (.ofNat 500))]

theorem claimed_or_leftover_awayAndBack :
    let start : Page := {}
    let page := awayAndBack.foldl Turn.apply start
    (∀ id property, start.document.style? id property = none) ∧
      (∀ turn ∈ awayAndBack, turn.SparesStyles) ∧
      (∀ value, page.document.style? (.element 1) "display".toList = some value →
        page.ClaimsValue (.element 1) "display".toList value ∨
          start.Leftover (Turn.history start awayAndBack) (.element 1) "display".toList) ∧
      ((∃ value, page.ClaimsValue (.element 1) "display".toList value) ∨
          start.Leftover (Turn.history start awayAndBack) (.element 1) "display".toList →
        ∃ value, page.document.style? (.element 1) "display".toList = some value) := by
  have hspares : ∀ turn ∈ awayAndBack, turn.SparesStyles := by
    simp [awayAndBack, Turn.SparesStyles, Event.SparesStyles, Document.Operation.SparesStyles]
  exact ⟨style?_new true, hspares,
    claimed_or_leftover_of_turns {} (style?_new true) hspares (.element 1) "display".toList⟩

/-- Right after the size report nothing claims the property that is still set. -/
theorem unclaimed_after_awayAndBack :
    let page : Page := awayAndBack.foldl Turn.apply {}
    page.isTracked (.element 1) = true ∧ page.document.isConnected (.element 1) = true ∧
      page.document.style? (.element 1) "display".toList = some "flex".toList ∧
      ∀ value, ¬ page.ClaimsValue (.element 1) "display".toList value := by
  intro page
  have hrun : page.isTracked (.element 1) = true ∧ page.document.isConnected (.element 1) = true ∧
      page.document.style? (.element 1) "display".toList = some "flex".toList ∧
      claimedValue? (page.conditions (.element 1)) "display".toList = none := by decide +kernel
  obtain ⟨htracked, hconnected, hstyle, hnone⟩ := hrun
  refine ⟨htracked, hconnected, hstyle, fun value hclaims => ?_⟩
  obtain ⟨token, condition, hcondition, hactive, hclaim⟩ := hclaims
  obtain ⟨claimed, hclaimed⟩ := claimedValue?_isSome hcondition hactive hclaim
  rw [hnone] at hclaimed
  cases hclaimed

end Page

end UtilityCss
