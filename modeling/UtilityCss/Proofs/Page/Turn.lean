import UtilityCss.Proofs.Page.Event
import UtilityCss.Proofs.Page.Visit

/-!
The life of a page as a sequence of steps.  Turns are what a host sees: a start, an event, a batch of
changes.  Each comes down to single steps, which are events and visits of one element, so what every
step preserves holds after any turns.
-/

namespace UtilityCss

/-- What a page does at a time: it meets an event, or serves one element. -/
inductive Step where
  | ofEvent (event : Event)
  | ofVisit (visit : Visit)

namespace Step

def apply (page : Page) : Step → Page
  | ofEvent event => event.apply page
  | ofVisit visit => visit.apply page

def run (page : Page) (steps : List Step) : Page :=
  steps.foldl apply page

theorem run_concat (page : Page) (steps : List Step) (step : Step) :
    run page (steps ++ [step]) = step.apply (run page steps) := by
  rw [run, List.foldl_append]
  rfl

end Step

/-- A turn of a page: its start, an event, or a batch of changes. -/
inductive Turn where
  | start
  | ofEvent (event : Event)
  | ofBatch (mutations : List Mutation)

namespace Turn

def apply (page : Page) : Turn → Page
  | start => page.start
  | ofEvent event => event.apply page
  | ofBatch mutations => page.handleMutations mutations

/-- A start visits every attached element, and a batch those that its changes are about. -/
def steps (doc : Document) : Turn → List Step
  | start => (Visit.below doc Visit.process Document.root).map Step.ofVisit
  | ofEvent event => [.ofEvent event]
  | ofBatch mutations => (mutations.flatMap (Visit.ofMutation doc)).map Step.ofVisit

/-- The steps of a sequence of turns, in order. -/
def history (page : Page) : List Turn → List Step
  | [] => []
  | turn :: rest => turn.steps page.document ++ history (turn.apply page) rest

theorem history_append (page : Page) (first second : List Turn) :
    history page (first ++ second) =
      history page first ++ history (first.foldl apply page) second := by
  induction first generalizing page with
  | nil => rfl
  | cons turn rest ih =>
      rw [List.cons_append, history, history, ih, List.append_assoc]
      rfl

theorem mem_of_ofEvent_mem_history {page : Page} {turns : List Turn} {event : Event}
    (hmem : .ofEvent event ∈ history page turns) : .ofEvent event ∈ turns := by
  have hvisits : ∀ visits : List Visit, .ofEvent event ∉ visits.map Step.ofVisit := by simp
  induction turns generalizing page with
  | nil => cases hmem
  | cons turn rest ih =>
      rcases List.mem_append.mp hmem with hfirst | hlater
      · cases turn with
        | start => exact absurd hfirst (hvisits _)
        | ofEvent other =>
            cases List.mem_singleton.mp hfirst
            exact List.mem_cons_self
        | ofBatch mutations => exact absurd hfirst (hvisits _)
      · exact List.mem_cons_of_mem turn (ih hlater)

theorem run_visits (page : Page) (visits : List Visit) :
    Step.run page (visits.map Step.ofVisit) = visits.foldl Visit.apply page := by
  rw [Step.run, List.foldl_map]
  rfl

/-- A turn is an event, or it comes down to visits. -/
theorem eq_ofEvent_or_visits (page : Page) (turn : Turn) :
    (∃ event, turn = ofEvent event) ∨
      ∃ visits : List Visit, turn.apply page = visits.foldl Visit.apply page := by
  cases turn with
  | start => exact Or.inr ⟨_, Page.scan_eq page Document.root⟩
  | ofEvent event => exact Or.inl ⟨event, rfl⟩
  | ofBatch mutations => exact Or.inr ⟨_, Page.handleMutations_eq page mutations⟩

theorem run_steps (page : Page) (turn : Turn) :
    Step.run page (turn.steps page.document) = turn.apply page := by
  cases turn with
  | start =>
      rw [steps, run_visits, apply, Page.start, Page.scan_eq]
  | ofEvent event => rfl
  | ofBatch mutations =>
      rw [steps, run_visits, apply, Page.handleMutations_eq]

theorem run_history (page : Page) (turns : List Turn) :
    Step.run page (history page turns) = turns.foldl apply page := by
  induction turns generalizing page with
  | nil => rfl
  | cons turn rest ih =>
      rw [history, Step.run, List.foldl_append, List.foldl_cons, ← ih, ← run_steps]
      rfl

end Turn

end UtilityCss
