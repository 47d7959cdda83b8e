import UtilityCss.Proofs.Document.ClassNames
import UtilityCss.Proofs.Page.DeferredQueue

/-!
What becomes of a deferred class.  Until its element is released it waits, or a move of the clock has
added it, or a move of the clock that got to its moment has found the element taken away.
-/

namespace UtilityCss

namespace Document

variable {doc : Document} {id : ElementId} {name : Text} {tasks : List DeferredClass}

theorem hasClass_foldl_addClass_of_hasClass (hclass : doc.hasClass id name = true) :
    (tasks.foldl (fun doc task => doc.addClass task.target task.name) doc).hasClass id name =
      true := by
  induction tasks generalizing doc with
  | nil => exact hclass
  | cons task rest ih => exact ih (hasClass_addClass_of_hasClass hclass task.target task.name)

/-- Of the classes that are added one after the other, each is there in the end. -/
theorem hasClass_foldl_addClass (hid : doc.contains id = true) (hname : name.words = [name])
    (htasks : ∃ task ∈ tasks, task.target = id ∧ task.name = name) :
    (tasks.foldl (fun doc task => doc.addClass task.target task.name) doc).hasClass id name =
      true := by
  obtain ⟨task, htask, rfl, rfl⟩ := htasks
  obtain ⟨first, second, rfl⟩ := List.append_of_mem htask
  rw [List.foldl_append, List.foldl_cons]
  refine hasClass_foldl_addClass_of_hasClass (hasClass_addClass ?_ hname)
  have hstep : ∀ (doc : Document) (other : DeferredClass),
      (doc.addClass other.target other.name).contains task.target = doc.contains task.target :=
    fun doc other => contains_update doc other.target task.target _
  exact (foldl_eq_of_step (fun doc => doc.contains task.target) hstep first doc).trans hid

end Document

namespace Step

/-- Elements stay in their document, attached or not. -/
theorem contains_apply {page : Page} {id : ElementId} (hid : page.document.contains id = true)
    (step : Step) : (step.apply page).document.contains id = true := by
  cases step with
  | ofEvent event => exact (Event.accounts_records page event).contains hid
  | ofVisit visit => exact ((Visit.changesOnly_apply page visit).contains_eq id).trans hid

theorem contains_run {page : Page} {id : ElementId} (hid : page.document.contains id = true)
    (steps : List Step) : (run page steps).document.contains id = true := by
  induction steps generalizing page with
  | nil => exact hid
  | cons step rest ih => exact ih (contains_apply hid step)

end Step

namespace Page

variable {start page : Page} {steps : List Step} {step : Step} {id : ElementId} {name : Text}

theorem Defers.words_eq {doc : Document} (hdefers : Defers (doc.classes id) name) :
    name.words = [name] := by
  obtain ⟨hne, hmem⟩ := hdefers
  refine Text.words_of_forall hne fun c hc => ?_
  exact Text.isBlank_eq_false_of_mem_words hmem c (List.mem_append_right deferralMark hc)

theorem SeenSince.words_eq (hseen : start.SeenSince steps id name) : name.words = [name] := by
  obtain ⟨before, after, -, hdefers, -⟩ := hseen
  exact hdefers.words_eq

theorem SeenSince.contains (hseen : start.SeenSince steps id name) :
    (Step.run start steps).document.contains id = true := by
  obtain ⟨before, after, rfl, hdefers, -⟩ := hseen
  rw [Step.run, List.foldl_append]
  exact Step.contains_run (Document.contains_of_mem_classes hdefers.2) _

/-- The clock was moved in a way that meets a condition, on the page before the move and the steps
that came after it. -/
def Clocked (start : Page) (steps : List Step) (met : Page → Nat → List Step → Prop) : Prop :=
  ∃ earlier time later, steps = earlier ++ .ofEvent (.advanceTime time) :: later ∧
    met (Step.run start earlier) time later

theorem not_clocked_nil {met : Page → Nat → List Step → Prop} : ¬ start.Clocked [] met := by
  rintro ⟨earlier, time, later, heq, -⟩
  simp at heq

theorem clocked_concat_iff {met : Page → Nat → List Step → Prop} :
    start.Clocked (steps ++ [step]) met ↔
      start.Clocked steps (fun there time later => met there time (later ++ [step])) ∨
        ∃ time, step = .ofEvent (.advanceTime time) ∧ met (Step.run start steps) time [] := by
  constructor
  · rintro ⟨earlier, time, later, heq, hmet⟩
    rcases concat_eq_append_cons_iff.mp heq with ⟨rfl, hstep, rfl⟩ | ⟨rest, rfl, rfl⟩
    · exact Or.inr ⟨time, hstep.symm, hmet⟩
    · exact Or.inl ⟨earlier, time, rest, rfl, hmet⟩
  · rintro (⟨earlier, time, later, rfl, hmet⟩ | ⟨time, rfl, hmet⟩)
    · exact ⟨earlier, time, later ++ [step], by simp, hmet⟩
    · exact ⟨steps, time, [], rfl, hmet⟩

theorem clocked_cons_iff {met : Page → Nat → List Step → Prop} :
    start.Clocked (step :: steps) met ↔
      (∃ time, step = .ofEvent (.advanceTime time) ∧ met start time steps) ∨
        (step.apply start).Clocked steps met := by
  constructor
  · rintro ⟨earlier, time, later, heq, hmet⟩
    cases earlier with
    | nil =>
        obtain ⟨hstep, rfl⟩ := List.cons.inj heq
        exact Or.inl ⟨time, hstep, hmet⟩
    | cons first rest =>
        obtain ⟨rfl, rfl⟩ := List.cons.inj heq
        exact Or.inr ⟨rest, time, later, rfl, hmet⟩
  · rintro (⟨time, rfl, hmet⟩ | ⟨earlier, time, later, rfl, hmet⟩)
    · exact ⟨[], time, steps, rfl, hmet⟩
    · exact ⟨step :: earlier, time, later, rfl, hmet⟩

/-- A class waits for an element. -/
def Awaits (page : Page) (id : ElementId) (name : Text) : Prop :=
  ∃ task ∈ page.queue, task.target = id ∧ task.name = name

/-- A move of the clock adds a class to an element. -/
def Delivers (page : Page) (time : Nat) (id : ElementId) (name : Text) : Prop :=
  ∃ task ∈ page.applied time, task.target = id ∧ task.name = name

/-- A move of the clock gets to the moment of a class while the element is away. -/
def Misses (page : Page) (time : Nat) (id : ElementId) (name : Text) : Prop :=
  page.document.isConnected id = false ∧
    ∃ task ∈ page.queue, task.target = id ∧ task.name = name ∧ task.due ≤ max page.now time

instance (page : Page) (time : Nat) (id : ElementId) (name : Text) :
    Decidable (page.Delivers time id name) :=
  inferInstanceAs (Decidable (∃ task ∈ page.applied time, task.target = id ∧ task.name = name))

instance (page : Page) (time : Nat) (id : ElementId) (name : Text) :
    Decidable (page.Misses time id name) :=
  inferInstanceAs (Decidable (page.document.isConnected id = false ∧
    ∃ task ∈ page.queue, task.target = id ∧ task.name = name ∧ task.due ≤ max page.now time))

/-- A move of the clock settles what becomes of a class, or leaves it waiting. -/
theorem Awaits.advanceTime (hawaits : page.Awaits id name) (time : Nat) :
    (page.advanceTime time).Awaits id name ∨ page.Delivers time id name ∨
      page.Misses time id name := by
  obtain ⟨task, htask, rfl, rfl⟩ := hawaits
  by_cases hdue : task.due ≤ max page.now time
  · right
    cases hconnected : page.document.isConnected task.target with
    | true =>
        have happlied := (mem_applied_iff page time task).mpr ⟨htask, hdue, hconnected⟩
        exact Or.inl ⟨task, happlied, rfl, rfl⟩
    | false => exact Or.inr ⟨hconnected, task, htask, rfl, rfl, hdue⟩
  · left
    have hqueue : (page.advanceTime time).queue =
        page.queue.filter fun task => max page.now time < task.due :=
      congrArg Deferrals.queue (deferrals_advanceTime page time)
    refine ⟨task, ?_, rfl, rfl⟩
    rw [hqueue, List.mem_filter, decide_eq_true_iff]
    exact ⟨htask, not_le.mp hdue⟩

theorem Delivers.hasClass {time : Nat} (hdelivers : page.Delivers time id name)
    (hid : page.document.contains id = true) (hname : name.words = [name]) :
    (page.advanceTime time).document.hasClass id name = true := by
  rw [document_advanceTime]
  exact Document.hasClass_foldl_addClass hid hname hdelivers

/-- Whatever does not move the clock or release the element leaves a class waiting. -/
theorem Awaits.apply (hawaits : page.Awaits id name)
    (hclock : ∀ time, step ≠ .ofEvent (.advanceTime time)) (hrelease : step ≠ .ofVisit (.release id)) :
    (step.apply page).Awaits id name := by
  obtain ⟨task, htask, rfl, rfl⟩ := hawaits
  refine ⟨task, ?_, rfl, rfl⟩
  cases step with
  | ofEvent event =>
      have hsame := deferrals_event (fun time heq => hclock time (congrArg Step.ofEvent heq)) page
      have hqueue : (event.apply page).queue = page.queue := congrArg Deferrals.queue hsame
      rwa [Step.apply, hqueue]
  | ofVisit visit =>
      cases visit with
      | process target =>
          obtain ⟨names, hqueues⟩ := exists_queues_process page target
          rw [Step.apply, Visit.apply, hqueues.queue_eq]
          exact List.mem_append_left _ htask
      | release target =>
          have hqueue : (page.releaseElement target).queue =
              page.queue.filter fun task => task.target ≠ target :=
            congrArg Deferrals.queue (deferrals_releaseElement page target)
          have htarget : task.target ≠ target := fun heq => hrelease (by rw [heq])
          rw [Step.apply, Visit.apply, hqueue]
          exact List.mem_filter.mpr ⟨htask, decide_eq_true htarget⟩

/-- What can become of a class of an element that is not released: it waits, or the clock has added
it, or the clock has missed it. -/
def Settled (start : Page) (steps : List Step) (id : ElementId) (name : Text) : Prop :=
  (Step.run start steps).Awaits id name ∨
    start.Clocked steps (fun there time later => .ofVisit (.release id) ∉ later ∧
      there.Delivers time id name ∧ (there.advanceTime time).document.hasClass id name = true) ∨
    start.Clocked steps (fun there time later => .ofVisit (.release id) ∉ later ∧
      there.Misses time id name)

theorem Settled.concat (hsettled : start.Settled steps id name)
    (hid : (Step.run start steps).document.contains id = true) (hname : name.words = [name])
    (hstep : step ≠ .ofVisit (.release id)) : start.Settled (steps ++ [step]) id name := by
  have hlater : ∀ later : List Step, .ofVisit (.release id) ∉ later →
      .ofVisit (.release id) ∉ later ++ [step] := by
    intro later hkept hmem
    rcases List.mem_append.mp hmem with hmem | hlast
    · exact hkept hmem
    · exact hstep (List.mem_singleton.mp hlast).symm
  simp only [Settled, clocked_concat_iff]
  rcases hsettled with hawaits | hdelivered | hmissed
  · by_cases hclock : ∃ time, step = .ofEvent (.advanceTime time)
    · obtain ⟨time, rfl⟩ := hclock
      rw [Step.run_concat]
      rcases hawaits.advanceTime time with hawaits | hdelivers | hmisses
      · exact Or.inl hawaits
      · exact Or.inr (Or.inl (Or.inr
          ⟨time, rfl, List.not_mem_nil, hdelivers, hdelivers.hasClass hid hname⟩))
      · exact Or.inr (Or.inr (Or.inr ⟨time, rfl, List.not_mem_nil, hmisses⟩))
    · rw [Step.run_concat]
      exact Or.inl (hawaits.apply (fun time heq => hclock ⟨time, heq⟩) hstep)
  · obtain ⟨earlier, time, later, heq, hkept, hdelivers⟩ := hdelivered
    exact Or.inr (Or.inl (Or.inl ⟨earlier, time, later, heq, hlater later hkept, hdelivers⟩))
  · obtain ⟨earlier, time, later, heq, hkept, hmisses⟩ := hmissed
    exact Or.inr (Or.inr (Or.inl ⟨earlier, time, later, heq, hlater later hkept, hmisses⟩))

theorem SeenSince.settled {document : Document} {compiler : Compiler}
    (hseen : ({ document, compiler } : Page).SeenSince steps id name) :
    ({ document, compiler } : Page).Settled steps id name := by
  -- On the end of the run: the first sight queues the class, and every later step settles it.
  induction steps using List.reverseRecOn with
  | nil =>
      obtain ⟨before, after, heq, -⟩ := hseen
      simp at heq
  | append_singleton earlier step ih =>
      by_cases hold : ({ document, compiler } : Page).SeenSince earlier id name
      · refine (ih hold).concat hold.contains hold.words_eq ?_
        rintro rfl
        rcases seenSince_concat_iff.mp hseen with ⟨hstep, -⟩ | ⟨-, hstep⟩
        · cases hstep
        · exact hstep rfl
      · rcases seenSince_concat_iff.mp hseen with ⟨rfl, hdefers⟩ | ⟨hold', -⟩
        · let task : DeferredClass :=
            ⟨id, name, dueMoment (Step.run { document, compiler } earlier).now⟩
          have hwaits : ({ document, compiler } : Page).Waits
              (earlier ++ [.ofVisit (.process id)]) task :=
            waits_process_iff.mpr (Or.inr ⟨rfl, hdefers, hold, rfl⟩)
          exact Or.inl ⟨task, ((ledger_run document compiler _).queue_iff task).mpr hwaits, rfl, rfl⟩
        · exact absurd hold' hold

/-- Whatever happens in whatever order: a class that an element was seen to defer, and that was not
released since, still waits, or a move of the clock has added it, or it was due while the element was
away. -/
theorem settled_of_turns (document : Document) (compiler : Compiler) {turns : List Turn}
    {id : ElementId} {name : Text}
    (hseen : ({ document, compiler } : Page).SeenSince
      (Turn.history { document, compiler } turns) id name) :
    let start : Page := { document, compiler }
    let steps := Turn.history start turns
    let page := turns.foldl Turn.apply start
    (∃ task ∈ page.queue, task.target = id ∧ task.name = name) ∨
      (∃ earlier time later, steps = earlier ++ .ofEvent (.advanceTime time) :: later ∧
        .ofVisit (.release id) ∉ later ∧
        let there := Step.run start earlier
        (∃ task ∈ there.applied time, task.target = id ∧ task.name = name) ∧
          (there.advanceTime time).document.hasClass id name = true) ∨
      (∃ earlier time later, steps = earlier ++ .ofEvent (.advanceTime time) :: later ∧
        .ofVisit (.release id) ∉ later ∧
        let there := Step.run start earlier
        there.document.isConnected id = false ∧
          ∃ task ∈ there.queue, task.target = id ∧ task.name = name ∧
            task.due ≤ max there.now time) := by
  intro start steps page
  have hsettled : start.Settled steps id name := hseen.settled
  have hrun : Step.run start steps = page := Turn.run_history start turns
  rw [Settled, hrun] at hsettled
  exact hsettled

/-- An element is taken away before its class is due, and brought back before anybody notices. -/
def briefAbsence (moment : Nat) : List Turn :=
  [.ofEvent (.edit (.append Document.root "onload:fade-in".toList)), .start,
    .ofEvent (.edit (.detach (.element 1))), .ofEvent (.advanceTime moment),
    .ofEvent (.edit (.appendChild Document.root (.element 1))),
    .ofBatch [.childList [.element 1] [.element 1]], .ofEvent (.advanceTime 300)]

/-- The steps of a brief absence: the batch finds the element attached, so nothing is released. -/
def briefAbsenceSteps (moment : Nat) : List Step :=
  [.ofEvent (.edit (.append Document.root "onload:fade-in".toList)),
    .ofVisit (.process Document.root), .ofVisit (.process (.element 1)),
    .ofEvent (.edit (.detach (.element 1))), .ofEvent (.advanceTime moment),
    .ofEvent (.edit (.appendChild Document.root (.element 1))),
    .ofVisit (.process (.element 1)), .ofEvent (.advanceTime 300)]

/-- The clock is moved twice in a brief absence. -/
theorem clocked_briefAbsenceSteps_iff {moment : Nat} {met : Page → Nat → Prop} :
    start.Clocked (briefAbsenceSteps moment) (fun there time _ => met there time) ↔
      met (Step.run start ((briefAbsenceSteps moment).take 4)) moment ∨
        met (Step.run start ((briefAbsenceSteps moment).take 7)) 300 := by
  simp [briefAbsenceSteps, clocked_cons_iff, not_clocked_nil, Step.run]

/-- Away for half of the delay: the class comes when it is due. -/
theorem settled_of_turns_briefAbsence :
    let start : Page := {}
    let steps := Turn.history start (briefAbsence 50)
    let page := (briefAbsence 50).foldl Turn.apply start
    start.SeenSince steps (.element 1) "fade-in".toList ∧
      page.queue = [] ∧ page.document.hasClass (.element 1) "fade-in".toList = true ∧
      ∃ earlier time later, steps = earlier ++ .ofEvent (.advanceTime time) :: later ∧
        .ofVisit (.release (.element 1)) ∉ later ∧
        (Step.run start earlier).Delivers time (.element 1) "fade-in".toList := by
  have hhistory : Turn.history {} (briefAbsence 50) = briefAbsenceSteps 50 := by rfl
  have hqueue : ((briefAbsence 50).foldl Turn.apply {}).queue = [] := by decide +kernel
  have hseen : ({} : Page).SeenSince (Turn.history {} (briefAbsence 50)) (.element 1)
      "fade-in".toList := by
    refine ((ledger_run {} {} _).known_iff _ _).mp ?_
    rw [Turn.run_history]
    decide +kernel
  have hmissed : ¬ ({} : Page).Clocked (briefAbsenceSteps 50) fun there time _ =>
      there.Misses time (.element 1) "fade-in".toList := by
    rw [clocked_briefAbsenceSteps_iff]
    decide +kernel
  refine ⟨hseen, hqueue, by decide +kernel, ?_⟩
  rcases settled_of_turns {} {} hseen with ⟨task, htask, -⟩ | hdelivered | hmisses
  · rw [hqueue] at htask
    cases htask
  · obtain ⟨earlier, time, later, heq, hkept, hdelivers, -⟩ := hdelivered
    exact ⟨earlier, time, later, heq, hkept, hdelivers⟩
  · obtain ⟨earlier, time, later, heq, -, hmisses⟩ := hmisses
    exact absurd ⟨earlier, time, later, hhistory ▸ heq, hmisses⟩ hmissed

/-- Away when the class is due, and back before the batch that would tell: the class is lost, and it
is not queued again. -/
theorem lost_in_briefAbsence :
    let start : Page := {}
    let steps := Turn.history start (briefAbsence 100)
    let page := (briefAbsence 100).foldl Turn.apply start
    (∃ before after, steps = before ++ .ofVisit (.process (.element 1)) :: after ∧
        (Step.run start before).document.isConnected (.element 1) = true ∧
        (Step.run start before).document.classes (.element 1) = ["onload:fade-in".toList] ∧
        .ofVisit (.release (.element 1)) ∉ after) ∧
      page.document.isConnected (.element 1) = true ∧ page.queue = [] ∧
      ¬ start.Clocked steps fun there time _ => there.Delivers time (.element 1) "fade-in".toList := by
  have hhistory : Turn.history {} (briefAbsence 100) = briefAbsenceSteps 100 := by rfl
  refine ⟨⟨(briefAbsenceSteps 100).take 2, (briefAbsenceSteps 100).drop 3, hhistory, ?_, ?_, ?_⟩,
    ?_, ?_, ?_⟩
  · decide +kernel
  · decide +kernel
  · simp [briefAbsenceSteps]
  · decide +kernel
  · decide +kernel
  · rw [hhistory, clocked_briefAbsenceSteps_iff]
    decide +kernel

end Page

end UtilityCss
