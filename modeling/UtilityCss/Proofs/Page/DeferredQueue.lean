import UtilityCss.Proofs.Page.Sighting

/-!
The queue of deferred classes in every run of a page: what waits in it, in which order, and what a
move of the clock adds to the document.
-/

namespace UtilityCss

namespace Page

variable {start page : Page} {steps : List Step} {id : ElementId}

/-- The classes that a move of the clock adds. -/
def applied (page : Page) (time : Nat) : List DeferredClass :=
  ({ page with now := max page.now time }.applyDue (max page.now time)).2

theorem mem_applied_iff (page : Page) (time : Nat) (task : DeferredClass) :
    task ∈ page.applied time ↔ task ∈ page.queue ∧ task.due ≤ max page.now time ∧
      page.document.isConnected task.target = true := by
  simp only [applied, applyDue, List.mem_filter, decide_eq_true_iff, and_assoc]

theorem applied_sublist (page : Page) (time : Nat) : (page.applied time).Sublist page.queue :=
  List.filter_sublist.trans List.filter_sublist

/-- The document after a move of the clock. -/
theorem document_advanceTime (page : Page) (time : Nat) :
    (page.advanceTime time).document =
      (page.applied time).foldl (fun doc task => doc.addClass task.target task.name)
        page.document := by
  unfold advanceTime
  dsimp only
  have hcompile : ∀ (page : Page) (task : DeferredClass),
      (page.withCompiler fun compiler => compiler.compile task.name).document = page.document :=
    fun _ _ => rfl
  rw [foldl_eq_of_step Page.document hcompile]
  rfl

/-- What a page keeps of deferred classes is what its history says. -/
structure Ledger (start : Page) (steps : List Step) (page : Page) : Prop where
  known_iff : ∀ id name, name ∈ page.deferredNames id ↔ start.SeenSince steps id name
  queue_iff : ∀ task, task ∈ page.queue ↔ start.Waits steps task
  ordered : page.queue.Pairwise (start.SeenEarlier steps)
  later : page.now < lastMoment → ∀ task ∈ page.queue, page.now < task.due

theorem Ledger.of_deferrals {next : Page} (hledger : Ledger start steps page)
    (hsame : next.deferrals = page.deferrals) : Ledger start steps next := by
  simp only [deferrals, Deferrals.mk.injEq] at hsame
  obtain ⟨hscheduled, hqueue, hnow⟩ := hsame
  refine ⟨fun id name => ?_, fun task => ?_, ?_, ?_⟩
  · rw [deferredNames, hscheduled]
    exact hledger.known_iff id name
  · rw [hqueue]
    exact hledger.queue_iff task
  · rw [hqueue]
    exact hledger.ordered
  · rw [hqueue, hnow]
    exact hledger.later

/-- The queue keeps its order when more steps are taken. -/
theorem Ledger.ordered_concat (hledger : Ledger start steps page) (step : Step) :
    page.queue.Pairwise (start.SeenEarlier (steps ++ [step])) := by
  refine hledger.ordered.imp_of_mem fun {first second} hfirst hsecond hearlier => ?_
  exact hearlier.concat ((hledger.queue_iff first).mp hfirst) ((hledger.queue_iff second).mp hsecond)
    step

theorem Ledger.event (hledger : Ledger start steps (Step.run start steps)) {event : Event}
    (hevent : ∀ time, event ≠ .advanceTime time) :
    Ledger start (steps ++ [.ofEvent event]) (event.apply (Step.run start steps)) := by
  refine Ledger.of_deferrals ?_ (deferrals_event hevent _)
  refine ⟨fun id name => ?_, fun task => ?_, hledger.ordered_concat _, hledger.later⟩
  · rw [seenSince_event_iff]
    exact hledger.known_iff id name
  · rw [waits_event_iff, hledger.queue_iff]
    exact (and_iff_left fun time h => absurd h (hevent time)).symm

theorem Ledger.advanceTime (hledger : Ledger start steps (Step.run start steps)) (time : Nat) :
    Ledger start (steps ++ [.ofEvent (.advanceTime time)])
      ((Step.run start steps).advanceTime time) := by
  have hafter := deferrals_advanceTime (Step.run start steps) time
  simp only [deferrals, Deferrals.mk.injEq] at hafter
  obtain ⟨hscheduled, hqueue, hnow⟩ := hafter
  refine ⟨fun id name => ?_, fun task => ?_, ?_, fun _ task htask => ?_⟩
  · rw [deferredNames, hscheduled, seenSince_event_iff]
    exact hledger.known_iff id name
  · rw [hqueue, List.mem_filter, hledger.queue_iff, waits_event_iff, decide_eq_true_iff]
    refine and_congr_right fun _ => ⟨?_, fun hlater => hlater time rfl⟩
    rintro hlater other heq
    cases heq
    exact hlater
  · rw [hqueue]
    exact (hledger.ordered_concat _).sublist List.filter_sublist
  · rw [hqueue, List.mem_filter, decide_eq_true_iff] at htask
    rw [hnow]
    exact htask.2

theorem Ledger.release (hledger : Ledger start steps (Step.run start steps)) (id : ElementId) :
    Ledger start (steps ++ [.ofVisit (.release id)])
      ((Step.run start steps).releaseElement id) := by
  have hafter := deferrals_releaseElement (Step.run start steps) id
  simp only [deferrals, Deferrals.mk.injEq] at hafter
  obtain ⟨hscheduled, hqueue, hnow⟩ := hafter
  refine ⟨fun probe name => ?_, fun task => ?_, ?_, fun hclock task htask => ?_⟩
  · rw [deferredNames, hscheduled, OrderedMap.get?_erase, seenSince_concat_iff]
    by_cases hprobe : probe = id
    · simp [hprobe]
    · rw [if_neg hprobe, ← deferredNames, hledger.known_iff]
      simp [Ne.symm hprobe]
  · rw [hqueue, List.mem_filter, hledger.queue_iff, waits_release_iff, decide_eq_true_iff]
  · rw [hqueue]
    exact (hledger.ordered_concat _).sublist List.filter_sublist
  · rw [hqueue] at htask
    rw [hnow] at hclock ⊢
    exact hledger.later hclock task (List.mem_filter.mp htask).1

theorem lt_dueMoment {now : Nat} (hnow : now < lastMoment) : now < dueMoment now := by
  rw [dueMoment, lt_min_iff]
  exact ⟨Nat.lt_add_of_pos_right (by decide), hnow⟩

theorem Ledger.process (hledger : Ledger start steps (Step.run start steps)) (id : ElementId) :
    Ledger start (steps ++ [.ofVisit (.process id)])
      ((Step.run start steps).process id) := by
  obtain ⟨names, hqueues⟩ := exists_queues_process (Step.run start steps) id
  have hnew : ∀ name, name ∈ names ↔
      Defers ((Step.run start steps).document.classes id) name ∧
        ¬ start.SeenSince steps id name := by
    intro name
    rw [hqueues.mem_iff, hledger.known_iff]
  refine ⟨fun probe name => ?_, fun task => ?_, ?_, fun hclock task htask => ?_⟩
  · rw [hqueues.known_iff, hledger.known_iff, seenSince_concat_iff, or_comm]
    by_cases hprobe : probe = id
    · simp [hprobe]
    · simp [hprobe, Ne.symm hprobe]
  · rw [hqueues.queue_eq, List.mem_append, hledger.queue_iff, waits_process_iff, List.mem_map]
    refine or_congr_right ⟨?_, ?_⟩
    · rintro ⟨name, hname, rfl⟩
      obtain ⟨hdefers, hunseen⟩ := (hnew name).mp hname
      exact ⟨rfl, hdefers, hunseen, rfl⟩
    · obtain ⟨target, name, due⟩ := task
      rintro ⟨rfl, hdefers, hunseen, rfl⟩
      exact ⟨name, (hnew name).mpr ⟨hdefers, hunseen⟩, rfl⟩
  · rw [hqueues.queue_eq]
    refine List.pairwise_append.mpr ⟨hledger.ordered_concat _, ?_, ?_⟩
    · rw [List.pairwise_map]
      refine hqueues.ordered.imp_of_mem fun {first second} hfirst hsecond hlt before later hb hl => ?_
      cases hb.eq_of_concat ((hnew first).mp hfirst).2
      cases hl.eq_of_concat ((hnew second).mp hsecond).2
      exact Or.inr ⟨rfl, rfl, hlt⟩
    · intro first hfirst second hsecond before later hb hl
      obtain ⟨name, hname, rfl⟩ := List.mem_map.mp hsecond
      have hold := hb.of_concat ((hledger.queue_iff first).mp hfirst).seenSince
      cases hl.eq_of_concat ((hnew name).mp hname).2
      exact Or.inl hold.length_lt
  · rw [hqueues.queue_eq, List.mem_append, List.mem_map] at htask
    rw [hqueues.now_eq] at hclock ⊢
    rcases htask with hold | ⟨name, -, rfl⟩
    · exact hledger.later hclock task hold
    · exact lt_dueMoment hclock

theorem Ledger.step (hledger : Ledger start steps (Step.run start steps)) (step : Step) :
    Ledger start (steps ++ [step]) (Step.run start (steps ++ [step])) := by
  rw [Step.run_concat]
  cases step with
  | ofEvent event =>
      by_cases hclock : ∃ time, event = .advanceTime time
      · obtain ⟨time, rfl⟩ := hclock
        exact hledger.advanceTime time
      · exact hledger.event fun time h => hclock ⟨time, h⟩
  | ofVisit visit =>
      cases visit with
      | process id => exact hledger.process id
      | release id => exact hledger.release id

theorem ledger_new (document : Document) (compiler : Compiler) :
    Ledger { document, compiler } [] { document, compiler } where
  known_iff id name := by
    refine iff_of_false List.not_mem_nil ?_
    rintro ⟨before, after, heq, -⟩
    simp at heq
  queue_iff task := by
    refine iff_of_false List.not_mem_nil ?_
    rintro ⟨before, ⟨after, heq, -⟩, -⟩
    simp at heq
  ordered := List.Pairwise.nil
  later _ task htask := by cases htask

theorem ledger_run (document : Document) (compiler : Compiler) (steps : List Step) :
    Ledger { document, compiler } steps (Step.run { document, compiler } steps) := by
  -- On the end of the run: a sight is the first one with respect to the steps before it.
  induction steps using List.reverseRecOn with
  | nil => exact ledger_new document compiler
  | append_singleton earlier step ih => exact ih.step step

/-- What a move of the clock adds, in terms of the history. -/
theorem Ledger.mem_applied_iff (hledger : Ledger start steps page) (time : Nat)
    (task : DeferredClass) : task ∈ page.applied time ↔
      start.Waits steps task ∧ task.due ≤ max page.now time ∧
        page.document.isConnected task.target = true := by
  rw [Page.mem_applied_iff, hledger.queue_iff]

/-- Whatever happens in whatever order: a class waits for an element from the first processing of the
element while it defers the class, since it was last released, until the clock gets to the moment
that this processing sets.  A move of the clock that gets there adds the class if the element is
attached, in the order of these processings and of the tokens, and no later move adds it again until
the element is released.  What waits is due later than now, but at the end of the clock. -/
theorem deferred_of_turns (document : Document) (compiler : Compiler) (turns : List Turn) :
    let start : Page := { document, compiler }
    let steps := Turn.history start turns
    let page := turns.foldl Turn.apply start
    (∀ task, task ∈ page.queue ↔ start.Waits steps task) ∧
      (∀ time, (page.advanceTime time).document = (page.applied time).foldl
        (fun doc task => doc.addClass task.target task.name) page.document) ∧
      (∀ time task, task ∈ page.applied time ↔
        start.Waits steps task ∧ task.due ≤ max page.now time ∧
          page.document.isConnected task.target = true) ∧
      (∀ time, (page.applied time).Pairwise (start.SeenEarlier steps) ∧
        ((page.applied time).map fun task => (task.target, task.name)).Nodup) ∧
      (∀ earlier time later, turns = earlier ++ .ofEvent (.advanceTime time) :: later →
        let there := earlier.foldl Turn.apply start
        ∀ task ∈ there.applied time,
          .ofVisit (.release task.target) ∉ Turn.history (there.advanceTime time) later →
            ∀ next other, other.target = task.target → other.name = task.name →
              other ∉ page.applied next) ∧
      (page.now < lastMoment → ∀ task ∈ page.queue, page.now < task.due) := by
  intro start steps page
  have hledgers : ∀ turns : List Turn,
      Ledger start (Turn.history start turns) (turns.foldl Turn.apply start) := by
    intro turns
    rw [← Turn.run_history]
    exact ledger_run document compiler _
  have hledger : Ledger start steps page := hledgers turns
  refine ⟨hledger.queue_iff, document_advanceTime page, hledger.mem_applied_iff, fun time => ?_, ?_,
    hledger.later⟩
  · have hordered := hledger.ordered.sublist (applied_sublist page time)
    refine ⟨hordered, List.pairwise_map.mpr (hordered.imp_of_mem fun hfirst _ hearlier => ?_)⟩
    exact hearlier.ne ((hledger.mem_applied_iff time _).mp hfirst).1
  · intro earlier time later hturns there task htask hkept next other htarget hname hother
    have hthere : Ledger start (Turn.history start earlier) there := hledgers earlier
    obtain ⟨hwaits, hdue, -⟩ := (hthere.mem_applied_iff time task).mp htask
    have hsteps : steps = Turn.history start earlier ++
        .ofEvent (.advanceTime time) :: Turn.history (there.advanceTime time) later := by
      show Turn.history start turns = _
      rw [hturns, Turn.history_append]
      rfl
    have hrun : Step.run start (Turn.history start earlier) = there := Turn.run_history start earlier
    rw [← hrun] at hdue
    refine hwaits.not_again hdue hkept htarget hname ?_
    rw [← hsteps]
    exact ((hledger.mem_applied_iff next other).mp hother).1

/-- An element with two deferred classes is processed five seconds after the start of the clock. -/
def deferTwo : List Turn :=
  [.ofEvent (.edit (.append Document.root "onload:fade-in onload:slide".toList)),
    .ofEvent (.advanceTime 5000), .start]

/-- The two classes come a tenth of a second later, and not again when the element is processed
again. -/
theorem deferred_of_turns_deferTwo :
    let start : Page := {}
    let page := deferTwo.foldl Turn.apply start
    let again : List Turn :=
      [.ofEvent (.advanceTime 5100), .ofBatch [.classAttribute (.element 1)]]
    page.now < lastMoment ∧ (∀ task ∈ page.queue, page.now < task.due) ∧
      page.applied 5099 = [] ∧
      page.applied 5100 =
        [⟨.element 1, "fade-in".toList, 5100⟩, ⟨.element 1, "slide".toList, 5100⟩] ∧
      start.Waits (Turn.history start deferTwo) ⟨.element 1, "slide".toList, 5100⟩ ∧
      .ofVisit (.release (.element 1)) ∉
        Turn.history (page.advanceTime 5100) [.ofBatch [.classAttribute (.element 1)]] ∧
      ∀ next due, ⟨.element 1, "slide".toList, due⟩ ∉
        ((deferTwo ++ again).foldl Turn.apply start).applied next := by
  intro start page again
  have hclock : page.now < lastMoment := by decide +kernel
  have happlied : page.applied 5100 =
      [⟨.element 1, "fade-in".toList, 5100⟩, ⟨.element 1, "slide".toList, 5100⟩] := by
    decide +kernel
  have hslide : ⟨.element 1, "slide".toList, 5100⟩ ∈ page.applied 5100 := by
    rw [happlied]
    exact List.mem_cons_of_mem _ List.mem_cons_self
  have hkept : .ofVisit (.release (.element 1)) ∉
      Turn.history (page.advanceTime 5100) [.ofBatch [.classAttribute (.element 1)]] := by
    simp only [Turn.history, Turn.steps, Visit.ofMutation, List.flatMap_singleton, List.append_nil]
    split <;> simp
  obtain ⟨-, -, hwaits, -, -, hlater⟩ := deferred_of_turns {} {} deferTwo
  obtain ⟨-, -, -, -, honce, -⟩ := deferred_of_turns {} {} (deferTwo ++ again)
  refine ⟨hclock, hlater hclock, by decide +kernel, happlied, ((hwaits 5100 _).mp hslide).1, hkept,
    fun next due => ?_⟩
  exact honce deferTwo 5100 _ rfl ⟨.element 1, "slide".toList, 5100⟩ hslide hkept next _ rfl rfl

end Page

end UtilityCss
