import UtilityCss.Proofs.Page.Deferral

/-!
Deferred classes over the life of a page.  A class is seen on an element when the element is processed
while it defers the class, and what was seen is known until the element is released.  The sight that
counts is the first one: it settles when the class is due and where it stands in the queue.
-/

namespace UtilityCss

namespace Page

variable {start : Page} {steps before : List Step} {step : Step} {id : ElementId} {name : Text}
  {task first second : DeferredClass}

/-- An element was processed while it deferred a class, and has not been released since. -/
def SeenSince (start : Page) (steps : List Step) (id : ElementId) (name : Text) : Prop :=
  ∃ before after, steps = before ++ .ofVisit (.process id) :: after ∧
    Defers ((Step.run start before).document.classes id) name ∧ .ofVisit (.release id) ∉ after

/-- The first such processing, with the steps before it. -/
def FirstSeen (start : Page) (steps : List Step) (id : ElementId) (name : Text)
    (before : List Step) : Prop :=
  ∃ after, steps = before ++ .ofVisit (.process id) :: after ∧
    Defers ((Step.run start before).document.classes id) name ∧ .ofVisit (.release id) ∉ after ∧
      ¬ start.SeenSince before id name

/-- Some time after the steps `before`, the clock was moved to a moment or past it. -/
def ReachedSince (start : Page) (steps before : List Step) (moment : Nat) : Prop :=
  ∃ earlier time later, steps = earlier ++ .ofEvent (.advanceTime time) :: later ∧
    before <+: earlier ∧ moment ≤ max (Step.run start earlier).now time

theorem seenSince_concat_iff : start.SeenSince (steps ++ [step]) id name ↔
    step = .ofVisit (.process id) ∧ Defers ((Step.run start steps).document.classes id) name ∨
      start.SeenSince steps id name ∧ step ≠ .ofVisit (.release id) := by
  constructor
  · rintro ⟨before, after, heq, hdefers, hkept⟩
    rcases concat_eq_append_cons_iff.mp heq with ⟨rfl, rfl, -⟩ | ⟨rest, rfl, rfl⟩
    · exact Or.inl ⟨rfl, hdefers⟩
    · rw [List.mem_append, List.mem_singleton, not_or] at hkept
      exact Or.inr ⟨⟨before, rest, rfl, hdefers, hkept.1⟩, fun h => hkept.2 h.symm⟩
  · rintro (⟨rfl, hdefers⟩ | ⟨⟨before, after, rfl, hdefers, hkept⟩, hstep⟩)
    · exact ⟨steps, [], rfl, hdefers, List.not_mem_nil⟩
    · refine ⟨before, after ++ [step], by simp, hdefers, ?_⟩
      rw [List.mem_append, List.mem_singleton, not_or]
      exact ⟨hkept, fun h => hstep h.symm⟩

theorem firstSeen_concat_iff : start.FirstSeen (steps ++ [step]) id name before ↔
    before = steps ∧ step = .ofVisit (.process id) ∧
        Defers ((Step.run start steps).document.classes id) name ∧
          ¬ start.SeenSince steps id name ∨
      start.FirstSeen steps id name before ∧ step ≠ .ofVisit (.release id) := by
  constructor
  · rintro ⟨after, heq, hdefers, hkept, hfirst⟩
    rcases concat_eq_append_cons_iff.mp heq with ⟨rfl, rfl, -⟩ | ⟨rest, rfl, rfl⟩
    · exact Or.inl ⟨rfl, rfl, hdefers, hfirst⟩
    · rw [List.mem_append, List.mem_singleton, not_or] at hkept
      exact Or.inr ⟨⟨rest, rfl, hdefers, hkept.1, hfirst⟩, fun h => hkept.2 h.symm⟩
  · rintro (⟨rfl, rfl, hdefers, hfirst⟩ | ⟨⟨after, rfl, hdefers, hkept, hfirst⟩, hstep⟩)
    · exact ⟨[], rfl, hdefers, List.not_mem_nil, hfirst⟩
    · refine ⟨after ++ [step], by simp, hdefers, ?_, hfirst⟩
      rw [List.mem_append, List.mem_singleton, not_or]
      exact ⟨hkept, fun h => hstep h.symm⟩

theorem FirstSeen.seenSince (hfirst : start.FirstSeen steps id name before) :
    start.SeenSince steps id name := by
  obtain ⟨after, heq, hdefers, hkept, -⟩ := hfirst
  exact ⟨before, after, heq, hdefers, hkept⟩

theorem FirstSeen.before_prefix (hfirst : start.FirstSeen steps id name before) :
    before <+: steps := by
  obtain ⟨after, rfl, -⟩ := hfirst
  exact List.prefix_append _ _

/-- The first sight stays the first one until the element is released. -/
theorem FirstSeen.append {later : List Step} (hfirst : start.FirstSeen steps id name before)
    (hlater : .ofVisit (.release id) ∉ later) : start.FirstSeen (steps ++ later) id name before := by
  obtain ⟨after, rfl, hdefers, hkept, hnew⟩ := hfirst
  refine ⟨after ++ later, by simp, hdefers, ?_, hnew⟩
  rw [List.mem_append, not_or]
  exact ⟨hkept, hlater⟩

theorem FirstSeen.length_lt (hfirst : start.FirstSeen steps id name before) :
    before.length < steps.length := by
  obtain ⟨after, rfl, -⟩ := hfirst
  simp

/-- What has not been seen is seen for the first time by the last step. -/
theorem FirstSeen.eq_of_concat (hfirst : start.FirstSeen (steps ++ [step]) id name before)
    (hnew : ¬ start.SeenSince steps id name) : before = steps := by
  rcases firstSeen_concat_iff.mp hfirst with ⟨heq, -⟩ | ⟨hold, -⟩
  · exact heq
  · exact absurd hold.seenSince hnew

/-- What has been seen is not seen for the first time by a later step. -/
theorem FirstSeen.of_concat (hfirst : start.FirstSeen (steps ++ [step]) id name before)
    (hseen : start.SeenSince steps id name) : start.FirstSeen steps id name before := by
  rcases firstSeen_concat_iff.mp hfirst with ⟨-, -, -, hnew⟩ | ⟨hold, -⟩
  · exact absurd hseen hnew
  · exact hold

theorem FirstSeen.unique {other : List Step} (hfirst : start.FirstSeen steps id name before)
    (hother : start.FirstSeen steps id name other) : other = before := by
  induction steps using List.reverseRecOn with
  | nil =>
      obtain ⟨after, heq, -⟩ := hfirst
      simp at heq
  | append_singleton earlier step ih =>
      rcases firstSeen_concat_iff.mp hfirst with ⟨rfl, -, -, hnew⟩ | ⟨hold, -⟩
      · rcases firstSeen_concat_iff.mp hother with ⟨rfl, -⟩ | ⟨hother, -⟩
        · rfl
        · exact absurd hother.seenSince hnew
      · exact ih hold (hother.of_concat hold.seenSince)

theorem reachedSince_concat_iff {moment : Nat} (hbefore : before <+: steps) :
    start.ReachedSince (steps ++ [step]) before moment ↔
      start.ReachedSince steps before moment ∨
        ∃ time, step = .ofEvent (.advanceTime time) ∧
          moment ≤ max (Step.run start steps).now time := by
  constructor
  · rintro ⟨earlier, time, later, heq, hprefix, hmoment⟩
    rcases concat_eq_append_cons_iff.mp heq with ⟨rfl, rfl, -⟩ | ⟨rest, rfl, -⟩
    · exact Or.inr ⟨time, rfl, hmoment⟩
    · exact Or.inl ⟨earlier, time, rest, rfl, hprefix, hmoment⟩
  · rintro (⟨earlier, time, later, rfl, hprefix, hmoment⟩ | ⟨time, rfl, hmoment⟩)
    · exact ⟨earlier, time, later ++ [step], by simp, hprefix, hmoment⟩
    · exact ⟨steps, time, [], rfl, hbefore, hmoment⟩

theorem not_reachedSince_self {moment : Nat} : ¬ start.ReachedSince steps steps moment := by
  rintro ⟨earlier, time, later, heq, hprefix, -⟩
  have hlength := hprefix.length_le
  rw [heq, List.length_append, List.length_cons] at hlength
  omega

/-- A class waits for a moment that its first sight settles, until the clock gets there. -/
def Waits (start : Page) (steps : List Step) (task : DeferredClass) : Prop :=
  ∃ before, start.FirstSeen steps task.target task.name before ∧
    task.due = dueMoment (Step.run start before).now ∧
      ¬ start.ReachedSince steps before task.due

/-- The order of first sights, with those of one processing in the order of the tokens. -/
def SeenEarlier (start : Page) (steps : List Step) (first second : DeferredClass) : Prop :=
  ∀ before later, start.FirstSeen steps first.target first.name before →
    start.FirstSeen steps second.target second.name later →
      before.length < later.length ∨
        before = later ∧ first.target = second.target ∧
          let tokens := (Step.run start before).document.classes first.target
          tokens.idxOf (deferralMark ++ first.name) < tokens.idxOf (deferralMark ++ second.name)

theorem Waits.seenSince (hwaits : start.Waits steps task) :
    start.SeenSince steps task.target task.name := by
  obtain ⟨before, hfirst, -⟩ := hwaits
  exact hfirst.seenSince

theorem SeenEarlier.concat (hearlier : start.SeenEarlier steps first second)
    (hfirst : start.Waits steps first) (hsecond : start.Waits steps second) (step : Step) :
    start.SeenEarlier (steps ++ [step]) first second := fun before later hbefore hlater =>
  hearlier before later (hbefore.of_concat hfirst.seenSince) (hlater.of_concat hsecond.seenSince)

/-- Whatever is seen earlier than something else is not the same class on the same element. -/
theorem SeenEarlier.ne (hearlier : start.SeenEarlier steps first second)
    (hfirst : start.Waits steps first) :
    (first.target, first.name) ≠ (second.target, second.name) := by
  obtain ⟨before, hbefore, -⟩ := hfirst
  intro heq
  obtain ⟨htarget, hname⟩ := Prod.mk.inj heq
  rcases hearlier before before hbefore (htarget ▸ hname ▸ hbefore) with hlt | ⟨-, -, hlt⟩
  · exact absurd hlt (Nat.lt_irrefl _)
  · dsimp only at hlt
    rw [hname] at hlt
    exact absurd hlt (Nat.lt_irrefl _)

/-- A class that was added when its moment was reached does not wait anymore. -/
theorem Waits.not_again {later : List Step} {time : Nat} (hwaits : start.Waits steps task)
    (hdue : task.due ≤ max (Step.run start steps).now time)
    (hlater : .ofVisit (.release task.target) ∉ later) {other : DeferredClass}
    (htarget : other.target = task.target) (hname : other.name = task.name) :
    ¬ start.Waits (steps ++ .ofEvent (.advanceTime time) :: later) other := by
  obtain ⟨before, hfirst, hmoment, -⟩ := hwaits
  rintro ⟨again, hother, hsame, hreached⟩
  rw [htarget, hname] at hother
  have hkept : Step.ofVisit (.release task.target) ∉ .ofEvent (.advanceTime time) :: later := by
    simpa using hlater
  cases (hfirst.append hkept).unique hother
  refine hreached ⟨steps, time, later, rfl, hfirst.before_prefix, ?_⟩
  rw [hsame, ← hmoment]
  exact hdue

theorem seenSince_event_iff {event : Event} :
    start.SeenSince (steps ++ [.ofEvent event]) id name ↔ start.SeenSince steps id name := by
  simp [seenSince_concat_iff]

theorem waits_event_iff {event : Event} :
    start.Waits (steps ++ [.ofEvent event]) task ↔
      start.Waits steps task ∧
        ∀ time, event = .advanceTime time → max (Step.run start steps).now time < task.due := by
  have hseen : ∀ before, start.FirstSeen (steps ++ [.ofEvent event]) task.target task.name before ↔
      start.FirstSeen steps task.target task.name before := by
    simp [firstSeen_concat_iff]
  constructor
  · rintro ⟨before, hfirst, hdue, hreached⟩
    have hold := (hseen before).mp hfirst
    rw [reachedSince_concat_iff hold.before_prefix, not_or] at hreached
    refine ⟨⟨before, hold, hdue, hreached.1⟩, ?_⟩
    rintro time rfl
    by_contra hlate
    exact hreached.2 ⟨time, rfl, not_lt.mp hlate⟩
  · rintro ⟨⟨before, hfirst, hdue, hreached⟩, hevent⟩
    refine ⟨before, (hseen before).mpr hfirst, hdue, ?_⟩
    rw [reachedSince_concat_iff hfirst.before_prefix, not_or]
    refine ⟨hreached, ?_⟩
    rintro ⟨time, heq, hlate⟩
    cases heq
    exact absurd (hevent time rfl) (not_lt.mpr hlate)

theorem waits_process_iff : start.Waits (steps ++ [.ofVisit (.process id)]) task ↔
    start.Waits steps task ∨
      task.target = id ∧ Defers ((Step.run start steps).document.classes id) task.name ∧
        ¬ start.SeenSince steps id task.name ∧
          task.due = dueMoment (Step.run start steps).now := by
  have hreached : ∀ {before}, before <+: steps → (start.ReachedSince
      (steps ++ [.ofVisit (.process id)]) before task.due ↔
        start.ReachedSince steps before task.due) := by
    intro before hbefore
    simp [reachedSince_concat_iff hbefore]
  constructor
  · rintro ⟨before, hfirst, hdue, hwaits⟩
    rcases firstSeen_concat_iff.mp hfirst with ⟨rfl, htarget, hdefers, hnew⟩ | ⟨hold, -⟩
    · cases htarget
      exact Or.inr ⟨rfl, hdefers, hnew, hdue⟩
    · rw [hreached hold.before_prefix] at hwaits
      exact Or.inl ⟨before, hold, hdue, hwaits⟩
  · rintro (⟨before, hfirst, hdue, hwaits⟩ | ⟨rfl, hdefers, hnew, hdue⟩)
    · refine ⟨before, firstSeen_concat_iff.mpr (Or.inr ⟨hfirst, by simp⟩), hdue, ?_⟩
      rwa [hreached hfirst.before_prefix]
    · refine ⟨steps, firstSeen_concat_iff.mpr (Or.inl ⟨rfl, rfl, hdefers, hnew⟩), hdue, ?_⟩
      rw [hreached (List.prefix_refl steps)]
      exact not_reachedSince_self

theorem waits_release_iff : start.Waits (steps ++ [.ofVisit (.release id)]) task ↔
    start.Waits steps task ∧ task.target ≠ id := by
  constructor
  · rintro ⟨before, hfirst, hdue, hwaits⟩
    rcases firstSeen_concat_iff.mp hfirst with ⟨-, hvisit, -⟩ | ⟨hold, hkept⟩
    · cases hvisit
    · rw [reachedSince_concat_iff hold.before_prefix, not_or] at hwaits
      refine ⟨⟨before, hold, hdue, hwaits.1⟩, fun htarget => hkept (by rw [htarget])⟩
  · rintro ⟨⟨before, hfirst, hdue, hwaits⟩, htarget⟩
    have hkept : Step.ofVisit (.release id) ≠ .ofVisit (.release task.target) := by
      intro heq
      cases heq
      exact htarget rfl
    refine ⟨before, firstSeen_concat_iff.mpr (Or.inr ⟨hfirst, hkept⟩), hdue, ?_⟩
    rw [reachedSince_concat_iff hfirst.before_prefix, not_or]
    exact ⟨hwaits, by simp⟩

end Page

end UtilityCss
