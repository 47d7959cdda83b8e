import UtilityCss.Proofs.Page.Turn
import UtilityCss.Proofs.Shortcut.Expansion

/-!
Deferred classes, step by step.  Processing an element queues the classes that it defers and that are
not known for it, in the order of its tokens; releasing it drops what is kept of it; the clock takes
what is due from the queue; and nothing else touches the queue or the clock.
-/

namespace UtilityCss

theorem deferredClass?_eq_some_iff {token name : Text} :
    deferredClass? token = some name ↔ token = deferralMark ++ name ∧ name ≠ [] := by
  rw [deferredClass?, Option.filter_eq_some_iff, Text.after?_eq_some_iff]
  simp

theorem ContainerToken.parse?_deferralMark_append (name : Text) :
    ContainerToken.parse? (deferralMark ++ name) = none := by
  rfl

namespace Page

variable {page before after : Page} {id : ElementId} {token name : Text} {tokens names : List Text}

/-- What a page keeps of deferred classes, and its clock. -/
structure Deferrals where
  scheduled : OrderedMap ElementId (List Text)
  queue : List DeferredClass
  now : Nat

def deferrals (page : Page) : Deferrals :=
  ⟨page.scheduled, page.queue, page.now⟩

/-- The classes that were deferred for an element since it was last released. -/
def deferredNames (page : Page) (id : ElementId) : List Text :=
  (page.scheduled.get? id).getD []

/-- Some token of a list defers a class. -/
def Defers (tokens : List Text) (name : Text) : Prop :=
  name ≠ [] ∧ deferralMark ++ name ∈ tokens

theorem deferrals_of_setting (hsetting : after.setting = before.setting)
    (hbystanders : after.bystanders = before.bystanders) : after.deferrals = before.deferrals := by
  have hscheduled : after.scheduled = before.scheduled := congrArg Bystanders.scheduled hbystanders
  have hqueue : after.queue = before.queue := congrArg Bystanders.queue hbystanders
  have hnow : after.now = before.now := congrArg Setting.now hsetting
  rw [deferrals, deferrals, hscheduled, hqueue, hnow]

theorem defer_of_known {now : Nat} (hknown : name ∈ page.deferredNames id) :
    page.defer id name now = page := by
  unfold defer
  split
  · rfl
  · exact if_pos hknown

theorem defer_of_new {now : Nat} (hid : id ≠ .null) (hnew : name ∉ page.deferredNames id) :
    page.defer id name now =
      { page with
        scheduled := page.scheduled.insert id (page.deferredNames id ++ [name])
        queue := page.queue ++ [⟨id, name, dueMoment now⟩] } := by
  rw [defer, if_neg hid]
  exact if_neg hnew

theorem serveToken_of_deferred (hname : name ≠ []) :
    page.serveToken id (deferralMark ++ name) = page.defer id name page.now := by
  have hdeferred : deferredClass? (deferralMark ++ name) = some name :=
    deferredClass?_eq_some_iff.mpr ⟨rfl, hname⟩
  rw [serveToken, ContainerToken.parse?_deferralMark_append, hdeferred]
  rfl

theorem deferrals_serveToken_of_none (hnone : deferredClass? token = none) :
    (page.serveToken id token).deferrals = page.deferrals := by
  rw [serveToken, hnone]
  split <;> rfl

/-- What comes of the tokens of an element: the classes that they defer are known for it, and those
that were not are queued, in the order of the tokens. -/
structure Queues (id : ElementId) (tokens : List Text) (before after : Page) (names : List Text) :
    Prop where
  now_eq : after.now = before.now
  queue_eq : after.queue =
    before.queue ++ names.map fun name => ⟨id, name, dueMoment before.now⟩
  mem_iff : ∀ name, name ∈ names ↔ Defers tokens name ∧ name ∉ before.deferredNames id
  ordered : names.Pairwise fun first second =>
    tokens.idxOf (deferralMark ++ first) < tokens.idxOf (deferralMark ++ second)
  known_iff : ∀ probe name, name ∈ after.deferredNames probe ↔
    name ∈ before.deferredNames probe ∨ probe = id ∧ Defers tokens name

theorem Queues.of_deferrals {next : Page} (hqueues : Queues id tokens before after names)
    (hsame : next.deferrals = after.deferrals) : Queues id tokens before next names := by
  have hscheduled : next.scheduled = after.scheduled := congrArg Deferrals.scheduled hsame
  refine ⟨(congrArg Deferrals.now hsame).trans hqueues.now_eq,
    (congrArg Deferrals.queue hsame).trans hqueues.queue_eq, hqueues.mem_iff, hqueues.ordered, ?_⟩
  intro probe name
  rw [deferredNames, hscheduled]
  exact hqueues.known_iff probe name

theorem Queues.nil (id : ElementId) (page : Page) : Queues id [] page page [] where
  now_eq := rfl
  queue_eq := (List.append_nil _).symm
  mem_iff _ := by simp [Defers]
  ordered := List.Pairwise.nil
  known_iff _ _ := by simp [Defers]

theorem defers_concat_iff : Defers (tokens ++ [token]) name ↔
    Defers tokens name ∨ deferredClass? token = some name := by
  rw [deferredClass?_eq_some_iff, Defers, Defers, List.mem_append, List.mem_singleton, and_or_left,
    and_comm (a := name ≠ []) (b := _ = token), eq_comm (a := token)]

/-- More tokens do not change the order of those that are there. -/
theorem Queues.ordered_concat (hqueues : Queues id tokens before after names) (token : Text) :
    names.Pairwise fun first second =>
      (tokens ++ [token]).idxOf (deferralMark ++ first) <
        (tokens ++ [token]).idxOf (deferralMark ++ second) := by
  refine hqueues.ordered.imp_of_mem fun {first second} hfirst hsecond hlt => ?_
  rw [List.idxOf_append_of_mem ((hqueues.mem_iff first).mp hfirst).1.2,
    List.idxOf_append_of_mem ((hqueues.mem_iff second).mp hsecond).1.2]
  exact hlt

/-- One more token, which defers no class or one that is known. -/
theorem Queues.concat_known (hqueues : Queues id tokens before after names)
    (hknown : ∀ name, deferredClass? token = some name → name ∈ after.deferredNames id) :
    Queues id (tokens ++ [token]) before after names := by
  refine ⟨hqueues.now_eq, hqueues.queue_eq, fun name => ?_, hqueues.ordered_concat token,
    fun probe name => ?_⟩
  · rw [hqueues.mem_iff, defers_concat_iff, or_and_right]
    refine (or_iff_left_of_imp ?_).symm
    rintro ⟨hname, hnew⟩
    rcases (hqueues.known_iff id name).mp (hknown name hname) with hbefore | ⟨-, hdefers⟩
    · exact absurd hbefore hnew
    · exact ⟨hdefers, hnew⟩
  · rw [hqueues.known_iff, defers_concat_iff, and_or_left, ← or_assoc]
    refine (or_iff_left_of_imp ?_).symm
    rintro ⟨rfl, hname⟩
    exact (hqueues.known_iff probe name).mp (hknown name hname)

/-- One more token, which defers a class that is not known. -/
theorem Queues.concat_new (hqueues : Queues id tokens before after names) (hid : id ≠ .null)
    (hname : name ≠ []) (hnew : name ∉ after.deferredNames id) :
    Queues id (tokens ++ [deferralMark ++ name]) before (after.defer id name after.now)
      (names ++ [name]) := by
  have hunknown : name ∉ before.deferredNames id ∧ ¬ Defers tokens name := by
    rw [hqueues.known_iff] at hnew
    simpa using hnew
  have hlast : ∀ other, deferredClass? (deferralMark ++ name) = some other ↔ other = name := by
    intro other
    rw [deferredClass?_eq_some_iff, List.append_right_inj]
    constructor
    · rintro ⟨rfl, -⟩
      rfl
    · rintro rfl
      exact ⟨rfl, hname⟩
  rw [defer_of_new hid hnew]
  refine ⟨hqueues.now_eq, ?_, fun other => ?_, ?_, fun probe other => ?_⟩
  · rw [List.map_append, ← List.append_assoc, ← hqueues.queue_eq, hqueues.now_eq]
    rfl
  · rw [List.mem_append, hqueues.mem_iff, defers_concat_iff, hlast, List.mem_singleton,
      or_and_right]
    refine or_congr_right (iff_self_and.mpr ?_)
    rintro rfl
    exact hunknown.1
  · refine List.pairwise_append.mpr ⟨hqueues.ordered_concat _, List.pairwise_singleton _ _, ?_⟩
    intro first hfirst second hsecond
    rw [List.mem_singleton] at hsecond
    subst hsecond
    have hmem := ((hqueues.mem_iff first).mp hfirst).1.2
    have hfresh : deferralMark ++ second ∉ tokens := fun h => hunknown.2 ⟨hname, h⟩
    rw [List.idxOf_append_of_mem hmem, List.idxOf_append_of_notMem hfresh]
    exact Nat.lt_add_right _ (List.idxOf_lt_length_of_mem hmem)
  · rw [deferredNames, OrderedMap.get?_insert, defers_concat_iff, hlast]
    by_cases hprobe : probe = id
    · subst hprobe
      rw [if_pos rfl, Option.getD_some, List.mem_append, hqueues.known_iff, List.mem_singleton,
        or_assoc, and_or_left]
      simp only [true_and]
    · rw [if_neg hprobe, ← deferredNames, hqueues.known_iff]
      simp only [hprobe, false_and]

instance instDecidableDefers (tokens : List Text) (name : Text) : Decidable (Defers tokens name) :=
  inferInstanceAs (Decidable (_ ∧ _))

theorem defers_iff_mem : Defers tokens name ↔ name ∈ tokens.filterMap deferredClass? := by
  rw [List.mem_filterMap, Defers]
  constructor
  · rintro ⟨hname, htoken⟩
    exact ⟨_, htoken, deferredClass?_eq_some_iff.mpr ⟨rfl, hname⟩⟩
  · rintro ⟨token, htoken, hdeferred⟩
    obtain ⟨rfl, hname⟩ := deferredClass?_eq_some_iff.mp hdeferred
    exact ⟨hname, htoken⟩

/-- The classes that tokens defer and that are not known for an element, each where a token defers it
first. -/
def newlyDeferred (page : Page) (id : ElementId) (tokens : List Text) : List Text :=
  (tokens.filterMap deferredClass?).eraseDups.filter fun name => name ∉ page.deferredNames id

theorem newlyDeferred_concat_of_none (hnone : deferredClass? token = none) :
    page.newlyDeferred id (tokens ++ [token]) = page.newlyDeferred id tokens := by
  rw [newlyDeferred, List.filterMap_append, List.filterMap_cons_none hnone, List.filterMap_nil,
    List.append_nil, newlyDeferred]

theorem newlyDeferred_concat_of_some (hdeferred : deferredClass? token = some name) :
    page.newlyDeferred id (tokens ++ [token]) = page.newlyDeferred id tokens ++
      if name ∈ page.deferredNames id ∨ Defers tokens name then [] else [name] := by
  rw [newlyDeferred, List.filterMap_append, List.filterMap_cons_some hdeferred, List.filterMap_nil,
    eraseDups_concat]
  by_cases hdefers : Defers tokens name
  · rw [if_pos (defers_iff_mem.mp hdefers), if_pos (Or.inr hdefers), List.append_nil]
    rfl
  · rw [if_neg (mt defers_iff_mem.mpr hdefers), List.filter_append, List.filter_singleton]
    by_cases hknown : name ∈ page.deferredNames id <;> simp [hknown, hdefers, newlyDeferred]

/-- All tokens of an element, one after the other. -/
theorem queues_serve (hid : id ≠ .null) (page : Page) (tokens : List Text) :
    Queues id tokens page (tokens.foldl (fun page token => page.serveToken id token) page)
      (page.newlyDeferred id tokens) := by
  -- On the end of the list: a token is judged by those before it.
  induction tokens using List.reverseRecOn with
  | nil => exact Queues.nil id page
  | append_singleton earlier token ih =>
      rw [List.foldl_append, List.foldl_cons, List.foldl_nil]
      cases hdeferred : deferredClass? token with
      | none =>
          rw [newlyDeferred_concat_of_none hdeferred]
          have hknown : Queues id (earlier ++ [token]) page _ (page.newlyDeferred id earlier) :=
            ih.concat_known (by simp [hdeferred])
          exact hknown.of_deferrals (deferrals_serveToken_of_none hdeferred)
      | some name =>
          obtain ⟨rfl, hname⟩ := deferredClass?_eq_some_iff.mp hdeferred
          have hiff := ih.known_iff id name
          simp only [true_and] at hiff
          rw [serveToken_of_deferred hname, newlyDeferred_concat_of_some hdeferred]
          by_cases hnew : name ∈ (earlier.foldl
              (fun page token => page.serveToken id token) page).deferredNames id
          · rw [defer_of_known hnew, if_pos (hiff.mp hnew), List.append_nil]
            exact ih.concat_known (by simp [hdeferred, hnew])
          · rw [if_neg (mt hiff.mpr hnew)]
            exact ih.concat_new hid hname hnew

theorem deferrals_watch (page : Page) (id : ElementId) (wanted : Bool) :
    (page.watch id wanted).deferrals = page.deferrals := by
  unfold watch
  split
  · unfold observe
    split <;> rfl
  · unfold unobserve
    split
    · dsimp only
      split <;> rfl
    · rfl

/-- What comes of processing an element. -/
theorem queues_process (page : Page) (id : ElementId) :
    Queues id (page.document.classes id) page (page.process id)
      (page.newlyDeferred id (page.document.classes id)) := by
  have hserved : (page.process id).deferrals = ((page.document.classes id).foldl
      (fun page token => page.serveToken id token) page).deferrals := by
    rw [process_eq, deferrals_of_setting (changesOnly_sync _ id _).setting_eq
      (bystanders_sync _ id _)]
    exact deferrals_watch _ id _
  by_cases hid : id = .null
  · subst hid
    exact (Queues.nil .null page).of_deferrals hserved
  · exact (queues_serve hid page (page.document.classes id)).of_deferrals hserved

theorem exists_queues_process (page : Page) (id : ElementId) :
    ∃ names, Queues id (page.document.classes id) page (page.process id) names :=
  ⟨_, queues_process page id⟩

theorem deferrals_releaseElement (page : Page) (id : ElementId) :
    (page.releaseElement id).deferrals =
      ⟨page.scheduled.erase id, page.queue.filter fun task => task.target ≠ id, page.now⟩ := by
  have hsilent : ((page.teardown id).unobserve id).deferrals = page.deferrals :=
    (deferrals_watch (page.teardown id) id false).trans
      (deferrals_of_setting (changesOnly_teardown page id).setting_eq (bystanders_teardown page id))
  simp only [deferrals, Deferrals.mk.injEq] at hsilent
  obtain ⟨hscheduled, hqueue, hnow⟩ := hsilent
  rw [releaseElement, forget, deferrals]
  simp only [hscheduled, hqueue, hnow]

/-- The clock takes what is due from the queue. -/
theorem deferrals_advanceTime (page : Page) (time : Nat) :
    (page.advanceTime time).deferrals =
      ⟨page.scheduled, page.queue.filter fun task => max page.now time < task.due,
        max page.now time⟩ := by
  unfold advanceTime
  dsimp only
  have hcompile : ∀ (page : Page) (task : DeferredClass),
      (page.withCompiler fun compiler => compiler.compile task.name).deferrals = page.deferrals :=
    fun _ _ => rfl
  rw [foldl_eq_of_step deferrals hcompile]
  rfl

/-- Everything between two batches but the clock leaves the queue alone. -/
theorem deferrals_event {event : Event} (hevent : ∀ time, event ≠ .advanceTime time) (page : Page) :
    (event.apply page).deferrals = page.deferrals := by
  cases event with
  | edit | editCompiler => rfl
  | resize id width =>
      exact deferrals_of_setting (changesOnly_resize page id width).setting_eq
        (bystanders_resize page id width)
  | intersect id ratio =>
      rw [Event.apply, intersect]
      split
      · rfl
      · split <;> rfl
  | viewport width =>
      rw [Event.apply, handleViewport]
      split <;> rfl
  | advanceTime time => exact absurd rfl (hevent time)

end Page

end UtilityCss
