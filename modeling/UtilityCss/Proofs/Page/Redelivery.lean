import UtilityCss.Proofs.Compiler.SheetHistory
import UtilityCss.Proofs.Page.Deferral
import UtilityCss.Proofs.Page.Round
import UtilityCss.Proofs.OrderedMap

/-!
A batch that is delivered twice.  An element that was processed has nothing more to ask of its page:
its tokens are compiled, deferred or conditions already, and what was missing is reported.  Visits of
other elements leave that alone, since the compiler forgets nothing while a page serves its elements.
So after a batch each of its visits is done, and the second delivery plans the same visits.
-/

namespace UtilityCss

namespace Compiler

variable {before middle after compiler : Compiler} {name : Text}

/-- A class that a compilation leaves alone: it is blank, or it is in the cache. -/
def Knows (compiler : Compiler) (name : Text) : Prop :=
  name.trim.isEmpty = true ∨ (compiler.cache.get? name).isSome = true

theorem compile_of_knows (hknows : compiler.Knows name) : compiler.compile name = compiler :=
  hknows.elim compile_of_blank compile_of_isSome

theorem knows_compile (compiler : Compiler) (name : Text) : (compiler.compile name).Knows name := by
  by_cases hknows : compiler.Knows name
  · rwa [compile_of_knows hknows]
  · rw [Knows, not_or, Bool.not_eq_true, Option.not_isSome_iff_eq_none] at hknows
    right
    rw [cache_compile_of_new hknows.1 hknows.2, RuleCache.get?_finish, if_pos rfl]
    rfl

/-- A compiler that still knows what it knew: its classes and its warnings. -/
structure Extends (before after : Compiler) : Prop where
  knows : ∀ {name}, before.Knows name → after.Knows name
  warned : ∀ {warning}, before.diagnostics.has warning = true → after.diagnostics.has warning = true

theorem Extends.refl (compiler : Compiler) : Extends compiler compiler :=
  ⟨id, id⟩

theorem Extends.trans (hfirst : Extends before middle) (hsecond : Extends middle after) :
    Extends before after :=
  ⟨fun hknows => hsecond.knows (hfirst.knows hknows),
    fun hwarned => hsecond.warned (hfirst.warned hwarned)⟩

theorem extends_of_eq (heq : after = before) : Extends before after :=
  heq ▸ Extends.refl before

theorem has_warn (diagnostics : Diagnostics) (warning probe : Warning) :
    (diagnostics.warn warning).has probe = true ↔
      probe = warning ∨ diagnostics.has probe = true := by
  simp only [Diagnostics.has, List.contains_iff_mem]
  exact Diagnostics.mem_warn

theorem extends_warn (compiler : Compiler) (warning : Warning) :
    Extends compiler (compiler.warn warning) :=
  ⟨id, fun hwarned => (has_warn _ _ _).mpr (Or.inr hwarned)⟩

theorem warn_of_has {warning : Warning} (hwarned : compiler.diagnostics.has warning = true) :
    compiler.warn warning = compiler := by
  rw [warn, Diagnostics.warn, if_pos hwarned]

theorem extends_compile (compiler : Compiler) (name : Text) :
    Extends compiler (compiler.compile name) where
  knows {other} hknows := by
    by_cases hother : other = name
    · subst hother
      exact knows_compile compiler other
    · rw [Knows, get?_compile_of_ne (Ne.symm hother)]
      exact hknows
  warned hwarned := by
    unfold compile
    split
    · exact hwarned
    · dsimp only
      split
      · exact (has_warn _ _ _).mpr (Or.inr hwarned)
      · exact hwarned

theorem extends_inlineStyle (compiler : Compiler) (name : Text) :
    Extends compiler (compiler.inlineStyle name).1 := by
  unfold inlineStyle
  split
  · exact Extends.refl compiler
  · exact extends_warn compiler _

end Compiler

namespace Page

variable {page before after : Page} {id probe : ElementId} {token : Text}

/-- The compiler of the one page still knows what that of the other did. -/
def Remembers (before after : Page) : Prop :=
  Compiler.Extends before.compiler after.compiler

theorem remembers_foldl {α : Type} {step : Page → α → Page}
    (hstep : ∀ page item, Remembers page (step page item)) (items : List α) (page : Page) :
    Remembers page (items.foldl step page) := by
  induction items generalizing page with
  | nil => exact Compiler.Extends.refl page.compiler
  | cons item rest ih => exact (hstep page item).trans (ih (step page item))

theorem remembers_serveToken (page : Page) (id : ElementId) (token : Text) :
    Remembers page (page.serveToken id token) := by
  unfold serveToken
  split
  · exact Compiler.Extends.refl page.compiler
  · split
    · refine Compiler.extends_of_eq ?_
      unfold defer
      split
      · rfl
      · dsimp only
        split <;> rfl
    · exact Compiler.extends_compile page.compiler token

theorem compiler_unobserve (page : Page) (id : ElementId) :
    (page.unobserve id).compiler = page.compiler := by
  unfold unobserve
  split
  · dsimp only
    split <;> rfl
  · rfl

theorem compiler_watch (page : Page) (id : ElementId) (wanted : Bool) :
    (page.watch id wanted).compiler = page.compiler := by
  unfold watch
  split
  · unfold observe
    split <;> rfl
  · exact compiler_unobserve page id

theorem compiler_teardown (page : Page) (id : ElementId) :
    (page.teardown id).compiler = page.compiler := by
  unfold teardown
  split <;> rfl

theorem compiler_dropCondition (page : Page) (id : ElementId) (token : Text) :
    (page.dropCondition id token).compiler = page.compiler := by
  unfold dropCondition
  split
  · exact compiler_updateContainer page id _
  · rfl

theorem compiler_rekey (page : Page) (id : ElementId) (queries : List (Text × ContainerToken)) :
    (page.rekey id queries).compiler = page.compiler :=
  (compiler_updateContainer _ id _).trans
    (foldl_eq_of_step Page.compiler (fun page token => compiler_dropCondition page id token) _ page)

theorem compiler_track (page : Page) (id : ElementId) :
    (page.track id).compiler = page.compiler := by
  unfold track
  split
  · rfl
  · dsimp only
    split <;> rfl

theorem remembers_activate (page : Page) (id : ElementId) (token : Text) :
    Remembers page (page.activate id token) := by
  cases hcondition : (page.conditions id).get? token with
  | none =>
      rw [activate_of_none hcondition]
      exact Compiler.Extends.refl page.compiler
  | some condition =>
      rw [Remembers, activate_of_some hcondition, updateCondition, compiler_updateContainer]
      exact Compiler.extends_inlineStyle page.compiler _

theorem remembers_evaluate (page : Page) (id : ElementId) (width : Binary64) :
    Remembers page (page.evaluate id width) :=
  (Compiler.extends_of_eq (compiler_foldl_deactivate page id _)).trans
    (remembers_foldl (fun page token => remembers_activate page id token) _ _)

theorem remembers_syncConditions (page : Page) (id : ElementId)
    (queries : List (Text × ContainerToken)) : Remembers page (page.syncConditions id queries) := by
  have hrekey : Remembers page (page.rekey id queries) :=
    Compiler.extends_of_eq (compiler_rekey page id queries)
  rw [syncConditions_eq]
  dsimp only
  split
  · exact hrekey.trans (Compiler.extends_of_eq (compiler_teardown _ id))
  · split
    · split
      · exact hrekey.trans (remembers_evaluate _ id _)
      · exact hrekey
    · exact hrekey

theorem remembers_sync (page : Page) (id : ElementId) (tokens : List Text) :
    Remembers page (page.sync id tokens) := by
  have htrack : Remembers page (page.track id) := Compiler.extends_of_eq (compiler_track page id)
  unfold sync
  dsimp only
  split
  · exact Compiler.Extends.refl page.compiler
  split
  · exact Compiler.extends_warn page.compiler _
  split
  · exact htrack.trans (remembers_syncConditions _ id _)
  · exact htrack

/-- From the tokens on, nothing that is compiled is forgotten. -/
theorem remembers_finish (page : Page) (id : ElementId) :
    Remembers ((page.document.classes id).foldl (fun page token => page.serveToken id token) page)
      (page.process id) := by
  rw [process_eq, prepare]
  exact (Compiler.extends_of_eq (compiler_watch _ id _)).trans (remembers_sync _ id _)

theorem remembers_process (page : Page) (id : ElementId) : Remembers page (page.process id) :=
  (remembers_foldl (fun page token => remembers_serveToken page id token) _ page).trans
    (remembers_finish page id)

theorem remembers_visit (page : Page) (visit : Visit) : Remembers page (visit.apply page) := by
  cases visit with
  | process id => exact remembers_process page id
  | release id =>
      refine Compiler.extends_of_eq ?_
      exact (compiler_unobserve (page.teardown id) id).trans (compiler_teardown page id)

/-- Serving this token of an element changes nothing: it is a container token, it defers a class that
is known, or it is compiled. -/
def IsServed (page : Page) (id : ElementId) (token : Text) : Prop :=
  (ContainerToken.parse? token).isSome = true ∨
    (∃ name, deferredClass? token = some name ∧ name ∈ page.deferredNames id) ∨
    deferredClass? token = none ∧ page.compiler.Knows token

theorem serveToken_of_isServed (hserved : page.IsServed id token) :
    page.serveToken id token = page := by
  unfold serveToken
  split
  · rfl
  · rename_i hcontainer
    rcases hserved with hparses | ⟨name, hname, hknown⟩ | ⟨hnone, hknows⟩
    · exact absurd hparses hcontainer
    · rw [hname]
      exact defer_of_known hknown
    · rw [hnone, withCompiler, Compiler.compile_of_knows hknows]

theorem IsServed.of_remembers (hserved : before.IsServed id token) (hremembers : Remembers before after)
    (hdeferred : ∀ name ∈ before.deferredNames id, name ∈ after.deferredNames id) :
    after.IsServed id token := by
  rcases hserved with hparses | ⟨name, hname, hknown⟩ | ⟨hnone, hknows⟩
  · exact Or.inl hparses
  · exact Or.inr (Or.inl ⟨name, hname, hdeferred name hknown⟩)
  · exact Or.inr (Or.inr ⟨hnone, hremembers.knows hknows⟩)

/-- A token that is not deferred is compiled by its turn, and stays so. -/
theorem knows_foldl_serveToken (page : Page) (id : ElementId) {tokens : List Text}
    (htoken : token ∈ tokens) (hcontainer : (ContainerToken.parse? token).isSome = false)
    (hdeferred : deferredClass? token = none) :
    (tokens.foldl (fun page token => page.serveToken id token) page).compiler.Knows token := by
  induction tokens generalizing page with
  | nil => cases htoken
  | cons first rest ih =>
      rcases List.mem_cons.mp htoken with rfl | hrest
      · have hserved : (page.serveToken id token).compiler.Knows token := by
          rw [serveToken, hcontainer, hdeferred]
          exact Compiler.knows_compile page.compiler token
        exact (remembers_foldl (fun page token => remembers_serveToken page id token) rest _).knows
          hserved
      · exact ih (page.serveToken id first) hrest

theorem isServed_process (htoken : token ∈ page.document.classes id) :
    (page.process id).IsServed id token := by
  cases hcontainer : (ContainerToken.parse? token).isSome with
  | true => exact Or.inl hcontainer
  | false =>
      cases hdeferred : deferredClass? token with
      | none =>
          exact Or.inr (Or.inr ⟨hdeferred, (remembers_finish page id).knows
            (knows_foldl_serveToken page id htoken hcontainer hdeferred)⟩)
      | some name =>
          obtain ⟨names, hqueues⟩ := exists_queues_process page id
          obtain ⟨rfl, hname⟩ := deferredClass?_eq_some_iff.mp hdeferred
          exact Or.inr (Or.inl ⟨name, hdeferred,
            (hqueues.known_iff id name).mpr (Or.inr ⟨rfl, hname, htoken⟩)⟩)

/-- An element that has nothing more to ask of its page. -/
structure Served (page : Page) (id : ElementId) : Prop where
  agrees : page.Agrees id
  serves : ∀ token ∈ page.document.classes id, page.IsServed id token
  warned : page.document.sizeObserver = false → containerNames (page.document.classes id) ≠ [] →
    page.compiler.diagnostics.has .sizeObserverUnavailable = true

theorem served_process (hid : page.document.contains id = true) (hobservable : page.Observable) :
    (page.process id).Served id := by
  have hclasses := classes_process page id
  have hsetting := (changesOnly_process page id).setting_eq
  have hobserver : (page.process id).document.sizeObserver = page.document.sizeObserver :=
    congrArg Setting.sizeObserver hsetting
  refine ⟨agrees_process hid hobservable, fun token htoken => ?_, fun hnone hnames => ?_⟩
  · refine isServed_process ?_
    rcases hclasses with hsame | hfiltered
    · rwa [hsame] at htoken
    · rw [hfiltered] at htoken
      exact List.mem_of_mem_filter htoken
  · have hbefore : containerNames (page.document.classes id) ≠ [] := by
      rcases hclasses with hsame | hfiltered
      · rwa [hsame] at hnames
      · rwa [hfiltered, containerNames_filter] at hnames
    have hprepared : (page.prepare id).document.sizeObserver = false :=
      (congrArg Setting.sizeObserver (setting_prepare page id)).trans (hobserver.symm.trans hnone)
    rw [process_eq, sync, isEmpty_containerTokens hbefore, hprepared]
    exact (Compiler.has_warn _ _ _).mpr (Or.inl rfl)

theorem Served.of_changesOnly (hserved : before.Served probe) (hchange : ChangesOnly id before after)
    (hremembers : Remembers before after) (hprobe : probe ≠ id) : after.Served probe := by
  have hview := hchange.view_eq probe hprobe
  have hclasses := hchange.classes_eq hprobe
  have hscheduled : after.scheduled.get? probe = before.scheduled.get? probe :=
    congrArg ElementView.scheduled hview
  have hobserver : after.document.sizeObserver = before.document.sizeObserver :=
    congrArg Setting.sizeObserver hchange.setting_eq
  refine ⟨hserved.agrees.of_changesOnly hchange hprobe, fun token htoken => ?_,
    fun hnone hnames => ?_⟩
  · rw [hclasses] at htoken
    refine (hserved.serves token htoken).of_remembers hremembers fun name hname => ?_
    rw [deferredNames, hscheduled]
    exact hname
  · rw [hobserver] at hnone
    rw [hclasses] at hnames
    exact hremembers.warned (hserved.warned hnone hnames)

theorem watch_of_isObserved {wanted : Bool} (hwanted : page.isObserved id = wanted) :
    page.watch id wanted = page := by
  subst hwanted
  cases hobserved : page.isObserved id with
  | true => rw [watch, if_pos rfl, observe, if_pos hobserved]
  | false => rw [watch, if_neg Bool.false_ne_true, unobserve, hobserved, if_neg Bool.false_ne_true]

/-- An element that has just the conditions of its tokens gets the same ones again. -/
theorem rekey_of_keys {queries : List (Text × ContainerToken)}
    (hkeys : ∀ token, token ∈ (page.conditions id).keys ↔ token ∈ queries.map Prod.fst) :
    page.rekey id queries = page := by
  have hstale : (page.conditions id).keys.filter (fun text => text ∉ queries.map Prod.fst) = [] :=
    List.filter_eq_nil_iff.mpr fun token htoken => by simpa using (hkeys token).mp htoken
  rw [rekey, hstale, List.foldl_nil, addConditions, updateContainer]
  split
  · rename_i state hstate
    have hconditions : page.conditions id = state.conditions := by
      rw [conditions_eq, hstate]
      rfl
    rw [foldl_of_fixed fun query hquery => OrderedMap.insertNew_of_mem
      (hconditions ▸ (hkeys query.1).mpr (List.mem_map_of_mem hquery)) _,
      OrderedMap.insert_of_get? hstate]
  · rfl

theorem syncConditions_of_keys {tokens : List Text} (htracked : page.isTracked id = true)
    (hnames : containerNames tokens ≠ [])
    (hkeys : ∀ token, token ∈ (page.conditions id).keys ↔ token ∈ containerNames tokens) :
    page.syncConditions id (containerTokens tokens) = page := by
  have hnew : ¬ ∃ probe ∈ (containerTokens tokens).map Prod.fst,
      (page.conditions id).get? probe = none := by
    rintro ⟨probe, hprobe, hnone⟩
    exact OrderedMap.get?_eq_none_iff.mp hnone ((hkeys probe).mpr hprobe)
  have hempty : ((page.rekey id (containerTokens tokens)).conditions id).isEmpty = false :=
    (isEmpty_rekey htracked).trans (isEmpty_containerTokens hnames)
  rw [syncConditions_eq]
  dsimp only
  rw [hempty, if_neg Bool.false_ne_true, rekey_of_keys hkeys]
  split
  · exact if_neg hnew
  · rfl

theorem sync_of_served (hserved : page.Served id) :
    page.sync id (page.document.classes id) = page := by
  have hdemand : (page.demand id).names =
      if page.document.sizeObserver then containerNames (page.document.classes id) else [] := rfl
  by_cases hnames : containerNames (page.document.classes id) = []
  · have htracked : page.isTracked id = false := by
      rw [← Bool.not_eq_true, hserved.agrees.isTracked_iff, hdemand, hnames]
      simp
    exact sync_of_nothing htracked hnames
  · cases hobserver : page.document.sizeObserver with
    | true =>
        rw [hobserver, if_pos rfl] at hdemand
        have htracked : page.isTracked id = true := by
          rw [hserved.agrees.isTracked_iff, hdemand]
          exact hnames
        rw [sync_of_tracked hobserver htracked]
        refine syncConditions_of_keys htracked hnames fun token => ?_
        rw [hserved.agrees.mem_keys_iff, hdemand]
    | false =>
        rw [sync, isEmpty_containerTokens hnames, hobserver]
        exact congrArg (fun compiler => { page with compiler })
          (Compiler.warn_of_has (hserved.warned hobserver hnames))

/-- Processing an element again changes nothing at all. -/
theorem process_of_served (hserved : page.Served id) : page.process id = page := by
  have hprepare : page.prepare id = page := by
    rw [prepare, foldl_of_fixed fun token htoken =>
      serveToken_of_isServed (hserved.serves token htoken),
      watch_of_isObserved hserved.agrees.isObserved_eq]
  rw [process_eq, hprepare, sync_of_served hserved]

/-- Releasing an element again changes nothing at all. -/
theorem releaseElement_of_idle (hidle : page.Idle id) : page.releaseElement id = page := by
  rw [releaseElement, teardown_of_not_tracked hidle.not_tracked, forget_of_idle hidle]

end Page

namespace Visit

variable {page : Page} {visit done : Visit} {visits : List Visit}

/-- A visit that would change nothing.  There is nothing to do for the null handle. -/
def Done (page : Page) : Visit → Prop
  | process id => id = .null ∨ page.Served id
  | release id => page.Idle id

theorem apply_of_done (hready : Ready page) (hdone : visit.Done page) : visit.apply page = page := by
  cases visit with
  | process id =>
      rcases hdone with rfl | hserved
      · exact Page.process_null hready.idle_null
      · exact Page.process_of_served hserved
  | release id => exact Page.releaseElement_of_idle hdone

theorem done_apply (hready : Ready page) (hfits : visit.Fits page.document) :
    visit.Done (visit.apply page) := by
  cases visit with
  | process id =>
      rcases hfits with hconnected | hnull
      · exact Or.inr (Page.served_process (hready.forest.contains_of_isConnected hconnected)
          hready.observable)
      · exact Or.inl hnull
  | release id => exact Page.idle_releaseElement page id

/-- A visit that is done stays so.  No element is both processed and released by visits that fit, apart
from the null handle. -/
theorem Done.apply (hdone : done.Done page) (hready : Ready page)
    (hfits : visit.Fits page.document) (hdoneFits : done.Fits page.document) :
    done.Done (visit.apply page) := by
  have hchange := changesOnly_apply page visit
  cases done with
  | process id =>
      rcases hdone with hnull | hserved
      · exact Or.inl hnull
      by_cases hid : id = visit.target
      · cases visit with
        | process other =>
            obtain rfl : id = other := hid
            rw [Visit.apply, Page.process_of_served hserved]
            exact Or.inr hserved
        | release other =>
            obtain rfl : id = other := hid
            refine hdoneFits.elim (fun hconnected => ?_) Or.inl
            exact absurd (hconnected.symm.trans hfits) (by decide)
      · exact Or.inr (hserved.of_changesOnly hchange (Page.remembers_visit page visit) hid)
  | release id => exact idle_apply hready hfits hdoneFits (Or.inr hdone)

/-- A run of visits leaves each of them done, and those that were. -/
theorem done_foldl (hready : Ready page) (hfits : ∀ visit ∈ visits, visit.Fits page.document)
    (hdoneFits : done.Fits page.document) (hdone : done ∈ visits ∨ done.Done page) :
    done.Done (visits.foldl apply page) := by
  induction visits generalizing page with
  | nil => exact hdone.resolve_left List.not_mem_nil
  | cons visit rest ih =>
      have hfirst := hfits visit List.mem_cons_self
      have hskeleton : (visit.apply page).document.skeleton = page.document.skeleton :=
        congrArg Page.Setting.skeleton (changesOnly_apply page visit).setting_eq
      refine ih (hready.apply visit) (fun later hlater => ?_)
        ((fits_of_skeleton hskeleton).mpr hdoneFits) ?_
      · exact (fits_of_skeleton hskeleton).mpr (hfits later (List.mem_cons_of_mem visit hlater))
      · rw [List.mem_cons] at hdone
        rcases hdone with (rfl | hlater) | hbefore
        · exact Or.inr (done_apply hready hfirst)
        · exact Or.inl hlater
        · exact Or.inr (hbefore.apply hready hfirst hdoneFits)

theorem Ready.foldl (hready : Ready page) (visits : List Visit) :
    Ready (visits.foldl Visit.apply page) := by
  induction visits generalizing page with
  | nil => exact hready
  | cons visit rest ih => exact ih (hready.apply visit)

/-- The same visits again change nothing. -/
theorem foldl_foldl (hready : Ready page) (hfits : ∀ visit ∈ visits, visit.Fits page.document) :
    visits.foldl Visit.apply (visits.foldl Visit.apply page) = visits.foldl Visit.apply page :=
  foldl_of_fixed fun visit hvisit => apply_of_done (hready.foldl visits)
    (done_foldl hready hfits (hfits visit hvisit) (Or.inl hvisit))

theorem Ready.event {event : Event} (hready : Ready page)
    (hknown : ∀ operation, event = .edit operation → operation.Known page.document) :
    Ready (event.apply page) := by
  have hkept : event.Allowed page → (∀ operation, event ≠ .edit operation) →
      Ready (event.apply page) := fun hallowed hedit =>
    hready.of_sameRegistrations (Event.sameRegistrations_apply hallowed)
      (hready.forest.of_skeleton (Event.skeleton_apply page hedit))
  cases event with
  | edit operation =>
      have hsame : Page.SameRegistrations page (page.withDocument fun doc => operation.apply doc) :=
        Page.sameRegistrations_withDocument (operation.sizeObserver_apply page.document)
      exact hready.of_sameRegistrations hsame
        (operation.isForest_apply hready.forest (hknown operation rfl))
  | editCompiler change =>
      obtain ⟨htracked, hobserved, hscheduled, hqueued⟩ := hready.idle_null
      exact ⟨hready.forest, hready.observable, ⟨htracked, hobserved, hscheduled, hqueued⟩⟩
  | resize id width => exact hkept trivial (by simp)
  | intersect id ratio => exact hkept trivial (by simp)
  | viewport width => exact hkept trivial (by simp)
  | advanceTime time => exact hkept trivial (by simp)

theorem ready_new (sizeObserver : Bool) (compiler : Compiler) :
    Ready { document := { sizeObserver }, compiler } :=
  ⟨Document.isForest_new sizeObserver, fun _ _ => rfl, Page.idle_new _ compiler .null⟩

end Visit

namespace Turn

/-- An edit of the document is on handles that it has given out by then. -/
def Known (page : Page) : Turn → Prop
  | ofEvent (.edit operation) => operation.Known page.document
  | _ => True

instance (page : Page) : (turn : Turn) → Decidable (turn.Known page)
  | start => inferInstanceAs (Decidable True)
  | ofEvent (.edit operation) => inferInstanceAs (Decidable (operation.Known page.document))
  | ofEvent (.resize _ _) => inferInstanceAs (Decidable True)
  | ofEvent (.intersect _ _) => inferInstanceAs (Decidable True)
  | ofEvent (.viewport _) => inferInstanceAs (Decidable True)
  | ofEvent (.advanceTime _) => inferInstanceAs (Decidable True)
  | ofEvent (.editCompiler _) => inferInstanceAs (Decidable True)
  | ofBatch _ => inferInstanceAs (Decidable True)

def AllKnown (page : Page) : List Turn → Prop
  | [] => True
  | turn :: rest => turn.Known page ∧ AllKnown (turn.apply page) rest

instance decidableAllKnown (page : Page) : (turns : List Turn) → Decidable (AllKnown page turns)
  | [] => inferInstanceAs (Decidable True)
  | turn :: rest =>
      have := decidableAllKnown (turn.apply page) rest
      inferInstanceAs (Decidable (turn.Known page ∧ AllKnown (turn.apply page) rest))

variable {page : Page} {turn : Turn} {turns : List Turn}

theorem ready_apply (hready : Visit.Ready page) (hknown : turn.Known page) :
    Visit.Ready (turn.apply page) := by
  rcases eq_ofEvent_or_visits page turn with ⟨event, rfl⟩ | ⟨visits, hvisits⟩
  · refine hready.event ?_
    rintro operation rfl
    exact hknown
  · rw [hvisits]
    exact hready.foldl visits

theorem ready_foldl (hready : Visit.Ready page) (hknown : AllKnown page turns) :
    Visit.Ready (turns.foldl apply page) := by
  induction turns generalizing page with
  | nil => exact hready
  | cons turn rest ih => exact ih (ready_apply hready hknown.1) hknown.2

end Turn

namespace Page

theorem handleMutations_handleMutations {page : Page} (hready : Visit.Ready page)
    (hroot : page.document.parent? Document.root = none) (mutations : List Mutation) :
    (page.handleMutations mutations).handleMutations mutations = page.handleMutations mutations := by
  have hskeleton : (page.handleMutations mutations).document.skeleton = page.document.skeleton := by
    rw [handleMutations_eq]
    exact congrArg Setting.skeleton (Visit.setting_foldl _ page)
  rw [handleMutations_eq (page.handleMutations mutations), Visit.isStable_ofMutation hskeleton,
    handleMutations_eq]
  refine Visit.foldl_foldl hready fun visit hvisit => ?_
  obtain ⟨mutation, -, hmem⟩ := List.mem_flatMap.mp hvisit
  exact Visit.fits_of_mem_ofMutation hready.forest hroot hmem

/-- Whatever has happened to a page, as long as its root has no parent: a batch that is delivered
again changes nothing, whatever it reports. -/
theorem redelivery_of_turns (sizeObserver : Bool) (compiler : Compiler) {turns : List Turn}
    (hknown : Turn.AllKnown { document := { sizeObserver }, compiler } turns) :
    let page := turns.foldl Turn.apply { document := { sizeObserver }, compiler }
    page.document.parent? Document.root = none → ∀ mutations : List Mutation,
      (page.handleMutations mutations).handleMutations mutations =
        page.handleMutations mutations := by
  intro page hroot mutations
  have hready := Turn.ready_foldl (Visit.ready_new sizeObserver compiler) hknown
  exact handleMutations_handleMutations hready hroot mutations

/-- Two elements are served; then the one gets other tokens, and the other is taken away. -/
def swappedTokens : List Turn :=
  [.ofEvent (.edit (.append Document.root "p-4 visible:opacity-100".toList)),
    .ofEvent (.edit (.append Document.root "min-640:flex onload:m-2".toList)), .start,
    .ofEvent (.edit (.setClassName (.element 1) "max-320:flex onload:m-2 p-8".toList)),
    .ofEvent (.edit (.detach (.element 2)))]

/-- A report on both, more than once. -/
def swappedBatch : List Mutation :=
  [.classAttribute (.element 1), .childList [.element 1, .null] [.element 2, .element 1],
    .childList [.element 2] [.element 2]]

theorem redelivery_of_swappedTokens :
    Turn.AllKnown {} swappedTokens ∧
      let page := swappedTokens.foldl Turn.apply {}
      let delivered := page.handleMutations swappedBatch
      page.document.parent? Document.root = none ∧
        (page.isTracked (.element 1) = false ∧ delivered.isTracked (.element 1) = true) ∧
        (page.queue.map DeferredClass.target = [.element 2] ∧
          delivered.queue.map DeferredClass.target = [.element 1]) ∧
        delivered.handleMutations swappedBatch = delivered := by
  have hknown : Turn.AllKnown { document := { sizeObserver := true } } swappedTokens := by
    decide +kernel
  have hroot : (swappedTokens.foldl Turn.apply {}).document.parent? Document.root = none := by
    decide +kernel
  exact ⟨hknown, hroot, by decide +kernel, by decide +kernel,
    redelivery_of_turns true {} hknown hroot swappedBatch⟩

end Page

end UtilityCss
