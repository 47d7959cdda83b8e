import UtilityCss.Proofs.Page.Event
import UtilityCss.Proofs.Page.Visit

/-!
A page over its whole life: its start, and then rounds of events, each followed by a batch that
reports what changed.  The batch is handled against the document as it is by then, not as it was
at each change.  An element that is attached although it was not has an ancestor-or-self with a
new link, below which it has stayed, so the report of that link reaches it; likewise for an
element that is no longer attached.
-/

namespace UtilityCss

/-- Events, and the batch that is delivered after them. -/
structure Round where
  events : List Event
  batch : List Mutation

namespace Round

def apply (page : Page) (round : Round) : Page :=
  (round.events.foldl Event.apply page).handleMutations round.batch

/-- The events are allowed, and the batch holds every note of the journal, in whatever order and
with whatever else. -/
structure Valid (page : Page) (round : Round) : Prop where
  allowed : Event.AllAllowed page round.events
  reported : ∀ record ∈ Event.journal page round.events,
    record ∈ round.batch.flatMap Mutation.records

end Round

namespace Visit

variable {doc : Document} {id top : ElementId} {batch : List Mutation}

/-- A report that an element was attached reaches everything below it. -/
theorem process_mem_of_added (hforest : doc.IsForest) (hid : doc.contains id = true)
    (hbelow : doc.Below id top) (htop : doc.isConnected top = true)
    (hrecord : .added top ∈ batch.flatMap Mutation.records) :
    process id ∈ batch.flatMap (ofMutation doc) := by
  obtain ⟨mutation, hmutation, hmem⟩ := List.mem_flatMap.mp hrecord
  refine List.mem_flatMap.mpr ⟨mutation, hmutation, ?_⟩
  cases mutation with
  | childList added removed =>
      have hadded : top ∈ added := by simpa [Mutation.records] using hmem
      refine List.mem_append_right _ (List.mem_flatMap.mpr ⟨top, hadded, ?_⟩)
      rw [ofAdded, if_pos htop]
      exact List.mem_map_of_mem ((hforest.mem_subtree_iff hid).mpr hbelow)
  | classAttribute target => simp [Mutation.records] at hmem

/-- A report that an element was taken away reaches everything that is still below it. -/
theorem release_mem_of_removed (hforest : doc.IsForest) (hid : doc.contains id = true)
    (hbelow : doc.Below id top) (htop : doc.isConnected top = false)
    (hrecord : .removed top ∈ batch.flatMap Mutation.records) :
    release id ∈ batch.flatMap (ofMutation doc) := by
  obtain ⟨mutation, hmutation, hmem⟩ := List.mem_flatMap.mp hrecord
  refine List.mem_flatMap.mpr ⟨mutation, hmutation, ?_⟩
  cases mutation with
  | childList added removed =>
      have hremoved : top ∈ removed := by simpa [Mutation.records] using hmem
      refine List.mem_append_left _ (List.mem_flatMap.mpr ⟨top, hremoved, ?_⟩)
      rw [ofRemoved, if_neg (Bool.not_eq_true _ ▸ htop)]
      exact List.mem_map_of_mem ((hforest.mem_subtree_iff hid).mpr hbelow)
  | classAttribute target => simp [Mutation.records] at hmem

theorem process_mem_of_className (hid : doc.isConnected id = true)
    (hrecord : .className id ∈ batch.flatMap Mutation.records) :
    process id ∈ batch.flatMap (ofMutation doc) := by
  obtain ⟨mutation, hmutation, hmem⟩ := List.mem_flatMap.mp hrecord
  refine List.mem_flatMap.mpr ⟨mutation, hmutation, ?_⟩
  cases mutation with
  | childList added removed => simp [Mutation.records] at hmem
  | classAttribute target =>
      have htarget : id = target := by simpa [Mutation.records] using hmem
      subst htarget
      rw [ofMutation, if_pos hid]
      exact List.mem_singleton_self _

theorem Ready.of_sameRegistrations {before after : Page} (hready : Ready before)
    (hsame : Page.SameRegistrations before after) (hforest : after.document.IsForest) :
    Ready after where
  forest := hforest
  observable hobserver id := by
    rw [hsame.sizeObserver_eq] at hobserver
    rw [hsame.isTracked_eq]
    exact hready.observable hobserver id
  idle_null := hsame.idle .null hready.idle_null

end Visit

namespace Page

variable {page : Page} {id : ElementId} {round : Round}

/-- A page with its attached elements registered for what their class tokens demand, and no
others. -/
structure Upkept (page : Page) : Prop where
  ready : Visit.Ready page
  root_parent : page.document.parent? Document.root = none
  agrees : ∀ id, page.document.isConnected id = true → page.Agrees id
  idle : ∀ id, page.document.isConnected id = false → page.Idle id

/-- After the events of a round, whoever is attached agrees with its class tokens or is
processed. -/
theorem Upkept.process_mem_or_agrees (hupkept : page.Upkept) (hvalid : round.Valid page)
    {middle : Page} (hleaves : Event.Leaves page middle (Event.journal page round.events))
    (hid : middle.document.isConnected id = true) :
    Visit.process id ∈ round.batch.flatMap (Visit.ofMutation middle.document) ∨
      middle.Agrees id := by
  have hcontains := hleaves.forest.contains_of_isConnected hid
  cases hbefore : page.document.isConnected id with
  | true =>
      have hcontainsBefore := hupkept.ready.forest.contains_of_isConnected hbefore
      rcases hleaves.accounts.className hcontainsBefore with hname | hrecord
      · exact Or.inr ((hupkept.agrees id hbefore).of_sameRegistrations hleaves.registrations hname)
      · exact Or.inl (Visit.process_mem_of_className hid (hvalid.reported _ hrecord))
  | false =>
      have hway := hleaves.forest.isConnected_iff.mp hid
      have hnew : ¬ page.document.Below id Document.root := by
        rw [← hupkept.ready.forest.isConnected_iff, hbefore]
        exact Bool.false_ne_true
      obtain ⟨child, parent, hbelow, -, htop, hparent, hlost⟩ :=
        Document.exists_broken_link hway hnew
      have hrecord := (hleaves.accounts.added hparent).resolve_left hlost
      exact Or.inl (Visit.process_mem_of_added hleaves.forest hcontains hbelow
        (hleaves.forest.isConnected_iff.mpr htop) (hvalid.reported _ hrecord))

/-- After the events of a round, whoever is not attached has nothing registered or is released. -/
theorem Upkept.release_mem_or_idle (hupkept : page.Upkept) (hvalid : round.Valid page)
    {middle : Page} (hleaves : Event.Leaves page middle (Event.journal page round.events))
    (hid : middle.document.isConnected id = false) :
    Visit.release id ∈ round.batch.flatMap (Visit.ofMutation middle.document) ∨
      middle.Idle id := by
  cases hbefore : page.document.isConnected id with
  | false => exact Or.inr (hleaves.registrations.idle id (hupkept.idle id hbefore))
  | true =>
      have hcontains := hleaves.accounts.contains
        (hupkept.ready.forest.contains_of_isConnected hbefore)
      have hway := hupkept.ready.forest.isConnected_iff.mp hbefore
      have hgone : ¬ middle.document.Below id Document.root := by
        rw [← hleaves.forest.isConnected_iff, hid]
        exact Bool.false_ne_true
      obtain ⟨child, parent, -, hbelow, -, hparent, hlost⟩ := Document.exists_broken_link hway hgone
      have hchild : middle.document.isConnected child = false := by
        rw [← Bool.not_eq_true, hleaves.forest.isConnected_iff]
        exact fun htop => hgone (hbelow.trans htop)
      have hrecord := (hleaves.accounts.removed hparent).resolve_left hlost
      exact Or.inl (Visit.release_mem_of_removed hleaves.forest hcontains hbelow hchild
        (hvalid.reported _ hrecord))

/-- A run of fitting visits that reaches whoever needs one leaves the page in order. -/
theorem upkept_foldl_visits {visits : List Visit} (hready : Visit.Ready page)
    (hroot : page.document.parent? Document.root = none)
    (hfits : ∀ visit ∈ visits, visit.Fits page.document)
    (hagrees : ∀ id, page.document.isConnected id = true →
      Visit.process id ∈ visits ∨ page.Agrees id)
    (hidle : ∀ id, page.document.isConnected id = false →
      Visit.release id ∈ visits ∨ page.Idle id) :
    (visits.foldl Visit.apply page).Upkept := by
  have hskeleton := congrArg Setting.skeleton (Visit.setting_foldl visits page)
  have hconnected := Document.isConnected_eq_of_skeleton hskeleton
  obtain ⟨hafter, hserved, hreleased⟩ := Visit.foldl_apply hready hfits
  refine ⟨hafter, ?_, fun id hid => ?_, fun id hid => ?_⟩
  · exact (Document.parent?_eq_of_skeleton hskeleton Document.root).trans hroot
  · have hid' := (hconnected id).symm.trans hid
    exact hserved id hid' (hagrees id hid')
  · have hid' := (hconnected id).symm.trans hid
    exact hreleased id hid' (hidle id hid')

theorem Upkept.apply_round (hupkept : page.Upkept) (hvalid : round.Valid page) :
    (round.apply page).Upkept := by
  have hleaves := Event.leaves_foldl hupkept.ready.forest hupkept.root_parent hvalid.allowed
  have hready : Visit.Ready (round.events.foldl Event.apply page) :=
    hupkept.ready.of_sameRegistrations hleaves.registrations hleaves.forest
  rw [Round.apply, handleMutations_eq]
  refine upkept_foldl_visits hready hleaves.root_parent (fun visit hvisit => ?_)
    (fun id hid => hupkept.process_mem_or_agrees hvalid hleaves hid)
    fun id hid => hupkept.release_mem_or_idle hvalid hleaves hid
  obtain ⟨mutation, -, hmem⟩ := List.mem_flatMap.mp hvisit
  exact Visit.fits_of_mem_ofMutation hleaves.forest hleaves.root_parent hmem

theorem idle_new (document : Document) (compiler : Compiler) (id : ElementId) :
    ({ document, compiler } : Page).Idle id :=
  ⟨rfl, rfl, rfl, fun _ htask => by cases htask⟩

/-- The start serves every attached element. -/
theorem upkept_start {document : Document} (hforest : document.IsForest)
    (hroot : document.parent? Document.root = none) (compiler : Compiler) :
    ({ document, compiler } : Page).start.Upkept := by
  have hready : Visit.Ready { document, compiler } :=
    ⟨hforest, fun _ _ => rfl, idle_new document compiler .null⟩
  have hconnected : document.isConnected Document.root = true :=
    hforest.isConnected_iff.mpr Relation.ReflTransGen.refl
  have hvisits : Visit.below document Visit.process Document.root =
      Visit.ofAdded document Document.root := by rw [Visit.ofAdded, if_pos hconnected]
  rw [start, scan_eq]
  refine upkept_foldl_visits hready hroot (fun visit hvisit => ?_) (fun id hid => Or.inl ?_)
    fun id _ => Or.inr (idle_new document compiler id)
  · have hadded : visit ∈ Visit.ofAdded document Document.root := hvisits ▸ hvisit
    exact Visit.fits_of_mem_ofAdded hforest hadded
  · have hbelow := hforest.isConnected_iff.mp hid
    exact List.mem_map_of_mem
      ((hforest.mem_subtree_iff (hforest.contains_of_isConnected hid)).mpr hbelow)

/-- A page that was started on a document and has been through rounds since. -/
inductive Running : Page → Prop where
  | start (compiler : Compiler) {document : Document} (hdocument : document.Reachable)
      (hroot : document.parent? Document.root = none) :
      Running ({ document, compiler } : Page).start
  | round {page : Page} (hpage : Running page) (round : Round) (hround : round.Valid page) :
      Running (round.apply page)

theorem Running.upkept (hpage : page.Running) : page.Upkept := by
  induction hpage with
  | start compiler hdocument hroot => exact upkept_start hdocument.isForest hroot compiler
  | round _ round hround ih => exact ih.apply_round hround

/-- The page that a new start on the document of another one gives. -/
def restarted (page : Page) (compiler : Compiler) : Page :=
  ({ document := page.document, compiler } : Page).start

theorem demand_restarted {compiler : Compiler}
    (hbreakpoints : compiler.breakpoints = page.compiler.breakpoints) (id : ElementId) :
    (page.restarted compiler).demand id = page.demand id := by
  rw [restarted, start, scan_eq, Visit.demand_foldl, demand, demand, hbreakpoints]

/-- After any rounds the registrations are those of a new start on the document as it is. -/
theorem Running.registrations_eq_restarted (hpage : page.Running) {compiler : Compiler}
    (hbreakpoints : compiler.breakpoints = page.compiler.breakpoints) (id : ElementId) :
    page.isTracked id = (page.restarted compiler).isTracked id ∧
      (∀ token, token ∈ (page.conditions id).keys ↔
        token ∈ ((page.restarted compiler).conditions id).keys) ∧
      page.isObserved id = (page.restarted compiler).isObserved id ∧
      (page.document.isConnected id = false → page.Idle id) := by
  have hupkept := hpage.upkept
  have hdemand := demand_restarted hbreakpoints id
  have hrestarted : (page.restarted compiler).Upkept :=
    upkept_start hupkept.ready.forest hupkept.root_parent compiler
  have hconnected : (page.restarted compiler).document.isConnected id =
      page.document.isConnected id := by
    refine Document.isConnected_eq_of_skeleton ?_ id
    rw [restarted, Page.start, scan_eq]
    exact congrArg Setting.skeleton (Visit.setting_foldl _ { document := page.document, compiler })
  cases hid : page.document.isConnected id with
  | true =>
      have hagrees := hupkept.agrees id hid
      have hfresh := hrestarted.agrees id (hconnected.trans hid)
      refine ⟨?_, fun token => ?_, ?_, fun hdetached => ?_⟩
      · rw [Bool.eq_iff_iff, hagrees.isTracked_iff, hfresh.isTracked_iff, hdemand]
      · rw [hagrees.mem_keys_iff, hfresh.mem_keys_iff, hdemand]
      · rw [hagrees.isObserved_eq, hfresh.isObserved_eq, hdemand]
      · cases hdetached
  | false =>
      have hidle := hupkept.idle id hid
      have hfresh := hrestarted.idle id (hconnected.trans hid)
      refine ⟨?_, fun token => ?_, ?_, fun _ => hidle⟩
      · rw [hidle.not_tracked, hfresh.not_tracked]
      · rw [conditions_of_not_tracked hidle.not_tracked,
          conditions_of_not_tracked hfresh.not_tracked]
      · rw [hidle.not_observed, hfresh.not_observed]

/-- One element comes and goes, another one comes with it and moves on to stay. -/
theorem registrations_eq_restarted_after_move :
    let page : Page := ({} : Page).start
    let round : Round := {
      events := [.edit (.append Document.root "min-100:flex visible:p-4".toList),
        .edit (.append (.element 1) "max-300:p-2".toList), .resize (.element 1) (.ofNat 200),
        .edit (.appendChild Document.root (.element 2)), .edit (.detach (.element 1))]
      batch := [.childList [.element 1] [], .childList [.element 2] [],
        .childList [.element 2] [.element 2], .childList [] [.element 1]] }
    let after : Page := round.apply page
    after.Running ∧ ({} : Compiler).breakpoints = after.compiler.breakpoints ∧
      after.isTracked (.element 2) = (after.restarted {}).isTracked (.element 2) ∧
      (∀ token, token ∈ (after.conditions (.element 2)).keys ↔
        token ∈ ((after.restarted {}).conditions (.element 2)).keys) ∧
      after.isObserved (.element 2) = (after.restarted {}).isObserved (.element 2) ∧
      (after.document.isConnected (.element 2) = false → after.Idle (.element 2)) := by
  intro page round after
  have hpage : page.Running := Running.start {} (.new true) rfl
  have hround : round.Valid page := by
    refine ⟨⟨?_, ?_, trivial, ?_, ?_, trivial⟩, by decide +kernel⟩
    · exact ⟨by decide +kernel, trivial⟩
    · exact ⟨by decide +kernel, trivial⟩
    · exact ⟨by decide +kernel, by decide⟩
    · exact ⟨by decide +kernel, trivial⟩
  have hbreakpoints : ({} : Compiler).breakpoints = after.compiler.breakpoints := by
    decide +kernel
  have hafter : after.Running := hpage.round round hround
  exact ⟨hafter, hbreakpoints, hafter.registrations_eq_restarted hbreakpoints (.element 2)⟩

end Page

end UtilityCss
