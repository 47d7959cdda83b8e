import UtilityCss.Proofs.Document.Styles
import UtilityCss.Proofs.Page.Event
import UtilityCss.Proofs.Page.Visit

/-!
Who accounts for the inline style of an element.  Reports and visits keep the account: what is set
is claimed by an active condition, apart from what was left over before.  The release of an element
is the exception.  It drops the conditions together with their claims, so everything that is set
becomes a leftover.
-/

namespace UtilityCss.Page

variable {page before middle after : Page} {id other : ElementId} {leftover : Text → Prop}

/-- Two pages with the same conditions and the same inline styles. -/
structure SameStyles (before after : Page) : Prop where
  containers_eq : after.containers = before.containers
  styles_eq : ∀ id, after.document.styles id = before.document.styles id

theorem SameStyles.refl (page : Page) : SameStyles page page :=
  ⟨rfl, fun _ => rfl⟩

theorem SameStyles.trans (hfirst : SameStyles before middle) (hsecond : SameStyles middle after) :
    SameStyles before after where
  containers_eq := hsecond.containers_eq.trans hfirst.containers_eq
  styles_eq id := (hsecond.styles_eq id).trans (hfirst.styles_eq id)

theorem sameStyles_withDocument {change : Document → Document}
    (hstyles : ∀ id, (change page.document).styles id = page.document.styles id) :
    SameStyles page (page.withDocument change) :=
  ⟨rfl, hstyles⟩

theorem sameStyles_observe (page : Page) (id : ElementId) : SameStyles page (page.observe id) := by
  refine ⟨containers_observe page id, fun probe => ?_⟩
  rw [observe]
  split <;> rfl

theorem sameStyles_unobserve (page : Page) (id : ElementId) :
    SameStyles page (page.unobserve id) := by
  refine ⟨containers_unobserve page id, fun probe => ?_⟩
  rw [unobserve]
  split
  · dsimp only
    split
    · exact Document.styles_removeClass _ id visibleClass probe
    · rfl
  · rfl

theorem sameStyles_prepare (page : Page) (id : ElementId) : SameStyles page (page.prepare id) := by
  have hserved := tokenSetting_foldl_serveToken page id (page.document.classes id)
  have hstart : SameStyles page ((page.document.classes id).foldl
      (fun page token => page.serveToken id token) page) :=
    ⟨congrArg TokenSetting.containers hserved,
      fun probe => congrArg (fun setting => setting.document.styles probe) hserved⟩
  rw [prepare, watch]
  split
  · exact hstart.trans (sameStyles_observe _ id)
  · exact hstart.trans (sameStyles_unobserve _ id)

/-- Without a size observer a sync only warns. -/
theorem sameStyles_sync_of_no_observer (hobserver : page.document.sizeObserver = false)
    (id : ElementId) (tokens : List Text) : SameStyles page (page.sync id tokens) := by
  obtain ⟨change, hsync⟩ := sync_of_no_observer hobserver id tokens
  rw [hsync]
  exact ⟨rfl, fun _ => rfl⟩

theorem sameStyles_intersect (page : Page) (id : ElementId) (ratio : Binary64) :
    SameStyles page (page.intersect id ratio) := by
  rw [intersect]
  split
  · exact SameStyles.refl page
  · split
    · exact sameStyles_withDocument (Document.styles_addClass page.document id visibleClass)
    · exact sameStyles_withDocument (Document.styles_removeClass page.document id visibleClass)

theorem sameStyles_handleViewport (page : Page) (width : Binary64) :
    SameStyles page (page.handleViewport width) := by
  rw [handleViewport]
  split
  · refine sameStyles_withDocument fun probe => ?_
    refine foldl_eq_of_step (fun doc => doc.styles probe) (fun doc entry => ?_) _ page.document
    dsimp only
    split
    · exact Document.styles_addClass doc Document.root _ probe
    · exact Document.styles_removeClass doc Document.root _ probe
  · exact SameStyles.refl page

theorem sameStyles_advanceTime (page : Page) (time : Nat) :
    SameStyles page (page.advanceTime time) := by
  have hcompile : ∀ (page : Page) (task : DeferredClass),
      (page.withCompiler fun compiler => compiler.compile task.name).document = page.document ∧
        (page.withCompiler fun compiler => compiler.compile task.name).containers =
          page.containers := fun _ _ => ⟨rfl, rfl⟩
  rw [advanceTime]
  dsimp only
  refine ⟨foldl_eq_of_step Page.containers (fun page task => (hcompile page task).2) _ _,
    fun probe => ?_⟩
  rw [foldl_eq_of_step Page.document fun page task => (hcompile page task).1]
  exact foldl_eq_of_step (fun doc => doc.styles probe)
    (fun doc (task : DeferredClass) => Document.styles_addClass doc task.target task.name probe) _ _

/-- An element whose inline style its conditions account for, apart from what is left over.  Only
elements of the document have conditions. -/
structure Accounted (page : Page) (id : ElementId) (leftover : Text → Prop) : Prop where
  claimed : page.ClaimedBut id leftover
  contains_of_tracked : page.isTracked id = true → page.document.contains id = true

theorem Accounted.mono {fewer : Text → Prop} (haccounted : page.Accounted id leftover)
    (hfewer : ∀ {property value}, page.document.style? id property = some value →
      leftover property → fewer property) : page.Accounted id fewer :=
  ⟨haccounted.claimed.mono hfewer, haccounted.contains_of_tracked⟩

theorem Accounted.of_eq (haccounted : page.Accounted id leftover)
    (hcontainer : after.container? id = page.container? id)
    (hstyles : after.document.styles id = page.document.styles id)
    (hcontains : page.document.contains id = true → after.document.contains id = true) :
    after.Accounted id leftover := by
  have hconditions : after.conditions id = page.conditions id := by
    rw [conditions_eq, conditions_eq, hcontainer]
  have hstyle : after.document.style? id = page.document.style? id := by
    funext property
    rw [Document.style?, hstyles, Document.style?]
  refine ⟨?_, fun htracked => ?_⟩
  · rw [ClaimedBut, hconditions, hstyle]
    exact haccounted.claimed
  · have hbefore : after.isTracked id = page.isTracked id := congrArg Option.isSome hcontainer
    exact hcontains (haccounted.contains_of_tracked (hbefore.symm.trans htracked))

theorem Accounted.of_sameStyles (haccounted : page.Accounted id leftover)
    (hsame : SameStyles page after)
    (hcontains : page.document.contains id = true → after.document.contains id = true) :
    after.Accounted id leftover := by
  refine haccounted.of_eq ?_ (hsame.styles_eq id) hcontains
  rw [container?, hsame.containers_eq, container?]

theorem Accounted.of_changesOnly (haccounted : page.Accounted id leftover)
    (hchange : ChangesOnly other page after) (hother : id ≠ other) :
    after.Accounted id leftover := by
  have hview := hchange.view_eq id hother
  have helement : after.document.element? id = page.document.element? id :=
    congrArg (fun view => view.document.element) hview
  refine haccounted.of_eq (congrArg ElementView.container hview) ?_
    ((hchange.contains_eq id).trans ·)
  rw [Document.styles_eq, helement, ← Document.styles_eq]

/-- Whoever has no conditions left loses no claim by the teardown. -/
theorem ClaimedBut.teardown (hclaimed : page.ClaimedBut id leftover)
    (hempty : (page.conditions id).isEmpty = true) :
    (page.teardown id).ClaimedBut id leftover := by
  have hconditions : page.conditions id = .empty := by
    rw [OrderedMap.isEmpty, List.isEmpty_iff] at hempty
    exact OrderedMap.ext hempty
  rw [ClaimedBut, hconditions] at hclaimed
  rw [ClaimedBut, conditions_of_not_tracked (isTracked_teardown page id),
    funext (style?_teardown page id)]
  exact hclaimed

theorem ClaimedBut.syncConditions (hclaimed : page.ClaimedBut id leftover)
    (hid : page.document.contains id = true) (htracked : page.isTracked id = true)
    (queries : List (Text × ContainerToken)) :
    (page.syncConditions id queries).ClaimedBut id leftover := by
  have hrekeyed := hclaimed.rekey hid htracked queries
  have hcontains : (page.rekey id queries).document.contains id = true :=
    ((changesOnly_rekey page id queries).contains_eq id).trans hid
  rw [syncConditions_eq]
  dsimp only
  split
  · rename_i hempty
    exact hrekeyed.teardown hempty
  · split
    · split
      · exact hrekeyed.evaluate hcontains _
      · exact hrekeyed
    · exact hrekeyed

theorem ClaimedBut.sync (hclaimed : page.ClaimedBut id leftover)
    (hid : page.document.contains id = true) (hobserver : page.document.sizeObserver = true)
    (tokens : List Text) : (page.sync id tokens).ClaimedBut id leftover := by
  by_cases hnames : containerNames tokens = []
  · cases htracked : page.isTracked id with
    | true =>
        rw [sync_of_tracked hobserver htracked]
        exact hclaimed.syncConditions hid htracked _
    | false =>
        rw [sync_of_nothing htracked hnames]
        exact hclaimed
  · have hcontains : (page.track id).document.contains id = true :=
      ((changesOnly_track page id).contains_eq id).trans hid
    have hnull := ne_null_of_contains hid
    rw [sync_of_names hnull hobserver hnames]
    exact hclaimed.track.syncConditions hcontains (isTracked_track hnull) _

/-- A handle without element has no tokens, and none of its own to lose. -/
theorem Accounted.sync (haccounted : page.Accounted id leftover) {tokens : List Text}
    (htokens : page.document.contains id = false → tokens = []) :
    (page.sync id tokens).Accounted id leftover := by
  have hcontains := (changesOnly_sync page id tokens).contains_eq id
  cases hid : page.document.contains id with
  | true =>
      cases hobserver : page.document.sizeObserver with
      | true =>
          exact ⟨haccounted.claimed.sync hid hobserver tokens, fun _ => hcontains.trans hid⟩
      | false =>
          exact haccounted.of_sameStyles (sameStyles_sync_of_no_observer hobserver id tokens)
            hcontains.trans
  | false =>
      have htracked : page.isTracked id = false := by
        rw [← Bool.not_eq_true]
        intro htracked
        rw [haccounted.contains_of_tracked htracked] at hid
        cases hid
      rw [sync_of_nothing htracked (by rw [htokens hid]; rfl)]
      exact haccounted

theorem Accounted.process (haccounted : page.Accounted id leftover) :
    (page.process id).Accounted id leftover := by
  have hcontains : (page.prepare id).document.contains id = page.document.contains id :=
    Document.contains_eq_of_skeleton (congrArg Setting.skeleton (setting_prepare page id)) id
  have hprepared := haccounted.of_sameStyles (sameStyles_prepare page id) hcontains.trans
  rw [process_eq]
  refine hprepared.sync fun hid => ?_
  have hnone : page.document.element? id = none := by
    rw [hcontains, Document.contains] at hid
    exact Option.not_isSome_iff_eq_none.mp (Bool.not_eq_true _ ▸ hid)
  rw [Document.classes, Document.className, hnone]
  rfl

/-- Whatever is on an element that is released is left over from then on. -/
theorem accounted_releaseElement
    (hleftover : ∀ {property value},
      (page.releaseElement id).document.style? id property = some value → leftover property) :
    (page.releaseElement id).Accounted id leftover := by
  have htracked := (idle_releaseElement page id).not_tracked
  refine ⟨?_, fun hstill => ?_⟩
  · rw [ClaimedBut, conditions_of_not_tracked htracked]
    exact ClaimsBut.of_no_conditions hleftover
  · rw [htracked] at hstill
    cases hstill

theorem Accounted.resize (haccounted : page.Accounted id leftover) (width : Binary64) :
    (page.resize id width).Accounted id leftover := by
  cases htracked : page.isTracked id with
  | false =>
      rw [resize_of_not_tracked htracked]
      exact haccounted
  | true =>
      have hid := haccounted.contains_of_tracked htracked
      have hreported : (page.reportWidth id width).ClaimedBut id leftover := by
        rw [ClaimedBut, conditions_reportWidth, document_reportWidth]
        exact haccounted.claimed
      have hcontains : (page.reportWidth id width).document.contains id = true :=
        (document_reportWidth page id width) ▸ hid
      refine ⟨?_, fun _ => ((changesOnly_resize page id width).contains_eq id).trans hid⟩
      rw [resize_of_tracked htracked]
      exact hreported.evaluate hcontains width

end UtilityCss.Page
