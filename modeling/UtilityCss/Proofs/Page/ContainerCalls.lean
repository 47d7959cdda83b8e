import UtilityCss.Proofs.Page.Syncing

/-!
Every order of syncs and size reports, with any edits of the compiler in between.  After each call
an element has the conditions of its last sync, active by the last width, and its inline style is
what the active conditions have set.
-/

namespace UtilityCss

/-- A call that serves the conditions of a page, or an edit of its compiler between two calls. -/
inductive ContainerCall where
  | sync (target : ElementId) (tokens : List Text)
  | resize (target : ElementId) (width : Binary64)
  | editCompiler (change : Compiler → Compiler)

/-- What the calls so far say about an element that is tracked: the container tokens of its last
sync, and the width that was reported last since it is tracked. -/
structure Watch where
  names : List Text
  width : Option Binary64
deriving DecidableEq

namespace ContainerCall

def apply (page : Page) : ContainerCall → Page
  | sync target tokens => page.sync target tokens
  | resize target width => page.resize target width
  | editCompiler change => page.withCompiler change

/-- What a call changes about what is said of an element. -/
def watch (id : ElementId) (watch : Option Watch) : ContainerCall → Option Watch
  | sync target tokens =>
      if target ≠ id then watch
      else if Page.containerNames tokens = [] then none
      else some { names := Page.containerNames tokens, width := watch.bind Watch.width }
  | resize target width =>
      if target ≠ id then watch else watch.map fun watch => { watch with width := some width }
  | editCompiler _ => watch

def watch? (id : ElementId) (calls : List ContainerCall) : Option Watch :=
  calls.foldl (ContainerCall.watch id) none

end ContainerCall

namespace Page

variable {page before after : Page} {id other : ElementId}

/-- An element with the conditions that it is watched for. -/
structure Keeps (page : Page) (id : ElementId) (watch : Watch) : Prop where
  tracked : page.isTracked id = true
  keys_ne_nil : (page.conditions id).keys ≠ []
  nodup_keys : (page.conditions id).keys.Nodup
  mem_keys_iff : ∀ token, token ∈ (page.conditions id).keys ↔ token ∈ watch.names
  parsed : ∀ token condition, (page.conditions id).get? token = some condition →
    ContainerToken.parse? token = some condition.token
  inactive_of_no_width : watch.width = none →
    ∀ token condition, (page.conditions id).get? token = some condition → condition.active = false
  active_of_width : ∀ width, watch.width = some width →
    ∀ token condition, (page.conditions id).get? token = some condition →
      condition.active = condition.token.bound.admits width
  applied_eq_empty : ∀ token condition, (page.conditions id).get? token = some condition →
    condition.active = false → condition.applied = .empty
  style_isSome_iff : ∀ property, (page.document.style? id property).isSome = true ↔
    ∃ token condition, (page.conditions id).get? token = some condition ∧
      condition.active = true ∧ property ∈ condition.applied.keys
  applied_of_style : ∀ property value, page.document.style? id property = some value →
    ∃ token condition, (page.conditions id).get? token = some condition ∧
      condition.active = true ∧ condition.applied.get? property = some value

/-- An element as the calls want it: with its conditions, or untracked and without inline style. -/
def Serves (page : Page) (id : ElementId) : Option Watch → Prop
  | some watch => page.Keeps id watch
  | none => page.isTracked id = false ∧ ∀ property, page.document.style? id property = none

/-- The invariant of the calls. -/
def Watches (page : Page) (id : ElementId) : Option Watch → Prop
  | some watch => watch.names ≠ [] ∧ page.Follows id watch.names watch.width
  | none => page.isTracked id = false ∧ ∀ property, page.document.style? id property = none

theorem Watches.inStep {watch : Option Watch} (hwatches : page.Watches id watch) :
    page.InStep id := by
  cases watch with
  | some watch => exact hwatches.2.inStep
  | none => exact inStep_of_not_tracked hwatches.1 hwatches.2

theorem Watches.width_eq {watch : Option Watch} (hwatches : page.Watches id watch) :
    page.width? id = watch.bind Watch.width := by
  cases watch with
  | some watch => exact hwatches.2.width_eq
  | none => exact width?_of_not_tracked hwatches.1

theorem Watches.serves {watch : Option Watch} (hwatches : page.Watches id watch) :
    page.Serves id watch := by
  cases watch with
  | none => exact hwatches
  | some watch =>
      obtain ⟨hnames, hfollows⟩ := hwatches
      have hclaims : Claims (page.conditions id) (page.document.style? id) :=
        hfollows.inStep.claimed
      refine ⟨hfollows.tracked, ?_, (page.conditions id).nodup_keys, hfollows.mem_keys_iff,
        fun token condition hcondition => hfollows.inStep.parsed hcondition, ?_, ?_,
        fun token condition hcondition => hclaims.applied_eq_empty hcondition, ?_,
        fun property value hvalue => hclaims.claimed hvalue⟩
      · intro hkeys
        obtain ⟨name, hname⟩ := List.exists_mem_of_ne_nil watch.names hnames
        have hkey := (hfollows.mem_keys_iff name).mpr hname
        rw [hkeys] at hkey
        cases hkey
      · intro hwidth token condition hcondition
        rw [hfollows.inStep.active_eq hcondition, hfollows.width_eq, hwidth, Option.any_none]
      · intro width hwidth token condition hcondition
        rw [hfollows.inStep.active_eq hcondition, hfollows.width_eq, hwidth, Option.any_some]
      · intro property
        rw [Option.isSome_iff_exists]
        constructor
        · rintro ⟨value, hvalue⟩
          obtain ⟨token, condition, hcondition, hactive, hclaim⟩ := hclaims.claimed hvalue
          exact ⟨token, condition, hcondition, hactive,
            OrderedMap.mem_keys_iff.mpr ⟨value, hclaim⟩⟩
        · rintro ⟨token, condition, hcondition, hactive, hkey⟩
          obtain ⟨value, hclaim⟩ := OrderedMap.mem_keys_iff.mp hkey
          exact hclaims.present hcondition hactive hclaim

/-- What is watched on an element depends on its conditions and its inline style only. -/
theorem Watches.of_eq {watch : Option Watch} (hwatches : page.Watches id watch)
    (hcontainer : after.container? id = page.container? id)
    (hstyle : ∀ property,
      after.document.style? id property = page.document.style? id property) :
    after.Watches id watch := by
  have hconditions : after.conditions id = page.conditions id := by
    rw [conditions_eq, conditions_eq, hcontainer]
  have hwidth : after.width? id = page.width? id := by rw [width?, width?, hcontainer]
  have htracked : after.isTracked id = page.isTracked id := congrArg Option.isSome hcontainer
  cases watch with
  | none => exact ⟨htracked.trans hwatches.1, fun property =>
      (hstyle property).trans (hwatches.2 property)⟩
  | some watch =>
      obtain ⟨hnames, hfollows⟩ := hwatches
      refine ⟨hnames, htracked.trans hfollows.tracked, ?_, hwidth.trans hfollows.width_eq, ?_⟩
      · rw [hconditions]
        exact hfollows.mem_keys_iff
      · refine ⟨?_, ?_, ?_⟩
        · rw [hconditions]
          exact hfollows.inStep.parsed
        · rw [hconditions, hwidth]
          exact hfollows.inStep.active_eq
        · rw [Claimed, hconditions, funext hstyle]
          exact hfollows.inStep.claimed

theorem Watches.of_changesOnly {watch : Option Watch} (hwatches : page.Watches id watch)
    (hchange : ChangesOnly other page after) (hother : id ≠ other) :
    after.Watches id watch := by
  have hview := hchange.view_eq id hother
  have helement : after.document.element? id = page.document.element? id :=
    congrArg (fun view => view.document.element) hview
  refine hwatches.of_eq (congrArg ElementView.container hview) fun property => ?_
  rw [Document.style?_eq, Document.style?_eq, helement]

theorem Watches.sync {watch : Option Watch} (hwatches : page.Watches id watch)
    (hid : page.document.contains id = true) (hobserver : page.document.sizeObserver = true)
    (tokens : List Text) :
    (page.sync id tokens).Watches id
      (if containerNames tokens = [] then none
        else some { names := containerNames tokens, width := watch.bind Watch.width }) := by
  split
  · rename_i hnames
    exact hwatches.inStep.sync_of_no_names hid hobserver hnames
  · rename_i hnames
    have hfollows := hwatches.inStep.sync_of_names hid hobserver hnames
    rw [hwatches.width_eq] at hfollows
    exact ⟨hnames, hfollows⟩

theorem Watches.resize {watch : Option Watch} (hwatches : page.Watches id watch)
    (hid : page.document.contains id = true) (width : Binary64) :
    (page.resize id width).Watches id
      (watch.map fun watch => { watch with width := some width }) := by
  cases watch with
  | none =>
      rw [resize_of_not_tracked hwatches.1]
      exact hwatches
  | some watch => exact ⟨hwatches.1, hwatches.2.resize hid width⟩

/-- A call keeps the elements of the document and what it can observe. -/
theorem setting_call (page : Page) (call : ContainerCall) (probe : ElementId) :
    (call.apply page).document.sizeObserver = page.document.sizeObserver ∧
      (call.apply page).document.contains probe = page.document.contains probe := by
  have hcall : ∀ {target after}, ChangesOnly target page after →
      after.document.sizeObserver = page.document.sizeObserver ∧
        after.document.contains probe = page.document.contains probe := by
    intro target after hchange
    exact ⟨congrArg Setting.sizeObserver hchange.setting_eq, hchange.contains_eq probe⟩
  cases call with
  | sync target tokens => exact hcall (changesOnly_sync page target tokens)
  | resize target width => exact hcall (changesOnly_resize page target width)
  | editCompiler change => exact ⟨rfl, rfl⟩

theorem Watches.apply {watch : Option Watch} (hwatches : page.Watches id watch)
    (hid : page.document.contains id = true) (hobserver : page.document.sizeObserver = true)
    (call : ContainerCall) : (call.apply page).Watches id (call.watch id watch) := by
  cases call with
  | sync target tokens =>
      by_cases htarget : target = id
      · subst htarget
        rw [ContainerCall.watch, if_neg (not_not_intro rfl)]
        exact hwatches.sync hid hobserver tokens
      · rw [ContainerCall.watch, if_pos htarget]
        exact hwatches.of_changesOnly (changesOnly_sync page target tokens) (Ne.symm htarget)
  | resize target width =>
      by_cases htarget : target = id
      · subst htarget
        rw [ContainerCall.watch, if_neg (not_not_intro rfl)]
        exact hwatches.resize hid width
      · rw [ContainerCall.watch, if_pos htarget]
        exact hwatches.of_changesOnly (changesOnly_resize page target width) (Ne.symm htarget)
  | editCompiler change => exact hwatches.of_eq rfl fun _ => rfl

theorem Watches.run {watch : Option Watch} (hwatches : page.Watches id watch)
    (hid : page.document.contains id = true) (hobserver : page.document.sizeObserver = true)
    (calls : List ContainerCall) :
    (calls.foldl ContainerCall.apply page).Watches id
      (calls.foldl (ContainerCall.watch id) watch) := by
  induction calls generalizing page watch with
  | nil => exact hwatches
  | cons call rest ih =>
      obtain ⟨hobserver', hcontains⟩ := setting_call page call id
      exact ih (hwatches.apply hid hobserver call) (hcontains.trans hid)
        (hobserver'.trans hobserver)

/-- Whatever is called in whatever order, on an element that had neither conditions nor an inline
style to begin with. -/
theorem serves_of_calls (hobserver : page.document.sizeObserver = true)
    (hid : page.document.contains id = true) (htracked : page.isTracked id = false)
    (hstyle : ∀ property, page.document.style? id property = none) (calls : List ContainerCall) :
    (calls.foldl ContainerCall.apply page).Serves id (ContainerCall.watch? id calls) := by
  have hstart : page.Watches id none := ⟨htracked, hstyle⟩
  exact (hstart.run hid hobserver calls).serves

theorem serves_of_calls_on_root :
    ({} : Page).document.sizeObserver = true ∧ ({} : Page).document.contains Document.root = true ∧
      ({} : Page).isTracked Document.root = false ∧
      (∀ property, ({} : Page).document.style? Document.root property = none) ∧
      ([.sync Document.root ["max-320:flex".toList, "flex".toList],
          .resize Document.root (.ofNat 300)].foldl ContainerCall.apply {}).Serves Document.root
        (some { names := ["max-320:flex".toList], width := some (.ofNat 300) }) := by
  let calls : List ContainerCall := [.sync Document.root ["max-320:flex".toList, "flex".toList],
    .resize Document.root (.ofNat 300)]
  have hwatch : ContainerCall.watch? Document.root calls =
      some { names := ["max-320:flex".toList], width := some (.ofNat 300) } := by decide +kernel
  have hserves : (calls.foldl ContainerCall.apply {}).Serves Document.root
      (ContainerCall.watch? Document.root calls) :=
    serves_of_calls rfl rfl rfl (fun _ => rfl) calls
  rw [hwatch] at hserves
  exact ⟨rfl, rfl, rfl, fun _ => rfl, hserves⟩

end Page

end UtilityCss
