import UtilityCss.Proofs.Page.Turn
import UtilityCss.Proofs.Rule.Gating

/-!
Who is observed for the visibility class, against who has rules that wait for it.  The reactor reads
the class tokens as they are written, the compiler also rewrites and expands them.  Both readings
agree on the state, except where a shortcut stands for it or a breakpoint key holds its name.
-/

namespace UtilityCss.Page

variable {page : Page} {id : ElementId}

theorem isObserved_process (hid : id ≠ .null) :
    (page.process id).isObserved id = (page.demand id).visible := by
  rw [process_eq, isObserved_sync, prepare, isObserved_watch hid]

/-- Visits keep the observation of an element in line with its tokens unless they release it. -/
theorem isObserved_visit (hid : id ≠ .null) {visit : Visit} (hvisit : visit ≠ .release id)
    (hobserved : page.isObserved id = (page.demand id).visible) :
    (visit.apply page).isObserved id = ((visit.apply page).demand id).visible := by
  rw [Visit.demand_apply]
  by_cases htarget : id = visit.target
  · subst htarget
    cases visit with
    | process target => exact isObserved_process hid
    | release target => exact absurd rfl hvisit
  · have hview := (Visit.changesOnly_apply page visit).view_eq id htarget
    exact (congrArg ElementView.observed hview).trans hobserved

theorem isObserved_foldl_visits (hid : id ≠ .null) {visits : List Visit}
    (hvisits : .release id ∉ visits) (hobserved : page.isObserved id = (page.demand id).visible) :
    (visits.foldl Visit.apply page).isObserved id = (page.demand id).visible := by
  induction visits generalizing page with
  | nil => exact hobserved
  | cons visit rest ih =>
      rw [List.mem_cons, not_or] at hvisits
      rw [List.foldl_cons, ih hvisits.2 (isObserved_visit hid (Ne.symm hvisits.1) hobserved),
        Visit.demand_apply]

/-- After a turn that processes an element, and does not release it again, the element is observed
exactly if one of its class tokens names the state. -/
theorem isObserved_turn (hid : id ≠ .null) {turn : Turn} {before later : List Step}
    (hsteps : turn.steps page.document = before ++ .ofVisit (.process id) :: later)
    (hkept : .ofVisit (.release id) ∉ later) :
    (turn.apply page).isObserved id = (page.demand id).visible := by
  obtain ⟨visits, hvisits⟩ : ∃ visits : List Visit,
      turn.steps page.document = visits.map Step.ofVisit := by
    cases turn with
    | start => exact ⟨_, rfl⟩
    | ofEvent event => simp [Turn.steps, List.singleton_eq_append_iff] at hsteps
    | ofBatch mutations => exact ⟨_, rfl⟩
  rw [hvisits] at hsteps
  obtain ⟨first, rest, rfl, -, hrest⟩ := List.map_eq_append_iff.mp hsteps
  obtain ⟨visit, last, rfl, hvisit, rfl⟩ := List.map_eq_cons_iff.mp hrest
  cases hvisit
  have hlast : .release id ∉ last := fun hmem => hkept (List.mem_map_of_mem hmem)
  have hprocessed : ((first.foldl Visit.apply page).process id).isObserved id =
      (((first.foldl Visit.apply page).process id).demand id).visible := by
    rw [isObserved_process hid, demand_process]
  rw [← Turn.run_steps, hvisits, Turn.run_visits, List.foldl_append, List.foldl_cons, Visit.apply,
    isObserved_foldl_visits hid hlast hprocessed, demand_process, Visit.demand_foldl]

/-- A class with a gated rule names the state itself, unless a shortcut stands for it or a breakpoint
key holds its name. -/
theorem wantsVisibility_of_isGated {ctx : Context} {token : Text} {rule : Rule}
    (hshortcut : ctx.shortcuts.contains token = false)
    (hkeys : ∀ key ∈ ctx.breakpoints.keys, PseudoState.visible.name ∉ key.splitOn ':')
    (hrule : rule ∈ Rule.ofClass ctx token) (hgated : rule.IsGated) :
    wantsVisibility ctx.breakpoints token = true := by
  rw [Rule.ofClass] at hrule
  split at hrule
  · cases hrule
  · rename_i hdocument
    rw [hshortcut, if_neg Bool.false_ne_true] at hrule
    rw [isDocumentToken, Bool.or_eq_true, not_or, Option.not_isSome_iff_eq_none] at hdocument
    have hdeferred : deferredClass? token = none := by
      rw [deferredClass?, Option.filter_eq_none_iff]
      intro name hname
      have htoken := Text.after?_eq_some_iff.mp hname
      exact absurd (List.isPrefixOf_iff_prefix.mpr ⟨name, htoken.symm⟩) hdocument.1
    cases hrules : Rule.ofToken? ctx token with
    | none => simp [hrules] at hrule
    | some rules =>
        rw [hrules, Option.getD_some] at hrule
        have hstate := Rule.visible_mem_states_of_isGated hkeys hrules hrule hgated
        rw [wantsVisibility, hdocument.2, hdeferred, ParsedToken.hasState,
          List.contains_iff_mem.mpr hstate]
        rfl

/-- Who is observed, and what this says about the rules that wait for the visibility class.  After a
turn that processes an attached element it is observed exactly if one of its class tokens names the
state.  A class token that has a gated rule, whatever the tables and shortcuts it is compiled with,
does so, except a shortcut, or next to a breakpoint whose key holds the name of the state. -/
theorem observed_of_gated {turn : Turn} {before later : List Step}
    (hid : page.document.isConnected id = true)
    (hsteps : turn.steps page.document = before ++ .ofVisit (.process id) :: later)
    (hkept : .ofVisit (.release id) ∉ later) :
    ((turn.apply page).isObserved id = true ↔ ∃ token ∈ page.document.classes id,
      wantsVisibility page.compiler.breakpoints token = true) ∧
    ∀ ctx : Context, ctx.breakpoints = page.compiler.breakpoints →
      ∀ token ∈ page.document.classes id, (∃ rule ∈ Rule.ofClass ctx token, rule.IsGated) →
        (turn.apply page).isObserved id = true ∨ ctx.shortcuts.contains token = true ∨
          ∃ key ∈ ctx.breakpoints.keys, PseudoState.visible.name ∈ key.splitOn ':' := by
  have hnull : id ≠ .null := by
    rintro rfl
    cases hid
  have hobserved : (turn.apply page).isObserved id = true ↔ ∃ token ∈ page.document.classes id,
      wantsVisibility page.compiler.breakpoints token = true := by
    rw [isObserved_turn hnull hsteps hkept, demand, List.any_eq_true]
  refine ⟨hobserved, ?_⟩
  rintro ctx hbreakpoints token htoken ⟨rule, hrule, hgated⟩
  by_cases hkeys : ∃ key ∈ ctx.breakpoints.keys, PseudoState.visible.name ∈ key.splitOn ':'
  · exact Or.inr (Or.inr hkeys)
  cases hshortcut : ctx.shortcuts.contains token with
  | true => exact Or.inr (Or.inl rfl)
  | false =>
      refine Or.inl (hobserved.mpr ⟨token, htoken, ?_⟩)
      rw [← hbreakpoints]
      exact wantsVisibility_of_isGated hshortcut
        (fun key hkey hname => hkeys ⟨key, hkey, hname⟩) hrule hgated

/-- One element that fades in, with a compiler that knows nothing but opacity. -/
def fadingPage : Page where
  document :=
    { elements :=
        [{ children := [.element 1] },
          { parent := some Document.root, className := "visible:opacity-50@d".toList }] }
  compiler := { tables := { properties := .ofList [("opacity".toList, ["opacity".toList])] } }

/-- The start processes the element, its rule is gated, and it is observed. -/
theorem observed_of_gated_fading :
    fadingPage.document.isConnected (.element 1) = true ∧
      Turn.start.steps fadingPage.document =
        [.ofVisit (.process Document.root)] ++ .ofVisit (.process (.element 1)) :: [] ∧
      (∃ rule ∈ Rule.ofClass fadingPage.compiler.context "visible:opacity-50@d".toList,
        rule.IsGated) ∧
      (Turn.start.apply fadingPage).isObserved (.element 1) = true := by
  have hid : fadingPage.document.isConnected (.element 1) = true := by decide +kernel
  have hsteps : Turn.start.steps fadingPage.document =
      [.ofVisit (.process Document.root)] ++ .ofVisit (.process (.element 1)) :: [] := rfl
  have hgated : ∃ rule ∈ Rule.ofClass fadingPage.compiler.context "visible:opacity-50@d".toList,
      rule.IsGated := by decide +kernel
  have hkeys : ¬ ∃ key ∈ Breakpoints.standard.keys,
      PseudoState.visible.name ∈ key.splitOn ':' := by decide +kernel
  have hobserved := (observed_of_gated hid hsteps List.not_mem_nil).2 fadingPage.compiler.context rfl
    "visible:opacity-50@d".toList (by decide +kernel) hgated
  exact ⟨hid, hsteps, hgated,
    hobserved.resolve_right fun hexcept => hexcept.elim Bool.false_ne_true hkeys⟩

/-- A shortcut for a state, on an element of a page that starts. -/
def shortcutForState : List Turn :=
  [.ofEvent (.editCompiler fun compiler =>
      compiler.addShortcut "reveal".toList "visible:opacity-100".toList),
    .ofEvent (.edit (.append Document.root "reveal".toList)), .start]

/-- The start processes the element, its rule is gated, and nobody observes the element. -/
theorem unobserved_with_shortcut :
    let page := shortcutForState.foldl Turn.apply {}
    page.document.isConnected (.element 1) = true ∧
      page.document.classes (.element 1) = ["reveal".toList] ∧
      page.compiler.css? "reveal".toList =
        some
          ".reveal \x7b\n  &.pw-visible \x7b\n    opacity: 1;\n  \x7d\n\x7d".toList ∧
      (∃ rule ∈ Rule.ofClass page.compiler.context "reveal".toList, rule.IsGated) ∧
      page.isObserved (.element 1) = false := by
  decide +kernel

end UtilityCss.Page
