import UtilityCss.Proofs.Page.Turn

/-!
Viewport classes over the life of a page.  A report of the width settles the class of every current
breakpoint and touches no other class, so the class of a breakpoint that is gone stays as the last
report left it that knew the breakpoint.
-/

namespace UtilityCss

namespace Page

theorem viewportClass_injective : Function.Injective viewportClass :=
  fun _ _ heq => List.append_cancel_left heq

theorem visibleClass_eq : visibleClass = viewportClass PseudoState.visible.name := rfl

/-- A class with the prefix of the viewport classes. -/
def IsViewportClass (name : Text) : Prop :=
  viewportClass [] <+: name

instance (name : Text) : Decidable (IsViewportClass name) :=
  inferInstanceAs (Decidable (_ <+: _))

theorem isViewportClass_viewportClass (key : Text) : IsViewportClass (viewportClass key) :=
  ⟨key, rfl⟩

/-- A key without white space. -/
def IsPlainKey (key : Text) : Prop :=
  ∀ c ∈ key, isBlank c = false

/-- The characters of the key are tried, not all that there are. -/
instance (key : Text) : Decidable (IsPlainKey key) :=
  List.decidableBAll (fun c => isBlank c = false) key

/-- No breakpoint has white space in its key. -/
def HasPlainKeys (page : Page) : Prop :=
  ∀ key ∈ page.compiler.breakpoints.keys, IsPlainKey key

instance (page : Page) : Decidable page.HasPlainKeys :=
  List.decidableBAll IsPlainKey page.compiler.breakpoints.keys

theorem words_viewportClass {key : Text} (hkey : IsPlainKey key) :
    (viewportClass key).words = [viewportClass key] := by
  have hstart : IsPlainKey "pw-".toList := by decide
  refine Text.words_of_forall (by simp [viewportClass]) fun c hc => ?_
  exact (List.mem_append.mp hc).elim (hstart c) (hkey c)

end Page

namespace Document

open Page (viewportClass)

variable {doc : Document} {key : Text} {width : Binary64}

/-- Bring the viewport class of one breakpoint in line with a width. -/
def toggleViewport (width : Binary64) (doc : Document) (entry : Text × Text) : Document :=
  if matchesWidth entry.2 width then doc.addClass root (viewportClass entry.1)
  else doc.removeClass root (viewportClass entry.1)

theorem contains_toggleViewport (width : Binary64) (entry : Text × Text) (hroot : doc.contains root = true) :
    (toggleViewport width doc entry).contains root = true := by
  unfold toggleViewport
  split
  · rwa [contains_eq_of_skeleton (skeleton_addClass doc root _)]
  · rwa [contains_eq_of_skeleton (skeleton_removeClass doc root _)]

/-- A breakpoint settles its own class. -/
theorem mem_classes_toggleViewport_self {media : Text} (hroot : doc.contains root = true)
    (hkey : Page.IsPlainKey key) :
    viewportClass key ∈ (toggleViewport width doc (key, media)).classes root ↔
      matchesWidth media width = true := by
  unfold toggleViewport
  cases matchesWidth media width with
  | true =>
      have hclass := hasClass_addClass hroot (Page.words_viewportClass hkey)
      rw [hasClass, List.contains_iff_mem] at hclass
      exact iff_of_true hclass rfl
  | false =>
      rw [if_neg Bool.false_ne_true, classes_removeClass]
      simp

/-- A breakpoint leaves the class of another one alone. -/
theorem mem_classes_toggleViewport_of_ne {entry : Text × Text} (hroot : doc.contains root = true)
    (hentry : Page.IsPlainKey entry.1) (hne : entry.1 ≠ key) :
    viewportClass key ∈ (toggleViewport width doc entry).classes root ↔
      viewportClass key ∈ doc.classes root := by
  have hclass : viewportClass key ≠ viewportClass entry.1 :=
    fun heq => hne (Page.viewportClass_injective heq).symm
  unfold toggleViewport
  split
  · rw [classes_addClass doc root _ hroot, Page.words_viewportClass hentry]
    split
    · rfl
    · rw [List.mem_append, List.mem_singleton, or_iff_left hclass]
  · rw [classes_removeClass, List.mem_filter, decide_eq_true_eq, and_iff_left hclass]

/-- A report settles the classes of the entries and leaves the others as they are. -/
theorem mem_classes_foldl_toggleViewport {entries : List (Text × Text)}
    (hroot : doc.contains root = true) (hnodup : (entries.map Prod.fst).Nodup)
    (hkeys : ∀ entry ∈ entries, Page.IsPlainKey entry.1) (key : Text) :
    viewportClass key ∈ (entries.foldl (toggleViewport width) doc).classes root ↔
      match Entries.get? key entries with
      | some media => matchesWidth media width = true
      | none => viewportClass key ∈ doc.classes root := by
  induction entries generalizing doc with
  | nil => rfl
  | cons first rest ih =>
      obtain ⟨firstKey, media⟩ := first
      rw [List.map_cons, List.nodup_cons] at hnodup
      have hfirst := hkeys _ List.mem_cons_self
      have hrest := ih (contains_toggleViewport width (firstKey, media) hroot) hnodup.2
        fun entry hentry => hkeys entry (List.mem_cons_of_mem _ hentry)
      rw [List.foldl_cons, hrest, Entries.get?]
      by_cases hkey : firstKey = key
      · subst hkey
        rw [if_pos rfl, Entries.get?_eq_none_iff.mpr hnodup.1]
        exact mem_classes_toggleViewport_self hroot hfirst
      · rw [if_neg hkey]
        split
        · rfl
        · exact mem_classes_toggleViewport_of_ne hroot hfirst hkey

end Document

namespace Page

variable {start page : Page} {id probe : ElementId} {key name : Text} {width : Binary64}
  {turn : Turn} {turns : List Turn}

theorem handleViewport_of_bodyClass (henabled : page.compiler.bodyClass = true) (width : Binary64) :
    (page.handleViewport width).document =
      page.compiler.breakpoints.entries.foldl (Document.toggleViewport width) page.document := by
  rw [handleViewport, if_pos henabled]
  rfl

/-- After a report the root carries the classes of the current breakpoints that match, and of other
keys what it carried before. -/
theorem mem_classes_handleViewport (henabled : page.compiler.bodyClass = true)
    (hroot : page.document.contains Document.root = true) (hkeys : page.HasPlainKeys)
    (width : Binary64) (key : Text) :
    viewportClass key ∈ (page.handleViewport width).document.classes Document.root ↔
      match page.compiler.breakpoints.get? key with
      | some media => matchesWidth media width = true
      | none => viewportClass key ∈ page.document.classes Document.root := by
  rw [handleViewport_of_bodyClass henabled]
  exact Document.mem_classes_foldl_toggleViewport hroot page.compiler.breakpoints.nodup_keys
    (fun entry hentry => hkeys entry.1 (List.mem_map_of_mem hentry)) key

theorem classes_releaseElement (page : Page) (id : ElementId) :
    (page.releaseElement id).document.classes id = page.document.classes id ∨
      (page.releaseElement id).document.classes id =
        (page.document.classes id).filter (· ≠ visibleClass) := by
  have hteardown := classes_eq_of_bystanders (bystanders_teardown page id) id
  have hsilent := classes_unobserve (page.teardown id) id
  rwa [hteardown] at hsilent

/-- A visit gives no element a class. -/
theorem classes_visit_subset (page : Page) (visit : Visit) (probe : ElementId) :
    (visit.apply page).document.classes probe ⊆ page.document.classes probe := by
  by_cases hprobe : probe = visit.target
  · have hclasses : (visit.apply page).document.classes probe = page.document.classes probe ∨
        (visit.apply page).document.classes probe =
          (page.document.classes probe).filter (· ≠ visibleClass) := by
      subst hprobe
      cases visit with
      | process id => exact classes_process page id
      | release id => exact classes_releaseElement page id
    rcases hclasses with hsame | hfiltered
    · rw [hsame]
      exact List.Subset.refl _
    · rw [hfiltered]
      exact fun name hname => List.mem_of_mem_filter hname
  · rw [(Visit.changesOnly_apply page visit).classes_eq hprobe]
    exact List.Subset.refl _

theorem classes_foldl_visit_subset (page : Page) (visits : List Visit) (probe : ElementId) :
    (visits.foldl Visit.apply page).document.classes probe ⊆ page.document.classes probe := by
  induction visits generalizing page with
  | nil => exact List.Subset.refl _
  | cons visit rest ih =>
      exact List.Subset.trans (ih (visit.apply page)) (classes_visit_subset page visit probe)

/-- An intersection report gives no other class than that of visibility. -/
theorem mem_classes_intersect (ratio : Binary64)
    (hname : name ∈ (page.intersect id ratio).document.classes probe) :
    name ∈ page.document.classes probe ∨ name = visibleClass := by
  by_cases hprobe : probe = id
  · subst hprobe
    unfold intersect at hname
    split at hname
    · exact Or.inl hname
    · split at hname
      · refine (Document.mem_classes_addClass hname).imp_right fun hword => ?_
        exact List.mem_singleton.mp hword
      · rw [withDocument, Document.classes_removeClass] at hname
        exact Or.inl (List.mem_of_mem_filter hname)
  · rw [(changesOnly_intersect page id ratio).classes_eq hprobe] at hname
    exact Or.inl hname

end Page

namespace Turn

open Page (viewportClass IsViewportClass)

variable {page : Page} {turn : Turn} {turns : List Turn} {key : Text}

/-- A change of a page that puts no viewport class on the root. -/
def PutsNone (before after : Page) : Prop :=
  ∀ name ∈ after.document.classes Document.root, IsViewportClass name →
    name ∈ before.document.classes Document.root

instance (before after : Page) : Decidable (PutsNone before after) :=
  inferInstanceAs (Decidable (∀ name ∈ after.document.classes Document.root,
    IsViewportClass name → name ∈ before.document.classes Document.root))

/-- Whatever may put viewport classes on the root besides the reports does not: neither an edit of the
document nor a class that falls due.  At a report no key holds white space. -/
def LeavesViewport (page : Page) : Turn → Prop
  | ofEvent (.edit operation) => PutsNone page (page.withDocument fun doc => operation.apply doc)
  | ofEvent (.advanceTime time) => PutsNone page (page.advanceTime time)
  | ofEvent (.viewport _) => page.HasPlainKeys
  | _ => True

instance (page : Page) : (turn : Turn) → Decidable (turn.LeavesViewport page)
  | start => inferInstanceAs (Decidable True)
  | ofEvent (.edit operation) =>
      inferInstanceAs (Decidable (PutsNone page (page.withDocument fun doc => operation.apply doc)))
  | ofEvent (.resize _ _) => inferInstanceAs (Decidable True)
  | ofEvent (.intersect _ _) => inferInstanceAs (Decidable True)
  | ofEvent (.viewport _) => inferInstanceAs (Decidable page.HasPlainKeys)
  | ofEvent (.advanceTime time) =>
      inferInstanceAs (Decidable (PutsNone page (page.advanceTime time)))
  | ofEvent (.editCompiler _) => inferInstanceAs (Decidable True)
  | ofBatch _ => inferInstanceAs (Decidable True)

def AllLeaveViewport (page : Page) : List Turn → Prop
  | [] => True
  | turn :: rest => turn.LeavesViewport page ∧ AllLeaveViewport (turn.apply page) rest

instance decidableAllLeaveViewport (page : Page) :
    (turns : List Turn) → Decidable (AllLeaveViewport page turns)
  | [] => inferInstanceAs (Decidable True)
  | turn :: rest =>
      have := decidableAllLeaveViewport (turn.apply page) rest
      inferInstanceAs (Decidable
        (turn.LeavesViewport page ∧ AllLeaveViewport (turn.apply page) rest))

theorem allLeaveViewport_concat_iff : AllLeaveViewport page (turns ++ [turn]) ↔
    AllLeaveViewport page turns ∧ turn.LeavesViewport (turns.foldl apply page) := by
  induction turns generalizing page with
  | nil => simp [AllLeaveViewport]
  | cons first rest ih =>
      rw [List.cons_append, AllLeaveViewport, AllLeaveViewport, ih, and_assoc]
      rfl

theorem contains_root_apply (hroot : page.document.contains Document.root = true) (turn : Turn) :
    (turn.apply page).document.contains Document.root = true := by
  rcases eq_ofEvent_or_visits page turn with ⟨event, rfl⟩ | ⟨visits, hvisits⟩
  · exact (Event.accounts_records page event).contains hroot
  · have hskeleton := congrArg Page.Setting.skeleton (Visit.setting_foldl visits page)
    rwa [hvisits, Document.contains_eq_of_skeleton hskeleton]

theorem contains_root_foldl (hroot : page.document.contains Document.root = true)
    (turns : List Turn) :
    (turns.foldl apply page).document.contains Document.root = true := by
  induction turns generalizing page with
  | nil => exact hroot
  | cons turn rest ih => exact ih (contains_root_apply hroot turn)

/-- Only a report of the width puts a viewport class on the root, apart from that of visibility. -/
theorem mem_classes_of_apply (hleaves : turn.LeavesViewport page)
    (hturn : ∀ width, turn ≠ .ofEvent (.viewport width)) (hkey : key ≠ PseudoState.visible.name)
    (hclass : viewportClass key ∈ (turn.apply page).document.classes Document.root) :
    viewportClass key ∈ page.document.classes Document.root := by
  have hname := Page.isViewportClass_viewportClass key
  rcases eq_ofEvent_or_visits page turn with ⟨event, rfl⟩ | ⟨visits, hvisits⟩
  · cases event with
    | edit operation => exact hleaves _ hclass hname
    | resize id width =>
        have hclasses := Page.classes_eq_of_bystanders (Page.bystanders_resize page id width)
        rwa [apply, Event.apply, hclasses] at hclass
    | intersect id ratio =>
        refine (Page.mem_classes_intersect ratio hclass).resolve_right fun heq => hkey ?_
        exact Page.viewportClass_injective (heq.trans Page.visibleClass_eq)
    | viewport width => exact absurd rfl (hturn width)
    | advanceTime time => exact hleaves _ hclass hname
    | editCompiler change => exact hclass
  · rw [hvisits] at hclass
    exact Page.classes_foldl_visit_subset page visits _ hclass

end Turn

namespace Page

variable {start page : Page} {key : Text} {width : Binary64} {turn : Turn} {turns : List Turn}

/-- A report of the width at this page puts the class of the key on the root. -/
def Shows (page : Page) (key : Text) (width : Binary64) : Prop :=
  page.compiler.bodyClass = true ∧ ∃ media, page.compiler.breakpoints.get? key = some media ∧
    matchesWidth media width = true

/-- The class of a key that a report put on the root, and that has been there after every turn
since. -/
def Lingers (start : Page) (turns : List Turn) (key : Text) : Prop :=
  ∃ before width after, turns = before ++ .ofEvent (.viewport width) :: after ∧
    (before.foldl Turn.apply start).Shows key width ∧
    ∀ passed, passed <+: after →
      viewportClass key ∈ ((before ++ .ofEvent (.viewport width) :: passed).foldl Turn.apply
        start).document.classes Document.root

theorem Lingers.mem_classes (hlingers : start.Lingers turns key) :
    viewportClass key ∈ (turns.foldl Turn.apply start).document.classes Document.root := by
  obtain ⟨before, width, after, rfl, -, hkept⟩ := hlingers
  exact hkept after (List.prefix_refl after)

theorem Lingers.concat (hlingers : start.Lingers turns key)
    (hclass : viewportClass key ∈
      ((turns ++ [turn]).foldl Turn.apply start).document.classes Document.root) :
    start.Lingers (turns ++ [turn]) key := by
  obtain ⟨before, width, after, rfl, hshows, hkept⟩ := hlingers
  refine ⟨before, width, after ++ [turn], by simp, hshows, fun passed hpassed => ?_⟩
  rcases List.prefix_concat_iff.mp hpassed with rfl | hearlier
  · simpa using hclass
  · exact hkept passed hearlier

theorem lingers_concat_viewport (hshows : (turns.foldl Turn.apply start).Shows key width)
    (hclass : viewportClass key ∈ ((turns ++ [Turn.ofEvent (.viewport width)]).foldl Turn.apply
      start).document.classes Document.root) :
    start.Lingers (turns ++ [.ofEvent (.viewport width)]) key := by
  refine ⟨turns, width, [], rfl, hshows, fun passed hpassed => ?_⟩
  rwa [List.prefix_nil.mp hpassed]

/-- Where a viewport class comes from: a turn that leaves one on the root has put it there by a report,
or has found it there. -/
theorem shows_or_mem_classes (hroot : page.document.contains Document.root = true)
    (hleaves : turn.LeavesViewport page) (hkey : key ≠ PseudoState.visible.name)
    (hclass : viewportClass key ∈ (turn.apply page).document.classes Document.root) :
    (∃ width, turn = .ofEvent (.viewport width) ∧ page.Shows key width) ∨
      viewportClass key ∈ page.document.classes Document.root := by
  by_cases hturn : ∀ width, turn ≠ .ofEvent (.viewport width)
  · exact Or.inr (Turn.mem_classes_of_apply hleaves hturn hkey hclass)
  · obtain ⟨width, hviewport⟩ := not_forall.mp hturn
    obtain rfl := not_not.mp hviewport
    change viewportClass key ∈ (page.handleViewport width).document.classes Document.root at hclass
    cases henabled : page.compiler.bodyClass with
    | false =>
        rw [handleViewport, if_neg (by rw [henabled]; exact Bool.false_ne_true)] at hclass
        exact Or.inr hclass
    | true =>
        rw [mem_classes_handleViewport henabled hroot hleaves] at hclass
        split at hclass
        · rename_i media hmedia
          exact Or.inl ⟨width, rfl, henabled, media, hmedia, hclass⟩
        · exact Or.inr hclass

/-- Every viewport class on the root lingers from a report. -/
theorem lingers_of_mem_classes (hroot : start.document.contains Document.root = true)
    (hnone : ∀ name ∈ start.document.classes Document.root, ¬ IsViewportClass name)
    (hturns : Turn.AllLeaveViewport start turns) (hkey : key ≠ PseudoState.visible.name)
    (hclass : viewportClass key ∈ (turns.foldl Turn.apply start).document.classes Document.root) :
    start.Lingers turns key := by
  -- On the end of the run, as the report that the class lingers from is counted from its start.
  induction turns using List.reverseRecOn with
  | nil => exact absurd (isViewportClass_viewportClass key) (hnone _ hclass)
  | append_singleton earlier turn ih =>
      obtain ⟨hearlier, hleaves⟩ := Turn.allLeaveViewport_concat_iff.mp hturns
      have happly : (earlier ++ [turn]).foldl Turn.apply start =
          turn.apply (earlier.foldl Turn.apply start) := List.foldl_append
      have horigin := hclass
      rw [happly] at horigin
      rcases shows_or_mem_classes (Turn.contains_root_foldl hroot earlier) hleaves hkey horigin with
        ⟨width, rfl, hshows⟩ | hbefore
      · exact lingers_concat_viewport hshows hclass
      · exact (ih hearlier hbefore).concat hclass

/-- Right after a report of the width, in a run in which nobody but the page puts viewport classes on
the root: the root carries the class of a key exactly if the key is a breakpoint that matches, or is
none and its class lingers.  Where every key that was ever reported still is a breakpoint, it carries
the classes of the breakpoints that match. -/
theorem viewportClasses_of_turns {document : Document} (compiler : Compiler)
    (hroot : document.contains Document.root = true)
    (hnone : ∀ name ∈ document.classes Document.root, ¬ IsViewportClass name)
    {turns : List Turn} (hturns : Turn.AllLeaveViewport { document, compiler } turns)
    (width : Binary64) {key : Text} (hkey : key ≠ PseudoState.visible.name) :
    let start : Page := { document, compiler }
    let page := turns.foldl Turn.apply start
    let reported := (page.handleViewport width).document.classes Document.root
    let matching := ∃ media, page.compiler.breakpoints.get? key = some media ∧
      matchesWidth media width = true
    page.compiler.bodyClass = true → page.HasPlainKeys →
      (viewportClass key ∈ reported ↔
        matching ∨ key ∉ page.compiler.breakpoints.keys ∧ start.Lingers turns key) ∧
      ((∀ before earlier after, turns = before ++ .ofEvent (.viewport earlier) :: after →
          key ∈ (before.foldl Turn.apply start).compiler.breakpoints.keys →
            key ∈ page.compiler.breakpoints.keys) →
        (viewportClass key ∈ reported ↔ matching)) := by
  intro start page reported matching henabled hkeys
  have hcarried : viewportClass key ∈ page.document.classes Document.root ↔
      start.Lingers turns key :=
    ⟨lingers_of_mem_classes hroot hnone hturns hkey, Lingers.mem_classes⟩
  have hreported : viewportClass key ∈ reported ↔
      matching ∨ key ∉ page.compiler.breakpoints.keys ∧ start.Lingers turns key := by
    rw [mem_classes_handleViewport henabled (Turn.contains_root_foldl hroot turns) hkeys, hcarried]
    cases hmedia : page.compiler.breakpoints.get? key with
    | some media =>
        have hknown : key ∈ page.compiler.breakpoints.keys :=
          OrderedMap.mem_keys_iff.mpr ⟨media, hmedia⟩
        simp [matching, hmedia, hknown]
    | none =>
        have hgone := OrderedMap.get?_eq_none_iff.mp hmedia
        simp [matching, hmedia, hgone]
  refine ⟨hreported, fun hcurrent => hreported.trans (or_iff_left ?_)⟩
  rintro ⟨hgone, before, earlier, after, heq, ⟨-, media, hmedia, -⟩, -⟩
  exact hgone (hcurrent before earlier after heq
    (OrderedMap.mem_keys_iff.mpr ⟨media, hmedia⟩))

/-- The breakpoints are replaced after a report. -/
def replacedBreakpoints : List Turn :=
  [.ofEvent (.viewport (.ofNat 500)),
    .ofEvent (.editCompiler fun compiler => compiler.configure
      { breakpoints := .ofList [("xl".toList, "(min-width: 1200px)".toList)] })]

theorem lingers_replacedBreakpoints :
    let start : Page := { compiler := { bodyClass := true } }
    let page := replacedBreakpoints.foldl Turn.apply start
    start.document.contains Document.root = true ∧
      (∀ name ∈ start.document.classes Document.root, ¬ IsViewportClass name) ∧
      Turn.AllLeaveViewport start replacedBreakpoints ∧
      page.compiler.bodyClass = true ∧ page.HasPlainKeys ∧
      viewportClass "xl".toList ∈
        (page.handleViewport (.ofNat 1300)).document.classes Document.root ∧
      start.Lingers replacedBreakpoints "m".toList := by
  intro start page
  have hnone : ∀ name ∈ start.document.classes Document.root, ¬ IsViewportClass name := by
    decide +kernel
  have hturns : Turn.AllLeaveViewport start replacedBreakpoints := by decide +kernel
  have henabled : page.compiler.bodyClass = true := by decide +kernel
  have hkeys : page.HasPlainKeys := by decide +kernel
  have hxl : "xl".toList ≠ PseudoState.visible.name := by decide
  have hm : "m".toList ≠ PseudoState.visible.name := by decide
  have hwide := viewportClasses_of_turns { bodyClass := true } rfl hnone hturns (.ofNat 1300) hxl
    henabled hkeys
  have hnarrow := viewportClasses_of_turns { bodyClass := true } rfl hnone hturns (.ofNat 500) hm
    henabled hkeys
  have hmatches : page.compiler.breakpoints.get? "xl".toList = some "(min-width: 1200px)".toList ∧
      matchesWidth "(min-width: 1200px)".toList (.ofNat 1300) = true := by decide +kernel
  have hcarried : viewportClass "m".toList ∈
      (page.handleViewport (.ofNat 500)).document.classes Document.root := by decide +kernel
  have hgone : page.compiler.breakpoints.get? "m".toList = none := by decide +kernel
  refine ⟨rfl, hnone, hturns, henabled, hkeys, hwide.1.mpr (Or.inl ⟨_, hmatches⟩), ?_⟩
  rcases hnarrow.1.mp hcarried with ⟨media, hmedia, -⟩ | ⟨-, hlingers⟩
  · rw [hgone] at hmedia
    cases hmedia
  · exact hlingers

/-- The class of a breakpoint that is gone is still there after the next report. -/
theorem viewportClass_outlives_breakpoint :
    let page : Page := replacedBreakpoints.foldl Turn.apply { compiler := { bodyClass := true } }
    Turn.AllLeaveViewport { compiler := { bodyClass := true } } replacedBreakpoints ∧
      page.compiler.bodyClass = true ∧ page.HasPlainKeys ∧
      PseudoState.visible.name ∉ page.compiler.breakpoints.keys ∧
      viewportClass "m".toList ∈
        (page.handleViewport (.ofNat 500)).document.classes Document.root ∧
      "m".toList ∉ page.compiler.breakpoints.keys := by
  decide +kernel

end Page

end UtilityCss
