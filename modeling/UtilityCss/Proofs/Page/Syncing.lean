import UtilityCss.Proofs.Page.Evaluation

/-!
What bringing an element in line with its class tokens does to its conditions.  Afterwards the
element has one condition for each of its container tokens; the conditions it had before are kept
as they were.
-/

namespace UtilityCss

theorem Entries.get?_isSome_iff {α β : Type} [DecidableEq α] {key : α} {entries : List (α × β)} :
    (Entries.get? key entries).isSome = true ↔ key ∈ entries.map Prod.fst := by
  rw [← not_iff_not, ← Entries.get?_eq_none_iff]
  simp

namespace Page

variable {page : Page} {id : ElementId} {tokens : List Text} {queries : List (Text × ContainerToken)}
  {token probe : Text}

/-- The container tokens among class tokens, without what they say. -/
def containerNames (tokens : List Text) : List Text :=
  (containerTokens tokens).map Prod.fst

theorem get?_containerTokens (tokens : List Text) (probe : Text) :
    Entries.get? probe (containerTokens tokens) =
      if probe ∈ tokens then ContainerToken.parse? probe else none := by
  induction tokens with
  | nil => rfl
  | cons token rest ih =>
      rw [containerTokens] at ih ⊢
      rw [List.filterMap_cons]
      by_cases hprobe : probe = token
      · subst hprobe
        cases hparse : ContainerToken.parse? probe with
        | none => simp [ih, hparse]
        | some query => simp [Entries.get?]
      · cases hparse : ContainerToken.parse? token with
        | none => simp [ih, hprobe]
        | some query => simp [Entries.get?, ih, hprobe, Ne.symm hprobe]

theorem conditions_of_not_tracked (htracked : page.isTracked id = false) :
    page.conditions id = .empty := by
  rw [conditions_eq]
  cases hstate : page.container? id with
  | none => rfl
  | some state => rw [isTracked_iff.mpr ⟨state, hstate⟩] at htracked; cases htracked

theorem width?_of_not_tracked (htracked : page.isTracked id = false) :
    page.width? id = none := by
  rw [width?]
  cases hstate : page.container? id with
  | none => rfl
  | some state => rw [isTracked_iff.mpr ⟨state, hstate⟩] at htracked; cases htracked

theorem ne_null_of_contains {doc : Document} (hid : doc.contains id = true) : id ≠ .null := by
  rintro rfl
  cases hid

theorem isTracked_track (hid : id ≠ .null) :
    (page.track id).isTracked id = true := by
  unfold track
  split
  · assumption
  · dsimp only
    rw [isTracked_iff]
    exact ⟨{}, by rw [container?, OrderedMap.get?_insert, if_pos rfl]⟩

/-- The start of tracking adds no condition. -/
theorem container?_track (page : Page) (id : ElementId) :
    (page.track id).conditions id = page.conditions id ∧
      (page.track id).width? id = page.width? id := by
  unfold track
  by_cases htracked : page.isTracked id = true
  · rw [if_pos htracked]
    exact ⟨rfl, rfl⟩
  · rw [if_neg htracked]
    rw [Bool.not_eq_true] at htracked
    rw [conditions_of_not_tracked htracked, width?_of_not_tracked htracked]
    split
    · have hbefore : (page.withDocument fun doc => doc.observeSize id).isTracked id = false :=
        htracked
      exact ⟨conditions_of_not_tracked hbefore, width?_of_not_tracked hbefore⟩
    · simp [conditions_eq, width?, container?, OrderedMap.get?_insert]

theorem style?_track (page : Page) (id : ElementId) (property : Text) :
    (page.track id).document.style? id property = page.document.style? id property := by
  have hobserve : (page.document.observeSize id).style? id property =
      page.document.style? id property := by
    unfold Document.observeSize
    split <;> rfl
  unfold track
  split
  · rfl
  · split
    · exact hobserve
    · exact hobserve

theorem ClaimedBut.track {leftover : Text → Prop} (hclaimed : page.ClaimedBut id leftover) :
    (page.track id).ClaimedBut id leftover := by
  rw [ClaimedBut, (container?_track page id).1, funext (style?_track page id)]
  exact hclaimed

theorem get?_dropCondition (page : Page) (id : ElementId) (token probe : Text) :
    ((page.dropCondition id token).conditions id).get? probe =
      if probe = token then none else (page.conditions id).get? probe := by
  cases hcondition : (page.conditions id).get? token with
  | none =>
      rw [dropCondition_of_none hcondition]
      split
      · rename_i hprobe
        rw [hprobe, hcondition]
      · rfl
  | some condition => rw [conditions_dropCondition hcondition, OrderedMap.get?_erase]

theorem get?_foldl_dropCondition (page : Page) (id : ElementId) (tokens : List Text)
    (probe : Text) :
    ((tokens.foldl (fun page token => page.dropCondition id token) page).conditions id).get? probe =
      if probe ∈ tokens then none else (page.conditions id).get? probe := by
  induction tokens generalizing page with
  | nil => rfl
  | cons token rest ih =>
      rw [List.foldl_cons, ih, get?_dropCondition]
      by_cases hprobe : probe = token <;> by_cases hrest : probe ∈ rest <;> simp [hprobe, hrest]

theorem isTracked_dropCondition (page : Page) (id : ElementId) (token : Text) :
    (page.dropCondition id token).isTracked id = page.isTracked id := by
  unfold dropCondition
  split
  · exact isTracked_updateContainer page id _
  · rfl

theorem get?_foldl_insertNew (queries : List (Text × ContainerToken))
    (conditions : OrderedMap Text Condition) (probe : Text) :
    (queries.foldl (fun conditions (text, token) => conditions.insertNew text { token })
        conditions).get? probe =
      (conditions.get? probe).or ((Entries.get? probe queries).map fun token => { token }) := by
  induction queries generalizing conditions with
  | nil => simp [Entries.get?]
  | cons query rest ih =>
      obtain ⟨text, token⟩ := query
      rw [List.foldl_cons, ih, OrderedMap.get?_insertNew]
      by_cases hprobe : probe = text
      · subst hprobe
        cases conditions.get? probe <;> simp [Entries.get?]
      · simp [Entries.get?, hprobe, Ne.symm hprobe]

theorem foldl_insertNew_claims {leftover : Text → Prop} {conditions : OrderedMap Text Condition}
    {style : Text → Option Text} (hclaims : ClaimsBut leftover conditions style)
    (queries : List (Text × ContainerToken)) :
    ClaimsBut leftover (queries.foldl
      (fun conditions (text, token) => conditions.insertNew text { token }) conditions) style := by
  induction queries generalizing conditions with
  | nil => exact hclaims
  | cons query rest ih => exact ih (hclaims.insertNew query.1 query.2)

/-- The element with the conditions of its container tokens, before new ones are evaluated. -/
def rekey (page : Page) (id : ElementId) (queries : List (Text × ContainerToken)) : Page :=
  let stale := (page.conditions id).keys.filter fun text => text ∉ queries.map Prod.fst
  (stale.foldl (fun page text => page.dropCondition id text) page).addConditions id queries

theorem conditions_addConditions (htracked : page.isTracked id = true)
    (queries : List (Text × ContainerToken)) :
    (page.addConditions id queries).conditions id =
      queries.foldl (fun conditions (text, token) => conditions.insertNew text { token })
        (page.conditions id) := by
  obtain ⟨state, hstate⟩ := isTracked_iff.mp htracked
  simp [conditions_eq, addConditions, container?_updateContainer, hstate]

theorem isTracked_foldl_dropCondition (page : Page) (id : ElementId) (tokens : List Text) :
    (tokens.foldl (fun page token => page.dropCondition id token) page).isTracked id =
      page.isTracked id :=
  foldl_eq_of_step (fun page => page.isTracked id)
    (fun page token => isTracked_dropCondition page id token) tokens page

theorem get?_foldl_dropCondition_stale (page : Page) (id : ElementId) (names : List Text)
    (probe : Text) :
    ((((page.conditions id).keys.filter fun text => text ∉ names).foldl
        (fun page text => page.dropCondition id text) page).conditions id).get? probe =
      if probe ∈ names then (page.conditions id).get? probe else none := by
  rw [get?_foldl_dropCondition]
  by_cases hname : probe ∈ names
  · simp [hname]
  · cases hcondition : (page.conditions id).get? probe with
    | none => simp
    | some condition =>
        have hkey : probe ∈ (page.conditions id).keys :=
          OrderedMap.mem_keys_iff.mpr ⟨condition, hcondition⟩
        simp [hname, hkey]

/-- Each query has its condition: the one it had, or a new one. -/
theorem get?_rekey (htracked : page.isTracked id = true)
    (queries : List (Text × ContainerToken)) (probe : Text) :
    ((page.rekey id queries).conditions id).get? probe =
      (Entries.get? probe queries).map fun token =>
        ((page.conditions id).get? probe).getD { token } := by
  rw [rekey, conditions_addConditions ((isTracked_foldl_dropCondition page id _).trans htracked),
    get?_foldl_insertNew, get?_foldl_dropCondition_stale]
  simp only [← Entries.get?_isSome_iff]
  cases Entries.get? probe queries with
  | none => simp
  | some token => cases (page.conditions id).get? probe <;> rfl

theorem isTracked_rekey (page : Page) (id : ElementId)
    (queries : List (Text × ContainerToken)) :
    (page.rekey id queries).isTracked id = page.isTracked id := by
  rw [rekey, addConditions, isTracked_updateContainer, isTracked_foldl_dropCondition]

theorem width?_addConditions (page : Page) (id : ElementId)
    (queries : List (Text × ContainerToken)) :
    (page.addConditions id queries).width? id = page.width? id :=
  width?_updateContainer page id fun _ => rfl

theorem width?_rekey (page : Page) (id : ElementId) (queries : List (Text × ContainerToken)) :
    (page.rekey id queries).width? id = page.width? id :=
  (width?_addConditions _ id queries).trans (foldl_eq_of_step (fun page => page.width? id)
    (fun page token => width?_dropCondition page id token) _ page)

theorem ClaimedBut.rekey {leftover : Text → Prop} (hclaimed : page.ClaimedBut id leftover)
    (hid : page.document.contains id = true) (htracked : page.isTracked id = true)
    (queries : List (Text × ContainerToken)) :
    (page.rekey id queries).ClaimedBut id leftover := by
  have hkept := hclaimed.foldl_dropCondition hid
    ((page.conditions id).keys.filter fun text => text ∉ queries.map Prod.fst)
  rw [ClaimedBut] at hkept ⊢
  rw [Page.rekey,
    conditions_addConditions ((isTracked_foldl_dropCondition page id _).trans htracked),
    addConditions, document_updateContainer]
  exact foldl_insertNew_claims hkept queries

theorem Claimed.rekey (hclaimed : page.Claimed id) (hid : page.document.contains id = true)
    (htracked : page.isTracked id = true) (queries : List (Text × ContainerToken)) :
    (page.rekey id queries).Claimed id :=
  claimed_iff.mpr ((claimed_iff.mp hclaimed).rekey hid htracked queries)

theorem isEmpty_rekey (htracked : page.isTracked id = true) :
    ((page.rekey id queries).conditions id).isEmpty = queries.isEmpty := by
  rw [Bool.eq_iff_iff, OrderedMap.isEmpty_iff, List.isEmpty_iff, List.eq_nil_iff_forall_not_mem]
  constructor
  · intro hempty
    rw [← List.map_eq_nil_iff (f := Prod.fst), List.eq_nil_iff_forall_not_mem]
    intro probe hprobe
    rw [← Entries.get?_isSome_iff, Option.isSome_iff_exists] at hprobe
    obtain ⟨token, htoken⟩ := hprobe
    have hcondition := get?_rekey htracked queries probe
    rw [htoken, Option.map_some] at hcondition
    exact hempty probe (OrderedMap.mem_keys_iff.mpr ⟨_, hcondition⟩)
  · rintro rfl probe hkey
    obtain ⟨condition, hcondition⟩ := OrderedMap.mem_keys_iff.mp hkey
    rw [get?_rekey htracked] at hcondition
    cases hcondition

theorem syncConditions_eq (page : Page) (id : ElementId)
    (queries : List (Text × ContainerToken)) :
    page.syncConditions id queries =
      let rekeyed := page.rekey id queries
      if (rekeyed.conditions id).isEmpty then rekeyed.teardown id
      else
        match rekeyed.width? id with
        | some width =>
            if ∃ probe ∈ queries.map Prod.fst, (page.conditions id).get? probe = none then
              rekeyed.evaluate id width
            else rekeyed
        | none => rekeyed := by
  have hadded : (queries.any fun (text, _) => !((((page.conditions id).keys.filter fun text =>
      text ∉ queries.map Prod.fst).foldl (fun page text => page.dropCondition id text)
        page).conditions id).contains text) = true ↔
      ∃ probe ∈ queries.map Prod.fst, (page.conditions id).get? probe = none := by
    simp only [List.any_eq_true, OrderedMap.contains, get?_foldl_dropCondition_stale]
    constructor
    · rintro ⟨query, hquery, hnew⟩
      have hname : query.1 ∈ queries.map Prod.fst := List.mem_map_of_mem hquery
      exact ⟨query.1, hname, by simpa [if_pos hname] using hnew⟩
    · rintro ⟨probe, hname, hnew⟩
      obtain ⟨query, hquery, rfl⟩ := List.mem_map.mp hname
      exact ⟨query, hquery, by simp [hnew]⟩
  unfold syncConditions
  dsimp only
  simp only [hadded]
  rfl

theorem isTracked_teardown (page : Page) (id : ElementId) :
    (page.teardown id).isTracked id = false := by
  unfold teardown
  split
  · simp [isTracked, OrderedMap.contains, OrderedMap.get?_erase]
  · rename_i htracked
    rwa [Bool.not_eq_true] at htracked

theorem style?_teardown (page : Page) (id : ElementId) (property : Text) :
    (page.teardown id).document.style? id property = page.document.style? id property := by
  unfold teardown
  split <;> rfl

/-- The conditions of an element are those of its tokens, in line with the last width that was
reported, and own its inline style. -/
structure InStep (page : Page) (id : ElementId) : Prop where
  parsed : ∀ {token condition}, (page.conditions id).get? token = some condition →
    ContainerToken.parse? token = some condition.token
  active_eq : ∀ {token condition}, (page.conditions id).get? token = some condition →
    condition.active = (page.width? id).any condition.token.bound.admits
  claimed : page.Claimed id

/-- An element without conditions is in step when it has no inline style. -/
theorem inStep_of_not_tracked (htracked : page.isTracked id = false)
    (hstyle : ∀ property, page.document.style? id property = none) : page.InStep id := by
  have hconditions := conditions_of_not_tracked htracked
  refine ⟨fun hcondition => ?_, fun hcondition => ?_, ?_⟩
  · rw [hconditions] at hcondition
    cases hcondition
  · rw [hconditions] at hcondition
    cases hcondition
  · rw [Claimed, hconditions]
    exact Claims.empty hstyle

theorem InStep.evaluate {width : Binary64} (hid : page.document.contains id = true)
    (hparsed : ∀ {token condition}, (page.conditions id).get? token = some condition →
      ContainerToken.parse? token = some condition.token)
    (hclaimed : page.Claimed id) (hwidth : page.width? id = some width) :
    (page.evaluate id width).InStep id := by
  refine ⟨fun hcondition => ?_, fun hcondition => ?_, hclaimed.evaluate hid width⟩
  · rw [get?_evaluate, Option.map_eq_some_iff] at hcondition
    obtain ⟨old, hold, rfl⟩ := hcondition
    rw [Condition.token_settled]
    exact hparsed hold
  · rw [get?_evaluate, Option.map_eq_some_iff] at hcondition
    obtain ⟨old, hold, rfl⟩ := hcondition
    rw [Condition.active_settled, Condition.token_settled, width?_evaluate, hwidth, Option.any_some]

theorem parsed_rekey (hinstep : page.InStep id) (htracked : page.isTracked id = true)
    {condition : Condition}
    (hcondition : ((page.rekey id (containerTokens tokens)).conditions id).get? token =
      some condition) :
    ContainerToken.parse? token = some condition.token := by
  rw [get?_rekey htracked, get?_containerTokens, Option.map_eq_some_iff] at hcondition
  obtain ⟨query, hquery, rfl⟩ := hcondition
  rw [Option.ite_none_right_eq_some] at hquery
  cases hold : (page.conditions id).get? token with
  | none => exact hquery.2
  | some old => exact hinstep.parsed hold

/-- A condition that was there before is in line with the width already. -/
theorem active_rekey (hinstep : page.InStep id) (htracked : page.isTracked id = true)
    (hwidth : page.width? id = none ∨
      ∀ text ∈ queries.map Prod.fst, (page.conditions id).get? text ≠ none)
    {condition : Condition}
    (hcondition : ((page.rekey id queries).conditions id).get? token = some condition) :
    condition.active = (page.width? id).any condition.token.bound.admits := by
  rw [get?_rekey htracked, Option.map_eq_some_iff] at hcondition
  obtain ⟨query, hquery, rfl⟩ := hcondition
  cases hold : (page.conditions id).get? token with
  | some old => exact hinstep.active_eq hold
  | none =>
      rcases hwidth with hnone | hkept
      · rw [hnone]
        rfl
      · have hname := Entries.get?_isSome_iff.mp (Option.isSome_of_eq_some hquery)
        exact absurd hold (hkept token hname)

theorem mem_keys_rekey_iff (htracked : page.isTracked id = true) :
    probe ∈ ((page.rekey id (containerTokens tokens)).conditions id).keys ↔
      probe ∈ containerNames tokens := by
  rw [OrderedMap.mem_keys_iff, get?_rekey htracked, containerNames, ← Entries.get?_isSome_iff,
    ← Option.isSome_iff_exists, Option.isSome_map]

/-- An element that is in line with its class tokens. -/
structure Follows (page : Page) (id : ElementId) (names : List Text) (width : Option Binary64) :
    Prop where
  tracked : page.isTracked id = true
  mem_keys_iff : ∀ token, token ∈ (page.conditions id).keys ↔ token ∈ names
  width_eq : page.width? id = width
  inStep : page.InStep id

theorem changesOnly_rekey (page : Page) (id : ElementId)
    (queries : List (Text × ContainerToken)) : ChangesOnly id page (page.rekey id queries) :=
  (ChangesOnly.foldl _ page fun page token => changesOnly_dropCondition page id token).trans
    (changesOnly_updateContainer _ id _)

theorem isEmpty_containerTokens (hnames : containerNames tokens ≠ []) :
    (containerTokens tokens).isEmpty = false := by
  rw [Bool.eq_false_iff, ne_eq, List.isEmpty_iff]
  intro hnil
  exact hnames (by rw [containerNames, hnil, List.map_nil])

theorem isTracked_syncConditions (htracked : page.isTracked id = true)
    (queries : List (Text × ContainerToken)) :
    (page.syncConditions id queries).isTracked id = !queries.isEmpty := by
  have hrekeyed := (isTracked_rekey page id queries).trans htracked
  rw [syncConditions_eq]
  dsimp only
  rw [isEmpty_rekey htracked]
  cases queries.isEmpty with
  | true => exact isTracked_teardown _ id
  | false =>
      rw [if_neg Bool.false_ne_true]
      split
      · split
        · exact (isTracked_evaluate _ id _).trans hrekeyed
        · exact hrekeyed
      · exact hrekeyed

theorem mem_keys_syncConditions_iff (htracked : page.isTracked id = true) :
    probe ∈ ((page.syncConditions id (containerTokens tokens)).conditions id).keys ↔
      probe ∈ containerNames tokens := by
  rw [syncConditions_eq]
  dsimp only
  split
  · rename_i hempty
    rw [isEmpty_rekey htracked, List.isEmpty_iff] at hempty
    rw [conditions_of_not_tracked (isTracked_teardown _ id), containerNames, hempty]
    rfl
  · split
    · split
      · rw [keys_evaluate, mem_keys_rekey_iff htracked]
      · exact mem_keys_rekey_iff htracked
    · exact mem_keys_rekey_iff htracked

theorem width?_syncConditions (htracked : page.isTracked id = true)
    (hnames : containerNames tokens ≠ []) :
    (page.syncConditions id (containerTokens tokens)).width? id = page.width? id := by
  rw [syncConditions_eq]
  dsimp only
  rw [isEmpty_rekey htracked, isEmpty_containerTokens hnames, if_neg Bool.false_ne_true]
  split
  · split
    · exact (width?_evaluate _ id _).trans (width?_rekey page id _)
    · exact width?_rekey page id _
  · exact width?_rekey page id _

theorem InStep.syncConditions (hinstep : page.InStep id) (hid : page.document.contains id = true)
    (htracked : page.isTracked id = true) (hnames : containerNames tokens ≠ []) :
    (page.syncConditions id (containerTokens tokens)).InStep id := by
  have hcontains : (page.rekey id (containerTokens tokens)).document.contains id = true :=
    ((changesOnly_rekey page id _).contains_eq id).trans hid
  have hclaimed := hinstep.claimed.rekey hid htracked (containerTokens tokens)
  have hkept : (page.width? id = none ∨ ∀ text ∈ (containerTokens tokens).map Prod.fst,
      (page.conditions id).get? text ≠ none) →
      (page.rekey id (containerTokens tokens)).InStep id := by
    intro hold
    refine ⟨parsed_rekey hinstep htracked, fun hcondition => ?_, hclaimed⟩
    rw [width?_rekey]
    exact active_rekey hinstep htracked hold hcondition
  rw [syncConditions_eq]
  dsimp only
  rw [isEmpty_rekey htracked, isEmpty_containerTokens hnames, if_neg Bool.false_ne_true,
    width?_rekey]
  cases hwidth : page.width? id with
  | none => exact hkept (Or.inl hwidth)
  | some width =>
      dsimp only
      split
      · exact InStep.evaluate hcontains (parsed_rekey hinstep htracked) hclaimed
          ((width?_rekey page id _).trans hwidth)
      · rename_i hnew
        exact hkept (Or.inr fun text htext hnone => hnew ⟨text, htext, hnone⟩)

theorem InStep.track (hinstep : page.InStep id) : (page.track id).InStep id := by
  obtain ⟨hconditions, hwidth⟩ := container?_track page id
  refine ⟨fun hcondition => ?_, fun hcondition => ?_,
    claimed_iff.mpr (claimed_iff.mp hinstep.claimed).track⟩
  · rw [hconditions] at hcondition
    exact hinstep.parsed hcondition
  · rw [hconditions] at hcondition
    rw [hwidth]
    exact hinstep.active_eq hcondition

theorem InStep.style_eq_none (hinstep : page.InStep id) (htracked : page.isTracked id = false)
    (property : Text) : page.document.style? id property = none :=
  hinstep.claimed.style_eq_none (by rw [conditions_of_not_tracked htracked]; rfl) property

theorem sync_of_names (hid : id ≠ .null) (hobserver : page.document.sizeObserver = true)
    (hnames : containerNames tokens ≠ []) :
    page.sync id tokens = (page.track id).syncConditions id (containerTokens tokens) := by
  unfold sync
  dsimp only
  rw [isEmpty_containerTokens hnames, hobserver, isTracked_track hid]
  rfl

theorem sync_of_tracked (hobserver : page.document.sizeObserver = true)
    (htracked : page.isTracked id = true) (tokens : List Text) :
    page.sync id tokens = page.syncConditions id (containerTokens tokens) := by
  have htrack : page.track id = page := by rw [track, if_pos htracked]
  unfold sync
  dsimp only
  rw [htrack, htracked, hobserver, Bool.not_true, Bool.and_false]
  rfl

theorem sync_of_nothing (htracked : page.isTracked id = false)
    (hnames : containerNames tokens = []) : page.sync id tokens = page := by
  have hqueries : containerTokens tokens = [] := List.map_eq_nil_iff.mp hnames
  unfold sync
  dsimp only
  rw [hqueries, htracked]
  rfl

/-- Without a size observer a sync touches the diagnostics at most. -/
theorem sync_of_no_observer (hobserver : page.document.sizeObserver = false) (id : ElementId)
    (tokens : List Text) :
    ∃ change : Compiler → Compiler, page.sync id tokens = page.withCompiler change := by
  unfold sync
  dsimp only
  rw [hobserver]
  split
  · exact ⟨fun compiler => compiler, rfl⟩
  · exact ⟨fun compiler => compiler.warn .sizeObserverUnavailable, rfl⟩

theorem isTracked_sync (hid : id ≠ .null) (hobserver : page.document.sizeObserver = true)
    (tokens : List Text) : (page.sync id tokens).isTracked id = !(containerTokens tokens).isEmpty := by
  by_cases hnames : containerNames tokens = []
  · cases htracked : page.isTracked id with
    | true => rw [sync_of_tracked hobserver htracked, isTracked_syncConditions htracked]
    | false =>
        rw [sync_of_nothing htracked hnames, htracked, List.map_eq_nil_iff.mp hnames]
        rfl
  · rw [sync_of_names hid hobserver hnames, isTracked_syncConditions (isTracked_track hid)]

theorem mem_keys_sync_iff (hid : id ≠ .null) (hobserver : page.document.sizeObserver = true) :
    probe ∈ ((page.sync id tokens).conditions id).keys ↔ probe ∈ containerNames tokens := by
  by_cases hnames : containerNames tokens = []
  · cases htracked : page.isTracked id with
    | true => rw [sync_of_tracked hobserver htracked, mem_keys_syncConditions_iff htracked]
    | false =>
        rw [sync_of_nothing htracked hnames, conditions_of_not_tracked htracked, hnames]
        rfl
  · rw [sync_of_names hid hobserver hnames, mem_keys_syncConditions_iff (isTracked_track hid)]

/-- An element with container tokens has one condition for each of them. -/
theorem InStep.sync_of_names (hinstep : page.InStep id) (hid : page.document.contains id = true)
    (hobserver : page.document.sizeObserver = true) (hnames : containerNames tokens ≠ []) :
    (page.sync id tokens).Follows id (containerNames tokens) (page.width? id) := by
  have hcontains : (page.track id).document.contains id = true :=
    ((changesOnly_track page id).contains_eq id).trans hid
  have hnull := ne_null_of_contains hid
  refine ⟨?_, fun probe => mem_keys_sync_iff hnull hobserver, ?_, ?_⟩
  · rw [isTracked_sync hnull hobserver, isEmpty_containerTokens hnames, Bool.not_false]
  · rw [Page.sync_of_names hnull hobserver hnames,
      width?_syncConditions (isTracked_track hnull) hnames]
    exact (container?_track page id).2
  · rw [Page.sync_of_names hnull hobserver hnames]
    exact hinstep.track.syncConditions hcontains (isTracked_track hnull) hnames

/-- An element without container tokens is let go of, and none of its inline style is left. -/
theorem InStep.sync_of_no_names (hinstep : page.InStep id)
    (hid : page.document.contains id = true) (hobserver : page.document.sizeObserver = true)
    (hnames : containerNames tokens = []) :
    (page.sync id tokens).isTracked id = false ∧
      ∀ property, (page.sync id tokens).document.style? id property = none := by
  have hqueries : containerTokens tokens = [] := List.map_eq_nil_iff.mp hnames
  cases htracked : page.isTracked id with
  | false =>
      rw [sync_of_nothing htracked hnames]
      exact ⟨htracked, hinstep.style_eq_none htracked⟩
  | true =>
      have hempty : ((page.rekey id []).conditions id).isEmpty = true := isEmpty_rekey htracked
      have hclaimed := hinstep.claimed.rekey hid htracked []
      rw [sync_of_tracked hobserver htracked, hqueries, syncConditions_eq]
      dsimp only
      rw [hempty]
      refine ⟨isTracked_teardown _ id, fun property => ?_⟩
      exact (style?_teardown _ id property).trans
        (hclaimed.style_eq_none (OrderedMap.isEmpty_iff.mp hempty) property)

/-- A size report moves an element to its width. -/
theorem Follows.resize {names : List Text} {before : Option Binary64}
    (hfollows : page.Follows id names before) (hid : page.document.contains id = true)
    (width : Binary64) : (page.resize id width).Follows id names (some width) := by
  have hwidth := width?_reportWidth hfollows.tracked width
  have hreport : (page.reportWidth id width).document.contains id = true :=
    (document_reportWidth page id width) ▸ hid
  rw [resize_of_tracked hfollows.tracked]
  refine ⟨?_, fun token => ?_, ?_, InStep.evaluate hreport (fun hcondition => ?_) ?_ hwidth⟩
  · rw [isTracked_evaluate, reportWidth, isTracked_updateContainer, hfollows.tracked]
  · rw [keys_evaluate, conditions_reportWidth]
    exact hfollows.mem_keys_iff token
  · rw [width?_evaluate, hwidth]
  · rw [conditions_reportWidth] at hcondition
    exact hfollows.inStep.parsed hcondition
  · rw [Claimed, conditions_reportWidth, document_reportWidth]
    exact hfollows.inStep.claimed

end Page

end UtilityCss
