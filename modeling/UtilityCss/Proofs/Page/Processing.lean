import UtilityCss.Proofs.OrderedMap
import UtilityCss.Proofs.Page.Demand

/-!
Processing an element registers what its class tokens demand, and releasing it leaves nothing
registered.
-/

namespace UtilityCss

namespace Page

variable {page : Page} {id probe : ElementId}

/-- At most the visibility class goes. -/
theorem classes_unobserve (page : Page) (id : ElementId) :
    (page.unobserve id).document.classes id = page.document.classes id ∨
      (page.unobserve id).document.classes id =
        (page.document.classes id).filter (· ≠ visibleClass) := by
  unfold unobserve
  split
  · dsimp only
    split
    · exact Or.inr (Document.classes_removeClass _ id visibleClass)
    · exact Or.inl rfl
  · exact Or.inl rfl

theorem demand_unobserve (page : Page) (id probe : ElementId) :
    (page.unobserve id).demand probe = page.demand probe := by
  by_cases hprobe : probe = id
  · subst hprobe
    exact demand_eq_of_classes (changesOnly_unobserve page probe).setting_eq
      (classes_unobserve page probe)
  · exact demand_of_changesOnly (changesOnly_unobserve page id) hprobe

theorem isObserved_unobserve (page : Page) (id : ElementId) :
    (page.unobserve id).isObserved id = false := by
  unfold unobserve
  split
  · dsimp only
    split <;> simp [isObserved, withDocument]
  · rename_i hobserved
    rwa [Bool.not_eq_true] at hobserved

theorem unobserve_of_not_observed (hobserved : page.isObserved id = false) :
    page.unobserve id = page := by
  rw [unobserve, hobserved, if_neg Bool.false_ne_true]

theorem intersect_of_not_observed (hobserved : page.isObserved id = false) (ratio : Binary64) :
    page.intersect id ratio = page := by
  rw [intersect, hobserved, Bool.not_false, if_pos rfl]

theorem isObserved_observe (hid : id ≠ .null) : (page.observe id).isObserved id = true := by
  unfold observe
  split
  · assumption
  · rw [isObserved, List.contains_iff_mem]
    exact List.mem_append_right _ List.mem_cons_self

theorem containers_unobserve (page : Page) (id : ElementId) :
    (page.unobserve id).containers = page.containers := by
  unfold unobserve
  split
  · dsimp only
    split <;> rfl
  · rfl

theorem containers_observe (page : Page) (id : ElementId) :
    (page.observe id).containers = page.containers := by
  unfold observe
  split <;> rfl

/-- What serving a token leaves alone. -/
structure TokenSetting where
  document : Document
  breakpoints : Breakpoints
  containers : OrderedMap ElementId ContainerState
  observed : List ElementId

def tokenSetting (page : Page) : TokenSetting :=
  ⟨page.document, page.compiler.breakpoints, page.containers, page.observed⟩

theorem tokenSetting_serveToken (page : Page) (id : ElementId) (token : Text) :
    (page.serveToken id token).tokenSetting = page.tokenSetting := by
  unfold serveToken
  split
  · rfl
  · split
    · unfold defer
      split
      · rfl
      · dsimp only
        split <;> rfl
    · rw [tokenSetting, withCompiler, Compiler.breakpoints_compile]
      rfl

theorem tokenSetting_foldl_serveToken (page : Page) (id : ElementId) (tokens : List Text) :
    (tokens.foldl (fun page token => page.serveToken id token) page).tokenSetting =
      page.tokenSetting :=
  foldl_eq_of_step tokenSetting (fun page token => tokenSetting_serveToken page id token) tokens
    page

theorem document_sync_classes (page : Page) (id probe : ElementId) (tokens : List Text) :
    (page.sync id tokens).document.classes probe = page.document.classes probe :=
  classes_eq_of_bystanders (bystanders_sync page id tokens) probe

theorem demand_sync (page : Page) (id probe : ElementId) (tokens : List Text) :
    (page.sync id tokens).demand probe = page.demand probe :=
  demand_eq_of_classes (changesOnly_sync page id tokens).setting_eq
    (Or.inl (document_sync_classes page id probe tokens))

theorem isObserved_sync (page : Page) (id probe : ElementId) (tokens : List Text) :
    (page.sync id tokens).isObserved probe = page.isObserved probe := by
  have hobserved : (page.sync id tokens).observed = page.observed :=
    congrArg Bystanders.observed (bystanders_sync page id tokens)
  rw [isObserved, hobserved, isObserved]

/-- An element whose visibility class is kept up to date or not, as its tokens want it. -/
def watch (page : Page) (id : ElementId) (wanted : Bool) : Page :=
  if wanted then page.observe id else page.unobserve id

theorem demand_watch (page : Page) (id probe : ElementId) (wanted : Bool) :
    (page.watch id wanted).demand probe = page.demand probe := by
  unfold watch
  split
  · refine demand_eq_of_classes (changesOnly_observe page id).setting_eq (Or.inl ?_)
    unfold observe
    split <;> rfl
  · exact demand_unobserve page id probe

theorem containers_watch (page : Page) (id : ElementId) (wanted : Bool) :
    (page.watch id wanted).containers = page.containers := by
  unfold watch
  split
  · exact containers_observe page id
  · exact containers_unobserve page id

theorem isObserved_watch (hid : id ≠ .null) (wanted : Bool) :
    (page.watch id wanted).isObserved id = wanted := by
  cases wanted with
  | true => exact isObserved_observe hid
  | false => exact isObserved_unobserve page id

theorem classes_watch (page : Page) (id : ElementId) (wanted : Bool) :
    (page.watch id wanted).document.classes id = page.document.classes id ∨
      (page.watch id wanted).document.classes id =
        (page.document.classes id).filter (· ≠ visibleClass) := by
  unfold watch
  split
  · unfold observe
    split <;> exact Or.inl rfl
  · exact classes_unobserve page id

theorem demand_foldl_serveToken (page : Page) (id probe : ElementId) (tokens : List Text) :
    (tokens.foldl (fun page token => page.serveToken id token) page).demand probe =
      page.demand probe := by
  have hdocument : (tokens.foldl (fun page token => page.serveToken id token) page).document =
      page.document := congrArg TokenSetting.document (tokenSetting_foldl_serveToken page id tokens)
  have hbreakpoints : (tokens.foldl (fun page token => page.serveToken id token)
      page).compiler.breakpoints = page.compiler.breakpoints :=
    congrArg TokenSetting.breakpoints (tokenSetting_foldl_serveToken page id tokens)
  rw [demand, demand, hdocument, hbreakpoints]

theorem changesOnly_watch (page : Page) (id : ElementId) (wanted : Bool) :
    ChangesOnly id page (page.watch id wanted) := by
  unfold watch
  split
  · exact changesOnly_observe page id
  · exact changesOnly_unobserve page id

/-- The page with the class tokens of an element served, all but the container tokens. -/
def prepare (page : Page) (id : ElementId) : Page :=
  ((page.document.classes id).foldl (fun page token => page.serveToken id token) page).watch id
    (page.demand id).visible

theorem process_eq (page : Page) (id : ElementId) :
    page.process id = (page.prepare id).sync id (page.document.classes id) := by
  have hbreakpoints : ((page.document.classes id).foldl
      (fun page token => page.serveToken id token) page).compiler.breakpoints =
        page.compiler.breakpoints :=
    congrArg TokenSetting.breakpoints (tokenSetting_foldl_serveToken page id _)
  rw [process, prepare, watch, hbreakpoints]
  rfl

theorem classes_process (page : Page) (id : ElementId) :
    (page.process id).document.classes id = page.document.classes id ∨
      (page.process id).document.classes id =
        (page.document.classes id).filter (· ≠ visibleClass) := by
  have hserved : ((page.document.classes id).foldl
      (fun page token => page.serveToken id token) page).document = page.document :=
    congrArg TokenSetting.document (tokenSetting_foldl_serveToken page id _)
  have hwatch := classes_watch ((page.document.classes id).foldl
    (fun page token => page.serveToken id token) page) id (page.demand id).visible
  rw [hserved] at hwatch
  rwa [process_eq, document_sync_classes]

theorem setting_prepare (page : Page) (id : ElementId) :
    (page.prepare id).setting = page.setting :=
  ((ChangesOnly.foldl _ page fun page token => changesOnly_serveToken page id token).trans
    (changesOnly_watch _ id _)).setting_eq

theorem containers_prepare (page : Page) (id : ElementId) :
    (page.prepare id).containers = page.containers :=
  (containers_watch _ id _).trans
    (congrArg TokenSetting.containers (tokenSetting_foldl_serveToken page id _))

theorem demand_prepare (page : Page) (id probe : ElementId) :
    (page.prepare id).demand probe = page.demand probe := by
  rw [prepare, demand_watch, demand_foldl_serveToken]

/-- Processing an element changes nobody's demand: at most the visibility class goes. -/
theorem demand_process (page : Page) (id probe : ElementId) :
    (page.process id).demand probe = page.demand probe := by
  rw [process_eq, demand_sync, demand_prepare]

theorem demand_releaseElement (page : Page) (id probe : ElementId) :
    (page.releaseElement id).demand probe = page.demand probe := by
  have hteardown : (page.teardown id).demand probe = page.demand probe := by
    refine demand_eq_of_classes (changesOnly_teardown page id).setting_eq (Or.inl ?_)
    unfold teardown
    split <;> rfl
  exact (demand_unobserve (page.teardown id) id probe).trans hteardown

/-- Without a size observer no element is tracked. -/
def Observable (page : Page) : Prop :=
  page.document.sizeObserver = false → ∀ id, page.isTracked id = false

theorem containers_sync_of_no_observer (hobserver : page.document.sizeObserver = false)
    (id : ElementId) (tokens : List Text) : (page.sync id tokens).containers = page.containers := by
  obtain ⟨change, hsync⟩ := sync_of_no_observer hobserver id tokens
  rw [hsync]
  rfl

theorem containers_process_of_no_observer (hobserver : page.document.sizeObserver = false)
    (id : ElementId) : (page.process id).containers = page.containers := by
  have hprepared : (page.prepare id).document.sizeObserver = false :=
    (congrArg Setting.sizeObserver (setting_prepare page id)).trans hobserver
  rw [process_eq, containers_sync_of_no_observer hprepared, containers_prepare]

theorem agrees_process (hid : page.document.contains id = true) (hobservable : page.Observable) :
    (page.process id).Agrees id := by
  have hsetting := setting_prepare page id
  have hobserver : (page.prepare id).document.sizeObserver = page.document.sizeObserver :=
    congrArg Setting.sizeObserver hsetting
  have hnull := ne_null_of_contains hid
  have hnames : (page.demand id).names =
      if page.document.sizeObserver then containerNames (page.document.classes id) else [] := rfl
  have hobserved : (page.process id).isObserved id = (page.demand id).visible := by
    rw [process_eq, isObserved_sync, prepare, isObserved_watch hnull]
  cases hsize : page.document.sizeObserver with
  | true =>
      rw [hsize] at hobserver
      rw [hsize, if_pos rfl] at hnames
      refine ⟨?_, fun token => ?_, ?_⟩
      · rw [demand_process, hnames, process_eq, isTracked_sync hnull hobserver, containerNames,
          ne_eq, List.map_eq_nil_iff, ← List.isEmpty_iff, Bool.not_eq_true', Bool.not_eq_true]
      · rw [demand_process, hnames, process_eq, mem_keys_sync_iff hnull hobserver]
      · rw [demand_process, hobserved]
  | false =>
      rw [hsize, if_neg Bool.false_ne_true] at hnames
      have htracked : (page.process id).isTracked id = false := by
        rw [isTracked, containers_process_of_no_observer hsize]
        exact hobservable hsize id
      refine ⟨?_, fun token => ?_, ?_⟩
      · rw [demand_process, hnames, htracked]
        simp
      · rw [demand_process, hnames, conditions_of_not_tracked htracked]
        rfl
      · rw [demand_process, hobserved]

theorem idle_releaseElement (page : Page) (id : ElementId) : (page.releaseElement id).Idle id where
  not_tracked := by
    rw [releaseElement, forget]
    exact (congrArg (fun containers => OrderedMap.contains containers id)
      (containers_unobserve (page.teardown id) id)).trans (isTracked_teardown page id)
  not_observed := isObserved_unobserve (page.teardown id) id
  not_scheduled := by
    rw [releaseElement, forget]
    exact (OrderedMap.get?_erase _ id id).trans (if_pos rfl)
  not_queued task htask := by
    rw [releaseElement, forget] at htask
    simpa using (List.mem_filter.mp htask).2

theorem forget_of_idle (hidle : page.Idle id) : page.forget id = page := by
  have hqueue : page.queue.filter (fun task => task.target ≠ id) = page.queue :=
    List.filter_eq_self.mpr fun task htask => decide_eq_true (hidle.not_queued task htask)
  rw [forget, unobserve_of_not_observed hidle.not_observed,
    OrderedMap.erase_of_get?_eq_none hidle.not_scheduled, hqueue]

/-- The null handle has no tokens, so nothing comes of its processing. -/
theorem process_null (hidle : page.Idle .null) : page.process .null = page := by
  have hprepare : page.prepare .null = page := by
    have hvisible : (page.demand .null).visible = false := rfl
    rw [prepare, hvisible, watch, if_neg Bool.false_ne_true]
    exact unobserve_of_not_observed hidle.not_observed
  rw [process_eq, hprepare]
  exact sync_of_nothing hidle.not_tracked rfl

end Page

end UtilityCss
