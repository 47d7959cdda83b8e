import UtilityCss.Proofs.Lists
import UtilityCss.Proofs.Shortcut.Graph

/-!
The expansion of a shortcut against the graph of its table.  It fails exactly when a cycle can be
reached, and then shows a lasso; otherwise it has made the depth-first traversal and kept each plain
word where it was met first.
-/

namespace UtilityCss

/-- A loop that fails has failed at one of its items. -/
theorem exists_of_foldlM_error {ε α β : Type} {step : β → α → Except ε β} {items : List α}
    {state : β} {fault : ε} (herror : items.foldlM step state = .error fault) :
    ∃ item ∈ items, ∃ reached, step reached item = .error fault := by
  induction items generalizing state with
  | nil => cases herror
  | cons item rest ih =>
      rw [List.foldlM_cons] at herror
      cases hstep : step state item with
      | error found =>
          rw [hstep] at herror
          exact ⟨item, List.mem_cons_self, state, hstep.trans herror⟩
      | ok next =>
          rw [hstep] at herror
          obtain ⟨later, hlater, reached, hreached⟩ := ih herror
          exact ⟨later, List.mem_cons_of_mem item hlater, reached, hreached⟩

namespace Shortcuts

variable {shortcuts : Shortcuts} {name word start : Text}
  {path words rest met later tokens result : List Text} {cycle : ShortcutCycle}

theorem addToken_eraseDups (seen : List Text) (token : Text) :
    addToken seen.eraseDups token = (seen ++ [token]).eraseDups := by
  rw [eraseDups_concat, addToken]
  by_cases htoken : token ∈ seen <;> simp [htoken]

theorem foldl_addToken_eraseDups (seen met : List Text) :
    met.foldl addToken seen.eraseDups = (seen ++ met).eraseDups := by
  induction met generalizing seen with
  | nil => rw [List.append_nil, List.foldl_nil]
  | cons token rest ih =>
      rw [List.foldl_cons, addToken_eraseDups, ih, List.append_assoc, List.singleton_append]

/-- Words whose traversal meets `met`, whatever is traversed after them. -/
def Unfolds (shortcuts : Shortcuts) (words met : List Text) : Prop :=
  ∀ {rest later}, shortcuts.Meets rest later → shortcuts.Meets (words ++ rest) (met ++ later)

theorem exists_unfolds_of_foldlM
    (hstep : ∀ tokens word result, shortcuts.expandFrom path tokens word = .ok result →
      ∃ met, shortcuts.Unfolds [word] met ∧ result = met.foldl addToken tokens)
    (hok : words.foldlM (shortcuts.expandFrom path) tokens = .ok result) :
    ∃ met, shortcuts.Unfolds words met ∧ result = met.foldl addToken tokens := by
  induction words generalizing tokens with
  | nil =>
      cases hok
      exact ⟨[], fun hrest => hrest, rfl⟩
  | cons word rest ih =>
      rw [List.foldlM_cons] at hok
      cases hword : shortcuts.expandFrom path tokens word with
      | error fault =>
          rw [hword] at hok
          cases hok
      | ok next =>
          rw [hword] at hok
          obtain ⟨first, hfirst, rfl⟩ := hstep tokens word next hword
          obtain ⟨others, hothers, rfl⟩ := ih hok
          refine ⟨first ++ others, fun hlater => ?_, List.foldl_append.symm⟩
          rw [List.append_assoc]
          exact hfirst (hothers hlater)

/-- An expansion that succeeds adds what the traversal of its name meets. -/
theorem exists_unfolds_of_expandFrom :
    shortcuts.expandFrom path tokens name = .ok result →
      ∃ met, shortcuts.Unfolds [name] met ∧ result = met.foldl addToken tokens := by
  fun_induction shortcuts.expandFrom path tokens name generalizing result with
  | case1 => intro hok; cases hok
  | case2 path tokens name hshortcut _ ih =>
      intro hok
      obtain ⟨met, hmet, hresult⟩ :=
        exists_unfolds_of_foldlM (fun tokens word _ => ih tokens word) hok
      exact ⟨met, fun hrest => .shortcut hshortcut (hmet hrest), hresult⟩
  | case3 path tokens name hplain =>
      intro hok
      cases hok
      exact ⟨[name], fun hrest => .plain (Bool.not_eq_true _ ▸ hplain) hrest, rfl⟩

theorem meets_of_expand (hok : shortcuts.expand name = .ok tokens) :
    ∃ met, shortcuts.Meets [name] met ∧ tokens = met.eraseDups := by
  obtain ⟨met, hmet, hresult⟩ := exists_unfolds_of_expandFrom hok
  refine ⟨met, ?_, hresult.trans (foldl_addToken_eraseDups [] met)⟩
  have hmeets := hmet .done
  rwa [List.append_nil, List.append_nil] at hmeets

/-- The names on the way to the one that is expanded next. -/
structure IsTrail (shortcuts : Shortcuts) (start : Text) (path : List Text) (name : Text) :
    Prop where
  starts : (path ++ [name]).head? = some start
  walk : (path ++ [name]).IsChain shortcuts.Edge
  contains : ∀ passed ∈ path, shortcuts.contains passed = true
  distinct : path.Nodup

theorem isTrail_nil (shortcuts : Shortcuts) (name : Text) : shortcuts.IsTrail name [] name where
  starts := rfl
  walk := List.isChain_singleton name
  contains _ hpassed := by cases hpassed
  distinct := List.nodup_nil

theorem IsTrail.extend (htrail : shortcuts.IsTrail start path name)
    (hshortcut : shortcuts.contains name = true) (hnew : name ∉ path)
    (hedge : shortcuts.Edge name word) : shortcuts.IsTrail start (path ++ [name]) word where
  starts := by
    rw [List.head?_append_of_ne_nil _ (by simp)]
    exact htrail.starts
  walk := by
    refine List.isChain_append.mpr ⟨htrail.walk, List.isChain_singleton word, ?_⟩
    intro last hlast next hnext
    rw [List.getLast?_concat, Option.mem_some_iff] at hlast
    rw [List.head?_singleton, Option.mem_some_iff] at hnext
    exact hlast ▸ hnext ▸ hedge
  contains passed hpassed := by
    rcases List.mem_append.mp hpassed with hbefore | hlast
    · exact htrail.contains passed hbefore
    · exact List.mem_singleton.mp hlast ▸ hshortcut
  distinct := by
    rw [← List.concat_eq_append]
    exact List.Nodup.concat hnew htrail.distinct

/-- A trail that comes back to a name it has passed is a lasso. -/
theorem IsTrail.isLasso (htrail : shortcuts.IsTrail start path name) (hback : name ∈ path) :
    shortcuts.IsLasso start (path ++ [name]) where
  starts := htrail.starts
  walk := htrail.walk
  contains passed hpassed := by
    rw [List.dropLast_concat] at hpassed
    exact htrail.contains passed hpassed
  distinct := by
    rw [List.dropLast_concat]
    exact htrail.distinct
  returns := ⟨name, by rwa [List.dropLast_concat], List.getLast?_concat⟩

theorem isLasso_of_expandFrom (htrail : shortcuts.IsTrail start path name) :
    shortcuts.expandFrom path tokens name = .error cycle → shortcuts.IsLasso start cycle.path := by
  fun_induction shortcuts.expandFrom path tokens name with
  | case1 path tokens name _ hback =>
      intro herror
      cases herror
      exact htrail.isLasso hback
  | case2 path tokens name hshortcut hnew ih =>
      intro herror
      obtain ⟨word, hedge, reached, hword⟩ := exists_of_foldlM_error herror
      exact ih reached word (htrail.extend hshortcut hnew hedge) hword
  | case3 => intro herror; cases herror

theorem isLasso_of_expand (herror : shortcuts.expand name = .error cycle) :
    shortcuts.IsLasso name cycle.path :=
  isLasso_of_expandFrom (isTrail_nil shortcuts name) herror

theorem expand_eq_ok_iff (shortcuts : Shortcuts) (name : Text) :
    (∃ tokens, shortcuts.expand name = .ok tokens) ↔ ¬ shortcuts.LeadsToCycle name := by
  constructor
  · rintro ⟨tokens, hok⟩
    obtain ⟨met, hmeets, -⟩ := meets_of_expand hok
    exact hmeets.not_leadsToCycle name (List.mem_singleton_self name)
  · intro hacyclic
    cases hexpand : shortcuts.expand name with
    | ok tokens => exact ⟨tokens, rfl⟩
    | error cycle => exact absurd (isLasso_of_expand hexpand).leadsToCycle hacyclic

end Shortcuts

end UtilityCss
