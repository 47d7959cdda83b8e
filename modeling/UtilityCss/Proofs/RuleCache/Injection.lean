import UtilityCss.Proofs.Lists
import UtilityCss.RuleCache

/-!
How often the text of a class goes to a sheet.  That it is there is noted in the entry of the class,
and two calls lose the note: a class that is begun anew gets a new entry, and one that has resolved
to nothing loses its entry to the next eviction.  A second text is appended exactly after such a loss.
-/

namespace UtilityCss

theorem Sheets.append_ne (sheets : Sheets) (kind : SheetKind) {css : Text} (hcss : css ≠ []) :
    sheets.append kind css ≠ sheets := by
  intro heq
  have htext : appendText (sheets.text kind) css = sheets.text kind := by
    have hkind := congrArg (fun sheets => sheets.text kind) heq
    rwa [text_append, if_pos rfl] at hkind
  have hlength := congrArg List.length htext
  have hpositive := List.length_pos_iff.mpr hcss
  unfold appendText at hlength
  split at hlength
  · rename_i hempty
    rw [List.isEmpty_iff.mp hempty, List.length_nil] at hlength
    omega
  · rw [List.length_append, List.length_cons] at hlength
    omega

namespace RuleCache

/-- A call of the cache's own interface, short of clearing it. -/
inductive Call where
  | begin (name : Text)
  | finish (name : Text) (kind : SheetKind) (result : Option Text)
  | lookup (name : Text)
  | entry (name : Text)
  | evictUnresolved

namespace Call

def apply (cache : RuleCache) : Call → RuleCache
  | begin name => cache.begin name
  | finish name kind result => cache.finish name kind result
  | lookup _ | entry _ => cache
  | evictUnresolved => cache.evictUnresolved

/-- Whether a call stores a result of a class and appends text to the sheets. -/
def appends (name : Text) (cache : RuleCache) : Call → Bool
  | finish target kind result =>
      target = name && (cache.finish target kind result).sheets ≠ cache.sheets
  | _ => false

/-- A call that resolves a class to a text. -/
def Writes (name : Text) : Call → Prop
  | finish target _ result => target = name ∧ hasText result = true
  | _ => False

end Call

def run (cache : RuleCache) (calls : List Call) : RuleCache :=
  calls.foldl Call.apply cache

/-- How many calls of a run append text for a class. -/
def appendings (name : Text) (cache : RuleCache) : List Call → Nat
  | [] => 0
  | call :: rest =>
      (call.appends name cache).toNat + appendings name (call.apply cache) rest

/-- The last result of a class is nothing. -/
def EndsUnresolved (name : Text) (calls : List Call) : Prop :=
  ∃ earlier kind later, calls = earlier ++ .finish name kind none :: later ∧
    ∀ kind result, .finish name kind result ∉ later

/-- A class is begun, or it is evicted after it has resolved to nothing. -/
def Forgets (name : Text) (calls : List Call) : Prop :=
  .begin name ∈ calls ∨
    ∃ earlier later, calls = earlier ++ .evictUnresolved :: later ∧ EndsUnresolved name earlier

/-- A class has resolved to a text and was not forgotten since. -/
def Remembers (name : Text) (calls : List Call) : Prop :=
  ∃ before call after, calls = before ++ call :: after ∧ call.Writes name ∧ ¬ Forgets name after

/-- A class resolves to a text, is forgotten, and resolves to a text again. -/
def Renews (name : Text) (calls : List Call) : Prop :=
  ∃ before first between second after, calls = before ++ first :: between ++ second :: after ∧
    first.Writes name ∧ Forgets name between ∧ second.Writes name

variable {cache : RuleCache} {name : Text} {call : Call} {calls : List Call}

theorem run_append (cache : RuleCache) (first second : List Call) :
    cache.run (first ++ second) = (cache.run first).run second :=
  List.foldl_append

theorem run_concat (cache : RuleCache) (calls : List Call) (call : Call) :
    cache.run (calls ++ [call]) = call.apply (cache.run calls) :=
  run_append cache calls [call]

theorem isInjected_begin_eq (cache : RuleCache) (target name : Text) :
    (cache.begin target).isInjected name = (decide (name ≠ target) && cache.isInjected name) := by
  rw [isInjected, get?_begin]
  by_cases hname : name = target
  · simp [hname]
  · simp [hname, isInjected]

theorem isInjected_finish (cache : RuleCache) (target name : Text) (kind : SheetKind)
    (result : Option Text) :
    (cache.finish target kind result).isInjected name =
      (cache.isInjected name || decide (name = target) && hasText result) := by
  rw [isInjected, get?_finish]
  by_cases hname : name = target
  · simp [hname]
  · simp [hname, isInjected]

theorem isInjected_evictUnresolved (cache : RuleCache) (name : Text) :
    cache.evictUnresolved.isInjected name = true ↔
      cache.isInjected name = true ∧
        ∀ entry, cache.get? name = some entry → entry.state ≠ .resolved none := by
  rw [isInjected, get?_evictUnresolved, isInjected]
  cases cache.get? name with
  | none => simp
  | some entry => by_cases hstate : entry.state = .resolved none <;> simp [Option.filter, hstate]

theorem isInjected_of_writes (hwrites : call.Writes name) :
    (call.apply cache).isInjected name = true := by
  cases call with
  | finish target kind result =>
      obtain ⟨rfl, htext⟩ := hwrites
      rw [Call.apply, isInjected_finish, htext, decide_eq_true rfl, Bool.and_true, Bool.or_true]
  | begin _ | lookup _ | entry _ | evictUnresolved => cases hwrites

/-- Only a text of a class makes the cache note that it is in a sheet. -/
theorem writes_or_isInjected (hinjected : (call.apply cache).isInjected name = true) :
    call.Writes name ∨ cache.isInjected name = true := by
  cases call with
  | begin target =>
      rw [Call.apply, isInjected_begin_eq, Bool.and_eq_true] at hinjected
      exact Or.inr hinjected.2
  | finish target kind result =>
      rw [Call.apply, isInjected_finish, Bool.or_eq_true, Bool.and_eq_true,
        decide_eq_true_eq] at hinjected
      exact hinjected.symm.imp (fun htext => ⟨htext.1.symm, htext.2⟩) id
  | lookup _ | entry _ => exact Or.inr hinjected
  | evictUnresolved => exact Or.inr ((isInjected_evictUnresolved cache name).mp hinjected).1

/-- A result is appended if it is a text and the cache has no note of an earlier one. -/
theorem appends_iff : call.appends name cache = true ↔
    call.Writes name ∧ cache.isInjected name = false := by
  cases call with
  | finish target kind result =>
      rw [Call.appends, Bool.and_eq_true, decide_eq_true_eq, decide_eq_true_eq, Call.Writes,
        and_assoc]
      refine and_congr_right fun htarget => ?_
      subst htarget
      cases hinjected : cache.isInjected target with
      | true => simp [finish, hinjected]
      | false =>
          cases htext : hasText result with
          | false => simp [finish, htext]
          | true =>
              obtain ⟨css, rfl⟩ : ∃ css, result = some css :=
                Option.isSome_iff_exists.mp (by cases result <;> simp_all [hasText])
              have hcss : css ≠ [] := by simpa [hasText] using htext
              simp [finish, htext, hinjected, Sheets.append_ne cache.sheets kind hcss]
  | begin _ | lookup _ | entry _ | evictUnresolved => simp [Call.appends, Call.Writes]

theorem not_forgets_nil (name : Text) : ¬ Forgets name [] := by
  rintro (hbegin | ⟨earlier, later, hcalls, -⟩)
  · cases hbegin
  · simp at hcalls

theorem forgets_concat_iff : Forgets name (calls ++ [call]) ↔
    Forgets name calls ∨ call = .begin name ∨
      call = .evictUnresolved ∧ EndsUnresolved name calls := by
  constructor
  · rintro (hbegin | ⟨earlier, later, hcalls, hends⟩)
    · rw [List.mem_append, List.mem_singleton] at hbegin
      exact hbegin.imp Or.inl fun heq => Or.inl heq.symm
    · rcases concat_eq_append_cons_iff.mp hcalls with ⟨rfl, hcall, -⟩ | ⟨rest, rfl, -⟩
      · exact Or.inr (Or.inr ⟨hcall.symm, hends⟩)
      · exact Or.inl (Or.inr ⟨earlier, rest, rfl, hends⟩)
  · rintro ((hbegin | ⟨earlier, later, rfl, hends⟩) | rfl | ⟨rfl, hends⟩)
    · exact Or.inl (List.mem_append_left _ hbegin)
    · exact Or.inr ⟨earlier, later ++ [call], by simp, hends⟩
    · exact Or.inl (List.mem_append_right _ List.mem_cons_self)
    · exact Or.inr ⟨calls, [], rfl, hends⟩

theorem EndsUnresolved.concat (hends : EndsUnresolved name calls)
    (hcall : ∀ kind result, call ≠ .finish name kind result) :
    EndsUnresolved name (calls ++ [call]) := by
  obtain ⟨earlier, kind, later, rfl, hlater⟩ := hends
  refine ⟨earlier, kind, later ++ [call], by simp, fun kind result hmem => ?_⟩
  rw [List.mem_append, List.mem_singleton] at hmem
  exact hmem.elim (hlater kind result) fun heq => hcall kind result heq.symm

/-- The entry of a class that resolved to a text shows nothing only after a later result. -/
theorem endsUnresolved_of_state {entry : CacheEntry} (hwrites : call.Writes name)
    (hentry : ((call.apply cache).run calls).get? name = some entry)
    (hstate : entry.state = .resolved none) : EndsUnresolved name calls := by
  induction calls using List.reverseRecOn generalizing entry with
  | nil =>
      cases call with
      | finish target kind result =>
          obtain ⟨rfl, htext⟩ := hwrites
          change (cache.finish target kind result).get? target = some entry at hentry
          rw [get?_finish, if_pos rfl, Option.some.injEq] at hentry
          subst hentry
          cases hstate
          cases htext
      | begin _ | lookup _ | entry _ | evictUnresolved => cases hwrites
  | append_singleton calls last ih =>
      rw [run_concat] at hentry
      cases last with
      | begin target =>
          rw [Call.apply, get?_begin] at hentry
          split at hentry
          · cases hentry
            cases hstate
          · exact (ih hentry hstate).concat (by simp)
      | finish target kind result =>
          rw [Call.apply, get?_finish] at hentry
          split at hentry
          · rename_i hname
            subst hname
            cases hentry
            cases hstate
            exact ⟨calls, kind, [], rfl, fun _ _ => List.not_mem_nil⟩
          · rename_i hname
            refine (ih hentry hstate).concat fun kind result heq => ?_
            cases heq
            exact hname rfl
      | lookup _ | entry _ => exact (ih hentry hstate).concat (by simp)
      | evictUnresolved =>
          rw [Call.apply, get?_evictUnresolved, Option.filter_eq_some_iff] at hentry
          exact absurd hstate (by simpa using hentry.2)

/-- After its last result was nothing, the entry of a class shows nothing until the class is begun. -/
theorem state_of_endsUnresolved (hends : EndsUnresolved name calls) (hbegin : .begin name ∉ calls)
    {entry : CacheEntry} (hentry : (cache.run calls).get? name = some entry) :
    entry.state = .resolved none := by
  obtain ⟨earlier, kind, later, rfl, hlater⟩ := hends
  induction later using List.reverseRecOn generalizing entry with
  | nil =>
      rw [run_concat, Call.apply, get?_finish, if_pos rfl, Option.some.injEq] at hentry
      rw [← hentry]
  | append_singleton later last ih =>
      rw [← List.cons_append, ← List.append_assoc] at hentry hbegin
      rw [List.mem_append, not_or] at hbegin
      have hkept : ∀ {entry}, (cache.run (earlier ++ .finish name kind none :: later)).get? name =
          some entry → entry.state = .resolved none := fun hentry =>
        ih (fun kind result hmem => hlater kind result (List.mem_append_left _ hmem)) hbegin.1 hentry
      have hlast : ∀ kind result, last ≠ .finish name kind result := fun kind result heq =>
        hlater kind result (List.mem_append_right _ (List.mem_singleton.mpr heq.symm))
      rw [run_concat] at hentry
      cases last with
      | begin target =>
          rw [Call.apply, get?_begin, if_neg] at hentry
          · exact hkept hentry
          · rintro rfl
            exact hbegin.2 (List.mem_singleton.mpr rfl)
      | finish target kind result =>
          rw [Call.apply, get?_finish, if_neg] at hentry
          · exact hkept hentry
          · rintro rfl
            exact hlast kind result rfl
      | lookup _ | entry _ => exact hkept hentry
      | evictUnresolved =>
          rw [Call.apply, get?_evictUnresolved, Option.filter_eq_some_iff] at hentry
          exact hkept hentry.1

/-- From a text of a class on, the cache has the note until the class is forgotten. -/
theorem isInjected_of_not_forgets (hwrites : call.Writes name) (hkept : ¬ Forgets name calls) :
    ((call.apply cache).run calls).isInjected name = true := by
  induction calls using List.reverseRecOn with
  | nil => exact isInjected_of_writes hwrites
  | append_singleton calls last ih =>
      rw [forgets_concat_iff, not_or, not_or] at hkept
      obtain ⟨hkept, hbegin, hevict⟩ := hkept
      have hinjected := ih hkept
      rw [run_concat]
      cases last with
      | begin target =>
          have hname : name ≠ target := fun heq => hbegin (by rw [heq])
          rw [Call.apply, isInjected_begin_eq, hinjected, decide_eq_true hname, Bool.and_true]
      | finish target kind result => rw [Call.apply, isInjected_finish, hinjected, Bool.true_or]
      | lookup _ | entry _ => exact hinjected
      | evictUnresolved =>
          refine (isInjected_evictUnresolved _ name).mpr ⟨hinjected, fun entry hentry hstate => ?_⟩
          exact hevict ⟨rfl, endsUnresolved_of_state hwrites hentry hstate⟩

/-- Whatever the cache was before, somewhere in calls that forget a class the note is missing. -/
theorem exists_not_isInjected (cache : RuleCache) (hforgets : Forgets name calls) :
    ∃ passed rest, calls = passed ++ rest ∧ (cache.run passed).isInjected name = false := by
  induction calls using List.reverseRecOn with
  | nil => exact absurd hforgets (not_forgets_nil name)
  | append_singleton calls last ih =>
      by_cases hearlier : Forgets name calls
      · obtain ⟨passed, rest, rfl, hlost⟩ := ih hearlier
        exact ⟨passed, rest ++ [last], by simp, hlost⟩
      · refine ⟨calls ++ [last], [], by simp, ?_⟩
        rw [run_concat]
        rcases (forgets_concat_iff.mp hforgets).resolve_left hearlier with rfl | ⟨rfl, hends⟩
        · rw [Call.apply, isInjected_begin_eq, decide_eq_false (not_not_intro rfl), Bool.false_and]
        · have hbegin : Call.begin name ∉ calls := fun hmem => hearlier (Or.inl hmem)
          rw [← Bool.not_eq_true, Call.apply, isInjected_evictUnresolved]
          rintro ⟨hinjected, hstate⟩
          rw [isInjected, Option.any_eq_true] at hinjected
          obtain ⟨entry, hentry, -⟩ := hinjected
          exact hstate entry hentry (state_of_endsUnresolved hends hbegin hentry)

theorem isInjected_run_iff (calls : List Call) (name : Text) :
    (empty.run calls).isInjected name = true ↔ Remembers name calls := by
  constructor
  · intro hinjected
    induction calls using List.reverseRecOn with
    | nil => cases hinjected
    | append_singleton calls last ih =>
        rw [run_concat] at hinjected
        rcases writes_or_isInjected hinjected with hwrites | hbefore
        · exact ⟨calls, last, [], rfl, hwrites, not_forgets_nil name⟩
        · obtain ⟨before, call, after, rfl, hwrites, hkept⟩ := ih hbefore
          refine ⟨before, call, after ++ [last], by simp, hwrites, fun hforgets => ?_⟩
          rcases (forgets_concat_iff.mp hforgets).resolve_left hkept with rfl | ⟨rfl, hends⟩
          · rw [Call.apply, isInjected_begin_eq, decide_eq_false (not_not_intro rfl)] at hinjected
            cases hinjected
          · have hbegin : Call.begin name ∉ after := fun hmem => hkept (Or.inl hmem)
            obtain ⟨entry, hentry, -⟩ := Option.any_eq_true _ _ |>.mp hbefore
            refine ((isInjected_evictUnresolved _ name).mp hinjected).2 entry hentry ?_
            rw [run_append] at hentry
            exact state_of_endsUnresolved hends hbegin hentry
  · rintro ⟨before, call, after, rfl, hwrites, hkept⟩
    rw [run_append]
    exact isInjected_of_not_forgets hwrites hkept

theorem appendings_append (name : Text) (cache : RuleCache) (first second : List Call) :
    appendings name cache (first ++ second) =
      appendings name cache first + appendings name (cache.run first) second := by
  induction first generalizing cache with
  | nil => simp [appendings, run]
  | cons call rest ih =>
      rw [List.cons_append, appendings, ih, appendings, Nat.add_assoc]
      rfl

/-- The note does not come without a text that is appended. -/
theorem appendings_pos (hbefore : cache.isInjected name = false)
    (hafter : (cache.run calls).isInjected name = true) : 0 < appendings name cache calls := by
  induction calls generalizing cache with
  | nil => exact absurd (hbefore.symm.trans hafter) Bool.false_ne_true
  | cons call rest ih =>
      rw [appendings]
      cases hnext : (call.apply cache).isInjected name with
      | false => exact Nat.add_pos_right _ (ih hnext hafter)
      | true =>
          have hwrites := (writes_or_isInjected hnext).resolve_right (by simp [hbefore])
          rw [appends_iff.mpr ⟨hwrites, hbefore⟩]
          exact Nat.add_pos_left Nat.one_pos _

/-- The first of the calls that append text, and how many come after it. -/
theorem exists_first_appending (happends : 0 < appendings name cache calls) :
    ∃ before call after, calls = before ++ call :: after ∧
      call.appends name (cache.run before) = true ∧
        appendings name cache calls = appendings name (cache.run (before ++ [call])) after + 1 := by
  induction calls generalizing cache with
  | nil => exact absurd happends (Nat.lt_irrefl 0)
  | cons call rest ih =>
      cases hcall : call.appends name cache with
      | true =>
          refine ⟨[], call, rest, rfl, hcall, ?_⟩
          rw [appendings, hcall, Bool.toNat_true, Nat.add_comm]
          rfl
      | false =>
          rw [appendings, hcall, Bool.toNat_false, Nat.zero_add] at happends ⊢
          obtain ⟨before, later, after, rfl, hlater, hcount⟩ := ih happends
          exact ⟨call :: before, later, after, rfl, hlater, hcount⟩

theorem Renews.two_le_appendings (hrenews : Renews name calls) :
    2 ≤ appendings name empty calls := by
  obtain ⟨before, first, between, second, after, rfl, hfirst, hforgets, hsecond⟩ := hrenews
  obtain ⟨passed, rest, rfl, hlost⟩ :=
    exists_not_isInjected (empty.run (before ++ [first])) hforgets
  have hone : 0 < appendings name empty (before ++ [first]) := by
    refine appendings_pos rfl ?_
    rw [run_concat]
    exact isInjected_of_writes hfirst
  have htwo : 0 < appendings name (empty.run (before ++ [first] ++ passed)) (rest ++ [second]) := by
    rw [run_append]
    refine appendings_pos hlost ?_
    rw [run_concat]
    exact isInjected_of_writes hsecond
  have hcalls : before ++ first :: (passed ++ rest) ++ second :: after =
      before ++ [first] ++ passed ++ (rest ++ [second]) ++ after := by simp
  rw [hcalls, appendings_append, appendings_append, appendings_append]
  omega

theorem renews_of_two_le_appendings (htwice : 2 ≤ appendings name empty calls) :
    Renews name calls := by
  obtain ⟨before, first, later, rfl, hfirst, hcount⟩ :=
    exists_first_appending (Nat.lt_of_lt_of_le Nat.zero_lt_two htwice)
  have hmore : 0 < appendings name (empty.run (before ++ [first])) later := by omega
  obtain ⟨between, second, after, rfl, hsecond, -⟩ := exists_first_appending hmore
  obtain ⟨hwrites, -⟩ := appends_iff.mp hfirst
  obtain ⟨hagain, hlost⟩ := appends_iff.mp hsecond
  refine ⟨before, first, between, second, after, by simp, hwrites, ?_, hagain⟩
  by_contra hkept
  rw [run_concat, isInjected_of_not_forgets hwrites hkept] at hlost
  cases hlost

/-- Along every run from an empty cache, a result of a class is appended if it is a text and the
cache does not remember an earlier one; so a class is injected at most once unless it resolves to a
text, is forgotten, and resolves to a text again. -/
theorem appendings_of_calls (calls : List Call) (name : Text) :
    (∀ kind result, (Call.finish name kind result).appends name (empty.run calls) = true ↔
      hasText result = true ∧ ¬ Remembers name calls) ∧
      (appendings name empty calls ≤ 1 ↔ ¬ Renews name calls) := by
  refine ⟨fun kind result => ?_, ?_⟩
  · rw [appends_iff, ← isInjected_run_iff, Bool.not_eq_true, Call.Writes, eq_self, true_and]
  · rw [← Nat.not_lt, not_iff_not]
    exact ⟨renews_of_two_le_appendings, Renews.two_le_appendings⟩

/-- One class begun anew after its text was appended, another one evicted after it had resolved to
nothing: both texts are in their sheet twice. -/
theorem appendings_begunAgain_evicted :
    let begunAgain : List Call := [.finish "p-4".toList .utilities (some "x".toList),
      .begin "p-4".toList, .finish "p-4".toList .utilities (some "x".toList)]
    let evicted : List Call := [.finish "btn".toList .shortcuts (some "y".toList),
      .finish "btn".toList .shortcuts none, .evictUnresolved,
      .finish "btn".toList .shortcuts (some "y".toList)]
    appendings "p-4".toList empty begunAgain = 2 ∧
      (empty.run begunAgain).sheets.text .utilities = "x\nx".toList ∧
        appendings "btn".toList empty evicted = 2 ∧
          (empty.run evicted).sheets.text .shortcuts = "y\ny".toList := by
  decide +kernel

end RuleCache

end UtilityCss
