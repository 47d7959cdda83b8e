import UtilityCss.Compiler
import UtilityCss.Proofs.Shortcut.Expansion

/-!
Tables that grow entry by entry.  An entry is registered under its trimmed name, the last one of a name
counts, and with distinct names the table does not show in which order they came.
-/

namespace UtilityCss.Shortcuts

variable {table : Shortcuts} {entries : List (Text × Text)} {name word : Text}

/-- The table with one more entry, under its trimmed name.  A blank name is none. -/
def register (table : Shortcuts) (entry : Text × Text) : Shortcuts :=
  if entry.1.trim = [] then table else table.insert entry.1.trim entry.2

def registerAll (table : Shortcuts) (entries : List (Text × Text)) : Shortcuts :=
  entries.foldl register table

/-- The tables right after each registration of a name. -/
def tablesAt (name : Text) : Shortcuts → List (Text × Text) → List Shortcuts
  | _, [] => []
  | table, entry :: rest =>
      let next := table.register entry
      if entry.1.trim = name then next :: tablesAt name next rest else tablesAt name next rest

theorem get?_register (table : Shortcuts) (entry : Text × Text) (word : Text) :
    (table.register entry).get? word =
      if word ≠ [] ∧ word = entry.1.trim then some entry.2 else table.get? word := by
  unfold register
  split
  · rename_i hblank
    rw [if_neg fun h => h.1 (h.2.trans hblank)]
  · rename_i hname
    rw [OrderedMap.get?_insert]
    by_cases heq : word = entry.1.trim
    · rw [if_pos heq, if_pos ⟨heq ▸ hname, heq⟩]
    · rw [if_neg heq, if_neg fun h => heq h.2]

theorem contains_register_iff (table : Shortcuts) (entry : Text × Text) (name : Text) :
    (table.register entry).contains name = true ↔
      table.contains name = true ∨ entry.1.trim = name ∧ name ≠ [] := by
  rw [OrderedMap.contains, get?_register]
  split
  · rename_i hentry
    exact iff_of_true rfl (Or.inr ⟨hentry.2.symm, hentry.1⟩)
  · rename_i hentry
    exact (or_iff_left fun h => hentry ⟨h.2, h.1.symm⟩).symm

theorem contains_registerAll (table : Shortcuts) (entries : List (Text × Text)) (name : Text) :
    (table.registerAll entries).contains name = true ↔
      table.contains name = true ∨ ∃ entry ∈ entries, entry.1.trim = name ∧ name ≠ [] := by
  induction entries generalizing table with
  | nil => simp [registerAll]
  | cons entry rest ih =>
      rw [registerAll, List.foldl_cons]
      refine (ih (table.register entry)).trans ?_
      rw [contains_register_iff, or_assoc, List.exists_mem_cons_iff]

/-- A name that is in the table at the end was registered at some moment. -/
theorem tablesAt_ne_nil (hentry : ∃ entry ∈ entries, entry.1.trim = name) :
    tablesAt name table entries ≠ [] := by
  induction entries generalizing table with
  | nil => simp at hentry
  | cons entry rest ih =>
      rw [tablesAt]
      split
      · exact List.cons_ne_nil _ _
      · rename_i hname
        obtain ⟨other, hother, heq⟩ := hentry
        rcases List.mem_cons.mp hother with rfl | hrest
        · exact absurd heq hname
        · exact ih ⟨other, hrest, heq⟩

/-- Entries whose names are distinct as they are registered. -/
def DistinctNames (entries : List (Text × Text)) : Prop :=
  entries.Pairwise fun first second => first.1.trim = [] ∨ first.1.trim ≠ second.1.trim

theorem DistinctNames.of_perm {other : List (Text × Text)} (hdistinct : DistinctNames entries)
    (hperm : entries.Perm other) : DistinctNames other := by
  refine (hperm.pairwise_iff fun {first second} h => ?_).mp hdistinct
  rcases h with hblank | hne
  · by_cases heq : second.1.trim = first.1.trim
    · exact Or.inl (heq.trans hblank)
    · exact Or.inr heq
  · exact Or.inr hne.symm

/-- With distinct names the table holds exactly the entries that are not blank. -/
theorem get?_registerAll_iff {expansion : Text} (hdistinct : DistinctNames entries) :
    (registerAll .empty entries).get? word = some expansion ↔
      word ≠ [] ∧ ∃ entry ∈ entries, entry.1.trim = word ∧ entry.2 = expansion := by
  induction entries using List.reverseRecOn with
  | nil => simp [registerAll]
  | append_singleton earlier entry ih =>
      obtain ⟨hearlier, -, hlast⟩ := List.pairwise_append.mp hdistinct
      rw [registerAll, List.foldl_append, List.foldl_cons, List.foldl_nil, ← registerAll,
        get?_register]
      split
      · rename_i hentry
        obtain ⟨hword, hentry⟩ := hentry
        constructor
        · intro hsome
          exact ⟨hword, entry, by simp, hentry.symm, Option.some.inj hsome⟩
        · rintro ⟨-, other, hother, rfl, rfl⟩
          rcases List.mem_append.mp hother with hbefore | hsame
          · rcases hlast other hbefore entry (List.mem_singleton_self entry) with hblank | hne
            · exact absurd hblank hword
            · exact absurd hentry hne
          · rw [List.mem_singleton.mp hsame]
      · rename_i hentry
        rw [ih hearlier]
        refine and_congr_right fun hword => ⟨?_, ?_⟩
        · rintro ⟨other, hother, heq⟩
          exact ⟨other, List.mem_append_left _ hother, heq⟩
        · rintro ⟨other, hother, rfl, rfl⟩
          rcases List.mem_append.mp hother with hbefore | hsame
          · exact ⟨other, hbefore, rfl, rfl⟩
          · exact absurd ⟨hword, by rw [List.mem_singleton.mp hsame]⟩ hentry

/-- The order of entries with distinct names does not show in the table. -/
theorem get?_registerAll_of_perm {other : List (Text × Text)} (hdistinct : DistinctNames entries)
    (hperm : entries.Perm other) (word : Text) :
    (registerAll .empty other).get? word = (registerAll .empty entries).get? word := by
  refine Option.ext fun expansion => ?_
  rw [get?_registerAll_iff hdistinct, get?_registerAll_iff (hdistinct.of_perm hperm)]
  simp only [hperm.mem_iff]

/-- Acyclicity, as it can be checked. -/
theorem not_leadsToCycle_of_keys (hkeys : ∀ name ∈ table.keys, (table.expand name).toBool = true) :
    ∀ name, ¬ table.LeadsToCycle name := by
  intro name hcycle
  obtain ⟨next, hedge, -⟩ := hcycle.exists_edge
  have hexpand := hkeys name (OrderedMap.contains_iff.mp (contains_of_edge hedge))
  cases htokens : table.expand name with
  | error cycle =>
      rw [htokens] at hexpand
      cases hexpand
  | ok tokens => exact (expand_eq_ok_iff table name).mp ⟨tokens, htokens⟩ hcycle

/-- A shortcut whose name is selector text, and not a token that the document deals with. -/
structure IsSelectorForm (table : Shortcuts) (name : Text) : Prop where
  contains : table.contains name = true
  selector : isIdentifier name = false
  rule_class : isDocumentToken name = false

end UtilityCss.Shortcuts
