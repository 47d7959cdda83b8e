import Mathlib.Data.List.Chain
import Mathlib.Data.List.Perm.Subperm
import UtilityCss.Shortcut.Expansion

/-!
The shortcut table as a graph.  An edge leads from a shortcut to each word of its expansion, so a
plain word has none.  A lasso is the trace of a walk that has just come back to a shortcut it has
passed, and `Meets` is a depth-first traversal from left to right with no memory of its own.
-/

namespace UtilityCss.Shortcuts

variable {shortcuts : Shortcuts} {name word start : Text} {path words rest met : List Text}

def Edge (shortcuts : Shortcuts) (name word : Text) : Prop :=
  word ∈ shortcuts.expansionWords name

/-- Some walk along the edges, possibly of no step, leads from a name to a word. -/
abbrev Reaches (shortcuts : Shortcuts) : Text → Text → Prop :=
  Relation.ReflTransGen shortcuts.Edge

/-- A node that lies on a cycle can be reached from the name. -/
def LeadsToCycle (shortcuts : Shortcuts) (name : Text) : Prop :=
  ∃ node, shortcuts.Reaches name node ∧ Relation.TransGen shortcuts.Edge node node

theorem contains_of_edge (hedge : shortcuts.Edge name word) : shortcuts.contains name = true := by
  unfold Edge expansionWords at hedge
  split at hedge
  · rename_i expansion hexpansion
    rw [OrderedMap.contains, hexpansion, Option.isSome_some]
  · exact absurd hedge List.not_mem_nil

theorem eq_of_reaches_of_plain (hplain : shortcuts.contains name = false)
    (hreaches : shortcuts.Reaches name word) : word = name := by
  rcases Relation.ReflTransGen.cases_head hreaches with heq | ⟨next, hedge, -⟩
  · exact heq.symm
  · rw [contains_of_edge hedge] at hplain
    cases hplain

/-- A walk to a cycle can be led one step further, round the cycle if it is there already. -/
theorem LeadsToCycle.exists_edge (hcycle : shortcuts.LeadsToCycle name) :
    ∃ next, shortcuts.Edge name next ∧ shortcuts.LeadsToCycle next := by
  obtain ⟨node, hreaches, hloop⟩ := hcycle
  rcases Relation.ReflTransGen.cases_head hreaches with rfl | ⟨next, hedge, hrest⟩
  · obtain ⟨next, hedge, hback⟩ := Relation.TransGen.head'_iff.mp hloop
    exact ⟨next, hedge, name, hback, hloop⟩
  · exact ⟨next, hedge, node, hrest, hloop⟩

/-- A walk from `start` over distinct shortcuts, and then back to one of them. -/
structure IsLasso (shortcuts : Shortcuts) (start : Text) (path : List Text) : Prop where
  starts : path.head? = some start
  walk : path.IsChain shortcuts.Edge
  contains : ∀ name ∈ path.dropLast, shortcuts.contains name = true
  distinct : path.dropLast.Nodup
  returns : ∃ last ∈ path.dropLast, path.getLast? = some last

/-- A walk with two ends takes at least one step. -/
theorem transGen_of_isChain (hwalk : (name :: path ++ [word]).IsChain shortcuts.Edge) :
    Relation.TransGen shortcuts.Edge name word := by
  induction path generalizing name with
  | nil => exact .single (List.isChain_pair.mp hwalk)
  | cons next rest ih =>
      obtain ⟨hedge, hrest⟩ := List.isChain_cons_cons.mp hwalk
      exact .head hedge (ih hrest)

theorem IsLasso.leadsToCycle (hlasso : shortcuts.IsLasso start path) :
    shortcuts.LeadsToCycle start := by
  obtain ⟨last, hmem, hlast⟩ := hlasso.returns
  obtain ⟨before, after, hsplit⟩ := List.append_of_mem hmem
  have hpath : path = before ++ last :: (after ++ [last]) := by
    rw [← List.dropLast_append_getLast? last hlast, hsplit, List.append_assoc]
    rfl
  have hwalk := hlasso.walk
  have hstarts := hlasso.starts
  rw [hpath] at hwalk hstarts
  obtain ⟨hlead, hloop⟩ := List.isChain_split.mp hwalk
  refine ⟨last, ?_, transGen_of_isChain hloop⟩
  cases before with
  | nil =>
      cases hstarts
      exact .refl
  | cons first between =>
      cases hstarts
      exact (transGen_of_isChain hlead).to_reflTransGen

/-- A lasso is not longer than the table and one more name. -/
theorem IsLasso.length_le (hlasso : shortcuts.IsLasso start path) :
    path.length ≤ shortcuts.size + 1 := by
  have hsub : path.dropLast ⊆ shortcuts.keys := fun name hname =>
    OrderedMap.contains_iff.mp (hlasso.contains name hname)
  have hle : path.dropLast.length ≤ shortcuts.keys.length :=
    (List.subperm_of_subset hlasso.distinct hsub).length_le
  rw [List.length_dropLast, OrderedMap.keys, List.length_map] at hle
  rw [OrderedMap.size]
  omega

/-- The plain words that a depth-first traversal from left to right meets, each as often as it is
met.  A plain word is met when it stands in front; a shortcut there gives way to its own words. -/
inductive Meets (shortcuts : Shortcuts) : (ahead met : List Text) → Prop where
  | done : Meets shortcuts [] []
  | plain {word : Text} {rest met : List Text} (hword : shortcuts.contains word = false)
      (hrest : Meets shortcuts rest met) : Meets shortcuts (word :: rest) (word :: met)
  | shortcut {word : Text} {rest met : List Text} (hword : shortcuts.contains word = true)
      (hinside : Meets shortcuts (shortcuts.expansionWords word ++ rest) met) :
      Meets shortcuts (word :: rest) met

namespace Meets

/-- There is one traversal at most. -/
theorem unique {other : List Text} (hmeets : shortcuts.Meets words met)
    (hother : shortcuts.Meets words other) : other = met := by
  induction hmeets generalizing other with
  | done =>
      cases hother
      rfl
  | plain hword _ ih =>
      cases hother with
      | plain _ hrest => rw [ih hrest]
      | shortcut hshortcut _ => rw [hword] at hshortcut; cases hshortcut
  | shortcut hword _ ih =>
      cases hother with
      | plain hplain _ => rw [hword] at hplain; cases hplain
      | shortcut _ hinside => exact ih hinside

/-- It meets the plain words that can be reached, and no others. -/
theorem mem_iff (hmeets : shortcuts.Meets words met) :
    word ∈ met ↔
      shortcuts.contains word = false ∧ ∃ name ∈ words, shortcuts.Reaches name word := by
  induction hmeets with
  | done => simp
  | @plain first rest met hplain _ ih =>
      rw [List.mem_cons, ih]
      constructor
      · rintro (rfl | ⟨hword, name, hname, hreaches⟩)
        · exact ⟨hplain, word, List.mem_cons_self, .refl⟩
        · exact ⟨hword, name, List.mem_cons_of_mem first hname, hreaches⟩
      · rintro ⟨hword, name, hname, hreaches⟩
        rcases List.mem_cons.mp hname with rfl | hlater
        · exact Or.inl (eq_of_reaches_of_plain hplain hreaches)
        · exact Or.inr ⟨hword, name, hlater, hreaches⟩
  | @shortcut first rest met hshortcut _ ih =>
      rw [ih]
      refine and_congr_right fun hword => ⟨?_, ?_⟩
      · rintro ⟨name, hname, hreaches⟩
        rcases List.mem_append.mp hname with hinside | hlater
        · exact ⟨first, List.mem_cons_self, .head hinside hreaches⟩
        · exact ⟨name, List.mem_cons_of_mem first hlater, hreaches⟩
      · rintro ⟨name, hname, hreaches⟩
        rcases List.mem_cons.mp hname with rfl | hlater
        · rcases Relation.ReflTransGen.cases_head hreaches with rfl | ⟨next, hedge, hrest⟩
          · rw [hword] at hshortcut
            cases hshortcut
          · exact ⟨next, List.mem_append_left rest hedge, hrest⟩
        · exact ⟨name, List.mem_append_right _ hlater, hreaches⟩

/-- A traversal that comes to an end has seen no name that leads to a cycle. -/
theorem not_leadsToCycle (hmeets : shortcuts.Meets words met) :
    ∀ name ∈ words, ¬ shortcuts.LeadsToCycle name := by
  induction hmeets with
  | done => intro name hname; cases hname
  | plain hplain _ ih =>
      intro name hname hcycle
      rcases List.mem_cons.mp hname with rfl | hlater
      · obtain ⟨next, hedge, -⟩ := hcycle.exists_edge
        rw [contains_of_edge hedge] at hplain
        cases hplain
      · exact ih name hlater hcycle
  | shortcut _ _ ih =>
      intro name hname hcycle
      rcases List.mem_cons.mp hname with rfl | hlater
      · obtain ⟨next, hedge, hnext⟩ := hcycle.exists_edge
        exact ih next (List.mem_append_left _ hedge) hnext
      · exact ih name (List.mem_append_right _ hlater) hcycle

end Meets

end UtilityCss.Shortcuts
