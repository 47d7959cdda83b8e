import UtilityCss.Proofs.Shortcut.Expansion
import UtilityCss.Shortcut

/-!
A block as the grouping of its rules.  Inserting rules one after the other gives, at every level, the
declarations of the rules that end there, merged by property, then one bucket for each nesting
selector and one inner block for each at-rule, each where it was first asked for.
-/

namespace UtilityCss

namespace Entries

variable {α β γ : Type} [DecidableEq α]

/-- Changing one key of entries whose values are a function of the key. -/
theorem alter_map (key : α) (change : Option β → β) (value : α → β) {keys : List α}
    (hnodup : keys.Nodup) :
    alter key change (keys.map fun k => (k, value k)) =
      if key ∈ keys then keys.map fun k => (k, if k = key then change (some (value k)) else value k)
      else (keys.map fun k => (k, value k)) ++ [(key, change none)] := by
  induction keys with
  | nil => rfl
  | cons first rest ih =>
      rw [List.nodup_cons] at hnodup
      rw [List.map_cons, alter]
      by_cases hfirst : first = key
      · subst hfirst
        have hrest : ∀ k ∈ rest, k ≠ first := by
          rintro k hk rfl
          exact hnodup.1 hk
        simp only [↓reduceIte, List.mem_cons_self, List.map_cons, List.cons.injEq, true_and]
        refine List.map_congr_left ?_
        intro k hk
        rw [if_neg (hrest k hk)]
      · rw [if_neg hfirst, ih hnodup.2]
        by_cases hkey : key ∈ rest <;> simp [hkey, hfirst, Ne.symm hfirst]

/-- Adding items under their keys, one after the other, groups them by key. -/
theorem foldl_alter [BEq α] [LawfulBEq α] (step : β → γ → β) (start : β) (items : List (α × γ)) :
    items.foldl
        (fun entries item => alter item.1 (fun old => step (old.getD start) item.2) entries) [] =
      (items.map Prod.fst).eraseDups.map fun key =>
        (key, ((items.filter fun item => item.1 = key).map Prod.snd).foldl step start) := by
  induction items using List.reverseRecOn with
  | nil => rfl
  | append_singleton items last ih =>
      obtain ⟨key, item⟩ := last
      rw [List.foldl_append, ih, List.map_append, List.map_singleton, List.foldl_cons,
        List.foldl_nil, alter_map _ _ _ (nodup_eraseDups _), eraseDups_concat]
      simp only [List.mem_eraseDups]
      by_cases hkey : key ∈ items.map Prod.fst
      · rw [if_pos hkey, if_pos hkey]
        refine List.map_congr_left ?_
        intro k _
        by_cases hk : k = key
        · simp [hk]
        · simp [hk, Ne.symm hk]
      · have hitems : items.filter (fun item => item.1 = key) = [] := by
          rw [List.filter_eq_nil_iff]
          intro other hother
          rw [decide_eq_true_iff]
          rintro rfl
          exact hkey (List.mem_map_of_mem hother)
        rw [if_neg hkey, if_neg hkey, List.map_append]
        congr 1
        · refine List.map_congr_left ?_
          intro k hk
          have hne : key ≠ k := by
            rintro rfl
            exact hkey (List.mem_eraseDups.mp hk)
          simp [hne]
        · simp [hitems]

end Entries

/-- Of each property the last declaration, in the order in which these stand. -/
def lastPerProperty : List Text → List Text
  | [] => []
  | declaration :: rest =>
      if rest.any fun later => propertyOf later = propertyOf declaration then lastPerProperty rest
      else declaration :: lastPerProperty rest

theorem mem_of_mem_lastPerProperty {declaration : Text} {declarations : List Text}
    (hmem : declaration ∈ lastPerProperty declarations) : declaration ∈ declarations := by
  induction declarations with
  | nil => exact hmem
  | cons first rest ih =>
      rw [lastPerProperty] at hmem
      split at hmem
      · exact List.mem_cons_of_mem first (ih hmem)
      · rcases List.mem_cons.mp hmem with rfl | hrest
        · exact List.mem_cons_self
        · exact List.mem_cons_of_mem first (ih hrest)

theorem nodup_lastPerProperty (declarations : List Text) :
    ((lastPerProperty declarations).map propertyOf).Nodup := by
  induction declarations with
  | nil => exact List.nodup_nil
  | cons first rest ih =>
      rw [lastPerProperty]
      split
      · exact ih
      · rename_i hlast
        simp only [List.any_eq_true, decide_eq_true_iff, not_exists, not_and] at hlast
        rw [List.map_cons, List.nodup_cons]
        refine ⟨?_, ih⟩
        rintro hmem
        obtain ⟨later, hlater, heq⟩ := List.mem_map.mp hmem
        exact hlast later (mem_of_mem_lastPerProperty hlater) heq

theorem lastPerProperty_eq_nil_iff {declarations : List Text} :
    lastPerProperty declarations = [] ↔ declarations = [] := by
  induction declarations with
  | nil => rfl
  | cons first rest ih =>
      rw [lastPerProperty]
      split
      · rename_i hlater
        simp only [List.any_eq_true] at hlater
        obtain ⟨later, hlater, -⟩ := hlater
        simp [ih, List.ne_nil_of_mem hlater]
      · simp

/-- A declaration that is merged displaces the one of its property. -/
theorem mergeDeclaration_lastPerProperty (declarations : List Text) (declaration : Text) :
    mergeDeclaration (lastPerProperty declarations) declaration =
      lastPerProperty (declarations ++ [declaration]) := by
  rw [mergeDeclaration]
  induction declarations with
  | nil => rfl
  | cons first rest ih =>
      rw [List.cons_append, lastPerProperty, lastPerProperty, List.any_append, List.any_cons,
        List.any_nil, Bool.or_false, ← ih]
      by_cases hlater : rest.any (fun later => propertyOf later = propertyOf first) = true
      · simp only [hlater, ↓reduceIte, Bool.true_or]
      · rw [Bool.not_eq_true] at hlater
        by_cases hlast : propertyOf declaration = propertyOf first
        · simp [hlater, hlast]
        · simp [hlater, hlast, Ne.symm hlast]

theorem mergeDeclarations_lastPerProperty (declarations more : List Text) :
    mergeDeclarations (lastPerProperty declarations) more =
      lastPerProperty (declarations ++ more) := by
  induction more generalizing declarations with
  | nil => rw [List.append_nil, mergeDeclarations, List.foldl_nil]
  | cons declaration rest ih =>
      have hfirst : mergeDeclarations (lastPerProperty declarations) (declaration :: rest) =
          mergeDeclarations (lastPerProperty (declarations ++ [declaration])) rest := by
        rw [← mergeDeclaration_lastPerProperty]
        rfl
      rw [hfirst, ih, List.append_assoc, List.singleton_append]

theorem foldl_mergeDeclarations (groups : List (List Text)) (declarations : List Text) :
    groups.foldl mergeDeclarations (lastPerProperty declarations) =
      lastPerProperty (declarations ++ groups.flatten) := by
  induction groups generalizing declarations with
  | nil => simp
  | cons group rest ih =>
      rw [List.foldl_cons, mergeDeclarations_lastPerProperty, ih, List.flatten_cons,
        List.append_assoc]

/-- Where a rule declares and what: its defaults, if it has some, under their selector of zero
specificity, and its declarations under its nesting selector. -/
def Rule.targets (rule : Rule) : List (Text × List Text) :=
  (if rule.fallbacks.isEmpty then []
    else [(zeroSpecificitySelector rule.ancestor ['&'] rule.suffix, rule.fallbacks)])
    ++ [(Block.selectorOf rule, rule.declarations)]

@[simp]
theorem Rule.targets_withAtRules (rule : Rule) (chain : List Text) :
    { rule with atRules := chain }.targets = rule.targets := rfl

/-- What rules declare under a chain of at-rules and a nesting selector, in order. -/
def directed (rules : List Rule) (chain : List Text) (selector : Text) : List Text :=
  (rules.filter fun rule => rule.atRules = chain).flatMap fun rule =>
    (rule.targets.filter fun target => target.1 = selector).flatMap Prod.snd

/-- What rules outside of every at-rule declare, and where. -/
def ownTargets (rules : List Rule) : List (Text × List Text) :=
  (rules.filter fun rule => rule.atRules = []).flatMap Rule.targets

/-- The nesting selectors outside of every at-rule, each where it comes up first. -/
def nestingSelectors (rules : List Rule) : List Text :=
  (((ownTargets rules).filter fun target => target.1 ≠ []).map Prod.fst).eraseDups

/-- The outermost at-rules, each where it comes up first. -/
def outerAtRules (rules : List Rule) : List Text :=
  (rules.filterMap fun rule => rule.atRules.head?).eraseDups

/-- The rules inside an at-rule, without it. -/
def inside (atRule : Text) (rules : List Rule) : List Rule :=
  (rules.filter fun rule => rule.atRules.head? = some atRule).map fun rule =>
    { rule with atRules := rule.atRules.tail }

/-- The rules inside of at-rules, each under its outermost one and without it. -/
def innerRules (rules : List Rule) : List (Text × Rule) :=
  rules.filterMap fun rule =>
    rule.atRules.head?.map fun atRule => (atRule, { rule with atRules := rule.atRules.tail })

theorem outerAtRules_eq (rules : List Rule) :
    outerAtRules rules = ((innerRules rules).map Prod.fst).eraseDups := by
  rw [outerAtRules, innerRules, List.map_filterMap]
  simp [Function.comp_def]

theorem inside_eq (atRule : Text) (rules : List Rule) :
    inside atRule rules =
      ((innerRules rules).filter fun inner => inner.1 = atRule).map Prod.snd := by
  induction rules with
  | nil => rfl
  | cons rule rest ih =>
      unfold inside innerRules at ih ⊢
      cases hchain : rule.atRules with
      | nil => simp [hchain, ih]
      | cons first chain =>
          by_cases hfirst : first = atRule <;> simp [hchain, hfirst, ih]

/-- What is declared outside of every at-rule under a selector. -/
theorem directed_nil (rules : List Rule) (selector : Text) :
    directed rules [] selector =
      (((ownTargets rules).filter fun target => target.1 = selector).map Prod.snd).flatten := by
  rw [directed, ownTargets, List.filter_flatMap, ← List.flatMap_def, List.flatMap_assoc]

/-- What is declared below an at-rule is declared inside of it. -/
theorem directed_cons (rules : List Rule) (atRule : Text) (chain : List Text) (selector : Text) :
    directed rules (atRule :: chain) selector = directed (inside atRule rules) chain selector := by
  induction rules with
  | nil => rfl
  | cons rule rest ih =>
      unfold directed inside at ih ⊢
      cases hchain : rule.atRules with
      | nil => simp [hchain, ih]
      | cons first inner =>
          by_cases hfirst : first = atRule
          · by_cases hinner : inner = chain <;> simp [hchain, hfirst, hinner, ih]
          · simp [hchain, hfirst, ih]

/-- Declaring under several selectors, one after the other. -/
def Block.addTargets (targets : List (Text × List Text)) (block : Block) : Block :=
  targets.foldl (fun block target => block.addUnder target.1 target.2) block

namespace Block

/-- The block that holds rules, inserted in order. -/
def ofRules (rules : List Rule) : Block :=
  rules.foldl insert empty

theorem addRule_eq (rule : Rule) (block : Block) :
    addRule rule block = block.addTargets rule.targets := by
  unfold addRule addTargets Rule.targets
  split <;> rfl

theorem addTargets_append (block : Block) (first second : List (Text × List Text)) :
    block.addTargets (first ++ second) = (block.addTargets first).addTargets second :=
  List.foldl_append

/-- A target either joins the declarations of the block or its own bucket. -/
theorem addTargets_eq (targets : List (Text × List Text)) (block : Block) :
    block.addTargets targets =
      { block with
        declarations := ((targets.filter fun target => target.1 = []).map Prod.snd).foldl
          mergeDeclarations block.declarations
        nested := (targets.filter fun target => target.1 ≠ []).foldl
          (fun entries target =>
            Entries.alter target.1 (fun old => mergeDeclarations (old.getD []) target.2) entries)
          block.nested } := by
  induction targets generalizing block with
  | nil => cases block; rfl
  | cons target rest ih =>
      have hfirst : block.addTargets (target :: rest) =
          (block.addUnder target.1 target.2).addTargets rest := rfl
      rw [hfirst, ih, addUnder]
      by_cases hselector : target.1 = [] <;> simp [hselector]

/-- A rule inside an at-rule goes to the inner block, as the rule without it. -/
theorem insert_of_atRules {rule : Rule} {atRule : Text} {chain : List Text} (block : Block)
    (hchain : rule.atRules = atRule :: chain) :
    block.insert rule =
      { block with
        atRules := Entries.alter atRule
          (fun old => (old.getD empty).insert { rule with atRules := chain }) block.atRules } := by
  rw [insert, hchain]
  rfl

/-- Rules outside of every at-rule go to the block itself, the others to its inner blocks. -/
theorem foldl_insert (rules : List Rule) (block : Block) :
    rules.foldl insert block =
      { block.addTargets (ownTargets rules) with
        atRules := (innerRules rules).foldl
          (fun entries inner =>
            Entries.alter inner.1 (fun old => (old.getD empty).insert inner.2) entries)
          block.atRules } := by
  induction rules generalizing block with
  | nil => cases block; rfl
  | cons rule rest ih =>
      rw [List.foldl_cons, ih]
      cases hchain : rule.atRules with
      | nil =>
          have hinsert : block.insert rule = block.addTargets rule.targets := by
            rw [insert, hchain, changeAt, addRule_eq]
          have hown : ownTargets (rule :: rest) = rule.targets ++ ownTargets rest := by
            simp [ownTargets, hchain]
          have hinner : innerRules (rule :: rest) = innerRules rest := by
            simp [innerRules, hchain]
          rw [hinsert, hown, hinner, addTargets_append, addTargets_eq rule.targets]
      | cons atRule chain =>
          have hown : ownTargets (rule :: rest) = ownTargets rest := by
            simp [ownTargets, hchain]
          have hinner : innerRules (rule :: rest) =
              (atRule, { rule with atRules := chain }) :: innerRules rest := by
            simp [innerRules, hchain]
          rw [insert_of_atRules block hchain, hown, hinner, List.foldl_cons, addTargets_eq,
            addTargets_eq]

/-- A block is the grouping of the rules that were inserted: the merged declarations of the rules that
end here, one bucket for each nesting selector, and for each at-rule the block of the rules inside. -/
theorem ofRules_eq (rules : List Rule) :
    ofRules rules =
      { declarations := lastPerProperty (directed rules [] [])
        nested := (nestingSelectors rules).map fun selector =>
          (selector, lastPerProperty (directed rules [] selector))
        atRules := (outerAtRules rules).map fun atRule =>
          (atRule, ofRules (inside atRule rules)) } := by
  have hmerge : ∀ groups : List (List Text),
      groups.foldl mergeDeclarations [] = lastPerProperty groups.flatten := fun groups =>
    foldl_mergeDeclarations groups []
  rw [ofRules, foldl_insert, addTargets_eq]
  simp only [mk.injEq]
  refine ⟨?_, ?_, ?_⟩
  · rw [directed_nil]
    exact hmerge _
  · rw [nestingSelectors]
    refine (Entries.foldl_alter mergeDeclarations [] _).trans (List.map_congr_left ?_)
    intro selector hselector
    have hne : selector ≠ [] := by
      rw [List.mem_eraseDups, List.mem_map] at hselector
      obtain ⟨target, htarget, rfl⟩ := hselector
      simpa using (List.mem_filter.mp htarget).2
    rw [hmerge, directed_nil, List.filter_filter]
    congr 5
    funext target
    by_cases htarget : target.1 = selector <;> simp [htarget, hne]
  · rw [outerAtRules_eq]
    refine (Entries.foldl_alter insert empty _).trans (List.map_congr_left ?_)
    intro atRule _
    rw [ofRules, inside_eq]

end Block

end UtilityCss
