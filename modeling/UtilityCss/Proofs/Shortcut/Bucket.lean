import UtilityCss.Proofs.Rule.Declarations
import UtilityCss.Proofs.Shortcut.Grouping

/-!
The buckets of a block.  A bucket is there exactly if some rule declares under its at-rules and its
selector, and it holds what the rules declare there, of each property the last.
-/

namespace UtilityCss

/-- Declarations under a chain of at-rules and a nesting selector; the empty selector is the element
itself. -/
structure Bucket where
  chain : List Text
  selector : Text
  declarations : List Text
deriving DecidableEq, Repr

namespace Rule

variable {rule : Rule} {selector : Text}

/-- Whether a rule declares something under a chain of at-rules and a nesting selector. -/
def Targets (rule : Rule) (chain : List Text) (selector : Text) : Prop :=
  rule.atRules = chain ∧ selector ∈ rule.targets.map Prod.fst

theorem IsOrderly.withAtRules (horderly : rule.IsOrderly) {chain : List Text}
    (hchain : ∀ atRule ∈ chain, atRule ∈ rule.atRules) :
    { rule with atRules := chain }.IsOrderly :=
  { horderly with head?_atRule := fun atRule hatRule =>
      horderly.head?_atRule atRule (hchain atRule hatRule) }

theorem IsOrderly.inside {rules : List Rule} (horderly : ∀ rule ∈ rules, rule.IsOrderly)
    (atRule : Text) : ∀ rule ∈ inside atRule rules, rule.IsOrderly := by
  intro inner hinner
  obtain ⟨rule, hrule, rfl⟩ := List.mem_map.mp hinner
  exact (horderly rule (List.mem_of_mem_filter hrule)).withAtRules fun _ => List.mem_of_mem_tail

theorem head?_zeroSpecificitySelector (ancestor subject suffix : Text) :
    (zeroSpecificitySelector ancestor subject suffix).head? = some ':' := by
  unfold zeroSpecificitySelector
  rfl

theorem head?_selectorOf (hancestor : rule.ancestor.head? ≠ some '@') :
    (Block.selectorOf rule).head? ≠ some '@' := by
  unfold Block.selectorOf
  split
  · simp
  · cases hrule : rule.ancestor with
    | nil => simp
    | cons first rest =>
        rw [hrule] at hancestor
        simpa using hancestor

theorem IsOrderly.head?_target (horderly : rule.IsOrderly)
    (hselector : selector ∈ rule.targets.map Prod.fst) : selector.head? ≠ some '@' := by
  have hown : (Block.selectorOf rule).head? ≠ some '@' := head?_selectorOf horderly.head?_ancestor
  rw [targets, List.map_append, List.mem_append] at hselector
  rcases hselector with hfallback | hdeclared
  · split at hfallback
    · cases hfallback
    · rw [List.map_singleton, List.mem_singleton] at hfallback
      rw [hfallback, head?_zeroSpecificitySelector]
      decide
  · rw [List.map_singleton, List.mem_singleton] at hdeclared
    exact hdeclared ▸ hown

/-- No target of a rule is without declarations. -/
theorem IsOrderly.target_ne_nil (horderly : rule.IsOrderly) {declarations : List Text}
    (htarget : (selector, declarations) ∈ rule.targets) : declarations ≠ [] := by
  rw [targets, List.mem_append] at htarget
  rcases htarget with hfallback | hdeclared
  · split at hfallback
    · cases hfallback
    · rename_i hne
      rw [List.mem_singleton, Prod.mk.injEq] at hfallback
      rw [hfallback.2]
      simpa using hne
  · rw [List.mem_singleton, Prod.mk.injEq] at hdeclared
    exact hdeclared.2 ▸ horderly.declarations_ne_nil

/-- Whatever a target declares is a complete declaration. -/
theorem IsOrderly.getLast?_target (horderly : rule.IsOrderly) {declarations : List Text}
    (htarget : (selector, declarations) ∈ rule.targets) :
    ∀ declaration ∈ declarations, declaration.getLast? = some ';' := by
  rw [targets, List.mem_append] at htarget
  rcases htarget with hfallback | hdeclared
  · split at hfallback
    · cases hfallback
    · rw [List.mem_singleton, Prod.mk.injEq] at hfallback
      exact hfallback.2 ▸ horderly.getLast?_fallback
  · rw [List.mem_singleton, Prod.mk.injEq] at hdeclared
    exact hdeclared.2 ▸ horderly.getLast?_declaration

end Rule

section Directed

variable {rules : List Rule} {chain : List Text} {selector atRule declaration : Text}

theorem mem_directed_iff :
    declaration ∈ directed rules chain selector ↔
      ∃ rule ∈ rules, rule.atRules = chain ∧
        ∃ declarations, (selector, declarations) ∈ rule.targets ∧ declaration ∈ declarations := by
  simp only [directed, List.mem_flatMap, List.mem_filter, decide_eq_true_iff, Prod.exists]
  constructor
  · rintro ⟨rule, ⟨hrule, hchain⟩, _, declarations, ⟨htarget, rfl⟩, hdeclaration⟩
    exact ⟨rule, hrule, hchain, declarations, htarget, hdeclaration⟩
  · rintro ⟨rule, hrule, hchain, declarations, htarget, hdeclaration⟩
    exact ⟨rule, ⟨hrule, hchain⟩, selector, declarations, ⟨htarget, rfl⟩, hdeclaration⟩

/-- Something is declared in a place exactly if some rule targets it. -/
theorem directed_ne_nil_iff (horderly : ∀ rule ∈ rules, rule.IsOrderly) :
    directed rules chain selector ≠ [] ↔ ∃ rule ∈ rules, rule.Targets chain selector := by
  constructor
  · intro hne
    obtain ⟨declaration, hdeclaration⟩ := List.exists_mem_of_ne_nil _ hne
    obtain ⟨rule, hrule, hchain, declarations, htarget, -⟩ := mem_directed_iff.mp hdeclaration
    exact ⟨rule, hrule, hchain, List.mem_map_of_mem htarget⟩
  · rintro ⟨rule, hrule, hchain, hselector⟩
    obtain ⟨⟨_, declarations⟩, htarget, rfl⟩ := List.mem_map.mp hselector
    obtain ⟨declaration, hdeclaration⟩ :=
      List.exists_mem_of_ne_nil _ ((horderly rule hrule).target_ne_nil htarget)
    exact List.ne_nil_of_mem
      (mem_directed_iff.mpr ⟨rule, hrule, hchain, declarations, htarget, hdeclaration⟩)

theorem getLast?_of_mem_directed (horderly : ∀ rule ∈ rules, rule.IsOrderly)
    (hdeclaration : declaration ∈ directed rules chain selector) :
    declaration.getLast? = some ';' := by
  obtain ⟨rule, hrule, -, declarations, htarget, hmem⟩ := mem_directed_iff.mp hdeclaration
  exact (horderly rule hrule).getLast?_target htarget declaration hmem

theorem mem_nestingSelectors_iff :
    selector ∈ nestingSelectors rules ↔
      selector ≠ [] ∧ ∃ rule ∈ rules, rule.Targets [] selector := by
  simp only [nestingSelectors, List.mem_eraseDups, List.mem_map, List.mem_filter, ownTargets,
    List.mem_flatMap, decide_eq_true_iff, Rule.Targets]
  constructor
  · rintro ⟨target, ⟨⟨rule, ⟨hrule, hchain⟩, htarget⟩, hne⟩, rfl⟩
    exact ⟨hne, rule, hrule, hchain, target, htarget, rfl⟩
  · rintro ⟨hne, rule, hrule, hchain, target, htarget, rfl⟩
    exact ⟨target, ⟨⟨rule, ⟨hrule, hchain⟩, htarget⟩, hne⟩, rfl⟩

theorem mem_outerAtRules_iff :
    atRule ∈ outerAtRules rules ↔ ∃ rule ∈ rules, rule.atRules.head? = some atRule := by
  simp [outerAtRules]

theorem mem_inside_iff {inner : Rule} :
    inner ∈ inside atRule rules ↔
      { inner with atRules := atRule :: inner.atRules } ∈ rules := by
  simp only [inside, List.mem_map, List.mem_filter, decide_eq_true_iff]
  constructor
  · rintro ⟨rule, ⟨hrule, hhead⟩, rfl⟩
    have hchain : atRule :: rule.atRules.tail = rule.atRules :=
      List.cons_head?_tail (by simpa using hhead)
    simpa [hchain] using hrule
  · intro hrule
    exact ⟨_, ⟨hrule, rfl⟩, rfl⟩

theorem exists_targets_inside_iff :
    (∃ inner ∈ inside atRule rules, inner.Targets chain selector) ↔
      ∃ rule ∈ rules, rule.Targets (atRule :: chain) selector := by
  constructor
  · rintro ⟨inner, hinner, rfl, hselector⟩
    exact ⟨_, mem_inside_iff.mp hinner, rfl, hselector⟩
  · rintro ⟨rule, hrule, hchain, hselector⟩
    refine ⟨{ rule with atRules := chain }, mem_inside_iff.mpr ?_, rfl, hselector⟩
    simpa [← hchain] using hrule

/-- How many heads of at-rules stand around some rules, all told. -/
def countAtRules (rules : List Rule) : Nat :=
  (rules.flatMap Rule.atRules).length

theorem countAtRules_cons (rule : Rule) (rules : List Rule) :
    countAtRules (rule :: rules) = rule.atRules.length + countAtRules rules := by
  rw [countAtRules, List.flatMap_cons, List.length_append, countAtRules]

/-- Every rule that is inside an at-rule loses a part of its chain there. -/
theorem length_add_countAtRules_inside_le (atRule : Text) (rules : List Rule) :
    (inside atRule rules).length + countAtRules (inside atRule rules) ≤ countAtRules rules := by
  induction rules with
  | nil => exact Nat.le_refl _
  | cons rule rest ih =>
      rw [inside] at ih ⊢
      by_cases hhead : rule.atRules.head? = some atRule
      · have hlength : rule.atRules.tail.length + 1 = rule.atRules.length := by
          cases hchain : rule.atRules with
          | nil => simp [hchain] at hhead
          | cons first chain => simp
        simp only [List.filter_cons, hhead, decide_true, ↓reduceIte, List.map_cons,
          List.length_cons, countAtRules_cons]
        omega
      · simp only [List.filter_cons, hhead, decide_false, Bool.false_eq_true, ↓reduceIte,
          countAtRules_cons]
        omega

theorem countAtRules_inside_lt (hatRule : atRule ∈ outerAtRules rules) :
    countAtRules (inside atRule rules) < countAtRules rules := by
  have hle := length_add_countAtRules_inside_le atRule rules
  obtain ⟨rule, hrule, hhead⟩ := mem_outerAtRules_iff.mp hatRule
  have hinside : { rule with atRules := rule.atRules.tail } ∈ inside atRule rules :=
    List.mem_map_of_mem (List.mem_filter.mpr ⟨hrule, decide_eq_true hhead⟩)
  have hpos := List.length_pos_of_mem hinside
  omega

end Directed

namespace Bucket

/-- The same bucket inside one more at-rule. -/
def within (atRule : Text) (bucket : Bucket) : Bucket :=
  { bucket with chain := atRule :: bucket.chain }

/-- The heads that a bucket stands under, the outermost first. -/
def heads (bucket : Bucket) : List Text :=
  bucket.chain ++ if bucket.selector = [] then [] else [bucket.selector]

/-- The declarations of a bucket, each with the heads above it. -/
def occurrences (bucket : Bucket) : List (List Text × Text) :=
  bucket.declarations.map fun declaration => (bucket.heads, declaration)

/-- The buckets that rules ask for.  At every level the declarations of the element itself come first,
then the nesting selectors and then the at-rules, both in the order in which they first come up. -/
def ofRules (rules : List Rule) : List Bucket :=
  (if directed rules [] [] = [] then []
    else [⟨[], [], lastPerProperty (directed rules [] [])⟩])
    ++ (nestingSelectors rules).map (fun selector =>
      ⟨[], selector, lastPerProperty (directed rules [] selector)⟩)
    ++ (outerAtRules rules).attach.flatMap fun ⟨atRule, _⟩ =>
      (ofRules (inside atRule rules)).map (within atRule)
  termination_by countAtRules rules
  decreasing_by exact countAtRules_inside_lt ‹_›

theorem ofRules_eq (rules : List Rule) :
    ofRules rules =
      (if directed rules [] [] = [] then []
        else [⟨[], [], lastPerProperty (directed rules [] [])⟩])
        ++ (nestingSelectors rules).map (fun selector =>
          ⟨[], selector, lastPerProperty (directed rules [] selector)⟩)
        ++ (outerAtRules rules).flatMap fun atRule =>
          (ofRules (inside atRule rules)).map (within atRule) := by
  rw [ofRules]
  simp

variable {rules : List Rule} {bucket : Bucket} {atRule : Text}

theorem mem_ofRules_iff :
    bucket ∈ ofRules rules ↔
      (directed rules [] [] ≠ [] ∧ bucket = ⟨[], [], lastPerProperty (directed rules [] [])⟩) ∨
        (∃ selector ∈ nestingSelectors rules,
          bucket = ⟨[], selector, lastPerProperty (directed rules [] selector)⟩) ∨
        ∃ atRule ∈ outerAtRules rules, ∃ inner ∈ ofRules (inside atRule rules),
          bucket = inner.within atRule := by
  rw [ofRules_eq, List.mem_append, List.mem_append, or_assoc]
  refine or_congr ?_ (or_congr ?_ ?_)
  · split
    · rename_i hnil
      simp [hnil]
    · rename_i hne
      simp [hne]
  · simp [eq_comm]
  · simp [eq_comm]

/-- A bucket holds what the rules declare in its place, of each property the last. -/
theorem declarations_of_mem (hbucket : bucket ∈ ofRules rules) :
    bucket.declarations = lastPerProperty (directed rules bucket.chain bucket.selector) := by
  induction rules using ofRules.induct generalizing bucket with
  | case1 rules ih =>
      rcases mem_ofRules_iff.mp hbucket with
        ⟨-, rfl⟩ | ⟨selector, -, rfl⟩ | ⟨atRule, hatRule, inner, hinner, rfl⟩
      · rfl
      · rfl
      · rw [within, directed_cons]
        exact ih atRule hatRule hinner

/-- There is a bucket in a place exactly if some rule targets it. -/
theorem exists_mem_iff {chain : List Text} {selector : Text}
    (horderly : ∀ rule ∈ rules, rule.IsOrderly) :
    (∃ bucket ∈ ofRules rules, bucket.chain = chain ∧ bucket.selector = selector) ↔
      ∃ rule ∈ rules, rule.Targets chain selector := by
  induction chain generalizing rules with
  | nil =>
      constructor
      · rintro ⟨bucket, hbucket, hchain, rfl⟩
        rcases mem_ofRules_iff.mp hbucket with
          ⟨hne, rfl⟩ | ⟨selector, hselector, rfl⟩ | ⟨atRule, hatRule, inner, hinner, rfl⟩
        · exact (directed_ne_nil_iff horderly).mp hne
        · exact (mem_nestingSelectors_iff.mp hselector).2
        · cases hchain
      · intro htargets
        by_cases hselector : selector = []
        · subst hselector
          have hne := (directed_ne_nil_iff horderly).mpr htargets
          exact ⟨_, mem_ofRules_iff.mpr (Or.inl ⟨hne, rfl⟩), rfl, rfl⟩
        · have hmem := mem_nestingSelectors_iff.mpr ⟨hselector, htargets⟩
          exact ⟨_, mem_ofRules_iff.mpr (Or.inr (Or.inl ⟨selector, hmem, rfl⟩)), rfl, rfl⟩
  | cons atRule chain ih =>
      rw [← exists_targets_inside_iff, ← ih (Rule.IsOrderly.inside horderly atRule)]
      constructor
      · rintro ⟨bucket, hbucket, hchain, rfl⟩
        rcases mem_ofRules_iff.mp hbucket with
          ⟨-, rfl⟩ | ⟨selector, -, rfl⟩ | ⟨first, -, inner, hinner, rfl⟩
        · cases hchain
        · cases hchain
        · obtain ⟨rfl, rfl⟩ := List.cons.inj hchain
          exact ⟨inner, hinner, rfl, rfl⟩
      · rintro ⟨inner, hinner, rfl, rfl⟩
        obtain ⟨rule, hrule, hchain, -⟩ :=
          exists_targets_inside_iff.mp
            ((ih (Rule.IsOrderly.inside horderly atRule)).mp ⟨inner, hinner, rfl, rfl⟩)
        have hatRule : atRule ∈ outerAtRules rules :=
          mem_outerAtRules_iff.mpr ⟨rule, hrule, by rw [hchain]; rfl⟩
        exact ⟨inner.within atRule,
          mem_ofRules_iff.mpr (Or.inr (Or.inr ⟨atRule, hatRule, inner, hinner, rfl⟩)), rfl, rfl⟩

end Bucket

namespace Block

mutual

/-- The buckets of a block in the order of its lines. -/
def buckets : Block → List Bucket
  | ⟨declarations, nested, atRules⟩ =>
      (if declarations = [] then [] else [⟨[], [], declarations⟩])
        ++ nested.map (fun (selector, bucket) => ⟨[], selector, bucket⟩)
        ++ atRuleBuckets atRules

/-- The buckets inside the at-rules of a block. -/
def atRuleBuckets : List (Text × Block) → List Bucket
  | [] => []
  | (atRule, block) :: rest => (buckets block).map (Bucket.within atRule) ++ atRuleBuckets rest

end

theorem atRuleBuckets_map (inner : Text → Block) (atRules : List Text) :
    atRuleBuckets (atRules.map fun atRule => (atRule, inner atRule)) =
      atRules.flatMap fun atRule => (inner atRule).buckets.map (Bucket.within atRule) := by
  induction atRules with
  | nil => rfl
  | cons atRule rest ih => rw [List.map_cons, atRuleBuckets, ih, List.flatMap_cons]

/-- A block has the buckets that its rules ask for. -/
theorem buckets_ofRules (rules : List Rule) : (ofRules rules).buckets = Bucket.ofRules rules := by
  induction rules using Bucket.ofRules.induct with
  | case1 rules ih =>
      rw [ofRules_eq, buckets, atRuleBuckets_map, Bucket.ofRules_eq, List.map_map]
      simp only [lastPerProperty_eq_nil_iff]
      congr 1
      refine List.flatMap_congr ?_
      intro atRule hatRule
      rw [ih atRule hatRule]

/-- A block is empty only if no rule was inserted. -/
theorem isEmpty_ofRules_iff {rules : List Rule} (horderly : ∀ rule ∈ rules, rule.IsOrderly) :
    (ofRules rules).isEmpty = true ↔ rules = [] := by
  constructor
  · intro hempty
    rw [ofRules_eq] at hempty
    simp only [isEmpty, Bool.and_eq_true, List.isEmpty_iff, lastPerProperty_eq_nil_iff,
      List.map_eq_nil_iff] at hempty
    obtain ⟨⟨hdirected, hnested⟩, houter⟩ := hempty
    rw [List.eq_nil_iff_forall_not_mem]
    intro rule hrule
    cases hchain : rule.atRules with
    | nil =>
        have htargets : rule.Targets [] (selectorOf rule) :=
          ⟨hchain, List.mem_map_of_mem (List.mem_append_right _ List.mem_cons_self)⟩
        by_cases hselector : selectorOf rule = []
        · rw [hselector] at htargets
          exact (directed_ne_nil_iff horderly).mpr ⟨rule, hrule, htargets⟩ hdirected
        · have hmem := mem_nestingSelectors_iff.mpr ⟨hselector, rule, hrule, htargets⟩
          rw [hnested] at hmem
          cases hmem
    | cons atRule chain =>
        have hmem := mem_outerAtRules_iff.mpr ⟨rule, hrule, by rw [hchain]; rfl⟩
        rw [houter] at hmem
        cases hmem
  · rintro rfl
    rfl

end Block

namespace Rule

variable {ctx : Context} {tokens : List Text}

/-- The rules of a list of class tokens, in order. -/
def ofTokens (ctx : Context) (tokens : List Text) : List Rule :=
  tokens.flatMap fun token => (ofToken? ctx token).getD []

theorem isOrderly_of_mem_ofTokens : ∀ rule ∈ ofTokens ctx tokens, rule.IsOrderly := by
  intro rule hrule
  obtain ⟨token, -, hrule⟩ := List.mem_flatMap.mp hrule
  cases hrules : ofToken? ctx token with
  | none => simp [hrules] at hrule
  | some rules =>
      rw [hrules] at hrule
      exact isOrderly_of_mem_ofToken? hrules hrule

theorem ofTokens_eq_nil_iff :
    ofTokens ctx tokens = [] ↔ ∀ token ∈ tokens, ofToken? ctx token = none := by
  rw [ofTokens, List.flatMap_eq_nil_iff]
  refine forall₂_congr ?_
  intro token _
  cases hrules : ofToken? ctx token with
  | none => simp
  | some rules => simpa using ofToken?_ne_nil hrules

end Rule

/-- The block of class tokens is empty exactly if none of them has a rule. -/
theorem isEmpty_blockOfTokens_iff {ctx : Context} {tokens : List Text} :
    (blockOfTokens ctx tokens).isEmpty = true ↔
      ∀ token ∈ tokens, Rule.ofToken? ctx token = none :=
  (Block.isEmpty_ofRules_iff Rule.isOrderly_of_mem_ofTokens).trans Rule.ofTokens_eq_nil_iff

end UtilityCss
