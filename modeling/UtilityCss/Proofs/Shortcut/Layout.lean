import UtilityCss.Proofs.Shortcut.Bucket

/-!
The lines of a block, read back.  A reader that only knows which braces are open finds every bucket
once, under its own heads, and finds no head opened twice.
-/

namespace UtilityCss

/-- What a line says under the heads that are open before it, the outermost first. -/
inductive Mark where
  | opens (heads : List Text)
  | declares (heads : List Text) (declaration : Text)
deriving DecidableEq, Repr

namespace Mark

/-- Read lines under open heads.  The last character of a line tells whether it opens braces, closes
them or declares something. -/
def read (heads : List Text) : List Text → List Mark
  | [] => []
  | line :: rest =>
      let content := line.drop (2 * heads.length)
      if line.getLast? = some '\x7b' then
        let inner := heads ++ [content.take (content.length - 2)]
        .opens inner :: read inner rest
      else if line.getLast? = some '\x7d' then read heads.dropLast rest
      else .declares heads content :: read heads rest

/-- The same mark inside of more heads. -/
def below (outer : List Text) : Mark → Mark
  | opens heads => opens (outer ++ heads)
  | declares heads declaration => declares (outer ++ heads) declaration

/-- The heads that are opened, each with the ones around it. -/
def opened (marks : List Mark) : List (List Text) :=
  marks.filterMap fun
    | opens heads => some heads
    | declares _ _ => none

/-- The declarations, each with the heads around it. -/
def declared (marks : List Mark) : List (List Text × Text) :=
  marks.filterMap fun
    | opens _ => none
    | declares heads declaration => some (heads, declaration)

/-- The marks of a head with braces around others. -/
def braced (head : Text) (marks : List Mark) : List Mark :=
  opens [head] :: marks.map (below [head])

variable {head : Text} {heads outer inner lines rest : List Text} {marks : List Mark}

theorem map_below_below (outer inner : List Text) (marks : List Mark) :
    (marks.map (below inner)).map (below outer) = marks.map (below (outer ++ inner)) := by
  rw [List.map_map]
  refine List.map_congr_left ?_
  intro mark _
  cases mark <;> simp [below]

theorem map_below_nil (marks : List Mark) : marks.map (below []) = marks := by
  refine (List.map_congr_left ?_).trans (List.map_id marks)
  intro mark _
  cases mark <;> rfl

theorem opened_append (first second : List Mark) :
    opened (first ++ second) = opened first ++ opened second :=
  List.filterMap_append

theorem declared_append (first second : List Mark) :
    declared (first ++ second) = declared first ++ declared second :=
  List.filterMap_append

theorem opened_map_below (outer : List Text) (marks : List Mark) :
    opened (marks.map (below outer)) = (opened marks).map (outer ++ ·) := by
  induction marks with
  | nil => rfl
  | cons mark rest ih => cases mark <;> simpa [opened, below] using ih

theorem declared_map_below (outer : List Text) (marks : List Mark) :
    declared (marks.map (below outer)) =
      (declared marks).map fun declaration => (outer ++ declaration.1, declaration.2) := by
  induction marks with
  | nil => rfl
  | cons mark rest ih => cases mark <;> simpa [declared, below] using ih

theorem opened_braced (head : Text) (marks : List Mark) :
    opened (braced head marks) = ([] :: opened marks).map (head :: ·) := by
  have hmarks := opened_map_below [head] marks
  simpa [opened, braced] using hmarks

theorem declared_braced (head : Text) (marks : List Mark) :
    declared (braced head marks) =
      (declared marks).map fun declaration => (head :: declaration.1, declaration.2) := by
  have hmarks := declared_map_below [head] marks
  simpa [declared, braced] using hmarks

theorem opened_declares (declarations : List Text) :
    opened (declarations.map (declares [])) = [] := by
  simp [opened]

theorem declared_declares (declarations : List Text) :
    declared (declarations.map (declares [])) = declarations.map fun text => ([], text) := by
  simp [declared]

/-- Lines that read as the same marks wherever they stand at their depth. -/
def Reads (depth : Nat) (lines : List Text) (marks : List Mark) : Prop :=
  ∀ heads rest : List Text, heads.length = depth →
    read heads (lines ++ rest) = marks.map (below heads) ++ read heads rest

theorem reads_nil (depth : Nat) : Reads depth [] [] := by
  intro heads rest _
  rfl

theorem Reads.append {depth : Nat} {more : List Text} {others : List Mark}
    (hlines : Reads depth lines marks) (hmore : Reads depth more others) :
    Reads depth (lines ++ more) (marks ++ others) := by
  intro heads rest hdepth
  rw [List.append_assoc, hlines heads _ hdepth, hmore heads rest hdepth, List.map_append,
    List.append_assoc]

theorem Reads.flatMap {α : Type} {depth : Nat} {items : List α} {linesOf : α → List Text}
    {marksOf : α → List Mark} (hitems : ∀ item ∈ items, Reads depth (linesOf item) (marksOf item)) :
    Reads depth (items.flatMap linesOf) (items.flatMap marksOf) := by
  induction items with
  | nil => exact reads_nil depth
  | cons item rest ih =>
      exact (hitems item List.mem_cons_self).append
        (ih fun other hother => hitems other (List.mem_cons_of_mem item hother))

theorem drop_indentation (depth : Nat) (text : Text) :
    (Block.indentation depth ++ text).drop (2 * depth) = text := by
  simp [Block.indentation]

theorem reads_declaration (depth : Nat) {declaration : Text}
    (hend : declaration.getLast? = some ';') :
    Reads depth [Block.indentation depth ++ declaration] [.declares [] declaration] := by
  intro heads rest hdepth
  have hline : (Block.indentation depth ++ declaration).getLast? = some ';' := by
    simp [List.getLast?_append, hend]
  rw [List.singleton_append, read, hdepth, drop_indentation, hline]
  simp [below]

theorem reads_declarations (depth : Nat) {declarations : List Text}
    (hend : ∀ declaration ∈ declarations, declaration.getLast? = some ';') :
    Reads depth (declarations.map (Block.indentation depth ++ ·))
      (declarations.map (.declares [])) := by
  rw [List.map_eq_flatMap, List.map_eq_flatMap]
  exact Reads.flatMap fun declaration hdeclaration =>
    reads_declaration depth (hend declaration hdeclaration)

theorem read_openLine (heads rest : List Text) (head : Text) :
    read heads (Block.openLine (Block.indentation heads.length) head :: rest) =
      .opens (heads ++ [head]) :: read (heads ++ [head]) rest := by
  have hend : (Block.openLine (Block.indentation heads.length) head).getLast? = some '\x7b' := by
    simp [Block.openLine, List.getLast?_append]
  have hline : (Block.openLine (Block.indentation heads.length) head).drop (2 * heads.length) =
      head ++ " \x7b".toList := by
    rw [Block.openLine, List.append_assoc, drop_indentation]
  have hhead : (head ++ " \x7b".toList).take ((head ++ " \x7b".toList).length - 2) = head := by
    simp
  simp only [read, hend, hline, hhead, ↓reduceIte]

theorem read_closeLine (heads rest : List Text) (head : Text) :
    read (heads ++ [head]) (Block.closeLine (Block.indentation heads.length) :: rest) =
      read heads rest := by
  have hend : (Block.closeLine (Block.indentation heads.length)).getLast? = some '\x7d' := by
    simp [Block.closeLine]
  simp [read, hend]

/-- Lines in braces read one level deeper, and what follows reads as before. -/
theorem Reads.braces {depth : Nat} (head : Text) (hlines : Reads (depth + 1) lines marks) :
    Reads depth
      (Block.openLine (Block.indentation depth) head
        :: lines ++ [Block.closeLine (Block.indentation depth)])
      (braced head marks) := by
  rintro heads rest rfl
  have hinner : (heads ++ [head]).length = heads.length + 1 := by
    rw [List.length_append, List.length_singleton]
  rw [List.cons_append, List.cons_append, read_openLine, List.append_assoc, hlines _ _ hinner,
    List.singleton_append, read_closeLine, braced, List.map_cons, map_below_below]
  rfl

end Mark

namespace Block

mutual

/-- What the lines of a block say. -/
def marks : Block → List Mark
  | ⟨declarations, nested, atRules⟩ =>
      declarations.map (.declares [])
        ++ nested.flatMap (fun (selector, bucket) =>
          Mark.braced selector (bucket.map (.declares [])))
        ++ atRuleMarks atRules

/-- What the lines of the at-rules of a block say. -/
def atRuleMarks : List (Text × Block) → List Mark
  | [] => []
  | (atRule, block) :: rest => Mark.braced atRule (marks block) ++ atRuleMarks rest

end

theorem atRuleMarks_map (inner : Text → Block) (atRules : List Text) :
    atRuleMarks (atRules.map fun atRule => (atRule, inner atRule)) =
      atRules.flatMap fun atRule => Mark.braced atRule (inner atRule).marks := by
  induction atRules with
  | nil => rfl
  | cons atRule rest ih => rw [List.map_cons, atRuleMarks, ih, List.flatMap_cons]

theorem atRuleLines_map (depth : Nat) (inner : Text → Block) (atRules : List Text) :
    atRuleLines depth (atRules.map fun atRule => (atRule, inner atRule)) =
      atRules.flatMap fun atRule =>
        openLine (indentation depth) atRule
          :: (inner atRule).lines (depth + 1) ++ [closeLine (indentation depth)] := by
  induction atRules with
  | nil => rfl
  | cons atRule rest ih =>
      rw [List.map_cons, atRuleLines, ih, List.flatMap_cons]
      simp

/-- The lines of a block read as its marks at any depth. -/
theorem reads_ofRules {rules : List Rule} (horderly : ∀ rule ∈ rules, rule.IsOrderly)
    (depth : Nat) : Mark.Reads depth ((ofRules rules).lines depth) (ofRules rules).marks := by
  induction rules using Bucket.ofRules.induct generalizing depth with
  | case1 rules ih =>
      have hend : ∀ selector, ∀ declaration ∈ lastPerProperty (directed rules [] selector),
          declaration.getLast? = some ';' := fun selector declaration hdeclaration =>
        getLast?_of_mem_directed horderly (mem_of_mem_lastPerProperty hdeclaration)
      rw [ofRules_eq, lines, marks, atRuleLines_map, atRuleMarks_map, List.flatMap_map,
        List.flatMap_map]
      refine ((Mark.reads_declarations depth (hend [])).append ?_).append ?_
      · refine Mark.Reads.flatMap ?_
        intro selector _
        exact (Mark.reads_declarations (depth + 1) (hend selector)).braces selector
      · refine Mark.Reads.flatMap ?_
        intro atRule hatRule
        exact (ih atRule hatRule (Rule.IsOrderly.inside horderly atRule) (depth + 1)).braces atRule

/-- The heads that the lines of a block open, with those around it left out, and the empty list for
the block itself. -/
def places (block : Block) : List (List Text) :=
  [] :: Mark.opened block.marks

theorem places_ofRules (rules : List Rule) :
    (ofRules rules).places =
      [] :: (nestingSelectors rules).map (fun selector => [selector])
        ++ (outerAtRules rules).flatMap fun atRule =>
          (ofRules (inside atRule rules)).places.map (atRule :: ·) := by
  have hopened : ∀ {α : Type} (items : List α) (marksOf : α → List Mark),
      Mark.opened (items.flatMap marksOf) = items.flatMap fun item => Mark.opened (marksOf item) :=
    fun items marksOf => List.filterMap_flatMap
  rw [places, ofRules_eq, marks, atRuleMarks_map, Mark.opened_append, Mark.opened_append,
    Mark.opened_declares, hopened, hopened, List.flatMap_map, List.nil_append]
  simp only [Mark.opened_braced, Mark.opened_declares, List.map_singleton, places]
  rw [← List.map_eq_flatMap, List.cons_append]

theorem nodup_places_inside {rules : List Rule}
    (hnodup : ∀ atRule ∈ outerAtRules rules, (ofRules (inside atRule rules)).places.Nodup) :
    ((outerAtRules rules).flatMap fun atRule =>
      (ofRules (inside atRule rules)).places.map (atRule :: ·)).Nodup := by
  refine List.nodup_flatMap.mpr ⟨?_, ?_⟩
  · intro atRule hatRule
    exact (hnodup atRule hatRule).map List.cons_injective
  · have hatRules : (outerAtRules rules).Nodup := nodup_eraseDups _
    refine hatRules.imp ?_
    intro first second hne path hfirst hsecond
    obtain ⟨_, -, rfl⟩ := List.mem_map.mp hfirst
    obtain ⟨_, -, heq⟩ := List.mem_map.mp hsecond
    exact hne (List.cons.inj heq).1.symm

/-- No head is opened twice in the same place: an at-rule is never taken for a selector. -/
theorem nodup_places {rules : List Rule} (horderly : ∀ rule ∈ rules, rule.IsOrderly) :
    (ofRules rules).places.Nodup := by
  induction rules using Bucket.ofRules.induct with
  | case1 rules ih =>
      have hinner := nodup_places_inside fun atRule hatRule =>
        ih atRule hatRule (Rule.IsOrderly.inside horderly atRule)
      rw [places_ofRules, List.cons_append, List.nodup_cons, List.nodup_append]
      refine ⟨?_, ?_, hinner, ?_⟩
      · simp
      · exact (nodup_eraseDups _).map fun _ _ heq => (List.cons.inj heq).1
      · intro nested hnested path hpath
        obtain ⟨selector, hselector, rfl⟩ := List.mem_map.mp hnested
        obtain ⟨atRule, hatRule, hpath⟩ := List.mem_flatMap.mp hpath
        obtain ⟨inner, -, rfl⟩ := List.mem_map.mp hpath
        intro heq
        obtain ⟨rfl, -⟩ := List.cons.inj heq
        obtain ⟨-, rule, hrule, -, htarget⟩ := mem_nestingSelectors_iff.mp hselector
        obtain ⟨other, hother, hhead⟩ := mem_outerAtRules_iff.mp hatRule
        exact (horderly rule hrule).head?_target htarget
          ((horderly other hother).head?_atRule selector (List.mem_of_head? hhead))

theorem sublist_flatMap {α β : Type} {items : List α} {part whole : α → List β}
    (hitems : ∀ item ∈ items, (part item).Sublist (whole item)) :
    (items.flatMap part).Sublist (items.flatMap whole) := by
  induction items with
  | nil => exact List.Sublist.refl []
  | cons item rest ih =>
      exact (hitems item List.mem_cons_self).append
        (ih fun other hother => hitems other (List.mem_cons_of_mem item hother))

/-- The buckets stand in different places. -/
theorem heads_sublist_places (rules : List Rule) :
    ((Bucket.ofRules rules).map Bucket.heads).Sublist (ofRules rules).places := by
  induction rules using Bucket.ofRules.induct with
  | case1 rules ih =>
      rw [Bucket.ofRules_eq, places_ofRules, List.map_append, List.map_append, List.map_map,
        List.map_flatMap]
      change List.Sublist _ ([[]] ++ _ ++ _)
      refine (List.Sublist.append ?_ ?_).append (sublist_flatMap ?_)
      · split
        · exact List.nil_sublist _
        · exact List.Sublist.refl _
      · have hheads : (nestingSelectors rules).map (Bucket.heads ∘ fun selector =>
              ⟨[], selector, lastPerProperty (directed rules [] selector)⟩) =
            (nestingSelectors rules).map fun selector => [selector] := by
          refine List.map_congr_left ?_
          intro selector hselector
          simp [Bucket.heads, (mem_nestingSelectors_iff.mp hselector).1]
        rw [hheads]
      · intro atRule hatRule
        have hinner := (ih atRule hatRule).map (atRule :: ·)
        rwa [List.map_map] at hinner ⊢

/-- The lines of a block declare what its buckets hold, bucket by bucket, under their heads. -/
theorem declared_ofRules (rules : List Rule) :
    Mark.declared (ofRules rules).marks = (Bucket.ofRules rules).flatMap Bucket.occurrences := by
  have hdeclared : ∀ {α : Type} (items : List α) (marksOf : α → List Mark),
      Mark.declared (items.flatMap marksOf) =
        items.flatMap fun item => Mark.declared (marksOf item) :=
    fun items marksOf => List.filterMap_flatMap
  induction rules using Bucket.ofRules.induct with
  | case1 rules ih =>
      rw [ofRules_eq, marks, atRuleMarks_map, Mark.declared_append, Mark.declared_append,
        Mark.declared_declares, hdeclared, hdeclared, List.flatMap_map, Bucket.ofRules_eq,
        List.flatMap_append, List.flatMap_append, List.flatMap_map, List.flatMap_assoc]
      congr 1
      · congr 1
        · split
          · rename_i hnil
            rw [hnil]
            rfl
          · simp [Bucket.occurrences, Bucket.heads]
        · refine List.flatMap_congr ?_
          intro selector hselector
          simp [Mark.declared_braced, Mark.declared_declares, Bucket.occurrences, Bucket.heads,
            (mem_nestingSelectors_iff.mp hselector).1]
      · refine List.flatMap_congr ?_
        intro atRule hatRule
        rw [Mark.declared_braced, ih atRule hatRule, List.flatMap_map, List.map_flatMap]
        refine List.flatMap_congr ?_
        intro bucket _
        rw [Bucket.occurrences, List.map_map]
        rfl

end Block

section Shortcut

variable {ctx : Context} {name : Text} {tokens : List Text}

/-- The lines of the rule text of a shortcut that stands for class tokens. -/
def shortcutLines (ctx : Context) (name : Text) (tokens : List Text) : List Text :=
  Block.openLine [] (shortcutSelector name)
    :: (blockOfTokens ctx tokens).lines 1 ++ [Block.closeLine []]

/-- The rule text of a shortcut shows the rules of its tokens, regrouped into buckets. -/
structure ShowsBuckets (ctx : Context) (name : Text) (tokens : List Text) : Prop where
  text_eq : shortcutText? ctx name = .ok (some (['\n'].intercalate (shortcutLines ctx name tokens)))
  /-- The order of the buckets. -/
  buckets_eq : (blockOfTokens ctx tokens).buckets = Bucket.ofRules (Rule.ofTokens ctx tokens)
  exists_bucket_iff : ∀ chain selector,
    (∃ bucket ∈ (blockOfTokens ctx tokens).buckets,
        bucket.chain = chain ∧ bucket.selector = selector) ↔
      ∃ rule ∈ Rule.ofTokens ctx tokens, rule.Targets chain selector
  declarations_eq : ∀ bucket ∈ (blockOfTokens ctx tokens).buckets,
    bucket.declarations =
      lastPerProperty (directed (Rule.ofTokens ctx tokens) bucket.chain bucket.selector)
  nodup_properties : ∀ bucket ∈ (blockOfTokens ctx tokens).buckets,
    (bucket.declarations.map propertyOf).Nodup
  nodup_heads : ((blockOfTokens ctx tokens).buckets.map Bucket.heads).Nodup
  /-- Read from the top, the lines declare one bucket after the other, each under its heads. -/
  declared_eq : Mark.declared (Mark.read [] (shortcutLines ctx name tokens)) =
    (blockOfTokens ctx tokens).buckets.flatMap fun bucket =>
      bucket.declarations.map fun text => (shortcutSelector name :: bucket.heads, text)
  /-- No bucket is torn apart: no head is opened again in the same place. -/
  nodup_opened : (Mark.opened (Mark.read [] (shortcutLines ctx name tokens))).Nodup

theorem read_shortcutLines (ctx : Context) (name : Text) (tokens : List Text) :
    Mark.read [] (shortcutLines ctx name tokens) =
      Mark.braced (shortcutSelector name) (blockOfTokens ctx tokens).marks := by
  have horderly : ∀ rule ∈ Rule.ofTokens ctx tokens, rule.IsOrderly :=
    Rule.isOrderly_of_mem_ofTokens
  have hreads := (Block.reads_ofRules horderly 1).braces (shortcutSelector name) [] [] rfl
  rwa [List.append_nil, Mark.map_below_nil, Mark.read, List.append_nil] at hreads

/-- A shortcut that leads to no cycle and has a token with a rule has a rule text, and it shows the
rules of the tokens in buckets: one bucket in each place that some rule targets, with the last
declaration of each property that the rules direct there, written once under its own heads. -/
theorem showsBuckets_of_not_leadsToCycle (hacyclic : ¬ ctx.shortcuts.LeadsToCycle name) :
    ∃ tokens, ctx.shortcuts.expand name = .ok tokens ∧
      ((∃ token ∈ tokens, (Rule.ofToken? ctx token).isSome = true) →
        ShowsBuckets ctx name tokens) := by
  obtain ⟨tokens, hexpand⟩ := (Shortcuts.expand_eq_ok_iff ctx.shortcuts name).mpr hacyclic
  refine ⟨tokens, hexpand, ?_⟩
  rintro ⟨token, htoken, hrule⟩
  have horderly : ∀ rule ∈ Rule.ofTokens ctx tokens, rule.IsOrderly :=
    Rule.isOrderly_of_mem_ofTokens
  have hbuckets : (blockOfTokens ctx tokens).buckets =
      Bucket.ofRules (Rule.ofTokens ctx tokens) := Block.buckets_ofRules _
  have hfull : (blockOfTokens ctx tokens).isEmpty = false := by
    rw [← Bool.not_eq_true, isEmpty_blockOfTokens_iff]
    intro hnone
    rw [hnone token htoken] at hrule
    cases hrule
  refine ⟨?_, hbuckets, ?_, ?_, ?_, ?_, ?_, ?_⟩
  · simp only [shortcutText?, hexpand, Except.map, hfull, Bool.false_eq_true, ↓reduceIte]
    rfl
  · intro chain selector
    rw [hbuckets]
    exact Bucket.exists_mem_iff horderly
  · intro bucket hbucket
    rw [hbuckets] at hbucket
    exact Bucket.declarations_of_mem hbucket
  · intro bucket hbucket
    rw [hbuckets] at hbucket
    rw [Bucket.declarations_of_mem hbucket]
    exact nodup_lastPerProperty _
  · rw [hbuckets]
    exact (Block.nodup_places horderly).sublist (Block.heads_sublist_places _)
  · have hdeclared : Mark.declared (blockOfTokens ctx tokens).marks =
        (Bucket.ofRules (Rule.ofTokens ctx tokens)).flatMap Bucket.occurrences :=
      Block.declared_ofRules _
    rw [read_shortcutLines, Mark.declared_braced, hdeclared, hbuckets, List.map_flatMap]
    refine List.flatMap_congr ?_
    intro bucket _
    rw [Bucket.occurrences, List.map_map]
    rfl
  · rw [read_shortcutLines, Mark.opened_braced]
    exact (Block.nodup_places horderly).map List.cons_injective

/-- A shortcut whose tokens meet in the same buckets, at two levels. -/
def panelContext : Context :=
  { tables :=
      { properties := .ofList [("p".toList, ["padding".toList]), ("top".toList, ["top".toList])]
        keywords := .ofList [("flex".toList, "display: flex;".toList)] }
    shortcuts := .ofList
      [("panel".toList, "top-2 hover:p-2 m:hover:p-1 m:p-3 base".toList),
        ("base".toList, "p-4 hover:p-5 dark:flex".toList)] }

/-- The tokens that the shortcut stands for. -/
def panelTokens : List Text :=
  ["top-2".toList, "hover:p-2".toList, "m:hover:p-1".toList, "m:p-3".toList, "p-4".toList,
    "hover:p-5".toList, "dark:flex".toList]

theorem showsBuckets_panel :
    ¬ panelContext.shortcuts.LeadsToCycle "panel".toList ∧
      panelContext.shortcuts.expand "panel".toList = .ok panelTokens ∧
      (∃ token ∈ panelTokens, (Rule.ofToken? panelContext token).isSome = true) ∧
      ShowsBuckets panelContext "panel".toList panelTokens ∧
      (blockOfTokens panelContext panelTokens).buckets.map Bucket.heads =
        [[], [":where(&)".toList], ["&:hover".toList], [".dark &".toList],
          ["@media (max-width: 640px)".toList],
          ["@media (max-width: 640px)".toList, "&:hover".toList]] := by
  have hexpand : panelContext.shortcuts.expand "panel".toList = .ok panelTokens := by
    decide +kernel
  have hacyclic := (Shortcuts.expand_eq_ok_iff _ _).mp ⟨_, hexpand⟩
  have hrule : ∃ token ∈ panelTokens, (Rule.ofToken? panelContext token).isSome = true :=
    ⟨"p-4".toList, by decide +kernel, by decide +kernel⟩
  obtain ⟨tokens, htokens, hshows⟩ := showsBuckets_of_not_leadsToCycle hacyclic
  obtain rfl := Except.ok.inj (hexpand.symm.trans htokens)
  exact ⟨hacyclic, hexpand, hrule, hshows hrule, by decide +kernel⟩

end Shortcut

end UtilityCss
