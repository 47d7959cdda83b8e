import UtilityCss.Compiler
import UtilityCss.Proofs.OrderedMap
import UtilityCss.Proofs.Shortcut.Bucket
import UtilityCss.Proofs.Text.Split

/-!
The inline style of a shortcut against its block.  Both keep of each property the last declaration,
one as rendered text and the other as what it reads in that text.  They agree as far as a declaration
can be read back.
-/

namespace UtilityCss

namespace Text

/-- Trimming adds nothing. -/
theorem mem_of_mem_trim {c : Char} {text : Text} (hc : c ∈ text.trim) : c ∈ text := by
  rw [trim, trimEnd, List.mem_reverse] at hc
  have hstart := List.mem_reverse.mp ((List.dropWhile_sublist isBlank).subset hc)
  exact (List.dropWhile_sublist isBlank).subset hstart

end Text

/-- The value that a rendered declaration gives to its property. -/
def valueOf (declaration : Text) : Text :=
  match Text.splitFirst ':' declaration with
  | some (_, rest) => Text.trim rest.dropLast
  | none => []

/-- A rendered declaration with no semicolon but the one that ends it, and with something on both
sides of its first colon. -/
structure IsPlain (declaration : Text) : Prop where
  not_mem_dropLast : ';' ∉ declaration.dropLast
  property_ne_nil : propertyOf declaration ≠ []
  value_ne_nil : valueOf declaration ≠ []

instance (declaration : Text) : Decidable (IsPlain declaration) :=
  decidable_of_iff
    (';' ∉ declaration.dropLast ∧ propertyOf declaration ≠ [] ∧ valueOf declaration ≠ [])
    ⟨fun ⟨hend, hproperty, hvalue⟩ => ⟨hend, hproperty, hvalue⟩,
      fun ⟨hend, hproperty, hvalue⟩ => ⟨hend, hproperty, hvalue⟩⟩

namespace Declaration

variable {declaration : Text} {declarations : List Text}

/-- What a rendered declaration declares. -/
def ofText (declaration : Text) : Declaration where
  property := propertyOf declaration
  value := valueOf declaration

/-- Rendering and reading only trim. -/
theorem ofText_render (declaration : Declaration) (hcolon : ':' ∉ declaration.property) :
    ofText declaration.render =
      { property := declaration.property.trim, value := declaration.value.trim } := by
  have hrender : declaration.render =
      declaration.property ++ ':' :: (' ' :: declaration.value ++ [';']) := by
    simp [render]
  have hsplit := Text.splitFirst_append_cons hcolon (' ' :: declaration.value ++ [';'])
  rw [ofText, propertyOf, valueOf, hrender, hsplit]
  dsimp only
  rw [List.dropLast_concat]
  rfl

/-- A semicolon ends a part of the block. -/
theorem ofBlock_append_semicolon (content rest : Text) :
    ofBlock (content ++ ';' :: rest) = ofBlock content ++ ofBlock rest := by
  have hcut : (content ++ ';' :: rest).splitOn ';' = content.splitOn ';' ++ rest.splitOn ';' := by
    rw [List.splitOn_eq_splitOnP, List.splitOn_eq_splitOnP, List.splitOn_eq_splitOnP]
    exact List.splitOnP_append_cons content rest (by decide)
  rw [ofBlock, hcut, List.filterMap_append, ofBlock, ofBlock]

theorem ofBlock_concat_semicolon (content : Text) :
    ofBlock (content ++ [';']) = ofBlock content :=
  (ofBlock_append_semicolon content []).trans (List.append_nil _)

/-- A block of complete declarations is read one by one. -/
theorem ofBlock_flatten (hend : ∀ declaration ∈ declarations, declaration.getLast? = some ';') :
    ofBlock declarations.flatten = declarations.flatMap ofBlock := by
  induction declarations with
  | nil => rfl
  | cons declaration rest ih =>
      have hrest := ih fun other hother => hend other (List.mem_cons_of_mem declaration hother)
      obtain ⟨content, hcontent⟩ :=
        List.getLast?_eq_some_iff.mp (hend declaration List.mem_cons_self)
      rw [List.flatten_cons, List.flatMap_cons, ← hrest, hcontent, List.append_assoc,
        List.singleton_append, ofBlock_append_semicolon, ofBlock_concat_semicolon]

theorem ofPart?_eq_some_iff {part : Text} {read : Declaration} :
    ofPart? part = some read ↔
      ∃ before after, Text.splitFirst ':' part = some (before, after) ∧ before.trim ≠ [] ∧
        after.trim ≠ [] ∧ read = { property := before.trim, value := after.trim } := by
  rw [ofPart?, Option.bind_eq_some_iff]
  constructor
  · rintro ⟨⟨before, after⟩, hsplit, hparts⟩
    dsimp only at hparts
    split at hparts
    · cases hparts
    · rename_i hfull
      rw [Bool.or_eq_true, not_or, List.isEmpty_iff, List.isEmpty_iff] at hfull
      exact ⟨before, after, hsplit, hfull.1, hfull.2, (Option.some.inj hparts).symm⟩
  · rintro ⟨before, after, hsplit, hbefore, hafter, rfl⟩
    exact ⟨(before, after), hsplit, by simp [hbefore, hafter]⟩

/-- What is read in a block has no semicolon, and nothing of it is empty. -/
theorem of_mem_ofBlock {block : Text} {read : Declaration} (hread : read ∈ ofBlock block) :
    ';' ∉ read.property ∧ read.property ≠ [] ∧ ';' ∉ read.value ∧ read.value ≠ [] := by
  obtain ⟨part, hpart, hsome⟩ := List.mem_filterMap.mp hread
  obtain ⟨before, after, hsplit, hbefore, hafter, rfl⟩ := ofPart?_eq_some_iff.mp hsome
  obtain ⟨rfl, -⟩ := Text.splitFirst_eq_some hsplit
  have hmark : ';' ∉ before ++ ':' :: after := Text.notMem_of_mem_splitOn hpart
  refine ⟨fun hmem => ?_, hbefore, fun hmem => ?_, hafter⟩
  · exact hmark (List.mem_append_left _ (Text.mem_of_mem_trim hmem))
  · exact hmark (List.mem_append_right _ (List.mem_cons_of_mem _ (Text.mem_of_mem_trim hmem)))

/-- A complete declaration with a value is cut where its content is cut. -/
theorem exists_splitFirst_of_value {content : Text} (hvalue : valueOf (content ++ [';']) ≠ []) :
    ∃ before after, Text.splitFirst ':' content = some (before, after) ∧
      propertyOf (content ++ [';']) = before.trim ∧ valueOf (content ++ [';']) = after.trim := by
  cases hsplit : Text.splitFirst ':' content with
  | none =>
      have hnone : Text.splitFirst ':' (content ++ [';']) = none := by
        rw [Text.splitFirst_eq_none_iff] at hsplit ⊢
        simpa using hsplit
      rw [valueOf, hnone] at hvalue
      exact absurd rfl hvalue
  | some cut =>
      obtain ⟨before, after⟩ := cut
      refine ⟨before, after, rfl, ?_⟩
      rw [propertyOf, valueOf, Text.splitFirst_append hsplit]
      dsimp only
      rw [List.dropLast_concat]
      exact ⟨rfl, rfl⟩

/-- A complete declaration is read back as it stands exactly if it is plain. -/
theorem ofBlock_eq_singleton_iff (hend : declaration.getLast? = some ';') :
    ofBlock declaration = [ofText declaration] ↔ IsPlain declaration := by
  obtain ⟨content, rfl⟩ := List.getLast?_eq_some_iff.mp hend
  rw [ofBlock_concat_semicolon]
  constructor
  · intro hread
    have hmem : ofText (content ++ [';']) ∈ ofBlock content := hread ▸ List.mem_cons_self
    obtain ⟨hbefore, hproperty, hafter, hvalue⟩ := of_mem_ofBlock hmem
    obtain ⟨before, after, hsplit, hpropertyOf, hvalueOf⟩ := exists_splitFirst_of_value hvalue
    rw [ofText, hpropertyOf] at hbefore
    rw [ofText, hvalueOf] at hafter
    refine ⟨?_, hproperty, hvalue⟩
    rw [List.dropLast_concat, (Text.splitFirst_eq_some hsplit).1, List.mem_append, List.mem_cons]
    rintro (hleft | hcolon | hright)
    · exact hbefore (Text.mem_trim hleft rfl)
    · cases hcolon
    · exact hafter (Text.mem_trim hright rfl)
  · rintro ⟨hmark, hproperty, hvalue⟩
    obtain ⟨before, after, hsplit, hpropertyOf, hvalueOf⟩ := exists_splitFirst_of_value hvalue
    rw [List.dropLast_concat] at hmark
    have hpart : ofPart? content = some (ofText (content ++ [';'])) := by
      refine ofPart?_eq_some_iff.mpr ⟨before, after, hsplit, hpropertyOf ▸ hproperty,
        hvalueOf ▸ hvalue, ?_⟩
      rw [ofText, hpropertyOf, hvalueOf]
    rw [ofBlock, List.splitOn_eq_singleton hmark, List.filterMap_cons, hpart, List.filterMap_nil]

end Declaration

namespace InlineStyle

/-- A write puts the declaration last and leaves no other of its property. -/
theorem entries_write (style : InlineStyle) (declaration : Declaration) :
    (style.write declaration).entries =
      style.entries.filter (fun entry => entry.1 ≠ declaration.property) ++
        [(declaration.property, withoutImportance declaration.value)] := by
  have hkeys := OrderedMap.keys_erase style declaration.property
  have herased : declaration.property ∉ (style.erase declaration.property).keys := by
    simp [hkeys]
  exact Entries.alter_of_not_mem herased _

/-- What an inline style takes from a rendered declaration. -/
def entryOf (declaration : Text) : Text × Text :=
  (propertyOf declaration, withoutImportance (valueOf declaration))

/-- Writing declarations keeps the last one of each property, as merging their texts does. -/
theorem entries_foldl_write (declarations : List Text) :
    ((declarations.map Declaration.ofText).foldl write .empty).entries =
      (lastPerProperty declarations).map entryOf := by
  induction declarations using List.reverseRecOn with
  | nil => rfl
  | append_singleton earlier declaration ih =>
      rw [List.map_append, List.foldl_append, ← mergeDeclaration_lastPerProperty, mergeDeclaration,
        List.map_append, List.map_singleton, List.map_singleton, List.foldl_cons, List.foldl_nil,
        entries_write, ih, List.filter_map]
      rfl

/-- Filling adds the defaults of the properties that are not set, in their order. -/
theorem entries_fillFrom (defaults style : InlineStyle) :
    (defaults.fillFrom style).entries =
      style.entries ++ defaults.entries.filter fun entry => entry.1 ∉ style.keys := by
  rw [fillFrom]
  have hnodup := defaults.nodup_keys
  generalize defaults.entries = entries at hnodup
  induction entries generalizing style with
  | nil => simp
  | cons entry rest ih =>
      obtain ⟨property, value⟩ := entry
      rw [List.map_cons, List.nodup_cons] at hnodup
      rw [List.foldl_cons, ih _ hnodup.2]
      dsimp only
      by_cases hset : property ∈ style.keys
      · simp only [OrderedMap.insertNew_of_mem hset]
        rw [List.filter_cons_of_neg (by simpa using hset)]
      · have hadded := OrderedMap.entries_insertNew_of_not_mem hset value
        have hkeys : (style.insertNew property value).keys = style.keys ++ [property] := by
          rw [OrderedMap.keys, hadded, List.map_append]
          rfl
        have hrest : rest.filter (fun entry => entry.1 ∉ (style.insertNew property value).keys) =
            rest.filter fun entry => entry.1 ∉ style.keys := by
          refine List.filter_congr fun other hother => ?_
          have hmem : other.1 ∈ rest.map Prod.fst := List.mem_map_of_mem hother
          have hne : other.1 ≠ property := fun heq => hnodup.1 (heq ▸ hmem)
          simp [hkeys, hne]
        rw [hrest, hadded, List.filter_cons_of_pos (by simpa using hset), List.append_assoc,
          List.singleton_append]

end InlineStyle

/-- The one default there is. -/
def positionDefault : Text := "position: relative;".toList

theorem Resolution.render_of_overridable {ctx : Context} {base : Text} {resolution : Resolution}
    {declaration : Declaration} (hread : ofBase? ctx base = some resolution)
    (hdeclaration : declaration ∈ resolution.declarations)
    (hdefault : declaration.overridable = true) : declaration.render = positionDefault := by
  rw [(eq_defaultPosition_of_overridable hread hdeclaration hdefault).1]
  rfl

namespace Rule

variable {ctx : Context} {tokens : List Text} {rule : Rule}

theorem fallback_eq_of_mem_ofTokens (hrule : rule ∈ ofTokens ctx tokens) :
    ∀ fallback ∈ rule.fallbacks, fallback = positionDefault := by
  intro fallback hfallback
  obtain ⟨raw, -, hrule⟩ := List.mem_flatMap.mp hrule
  obtain ⟨rules, hrules⟩ : ∃ rules, ofToken? ctx raw = some rules := by
    cases hrules : ofToken? ctx raw with
    | none => simp [hrules] at hrule
    | some rules => exact ⟨rules, rfl⟩
  rw [hrules, Option.getD_some] at hrule
  obtain ⟨reading, -, inner, hinner, rfl⟩ := exists_reading_of_mem hrules hrule
  rw [fallbacks_under] at hfallback
  obtain ⟨resolution, hresolution, -, rfl⟩ := ofParsed?_eq_some_iff.mp hinner
  obtain ⟨declaration, hdeclaration, rfl⟩ := List.mem_map.mp hfallback
  obtain ⟨hmem, hdefault⟩ := List.mem_filter.mp hdeclaration
  exact Resolution.render_of_overridable hresolution hmem hdefault

/-- A rule about the element itself, whatever the viewport, its state and its ancestors. -/
structure IsBare (rule : Rule) : Prop where
  unconditional : rule.isUnconditional = true
  ancestor : rule.ancestor = []

theorem IsBare.atRules_eq (hbare : rule.IsBare) : rule.atRules = [] := by
  have hunconditional := hbare.unconditional
  rw [isUnconditional, Bool.and_eq_true, Bool.and_eq_true] at hunconditional
  exact List.isEmpty_iff.mp hunconditional.1.1

theorem IsBare.suffix_eq (hbare : rule.IsBare) : rule.suffix = [] := by
  have hunconditional := hbare.unconditional
  rw [isUnconditional, Bool.and_eq_true, Bool.and_eq_true] at hunconditional
  exact List.isEmpty_iff.mp hunconditional.1.2

end Rule

/-- The nesting selector of the defaults of an element itself. -/
def defaultSelector : Text := zeroSpecificitySelector [] ['&'] []

/-- The defaults that a block holds for the element itself. -/
def Block.defaults (block : Block) : List Text :=
  (Entries.get? defaultSelector block.nested).getD []

section Bare

variable {rules : List Rule}

theorem Rule.IsBare.targets_eq {rule : Rule} (hbare : rule.IsBare) : rule.targets =
    (if rule.fallbacks.isEmpty then [] else [(defaultSelector, rule.fallbacks)])
      ++ [([], rule.declarations)] := by
  rw [Rule.targets, Block.selectorOf, hbare.ancestor, hbare.suffix_eq]
  rfl

theorem directed_eq_flatMap (hbare : ∀ rule ∈ rules, rule.IsBare) {selector : Text}
    {read : Rule → List Text} (hread : ∀ rule ∈ rules,
      (rule.targets.filter fun target => target.1 = selector).flatMap Prod.snd = read rule) :
    directed rules [] selector = rules.flatMap read := by
  have hall : rules.filter (fun rule => rule.atRules = []) = rules :=
    List.filter_eq_self.mpr fun rule hrule => decide_eq_true (hbare rule hrule).atRules_eq
  rw [directed, hall]
  exact List.flatMap_congr hread

/-- The declarations of bare rules all belong to the element itself. -/
theorem directed_own (hbare : ∀ rule ∈ rules, rule.IsBare) :
    directed rules [] [] = rules.flatMap Rule.declarations := by
  refine directed_eq_flatMap hbare fun rule hrule => ?_
  have hselector : defaultSelector ≠ [] := by decide
  rw [(hbare rule hrule).targets_eq]
  split <;> simp [hselector]

/-- Their defaults all go to one bucket. -/
theorem directed_default (hbare : ∀ rule ∈ rules, rule.IsBare) :
    directed rules [] defaultSelector = rules.flatMap Rule.fallbacks := by
  refine directed_eq_flatMap hbare fun rule hrule => ?_
  have hselector : [] ≠ defaultSelector := by decide
  rw [(hbare rule hrule).targets_eq]
  split
  · rename_i hempty
    simp [hselector, List.isEmpty_iff.mp hempty]
  · simp [hselector]

theorem Block.defaults_ofRules (horderly : ∀ rule ∈ rules, rule.IsOrderly) :
    (Block.ofRules rules).defaults = lastPerProperty (directed rules [] defaultSelector) := by
  rw [Block.defaults, Block.ofRules_eq]
  dsimp only
  rw [Entries.get?_map_self]
  split
  · rfl
  · rename_i hselector
    have hnone : directed rules [] defaultSelector = [] := by
      by_contra hne
      have htargets := (directed_ne_nil_iff horderly).mp hne
      exact hselector (mem_nestingSelectors_iff.mpr ⟨by decide, htargets⟩)
    rw [hnone]
    rfl

variable {ctx : Context} {tokens : List Text}

/-- The block of bare rules: the declarations, of each property the last. -/
theorem declarations_blockOfTokens (hbare : ∀ rule ∈ Rule.ofTokens ctx tokens, rule.IsBare) :
    (blockOfTokens ctx tokens).declarations =
      lastPerProperty ((Rule.ofTokens ctx tokens).flatMap Rule.declarations) := by
  rw [← directed_own hbare]
  exact congrArg Block.declarations (Block.ofRules_eq _)

theorem defaults_blockOfTokens (hbare : ∀ rule ∈ Rule.ofTokens ctx tokens, rule.IsBare) :
    (blockOfTokens ctx tokens).defaults =
      lastPerProperty ((Rule.ofTokens ctx tokens).flatMap Rule.fallbacks) := by
  rw [← directed_default hbare]
  exact Block.defaults_ofRules Rule.isOrderly_of_mem_ofTokens

end Bare

theorem lastPerProperty_replicate (declaration : Text) (count : Nat) :
    lastPerProperty (List.replicate (count + 1) declaration) = [declaration] := by
  induction count with
  | zero => rfl
  | succ count ih =>
      have hagain : (List.replicate (count + 1) declaration).any
          (fun later => propertyOf later = propertyOf declaration) = true := by
        simp [List.replicate_succ]
      rw [List.replicate_succ, lastPerProperty, if_pos hagain, ih]

/-- Plain declarations of rules, in the order in which an inline style reads them. -/
theorem flatMap_ofBlock {rules : List Rule} {part : Rule → List Text}
    (hend : ∀ rule ∈ rules, ∀ declaration ∈ part rule, declaration.getLast? = some ';')
    (hplain : ∀ rule ∈ rules, ∀ declaration ∈ part rule, IsPlain declaration) :
    (rules.flatMap fun rule => Declaration.ofBlock (part rule).flatten) =
      (rules.flatMap part).map Declaration.ofText := by
  rw [List.map_eq_flatMap, List.flatMap_assoc]
  refine List.flatMap_congr fun rule hrule => ?_
  rw [Declaration.ofBlock_flatten (hend rule hrule)]
  refine List.flatMap_congr fun declaration hdeclaration => ?_
  exact (Declaration.ofBlock_eq_singleton_iff (hend rule hrule declaration hdeclaration)).mpr
    (hplain rule hrule declaration hdeclaration)

namespace InlineStyle

variable {rules : List Rule}

/-- Inserting the same again changes nothing. -/
theorem foldl_insert_replicate (style : InlineStyle) (declaration : Declaration) (count : Nat) :
    (List.replicate (count + 1) declaration).foldl
        (fun style declaration => style.insert declaration.property declaration.value) style =
      style.insert declaration.property declaration.value := by
  induction count generalizing style with
  | zero => rfl
  | succ count ih =>
      rw [List.replicate_succ, List.foldl_cons, ih, OrderedMap.insert_insert_self]

/-- Where every default is the same, its first place is as good as its last. -/
theorem entries_defaultsOfRules
    (hdefault : ∀ rule ∈ rules, ∀ fallback ∈ rule.fallbacks, fallback = positionDefault) :
    (defaultsOfRules rules).entries =
      (lastPerProperty (rules.flatMap Rule.fallbacks)).map fun fallback =>
        (propertyOf fallback, valueOf fallback) := by
  have hend : positionDefault.getLast? = some ';' := by decide
  have hplain : IsPlain positionDefault := by decide
  have hsame : ∀ fallback ∈ rules.flatMap Rule.fallbacks, fallback = positionDefault := by
    intro fallback hfallback
    obtain ⟨rule, hrule, hmem⟩ := List.mem_flatMap.mp hfallback
    exact hdefault rule hrule fallback hmem
  rw [defaultsOfRules, flatMap_ofBlock
    (fun rule hrule fallback hmem => hdefault rule hrule fallback hmem ▸ hend)
    (fun rule hrule fallback hmem => hdefault rule hrule fallback hmem ▸ hplain),
    List.eq_replicate_of_mem hsame, List.map_replicate]
  cases (rules.flatMap Rule.fallbacks).length with
  | zero => rfl
  | succ count =>
      rw [foldl_insert_replicate, lastPerProperty_replicate]
      rfl

variable {ctx : Context} {tokens : List Text}

theorem ofTokens_of_isBare (hbare : ∀ rule ∈ Rule.ofTokens ctx tokens, rule.IsBare) :
    ofTokens ctx tokens =
      (defaultsOfRules (Rule.ofTokens ctx tokens)).fillFrom (ofRules (Rule.ofTokens ctx tokens)) := by
  have hall : (Rule.ofTokens ctx tokens).filter Rule.isUnconditional = Rule.ofTokens ctx tokens :=
    List.filter_eq_self.mpr fun rule hrule => (hbare rule hrule).unconditional
  rw [ofTokens, ← Rule.ofTokens, hall]

/-- The inline style of tokens with bare rules and plain declarations: what their block declares for
the element, and the defaults of the properties that are not declared. -/
theorem entries_ofTokens (hbare : ∀ rule ∈ Rule.ofTokens ctx tokens, rule.IsBare)
    (hplain : ∀ rule ∈ Rule.ofTokens ctx tokens, ∀ declaration ∈ rule.declarations,
      IsPlain declaration) :
    (ofTokens ctx tokens).entries =
      (blockOfTokens ctx tokens).declarations.map entryOf ++
        ((blockOfTokens ctx tokens).defaults.filter fun fallback =>
          propertyOf fallback ∉ (blockOfTokens ctx tokens).declarations.map propertyOf).map
            fun fallback => (propertyOf fallback, valueOf fallback) := by
  have hend : ∀ rule ∈ Rule.ofTokens ctx tokens, ∀ declaration ∈ rule.declarations,
      declaration.getLast? = some ';' := fun rule hrule =>
    (Rule.isOrderly_of_mem_ofTokens rule hrule).getLast?_declaration
  have hset : (ofRules (Rule.ofTokens ctx tokens)).entries =
      (blockOfTokens ctx tokens).declarations.map entryOf := by
    rw [ofRules, flatMap_ofBlock hend hplain, entries_foldl_write, declarations_blockOfTokens hbare]
  have hfill : (defaultsOfRules (Rule.ofTokens ctx tokens)).entries =
      (blockOfTokens ctx tokens).defaults.map fun fallback =>
        (propertyOf fallback, valueOf fallback) := by
    rw [entries_defaultsOfRules fun _ hrule => Rule.fallback_eq_of_mem_ofTokens hrule,
      defaults_blockOfTokens hbare]
  have hkeys : (ofRules (Rule.ofTokens ctx tokens)).keys =
      (blockOfTokens ctx tokens).declarations.map propertyOf := by
    rw [OrderedMap.keys, hset, List.map_map]
    rfl
  rw [ofTokens_of_isBare hbare, entries_fillFrom, hset, hfill, List.filter_map, ← hkeys]
  rfl

theorem ofClass_of_expand {name : Text} (hname : ctx.shortcuts.contains name = true)
    (hexpand : ctx.shortcuts.expand name = .ok tokens) :
    ofClass ctx name = .ok (ofTokens ctx tokens) := by
  rw [ofClass, if_pos hname, hexpand]
  rfl

end InlineStyle

namespace Compiler

/-- A shortcut that leads to no cycle, and whose tokens have bare rules with plain declarations, has
the inline style that its block writes: of each property of the element the value without its
importance, in the order of the block, and then the defaults of the properties that are left. -/
theorem inlineStyle_of_isPlain {compiler : Compiler} {name : Text}
    (hname : compiler.shortcuts.contains name = true)
    (hacyclic : ¬ compiler.shortcuts.LeadsToCycle name)
    (hrules : ∀ tokens, compiler.shortcuts.expand name = .ok tokens →
      ∀ rule ∈ Rule.ofTokens compiler.context tokens,
        rule.isUnconditional = true ∧ rule.ancestor = [] ∧
          ∀ declaration ∈ rule.declarations, IsPlain declaration) :
    ∃ tokens, compiler.shortcuts.expand name = .ok tokens ∧
      let block := blockOfTokens compiler.context tokens
      shortcutText? compiler.context name =
          .ok (if block.isEmpty then none else some (block.render (shortcutSelector name))) ∧
        ∃ style, compiler.inlineStyle name = (compiler, style) ∧
          style.entries =
            block.declarations.map (fun declaration =>
              (propertyOf declaration, withoutImportance (valueOf declaration))) ++
            (block.defaults.filter fun fallback =>
              propertyOf fallback ∉ block.declarations.map propertyOf).map fun fallback =>
                (propertyOf fallback, valueOf fallback) := by
  obtain ⟨tokens, hexpand⟩ := (Shortcuts.expand_eq_ok_iff compiler.shortcuts name).mpr hacyclic
  have hbare : ∀ rule ∈ Rule.ofTokens compiler.context tokens, rule.IsBare := fun rule hrule =>
    ⟨(hrules tokens hexpand rule hrule).1, (hrules tokens hexpand rule hrule).2.1⟩
  have hplain : ∀ rule ∈ Rule.ofTokens compiler.context tokens,
      ∀ declaration ∈ rule.declarations, IsPlain declaration := fun rule hrule =>
    (hrules tokens hexpand rule hrule).2.2
  have htext : shortcutText? compiler.context name =
      .ok (if (blockOfTokens compiler.context tokens).isEmpty then none
        else some ((blockOfTokens compiler.context tokens).render (shortcutSelector name))) :=
    congrArg (Except.map _) hexpand
  refine ⟨tokens, hexpand, htext, InlineStyle.ofTokens compiler.context tokens, ?_,
    InlineStyle.entries_ofTokens hbare hplain⟩
  have hclass : InlineStyle.ofClass compiler.context name =
      .ok (InlineStyle.ofTokens compiler.context tokens) :=
    InlineStyle.ofClass_of_expand hname hexpand
  rw [inlineStyle, hclass]

/-- A compiler with a shortcut that declares a property twice, once important, and offsets it. -/
def cardCompiler : Compiler where
  tables :=
    { properties := .ofList
        [("p".toList, ["padding".toList]), ("top".toList, ["top".toList]),
          ("m".toList, ["margin-left".toList, "margin-right".toList])] }
  shortcuts := .ofList
    [("card".toList, "p-4 base m-1 p-8!".toList), ("base".toList, "top-2 unknown".toList)]

theorem inlineStyle_of_isPlain_card :
    cardCompiler.shortcuts.contains "card".toList = true ∧
      ¬ cardCompiler.shortcuts.LeadsToCycle "card".toList ∧
      (∀ tokens, cardCompiler.shortcuts.expand "card".toList = .ok tokens →
        ∀ rule ∈ Rule.ofTokens cardCompiler.context tokens,
          rule.isUnconditional = true ∧ rule.ancestor = [] ∧
            ∀ declaration ∈ rule.declarations, IsPlain declaration) ∧
      ∃ style, cardCompiler.inlineStyle "card".toList = (cardCompiler, style) ∧
        style.entries =
          [("top".toList, "8px".toList), ("margin-left".toList, "4px".toList),
            ("margin-right".toList, "4px".toList), ("padding".toList, "32px".toList),
            ("position".toList, "relative".toList)] := by
  have hname : cardCompiler.shortcuts.contains "card".toList = true := by decide +kernel
  have hexpand : cardCompiler.shortcuts.expand "card".toList =
      .ok ["p-4".toList, "top-2".toList, "unknown".toList, "m-1".toList, "p-8!".toList] := by
    decide +kernel
  have hacyclic := (Shortcuts.expand_eq_ok_iff _ _).mp ⟨_, hexpand⟩
  have hrules : ∀ tokens, cardCompiler.shortcuts.expand "card".toList = .ok tokens →
      ∀ rule ∈ Rule.ofTokens cardCompiler.context tokens,
        rule.isUnconditional = true ∧ rule.ancestor = [] ∧
          ∀ declaration ∈ rule.declarations, IsPlain declaration := by
    intro tokens htokens
    obtain rfl := Except.ok.inj (hexpand.symm.trans htokens)
    decide +kernel
  obtain ⟨tokens, htokens, -, style, hstyle, hentries⟩ :=
    inlineStyle_of_isPlain hname hacyclic hrules
  obtain rfl := Except.ok.inj (hexpand.symm.trans htokens)
  refine ⟨hname, hacyclic, hrules, style, hstyle, hentries.trans ?_⟩
  decide +kernel

/-- A compiler with a shortcut for an image whose address has a semicolon. -/
def badgeCompiler : Compiler where
  tables :=
    { properties := .ofList
        [("bg".toList, ["background-color".toList]), ("p".toList, ["padding".toList])] }
  shortcuts := .ofList [("badge".toList, "bg-[url(data:image/png;base64,AA)] p-4".toList)]

/-- The tokens that the shortcut stands for. -/
def badgeTokens : List Text :=
  ["bg-[url(data:image/png;base64,AA)]".toList, "p-4".toList]

/-- A value with a semicolon is whole in the block of a shortcut, and cut in its inline style. -/
theorem inlineStyle_cut_at_semicolon :
    ¬ badgeCompiler.shortcuts.LeadsToCycle "badge".toList ∧
      badgeCompiler.shortcuts.expand "badge".toList = .ok badgeTokens ∧
      (∀ rule ∈ Rule.ofTokens badgeCompiler.context badgeTokens,
        rule.isUnconditional = true ∧ rule.ancestor = []) ∧
      (blockOfTokens badgeCompiler.context badgeTokens).declarations =
        ["background-color: url(data:image/png;base64,AA);".toList, "padding: 16px;".toList] ∧
      ∃ style, badgeCompiler.inlineStyle "badge".toList = (badgeCompiler, style) ∧
        style.entries =
          [("background-color".toList, "url(data:image/png".toList),
            ("padding".toList, "16px".toList)] := by
  have hname : badgeCompiler.shortcuts.contains "badge".toList = true := by decide +kernel
  have hexpand : badgeCompiler.shortcuts.expand "badge".toList = .ok badgeTokens := by
    decide +kernel
  have hrules : Rule.ofTokens badgeCompiler.context badgeTokens =
      [{ declarations := ["background-color: url(data:image/png;base64,AA);".toList] },
        { declarations := ["padding: 16px;".toList] }] := by
    decide +kernel
  have hblock : blockOfTokens badgeCompiler.context badgeTokens =
      Block.ofRules (Rule.ofTokens badgeCompiler.context badgeTokens) := rfl
  have hclass : InlineStyle.ofClass badgeCompiler.context "badge".toList =
      .ok (InlineStyle.ofTokens badgeCompiler.context badgeTokens) :=
    InlineStyle.ofClass_of_expand hname hexpand
  refine ⟨(Shortcuts.expand_eq_ok_iff _ _).mp ⟨_, hexpand⟩, hexpand, ?_, ?_,
    InlineStyle.ofTokens badgeCompiler.context badgeTokens, ?_, ?_⟩
  · rw [hrules]
    decide +kernel
  · rw [hblock, hrules]
    decide +kernel
  · rw [inlineStyle, hclass]
  · rw [InlineStyle.ofTokens, ← Rule.ofTokens, hrules]
    decide +kernel

end Compiler

end UtilityCss
