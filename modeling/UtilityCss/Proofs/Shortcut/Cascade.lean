import UtilityCss.Proofs.Rule.Importance
import UtilityCss.Proofs.Shortcut.Bucket

/-!
Merged declarations and the cascade.  Among the declarations of a property an important one wins, and
otherwise the last one does.  Merging keeps the last one whatever its importance, so it keeps the
winner exactly where the last one is important or none is.
-/

namespace UtilityCss

/-- Whether the value of a rendered declaration ends in the mark. -/
def isImportant (declaration : Text) : Bool :=
  (Declaration.importantMark ++ [';']).isSuffixOf declaration

theorem isImportant_render (declaration : Declaration) :
    isImportant declaration.render = true ↔ Declaration.importantMark <:+ declaration.value := by
  have hrender : declaration.render =
      ((declaration.property ++ [':']) ++ ' ' :: declaration.value) ++ [';'] := by
    simp [Declaration.render]
  rw [isImportant, List.isSuffixOf_iff_suffix, hrender, List.suffix_append_self_iff,
    Declaration.importantMark_suffix_iff]

/-- The declarations of a property, in order. -/
def declarationsOf (property : Text) (declarations : List Text) : List Text :=
  declarations.filter fun declaration => propertyOf declaration = property

/-- The declaration of a property that wins under the cascade: the last important one if there is one,
and otherwise the last one. -/
def winner? (property : Text) (declarations : List Text) : Option Text :=
  ((declarationsOf property declarations).filter isImportant).getLast?.or
    (declarationsOf property declarations).getLast?

/-- A property whose last declaration is important, if any of its declarations is. -/
def EndsImportant (property : Text) (declarations : List Text) : Prop :=
  (∃ declaration ∈ declarationsOf property declarations, isImportant declaration = true) →
    ∃ last ∈ (declarationsOf property declarations).getLast?, isImportant last = true

section Winner

variable {property : Text} {declarations : List Text}

theorem winner?_eq_getLast?_iff :
    winner? property declarations = (declarationsOf property declarations).getLast? ↔
      EndsImportant property declarations := by
  rw [winner?, EndsImportant]
  generalize declarationsOf property declarations = own
  constructor
  · rintro hwinner ⟨declaration, hmem, himportant⟩
    have hne : own.filter isImportant ≠ [] :=
      List.ne_nil_of_mem (List.mem_filter.mpr ⟨hmem, himportant⟩)
    have hlast := List.getLast?_eq_some_getLast hne
    rw [hlast, Option.some_or] at hwinner
    exact ⟨_, hwinner.symm, (List.mem_filter.mp (List.getLast_mem hne)).2⟩
  · intro hends
    by_cases hany : ∃ declaration ∈ own, isImportant declaration = true
    · obtain ⟨last, hlast, himportant⟩ := hends hany
      obtain ⟨earlier, rfl⟩ := List.getLast?_eq_some_iff.mp hlast
      simp [himportant]
    · have hnone : own.filter isImportant = [] := by
        rw [List.filter_eq_nil_iff]
        exact fun declaration hmem himportant => hany ⟨declaration, hmem, himportant⟩
      rw [hnone, List.getLast?_nil, Option.none_or]

theorem declarationsOf_cons (property first : Text) (rest : List Text) :
    declarationsOf property (first :: rest) =
      if propertyOf first = property then first :: declarationsOf property rest
      else declarationsOf property rest := by
  rw [declarationsOf, List.filter_cons]
  simp only [decide_eq_true_eq]
  rfl

theorem declarationsOf_eq_nil_iff :
    declarationsOf property declarations = [] ↔
      declarations.any (fun declaration => propertyOf declaration = property) = false := by
  rw [declarationsOf, List.filter_eq_nil_iff, List.any_eq_false]

/-- Of the declarations of a property, merging leaves the last one. -/
theorem declarationsOf_lastPerProperty (property : Text) (declarations : List Text) :
    declarationsOf property (lastPerProperty declarations) =
      (declarationsOf property declarations).getLast?.toList := by
  induction declarations with
  | nil => rfl
  | cons first rest ih =>
      rw [lastPerProperty, declarationsOf_cons property first rest]
      by_cases hfirst : propertyOf first = property
      · subst hfirst
        rw [if_pos rfl]
        cases hlater : rest.any fun later => propertyOf later = propertyOf first with
        | true =>
            have hne : declarationsOf (propertyOf first) rest ≠ [] := by
              rw [ne_eq, declarationsOf_eq_nil_iff, hlater]
              decide
            rw [if_pos rfl, ih, List.getLast?_cons_of_ne_nil hne]
        | false =>
            have hnil := declarationsOf_eq_nil_iff.mpr hlater
            rw [hnil] at ih ⊢
            rw [if_neg Bool.false_ne_true, declarationsOf_cons, if_pos rfl, ih]
            rfl
      · rw [if_neg hfirst, ← ih]
        split
        · rfl
        · rw [declarationsOf_cons, if_neg hfirst]

/-- In what is merged the last declaration of a property wins. -/
theorem winner?_lastPerProperty (property : Text) (declarations : List Text) :
    winner? property (lastPerProperty declarations) =
      (declarationsOf property declarations).getLast? := by
  rw [winner?, declarationsOf_lastPerProperty]
  cases (declarationsOf property declarations).getLast? with
  | none => rfl
  | some last => cases himportant : isImportant last <;> simp [himportant]

end Winner

/-- In a bucket that declarations are merged into, list after list, the last declaration of a property
wins.  This is the one that wins among all of them, as they stand one behind the other, exactly if it
is important or none of them is.  The same holds of each bucket of a block and what the rules of the
block declare there. -/
theorem winner?_merged (property : Text) :
    (∀ groups : List (List Text),
      let bucket := groups.foldl mergeDeclarations []
      winner? property bucket = (declarationsOf property groups.flatten).getLast? ∧
        (winner? property bucket = winner? property groups.flatten ↔
          EndsImportant property groups.flatten)) ∧
      ∀ rules, ∀ bucket ∈ (Block.ofRules rules).buckets,
        let inserted := directed rules bucket.chain bucket.selector
        winner? property bucket.declarations = (declarationsOf property inserted).getLast? ∧
          (winner? property bucket.declarations = winner? property inserted ↔
            EndsImportant property inserted) := by
  have hmerged : ∀ {bucket inserted : List Text}, bucket = lastPerProperty inserted →
      winner? property bucket = (declarationsOf property inserted).getLast? ∧
        (winner? property bucket = winner? property inserted ↔
          EndsImportant property inserted) := by
    rintro bucket inserted rfl
    rw [winner?_lastPerProperty, eq_comm (b := winner? property inserted),
      winner?_eq_getLast?_iff]
    exact ⟨rfl, Iff.rfl⟩
  refine ⟨fun groups => hmerged (foldl_mergeDeclarations groups []), fun rules bucket hbucket => ?_⟩
  rw [Block.buckets_ofRules] at hbucket
  exact hmerged (Bucket.declarations_of_mem hbucket)

/-- Tables with one padding. -/
def paddingContext : Context :=
  { tables := { properties := .ofList [("p".toList, ["padding".toList])] } }

/-- The rules of two paddings. -/
def paddings (first second : String) : List Rule :=
  Rule.ofTokens paddingContext [first.toList, second.toList]

/-- An important declaration that comes last wins in the bucket as well. -/
theorem winner?_merged_importantLast :
    let bucket : Bucket := ⟨[], [], ["padding: 16px !important;".toList]⟩
    bucket ∈ (Block.ofRules (paddings "p-2" "p-4!")).buckets ∧
      winner? "padding".toList bucket.declarations =
        winner? "padding".toList (directed (paddings "p-2" "p-4!") [] []) := by
  intro bucket
  have hbucket : bucket ∈ (Block.ofRules (paddings "p-2" "p-4!")).buckets := by
    rw [Block.buckets_ofRules, Bucket.mem_ofRules_iff]
    exact Or.inl (by decide +kernel)
  refine ⟨hbucket, ((winner?_merged "padding".toList).2 _ bucket hbucket).2.mpr fun _ => ?_⟩
  exact ⟨"padding: 16px !important;".toList, by decide +kernel, by decide +kernel⟩

/-- One that comes first is dropped for the plain one behind it, which it would have won over. -/
theorem winner?_merged_importantFirst :
    let groups := (paddings "p-4!" "p-2").map Rule.declarations
    winner? "padding".toList groups.flatten = some "padding: 16px !important;".toList ∧
      winner? "padding".toList (groups.foldl mergeDeclarations []) =
        some "padding: 8px;".toList ∧
      winner? "padding".toList (groups.foldl mergeDeclarations []) ≠
        winner? "padding".toList groups.flatten := by
  decide +kernel

end UtilityCss
