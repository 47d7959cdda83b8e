import Mathlib.Data.Finset.Card
import Mathlib.Logic.Relation
import UtilityCss.Document

/-!
The elements of a document as a forest.  A way up that never comes back has fewer steps than there
are elements, so the bounded climbs and walks of a document see all of it.
-/

namespace UtilityCss.Document

variable {doc : Document} {id ancestor parent child : ElementId}

/-- The element that many steps up. -/
def ancestor? (doc : Document) : (steps : Nat) → ElementId → Option ElementId
  | 0, id => some id
  | steps + 1, id => (doc.parent? id).bind (doc.ancestor? steps)

def IsParent (doc : Document) (child parent : ElementId) : Prop :=
  doc.parent? child = some parent

/-- An element is another one or somewhere below it. -/
def Below (doc : Document) (id ancestor : ElementId) : Prop :=
  Relation.ReflTransGen doc.IsParent id ancestor

theorem ancestor?_succ_eq_some_iff {steps : Nat} :
    doc.ancestor? (steps + 1) id = some ancestor ↔
      ∃ child, doc.ancestor? steps id = some child ∧ doc.parent? child = some ancestor := by
  induction steps generalizing id with
  | zero => simp [ancestor?]
  | succ steps ih =>
      rw [ancestor?, Option.bind_eq_some_iff]
      constructor
      · rintro ⟨next, hnext, hrest⟩
        obtain ⟨child, hchild, hparent⟩ := ih.mp hrest
        exact ⟨child, by rw [ancestor?, hnext]; exact hchild, hparent⟩
      · rintro ⟨child, hchild, hparent⟩
        rw [ancestor?, Option.bind_eq_some_iff] at hchild
        obtain ⟨next, hnext, hrest⟩ := hchild
        exact ⟨next, hnext, ih.mpr ⟨child, hrest, hparent⟩⟩

theorem below_iff_exists_ancestor? :
    doc.Below id ancestor ↔ ∃ steps, doc.ancestor? steps id = some ancestor := by
  constructor
  · intro hbelow
    induction hbelow with
    | refl => exact ⟨0, rfl⟩
    | tail _ hparent ih =>
        obtain ⟨steps, hsteps⟩ := ih
        exact ⟨steps + 1, ancestor?_succ_eq_some_iff.mpr ⟨_, hsteps, hparent⟩⟩
  · rintro ⟨steps, hsteps⟩
    induction steps generalizing ancestor with
    | zero =>
        cases hsteps
        exact Relation.ReflTransGen.refl
    | succ steps ih =>
        obtain ⟨child, hchild, hparent⟩ := ancestor?_succ_eq_some_iff.mp hsteps
        exact (ih hchild).tail hparent

/-- Two elements on one way up lie below each other in the order of their steps. -/
theorem transGen_of_ancestor? {first second : Nat} {low high : ElementId} (hlt : first < second)
    (hlow : doc.ancestor? first id = some low) (hhigh : doc.ancestor? second id = some high) :
    Relation.TransGen doc.IsParent low high := by
  induction second generalizing high with
  | zero => exact absurd hlt (Nat.not_lt_zero first)
  | succ second ih =>
      obtain ⟨child, hchild, hparent⟩ := ancestor?_succ_eq_some_iff.mp hhigh
      rcases Nat.lt_succ_iff_lt_or_eq.mp hlt with hless | rfl
      · exact (ih hless hchild).tail hparent
      · rw [hlow, Option.some.injEq] at hchild
        subst hchild
        exact Relation.TransGen.single hparent

theorem climbsTo_iff {steps : Nat} :
    doc.climbsTo ancestor steps id = true ↔
      ∃ n < steps, doc.ancestor? n id = some ancestor := by
  induction steps generalizing id with
  | zero => simp [climbsTo]
  | succ steps ih =>
      rw [climbsTo]
      by_cases hid : id = ancestor
      · rw [if_pos hid]
        exact iff_of_true rfl ⟨0, Nat.succ_pos steps, congrArg some hid⟩
      · rw [if_neg hid]
        cases hparent : doc.parent? id with
        | none =>
            refine iff_of_false (by simp) ?_
            rintro ⟨n, -, hn⟩
            cases n with
            | zero => exact hid (Option.some.inj hn)
            | succ n => simp [ancestor?, hparent] at hn
        | some parent =>
            rw [ih]
            constructor
            · rintro ⟨n, hn, hancestor⟩
              exact ⟨n + 1, Nat.succ_lt_succ hn, by rw [ancestor?, hparent]; exact hancestor⟩
            · rintro ⟨n, hn, hancestor⟩
              cases n with
              | zero => exact absurd (Option.some.inj hancestor) hid
              | succ n =>
                  rw [ancestor?, hparent] at hancestor
                  exact ⟨n, Nat.lt_of_succ_lt_succ hn, hancestor⟩

/-- The links of a document fit together: a child that exists is listed once by its parent and by
nobody else, and no way up comes back to where it began. -/
structure IsForest (doc : Document) : Prop where
  contains_root : doc.contains root = true
  mem_children_iff : ∀ {parent child : ElementId}, doc.contains child = true →
    (child ∈ doc.children parent ↔ doc.parent? child = some parent)
  count_children_le_one : ∀ {parent child : ElementId}, doc.contains child = true →
    (doc.children parent).count child ≤ 1
  eq_null_of_mem_children : ∀ {parent child : ElementId}, child ∈ doc.children parent →
    doc.contains child = false → child = .null
  contains_parent : ∀ {parent child : ElementId}, doc.parent? child = some parent →
    doc.contains parent = true
  acyclic : ∀ id, ¬ Relation.TransGen doc.IsParent id id

theorem contains_of_parent? (hparent : doc.parent? child = some parent) :
    doc.contains child = true := by
  rw [parent?, Option.bind_eq_some_iff] at hparent
  obtain ⟨element, helement, -⟩ := hparent
  simp [contains, helement]

theorem contains_iff_exists_number :
    doc.contains id = true ↔ ∃ number < doc.elements.length, id = .element number := by
  cases id with
  | null => simp [contains, element?]
  | element number => simp [contains, element?]

/-- Whoever has somebody above is one of the elements. -/
theorem exists_number_of_lt_steps {steps n : Nat} (hlt : n < steps)
    (hsteps : doc.ancestor? steps id = some ancestor) :
    ∃ number < doc.elements.length, doc.ancestor? n id = some (.element number) := by
  induction steps generalizing ancestor with
  | zero => exact absurd hlt (Nat.not_lt_zero n)
  | succ steps ih =>
      obtain ⟨child, hchild, hparent⟩ := ancestor?_succ_eq_some_iff.mp hsteps
      rcases Nat.lt_succ_iff_lt_or_eq.mp hlt with hless | rfl
      · exact ih hless hchild
      · obtain ⟨number, hnumber, rfl⟩ :=
          contains_iff_exists_number.mp (contains_of_parent? hparent)
        exact ⟨number, hnumber, hchild⟩

/-- A way up that is no longer there breaks at a link for the first time, below which it still
holds. -/
theorem exists_broken_link {before after : Document} (hway : before.Below id ancestor)
    (hbroken : ¬ after.Below id ancestor) :
    ∃ child parent, before.Below id child ∧ after.Below id child ∧ before.Below child ancestor ∧
      before.parent? child = some parent ∧ after.parent? child ≠ some parent := by
  induction hway using Relation.ReflTransGen.head_induction_on with
  | refl => exact absurd Relation.ReflTransGen.refl hbroken
  | @head low high hlink hrest ih =>
      by_cases hkept : after.IsParent low high
      · obtain ⟨child, parent, hbefore, hafter, htop, hparent, hlost⟩ :=
          ih fun hrest' => hbroken (hrest'.head hkept)
        exact ⟨child, parent, hbefore.head hlink, hafter.head hkept, htop, hparent, hlost⟩
      · exact ⟨low, high, Relation.ReflTransGen.refl, Relation.ReflTransGen.refl, hrest.head hlink,
          hlink, hkept⟩

/-- Whoever is below an element and attached to the root is attached by way of the element. -/
theorem below_root_of_below {start : ElementId} (hroot : doc.parent? root = none)
    (hbelow : doc.Below id start) (hid : doc.Below id root) : doc.Below start root := by
  have hunique : Relator.RightUnique doc.IsParent := by
    intro low first second hfirst hsecond
    rw [IsParent] at hfirst hsecond
    rw [hfirst, Option.some.injEq] at hsecond
    exact hsecond
  rcases Relation.ReflTransGen.total_of_right_unique hunique hbelow hid with hstart | hturn
  · exact hstart
  · rcases hturn.cases_head with rfl | ⟨parent, hparent, -⟩
    · exact Relation.ReflTransGen.refl
    · rw [IsParent, hroot] at hparent
      cases hparent

namespace IsForest

theorem contains_of_ancestor? (hforest : doc.IsForest) {steps : Nat}
    (hid : doc.contains id = true) (hsteps : doc.ancestor? steps id = some ancestor) :
    doc.contains ancestor = true := by
  cases steps with
  | zero =>
      cases hsteps
      exact hid
  | succ steps =>
      obtain ⟨child, -, hparent⟩ := ancestor?_succ_eq_some_iff.mp hsteps
      exact hforest.contains_parent hparent

/-- From an element a way up has fewer steps than the document has elements. -/
theorem steps_lt (hforest : doc.IsForest) {steps : Nat} (hid : doc.contains id = true)
    (hsteps : doc.ancestor? steps id = some ancestor) : steps < doc.elements.length := by
  by_contra hlong
  let numbered := (Finset.range doc.elements.length).image fun number =>
    some (ElementId.element number)
  have hcard : numbered.card < (Finset.range (steps + 1)).card := by
    calc numbered.card ≤ (Finset.range doc.elements.length).card := Finset.card_image_le
      _ = doc.elements.length := Finset.card_range _
      _ < steps + 1 := Nat.lt_succ_of_le (Nat.le_of_not_lt hlong)
      _ = (Finset.range (steps + 1)).card := (Finset.card_range (steps + 1)).symm
  have hnumber : ∀ n ∈ Finset.range (steps + 1),
      ∃ number < doc.elements.length, doc.ancestor? n id = some (.element number) := by
    intro n hn
    rcases Nat.lt_succ_iff_lt_or_eq.mp (Finset.mem_range.mp hn) with hlt | rfl
    · exact exists_number_of_lt_steps hlt hsteps
    · obtain ⟨number, hlt, rfl⟩ :=
        contains_iff_exists_number.mp (hforest.contains_of_ancestor? hid hsteps)
      exact ⟨number, hlt, hsteps⟩
  have hmaps : ∀ n ∈ Finset.range (steps + 1), doc.ancestor? n id ∈ numbered := by
    intro n hn
    obtain ⟨number, hlt, hancestor⟩ := hnumber n hn
    rw [hancestor]
    exact Finset.mem_image_of_mem _ (Finset.mem_range.mpr hlt)
  obtain ⟨first, hfirst, second, -, hne, hequal⟩ :=
    Finset.exists_ne_map_eq_of_card_lt_of_maps_to hcard hmaps
  obtain ⟨number, -, hlow⟩ := hnumber first hfirst
  have hhigh : doc.ancestor? second id = some (.element number) := hequal ▸ hlow
  rcases Nat.lt_or_gt_of_ne hne with hlt | hgt
  · exact hforest.acyclic _ (transGen_of_ancestor? hlt hlow hhigh)
  · exact hforest.acyclic _ (transGen_of_ancestor? hgt hhigh hlow)

/-- No way up has more steps than the document has elements. -/
theorem steps_le (hforest : doc.IsForest) {steps : Nat}
    (hsteps : doc.ancestor? steps id = some ancestor) : steps ≤ doc.elements.length := by
  cases steps with
  | zero => exact Nat.zero_le _
  | succ steps =>
      rw [ancestor?, Option.bind_eq_some_iff] at hsteps
      obtain ⟨parent, hparent, hrest⟩ := hsteps
      exact hforest.steps_lt (hforest.contains_parent hparent) hrest

theorem isBelow_iff (hforest : doc.IsForest) :
    doc.isBelow ancestor id = true ↔ doc.Below id ancestor := by
  rw [isBelow, climbsTo_iff, below_iff_exists_ancestor?]
  constructor
  · rintro ⟨n, -, hn⟩
    exact ⟨n, hn⟩
  · rintro ⟨n, hn⟩
    exact ⟨n, Nat.lt_succ_of_le (hforest.steps_le hn), hn⟩

theorem isConnected_iff (hforest : doc.IsForest) :
    doc.isConnected id = true ↔ doc.Below id root :=
  hforest.isBelow_iff

theorem contains_of_isConnected (hforest : doc.IsForest) (hid : doc.isConnected id = true) :
    doc.contains id = true := by
  rcases (hforest.isConnected_iff.mp hid).cases_head with rfl | ⟨parent, hparent, -⟩
  · exact hforest.contains_root
  · exact contains_of_parent? hparent

/-- The walk to a depth meets the elements from which the start is so many steps up. -/
theorem mem_preorder_iff (hforest : doc.IsForest) {depth : Nat} {start : ElementId}
    (hid : doc.contains id = true) :
    id ∈ doc.preorder depth start ↔ ∃ n ≤ depth, doc.ancestor? n id = some start := by
  induction depth generalizing start with
  | zero => simp [preorder, ancestor?]
  | succ depth ih =>
      rw [preorder, List.mem_cons, List.mem_flatMap]
      constructor
      · rintro (rfl | ⟨child, hchild, hwalk⟩)
        · exact ⟨0, Nat.zero_le _, rfl⟩
        · obtain ⟨n, hn, hancestor⟩ := ih.mp hwalk
          have hexists : doc.contains child = true := hforest.contains_of_ancestor? hid hancestor
          exact ⟨n + 1, Nat.succ_le_succ hn, ancestor?_succ_eq_some_iff.mpr
            ⟨child, hancestor, (hforest.mem_children_iff hexists).mp hchild⟩⟩
      · rintro ⟨n, hn, hancestor⟩
        cases n with
        | zero => exact Or.inl (Option.some.inj hancestor)
        | succ n =>
            obtain ⟨child, hchild, hparent⟩ := ancestor?_succ_eq_some_iff.mp hancestor
            have hexists : doc.contains child = true := contains_of_parent? hparent
            exact Or.inr ⟨child, (hforest.mem_children_iff hexists).mpr hparent,
              ih.mpr ⟨n, Nat.le_of_succ_le_succ hn, hchild⟩⟩

/-- Besides elements a walk only meets where it starts and null handles. -/
theorem eq_null_of_mem_preorder (hforest : doc.IsForest) {depth : Nat} {start : ElementId}
    (hmem : id ∈ doc.preorder depth start) (hid : doc.contains id = false) :
    id = start ∨ id = .null := by
  induction depth generalizing start with
  | zero => exact Or.inl (List.mem_singleton.mp hmem)
  | succ depth ih =>
      rw [preorder, List.mem_cons, List.mem_flatMap] at hmem
      rcases hmem with rfl | ⟨child, hchild, hwalk⟩
      · exact Or.inl rfl
      · rcases ih hwalk with rfl | hnull
        · exact Or.inr (hforest.eq_null_of_mem_children hchild hid)
        · exact Or.inr hnull

/-- A walk from an element meets exactly what is below it. -/
theorem mem_subtree_iff (hforest : doc.IsForest) {start : ElementId}
    (hid : doc.contains id = true) : id ∈ doc.subtree start ↔ doc.Below id start := by
  rw [subtree, hforest.mem_preorder_iff hid, below_iff_exists_ancestor?]
  constructor
  · rintro ⟨n, -, hn⟩
    exact ⟨n, hn⟩
  · rintro ⟨n, hn⟩
    exact ⟨n, hforest.steps_le hn, hn⟩

end IsForest

end UtilityCss.Document
