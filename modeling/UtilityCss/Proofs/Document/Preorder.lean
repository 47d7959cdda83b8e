import UtilityCss.Proofs.Document.Links

/-!
The walk over a tree.  In a forest no branch is longer than the walk is deep, so the walk from an
element is the element followed by the walks from its children, and it meets every element below it
once.
-/

namespace UtilityCss

/-- Where one item alone brings an element, and brings it once, it is there once. -/
theorem count_flatMap_le_one {α β : Type} [DecidableEq α] [DecidableEq β] {f : α → List β}
    {items : List α} {item : α} {element : β}
    (hother : ∀ other ∈ items, other ≠ item → element ∉ f other) (hitem : items.count item ≤ 1)
    (hf : (f item).count element ≤ 1) : (items.flatMap f).count element ≤ 1 := by
  induction items with
  | nil => exact Nat.zero_le 1
  | cons first rest ih =>
      rw [List.flatMap_cons, List.count_append]
      have hrest : ∀ other ∈ rest, other ≠ item → element ∉ f other :=
        fun other hmem => hother other (List.mem_cons_of_mem first hmem)
      by_cases hfirst : first = item
      · subst hfirst
        have hlast : first ∉ rest := by
          rw [List.count_cons_self] at hitem
          exact List.count_eq_zero.mp (Nat.le_zero.mp (Nat.le_of_succ_le_succ hitem))
        have hnone : element ∉ rest.flatMap f := by
          intro hmem
          obtain ⟨other, hrestMem, helement⟩ := List.mem_flatMap.mp hmem
          exact hrest other hrestMem (fun heq => hlast (heq ▸ hrestMem)) helement
        rw [List.count_eq_zero.mpr hnone, Nat.add_zero]
        exact hf
      · rw [List.count_eq_zero.mpr (hother first List.mem_cons_self hfirst), Nat.zero_add]
        exact ih hrest (List.count_cons_of_ne hfirst ▸ hitem)

namespace Document

variable {doc : Document} {id start parent child : ElementId}

/-- No branch below an element is longer than this. -/
def HeightLE (doc : Document) : (depth : Nat) → ElementId → Prop
  | 0, id => doc.children id = []
  | depth + 1, id => ∀ child ∈ doc.children id, HeightLE doc depth child

theorem children_eq_nil_of_not_contains (hid : doc.contains id = false) : doc.children id = [] := by
  rw [children, element?_of_not_contains hid]

/-- A walk that is as deep as the longest branch gains nothing by going deeper. -/
theorem preorder_succ_of_heightLE {depth : Nat} (hheight : doc.HeightLE depth id) :
    doc.preorder (depth + 1) id = doc.preorder depth id := by
  induction depth generalizing id with
  | zero =>
      have hnone : doc.children id = [] := hheight
      simp [preorder, hnone]
  | succ depth ih =>
      rw [preorder, preorder]
      exact congrArg (id :: ·) (List.flatMap_congr fun child hchild => ih (hheight child hchild))

namespace IsForest

/-- A branch that is longer ends, after that many steps, at an element which has children. -/
theorem exists_ancestor?_of_not_heightLE (hforest : doc.IsForest) {depth : Nat}
    (hheight : ¬ doc.HeightLE depth start) :
    ∃ id, doc.contains id = true ∧ doc.ancestor? depth id = some start := by
  induction depth generalizing start with
  | zero =>
      refine ⟨start, ?_, rfl⟩
      rw [← Bool.not_eq_false]
      exact fun habsent => hheight (children_eq_nil_of_not_contains habsent)
  | succ depth ih =>
      simp only [HeightLE, not_forall] at hheight
      obtain ⟨child, hchild, hdeep⟩ := hheight
      obtain ⟨id, hid, hancestor⟩ := ih hdeep
      have hexists : doc.contains child = true := hforest.contains_of_ancestor? hid hancestor
      exact ⟨id, hid, ancestor?_succ_eq_some_iff.mpr
        ⟨child, hancestor, (hforest.mem_children_iff hexists).mp hchild⟩⟩

theorem heightLE (hforest : doc.IsForest) (id : ElementId) :
    doc.HeightLE doc.elements.length id := by
  by_contra hheight
  obtain ⟨low, hlow, hancestor⟩ := hforest.exists_ancestor?_of_not_heightLE hheight
  exact Nat.lt_irrefl _ (hforest.steps_lt hlow hancestor)

/-- The order of the walk: an element, and then what is below each of its children. -/
theorem subtree_eq (hforest : doc.IsForest) (id : ElementId) :
    doc.subtree id = id :: (doc.children id).flatMap doc.subtree := by
  rw [subtree, ← preorder_succ_of_heightLE (hforest.heightLE id), preorder]
  rfl

/-- No child of a parent is above another one. -/
theorem not_transGen_sibling (hforest : doc.IsForest) {first second : ElementId}
    (hfirst : doc.IsParent first parent) (hsecond : doc.IsParent second parent) :
    ¬ Relation.TransGen doc.IsParent first second := by
  intro hway
  obtain ⟨next, hnext, hrest⟩ := Relation.TransGen.head'_iff.mp hway
  rw [IsParent, hfirst, Option.some.injEq] at hnext
  subst hnext
  exact hforest.acyclic parent (Relation.TransGen.tail' hrest hsecond)

/-- Nothing that exists is below two children of one parent. -/
theorem eq_of_mem_preorder (hforest : doc.IsForest) {first second : ElementId} {depth : Nat}
    (hid : doc.contains id = true) (hfirst : first ∈ doc.children parent)
    (hsecond : second ∈ doc.children parent) (hlow : id ∈ doc.preorder depth first)
    (hhigh : id ∈ doc.preorder depth second) : first = second := by
  have hlink : ∀ {child : ElementId} {steps : Nat}, child ∈ doc.children parent →
      doc.ancestor? steps id = some child → doc.IsParent child parent := fun hchild hancestor =>
    (hforest.mem_children_iff (hforest.contains_of_ancestor? hid hancestor)).mp hchild
  obtain ⟨n, -, hn⟩ := (hforest.mem_preorder_iff hid).mp hlow
  obtain ⟨m, -, hm⟩ := (hforest.mem_preorder_iff hid).mp hhigh
  rcases Nat.lt_trichotomy n m with hlt | rfl | hgt
  · exact absurd (transGen_of_ancestor? hlt hn hm)
      (hforest.not_transGen_sibling (hlink hfirst hn) (hlink hsecond hm))
  · rw [hn] at hm
    exact Option.some.inj hm
  · exact absurd (transGen_of_ancestor? hgt hm hn)
      (hforest.not_transGen_sibling (hlink hsecond hm) (hlink hfirst hn))

/-- No element is below a child of its own. -/
theorem notMem_preorder_child (hforest : doc.IsForest) {depth : Nat}
    (hid : doc.contains id = true) (hchild : child ∈ doc.children id) :
    id ∉ doc.preorder depth child := by
  intro hmem
  obtain ⟨n, -, hn⟩ := (hforest.mem_preorder_iff hid).mp hmem
  have hlink : doc.IsParent child id :=
    (hforest.mem_children_iff (hforest.contains_of_ancestor? hid hn)).mp hchild
  exact hforest.acyclic id (transGen_of_ancestor? (Nat.succ_pos n) rfl
    (ancestor?_succ_eq_some_iff.mpr ⟨child, hn, hlink⟩))

/-- A walk meets nobody who exists twice. -/
theorem count_preorder_le_one (hforest : doc.IsForest) (hid : doc.contains id = true)
    (depth : Nat) (start : ElementId) : (doc.preorder depth start).count id ≤ 1 := by
  induction depth generalizing start with
  | zero => exact List.nodup_iff_count_le_one.mp (List.nodup_singleton start) id
  | succ depth ih =>
      rw [preorder, List.count_cons]
      by_cases hstart : start = id
      · subst hstart
        have hnone : start ∉ (doc.children start).flatMap (doc.preorder depth) := by
          intro hmem
          obtain ⟨child, hchild, hwalk⟩ := List.mem_flatMap.mp hmem
          exact hforest.notMem_preorder_child hid hchild hwalk
        rw [List.count_eq_zero.mpr hnone]
        simp
      · rw [if_neg (by simpa using hstart), Nat.add_zero]
        by_cases hmem : id ∈ (doc.children start).flatMap (doc.preorder depth)
        · obtain ⟨child, hchild, hwalk⟩ := List.mem_flatMap.mp hmem
          obtain ⟨n, -, hn⟩ := (hforest.mem_preorder_iff hid).mp hwalk
          refine count_flatMap_le_one (fun other hother hne hfound => hne ?_)
            (hforest.count_children_le_one (hforest.contains_of_ancestor? hid hn)) (ih child)
          exact hforest.eq_of_mem_preorder hid hother hchild hfound hwalk
        · rw [List.count_eq_zero.mpr hmem]
          exact Nat.zero_le 1

/-- From an element a walk meets what can be reached from it, and each element once. -/
theorem count_subtree (hforest : doc.IsForest) (hid : doc.contains id = true) :
    (Relation.ReflTransGen doc.IsChild start id → (doc.subtree start).count id = 1) ∧
      (¬ Relation.ReflTransGen doc.IsChild start id → (doc.subtree start).count id = 0) := by
  rw [hforest.reaches_iff_below hid, ← hforest.mem_subtree_iff hid]
  refine ⟨fun hmem => ?_, List.count_eq_zero.mpr⟩
  exact Nat.le_antisymm (hforest.count_preorder_le_one hid _ start) (List.count_pos_iff.mpr hmem)

end IsForest

end Document

end UtilityCss
