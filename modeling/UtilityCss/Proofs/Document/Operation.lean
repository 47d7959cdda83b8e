import UtilityCss.Proofs.Document.Skeleton

/-!
What a host may do to a document.  Every operation keeps it a forest, and only `append`,
`appendChild` and `detach` change a link.
-/

namespace UtilityCss.Document

variable {doc : Document}

inductive Operation where
  | create (className : Text)
  | append (parent : ElementId) (className : Text)
  | appendChild (parent child : ElementId)
  | detach (id : ElementId)
  | setClassName (id : ElementId) (className : Text)
  | addClass (id : ElementId) (name : Text)
  | removeClass (id : ElementId) (name : Text)
  | setStyle (id : ElementId) (property value : Text)
  | removeStyle (id : ElementId) (property : Text)
  | observeSize (id : ElementId)
  | unobserveSize (id : ElementId)
  | observeIntersection (id : ElementId) (threshold : Binary64)
  | unobserveIntersection (id : ElementId)

namespace Operation

def apply (doc : Document) : Operation → Document
  | .create className => (doc.create className).1
  | .append parent className => (doc.append parent className).1
  | .appendChild parent child => doc.appendChild parent child
  | .detach id => doc.detach id
  | .setClassName id className => doc.setClassName id className
  | .addClass id name => doc.addClass id name
  | .removeClass id name => doc.removeClass id name
  | .setStyle id property value => doc.setStyle id property value
  | .removeStyle id property => doc.removeStyle id property
  | .observeSize id => doc.observeSize id
  | .unobserveSize id => doc.unobserveSize id
  | .observeIntersection id threshold => doc.observeIntersection id threshold
  | .unobserveIntersection id => doc.unobserveIntersection id

/-- The handles that a caller passes in. -/
def handles : Operation → List ElementId
  | .create _ => []
  | .append parent _ => [parent]
  | .appendChild parent child => [parent, child]
  | .detach id | .setClassName id _ | .addClass id _ | .removeClass id _ | .setStyle id _ _
  | .removeStyle id _ | .observeSize id | .unobserveSize id | .observeIntersection id _
  | .unobserveIntersection id => [id]

/-- Every handle was given out by the document, or it is the null handle. -/
def Known (doc : Document) (operation : Operation) : Prop :=
  ∀ id ∈ operation.handles, id = .null ∨ doc.contains id = true

instance (doc : Document) (operation : Operation) : Decidable (operation.Known doc) :=
  inferInstanceAs (Decidable (∀ id ∈ operation.handles, id = .null ∨ doc.contains id = true))

end Operation

/-- A document that a host can come to hold. -/
inductive Reachable : Document → Prop where
  | new (sizeObserver : Bool) : Reachable { sizeObserver }
  | step {doc : Document} (hdoc : Reachable doc) (operation : Operation)
      (hknown : operation.Known doc) : Reachable (operation.apply doc)

theorem children_eq_getD (doc : Document) (id : ElementId) :
    doc.children id = ((doc.element? id).map Element.children).getD [] := by
  unfold children
  cases doc.element? id <;> rfl

/-- What taking an element from its parent does to each element. -/
theorem element?_detach (doc : Document) (id probe : ElementId) :
    (doc.detach id).element? probe =
      (doc.element? probe).map fun element =>
        { element with
          parent := if probe = id then none else element.parent
          children :=
            if doc.parent? id = some probe then element.children.filter (· ≠ id)
            else element.children } := by
  unfold detach
  cases hparent : doc.parent? id with
  | none =>
      cases hprobe : doc.element? probe with
      | none => simp
      | some element =>
          by_cases hid : probe = id
          · subst hid
            have hnone : element.parent = none := by simpa [parent?, hprobe] using hparent
            cases element
            simp_all
          · simp [hid]
  | some parent =>
      simp only [element?_update, Option.some.injEq]
      by_cases hprobe : probe = parent
      · subst hprobe
        by_cases hid : probe = id
        · subst hid
          cases doc.element? probe <;> simp
        · cases doc.element? probe <;> simp [hid]
      · by_cases hid : probe = id
        · subst hid
          cases doc.element? probe <;> simp [hprobe, Ne.symm hprobe]
        · cases doc.element? probe <;> simp [hid, hprobe, Ne.symm hprobe]

theorem parent?_detach (doc : Document) (id probe : ElementId) :
    (doc.detach id).parent? probe = if probe = id then none else doc.parent? probe := by
  simp only [parent?, element?_detach]
  cases doc.element? probe <;> simp

theorem children_detach (doc : Document) (id probe : ElementId) :
    (doc.detach id).children probe =
      if doc.parent? id = some probe then (doc.children probe).filter (· ≠ id)
      else doc.children probe := by
  rw [children_eq_getD, element?_detach, children_eq_getD]
  cases doc.element? probe <;> simp

theorem contains_detach (doc : Document) (id probe : ElementId) :
    (doc.detach id).contains probe = doc.contains probe := by
  simp [contains, element?_detach]

theorem isParent_of_detach {id child parent : ElementId}
    (hparent : (doc.detach id).IsParent child parent) : doc.IsParent child parent := by
  rw [IsParent, parent?_detach] at hparent
  split at hparent
  · cases hparent
  · exact hparent

theorem IsForest.detach (hforest : doc.IsForest) (id : ElementId) : (doc.detach id).IsForest where
  contains_root := by
    rw [contains_detach]
    exact hforest.contains_root
  mem_children_iff {parent child} hchild := by
    rw [contains_detach] at hchild
    have hold : child ∈ doc.children parent ↔ doc.parent? child = some parent :=
      hforest.mem_children_iff hchild
    rw [children_detach, parent?_detach]
    by_cases hid : child = id
    · subst hid
      split
      · simp
      · simp_all
    · rw [if_neg hid]
      split
      · simp [hid, hold]
      · exact hold
  count_children_le_one {parent child} hchild := by
    rw [contains_detach] at hchild
    rw [children_detach]
    split
    · exact (List.filter_sublist.count_le child).trans (hforest.count_children_le_one hchild)
    · exact hforest.count_children_le_one hchild
  eq_null_of_mem_children {parent child} hmem hchild := by
    rw [contains_detach] at hchild
    rw [children_detach] at hmem
    split at hmem
    · exact hforest.eq_null_of_mem_children (List.mem_filter.mp hmem).1 hchild
    · exact hforest.eq_null_of_mem_children hmem hchild
  contains_parent {parent child} hparent := by
    rw [parent?_detach] at hparent
    split at hparent
    · cases hparent
    · rw [contains_detach]
      exact hforest.contains_parent hparent
  acyclic probe hcycle :=
    hforest.acyclic probe
      (Relation.TransGen.mono (fun _ _ hparent => isParent_of_detach hparent) probe probe hcycle)

/-- Put an element without parent at the end of a parent's children. -/
def attach (doc : Document) (parent child : ElementId) : Document :=
  (doc.update child fun element => { element with parent := some parent }).update parent
    fun element => { element with children := element.children ++ [child] }

/-- Whether an element may move to a parent: the parent exists and is not below it. -/
def mayAppend (doc : Document) (parent child : ElementId) : Bool :=
  doc.contains parent && !doc.isBelow child parent

theorem appendChild_eq (doc : Document) (parent child : ElementId) :
    doc.appendChild parent child =
      if doc.mayAppend parent child then (doc.detach child).attach parent child else doc := by
  unfold appendChild mayAppend
  cases doc.contains parent <;> cases doc.isBelow child parent <;> rfl

theorem element?_attach (doc : Document) (parent child probe : ElementId) :
    (doc.attach parent child).element? probe =
      (doc.element? probe).map fun element =>
        { element with
          parent := if probe = child then some parent else element.parent
          children :=
            if probe = parent then element.children ++ [child] else element.children } := by
  simp only [attach, element?_update]
  by_cases hparent : probe = parent
  · subst hparent
    by_cases hchild : probe = child
    · subst hchild
      cases doc.element? probe <;> simp
    · cases doc.element? probe <;> simp [hchild]
  · by_cases hchild : probe = child
    · subst hchild
      cases doc.element? probe <;> simp [hparent]
    · cases doc.element? probe <;> simp [hparent, hchild]

theorem parent?_attach {parent child : ElementId} (hchild : doc.contains child = true)
    (probe : ElementId) :
    (doc.attach parent child).parent? probe =
      if probe = child then some parent else doc.parent? probe := by
  simp only [parent?, element?_attach]
  by_cases hprobe : probe = child
  · subst hprobe
    obtain ⟨element, helement⟩ := Option.isSome_iff_exists.mp hchild
    simp [helement]
  · cases doc.element? probe <;> simp [hprobe]

/-- The null handle can stand among the children, but it has no parent. -/
theorem parent?_attach_of_not_contains {parent child : ElementId}
    (hchild : doc.contains child = false) (probe : ElementId) :
    (doc.attach parent child).parent? probe = doc.parent? probe := by
  simp only [parent?, element?_attach]
  cases hprobe : doc.element? probe with
  | none => rfl
  | some element =>
      have hne : probe ≠ child := by
        rintro rfl
        simp [contains, hprobe] at hchild
      simp [hne]

theorem children_attach {parent : ElementId} (hparent : doc.contains parent = true)
    (child probe : ElementId) :
    (doc.attach parent child).children probe =
      doc.children probe ++ if probe = parent then [child] else [] := by
  rw [children_eq_getD, element?_attach, children_eq_getD]
  by_cases hprobe : probe = parent
  · subst hprobe
    obtain ⟨element, helement⟩ := Option.isSome_iff_exists.mp hparent
    simp [helement]
  · cases doc.element? probe <;> simp [hprobe]

theorem contains_attach (doc : Document) (parent child probe : ElementId) :
    (doc.attach parent child).contains probe = doc.contains probe := by
  simp [contains, element?_attach]

/-- A way up after an attachment is an old one, or it goes over the new link once. -/
theorem transGen_attach {parent child low high : ElementId} (hchild : doc.contains child = true)
    (hbelow : ¬ doc.Below parent child)
    (hway : Relation.TransGen (doc.attach parent child).IsParent low high) :
    Relation.TransGen doc.IsParent low high ∨ doc.Below low child ∧ doc.Below parent high := by
  induction hway with
  | single hlink =>
      rw [IsParent, parent?_attach hchild] at hlink
      split at hlink
      · rename_i hlow
        subst hlow
        cases hlink
        exact Or.inr ⟨Relation.ReflTransGen.refl, Relation.ReflTransGen.refl⟩
      · exact Or.inl (Relation.TransGen.single hlink)
  | @tail middle high _ hlink ih =>
      rw [IsParent, parent?_attach hchild] at hlink
      split at hlink
      · rename_i hmiddle
        subst hmiddle
        cases hlink
        rcases ih with hold | ⟨-, hcross⟩
        · exact Or.inr ⟨hold.to_reflTransGen, Relation.ReflTransGen.refl⟩
        · exact absurd hcross hbelow
      · rcases ih with hold | ⟨hlow, hcross⟩
        · exact Or.inl (hold.tail hlink)
        · exact Or.inr ⟨hlow, hcross.tail hlink⟩

theorem IsForest.attach (hforest : doc.IsForest) {parent child : ElementId}
    (hparent : doc.contains parent = true) (hbelow : ¬ doc.Below parent child)
    (hknown : child = .null ∨ doc.contains child = true) (hfree : doc.parent? child = none) :
    (doc.attach parent child).IsForest where
  contains_root := by
    rw [contains_attach]
    exact hforest.contains_root
  mem_children_iff {other probe} hprobe := by
    rw [contains_attach] at hprobe
    have hold : probe ∈ doc.children other ↔ doc.parent? probe = some other :=
      hforest.mem_children_iff hprobe
    rw [children_attach hparent, List.mem_append, hold]
    by_cases hsame : probe = child
    · subst hsame
      rw [parent?_attach hprobe, hfree]
      by_cases hother : parent = other
      · simp [hother]
      · simp [hother, Ne.symm hother]
    · have hlast : probe ∉ if other = parent then [child] else [] := by
        split <;> simp [hsame]
      rcases hknown with rfl | hchild
      · rw [parent?_attach_of_not_contains rfl]
        simp [hlast]
      · rw [parent?_attach hchild, if_neg hsame]
        simp [hlast]
  count_children_le_one {other probe} hprobe := by
    rw [contains_attach] at hprobe
    have hold : probe ∈ doc.children other ↔ doc.parent? probe = some other :=
      hforest.mem_children_iff hprobe
    rw [children_attach hparent, List.count_append]
    by_cases hsame : probe = child
    · subst hsame
      have hzero : (doc.children other).count probe = 0 := by
        rw [List.count_eq_zero, hold, hfree]
        simp
      rw [hzero]
      split <;> simp
    · have hlast : (if other = parent then [child] else []).count probe = 0 := by
        rw [List.count_eq_zero]
        split <;> simp [hsame]
      rw [hlast]
      exact hforest.count_children_le_one hprobe
  eq_null_of_mem_children {other probe} hmem hprobe := by
    rw [contains_attach] at hprobe
    rw [children_attach hparent, List.mem_append] at hmem
    rcases hmem with hold | hlast
    · exact hforest.eq_null_of_mem_children hold hprobe
    · have hsame : probe = child := by
        split at hlast <;> simp_all
      subst hsame
      rcases hknown with hnull | hchild
      · exact hnull
      · rw [hchild] at hprobe
        cases hprobe
  contains_parent {other probe} hlink := by
    rw [contains_attach]
    rcases hknown with rfl | hchild
    · rw [parent?_attach_of_not_contains rfl] at hlink
      exact hforest.contains_parent hlink
    · rw [parent?_attach hchild] at hlink
      split at hlink
      · cases hlink
        exact hparent
      · exact hforest.contains_parent hlink
  acyclic probe hcycle := by
    rcases hknown with rfl | hchild
    · refine hforest.acyclic probe (Relation.TransGen.mono ?_ probe probe hcycle)
      intro low high hlink
      rwa [IsParent, parent?_attach_of_not_contains rfl] at hlink
    · rcases transGen_attach hchild hbelow hcycle with hold | ⟨hlow, hhigh⟩
      · exact hforest.acyclic probe hold
      · exact hbelow (hhigh.trans hlow)

theorem below_of_detach {id low high : ElementId} (hbelow : (doc.detach id).Below low high) :
    doc.Below low high :=
  Relation.ReflTransGen.mono (fun _ _ hparent => isParent_of_detach hparent) low high hbelow

theorem IsForest.appendChild (hforest : doc.IsForest) (parent : ElementId) {child : ElementId}
    (hknown : child = .null ∨ doc.contains child = true) :
    (doc.appendChild parent child).IsForest := by
  rw [appendChild_eq]
  split
  · rename_i hmay
    simp only [mayAppend, Bool.and_eq_true, Bool.not_eq_true'] at hmay
    have hbelow : ¬ doc.Below parent child := by
      rw [← hforest.isBelow_iff, hmay.2]
      exact Bool.false_ne_true
    refine (hforest.detach child).attach ?_ (fun hway => hbelow (below_of_detach hway)) ?_ ?_
    · rw [contains_detach]
      exact hmay.1
    · rw [contains_detach]
      exact hknown
    · rw [parent?_detach, if_pos rfl]
  · exact hforest

theorem contains_create (doc : Document) (className : Text) (probe : ElementId) :
    (doc.create className).1.contains probe =
      (doc.contains probe || decide (probe = (doc.create className).2)) := by
  rw [contains, element?_create, contains]
  split <;> simp_all

theorem not_contains_created (doc : Document) (className : Text) :
    doc.contains (doc.create className).2 = false := by
  simp [create, contains, element?]

theorem parent?_create (doc : Document) (className : Text) (probe : ElementId) :
    (doc.create className).1.parent? probe = doc.parent? probe := by
  have hnew := not_contains_created doc className
  simp only [parent?, element?_create]
  split
  · rename_i hprobe
    subst hprobe
    rw [element?_of_not_contains hnew]
    rfl
  · rfl

theorem children_create (doc : Document) (className : Text) (probe : ElementId) :
    (doc.create className).1.children probe = doc.children probe := by
  have hnew := not_contains_created doc className
  rw [children_eq_getD, element?_create, children_eq_getD]
  split
  · rename_i hprobe
    subst hprobe
    rw [element?_of_not_contains hnew]
    rfl
  · rfl

theorem IsForest.create (hforest : doc.IsForest) (className : Text) :
    (doc.create className).1.IsForest where
  contains_root := by
    rw [contains_create, hforest.contains_root]
    rfl
  mem_children_iff {parent child} hchild := by
    rw [children_create, parent?_create]
    rw [contains_create, Bool.or_eq_true, decide_eq_true_eq] at hchild
    rcases hchild with hold | rfl
    · exact hforest.mem_children_iff hold
    · have hnew := not_contains_created doc className
      refine iff_of_false (fun hmem => ?_) (fun hparent => ?_)
      · cases hforest.eq_null_of_mem_children hmem hnew
      · rw [contains_of_parent? hparent] at hnew
        cases hnew
  count_children_le_one {parent child} hchild := by
    rw [children_create]
    rw [contains_create, Bool.or_eq_true, decide_eq_true_eq] at hchild
    rcases hchild with hold | rfl
    · exact hforest.count_children_le_one hold
    · have hnew := not_contains_created doc className
      rw [List.count_eq_zero.mpr]
      · exact Nat.zero_le 1
      · intro hmem
        cases hforest.eq_null_of_mem_children hmem hnew
  eq_null_of_mem_children {parent child} hmem hchild := by
    rw [children_create] at hmem
    rw [contains_create, Bool.or_eq_false_iff] at hchild
    exact hforest.eq_null_of_mem_children hmem hchild.1
  contains_parent {parent child} hparent := by
    rw [parent?_create] at hparent
    rw [contains_create, hforest.contains_parent hparent]
    rfl
  acyclic id hcycle := by
    refine hforest.acyclic id (Relation.TransGen.mono ?_ id id hcycle)
    intro low high hlink
    rwa [IsParent, parent?_create] at hlink

theorem IsForest.append (hforest : doc.IsForest) (parent : ElementId) (className : Text) :
    (doc.append parent className).1.IsForest := by
  have hnew : (doc.create className).1.contains (doc.create className).2 = true := by
    rw [contains_create, decide_eq_true rfl, Bool.or_true]
  exact (hforest.create className).appendChild parent (Or.inr hnew)

/-- An operation that leaves every link alone. -/
def Operation.SparesLinks : Operation → Prop
  | .create _ | .append _ _ | .appendChild _ _ | .detach _ => False
  | _ => True

theorem Operation.skeleton_apply {operation : Operation} (hspares : operation.SparesLinks)
    (doc : Document) : (operation.apply doc).skeleton = doc.skeleton := by
  cases operation with
  | create className => cases hspares
  | append parent className => cases hspares
  | appendChild parent child => cases hspares
  | detach id => cases hspares
  | setClassName id className => exact skeleton_setClassName doc id className
  | addClass id name => exact skeleton_addClass doc id name
  | removeClass id name => exact skeleton_removeClass doc id name
  | setStyle id property value => exact skeleton_setStyle doc id property value
  | removeStyle id property => exact skeleton_removeStyle doc id property
  | observeSize id => exact skeleton_observeSize doc id
  | unobserveSize id => exact skeleton_unobserveSize doc id
  | observeIntersection id threshold => exact skeleton_observeIntersection doc id threshold
  | unobserveIntersection id => exact skeleton_unobserveIntersection doc id

/-- The four operations that make and break links, and all the others. -/
theorem Operation.cases_links {motive : Operation → Prop}
    (hcreate : ∀ className, motive (.create className))
    (happend : ∀ parent className, motive (.append parent className))
    (happendChild : ∀ parent child, motive (.appendChild parent child))
    (hdetach : ∀ id, motive (.detach id))
    (hspares : ∀ operation : Operation, operation.SparesLinks → motive operation)
    (operation : Operation) : motive operation := by
  cases operation with
  | create className => exact hcreate className
  | append parent className => exact happend parent className
  | appendChild parent child => exact happendChild parent child
  | detach id => exact hdetach id
  | _ => exact hspares _ trivial

theorem Operation.isForest_apply (hforest : doc.IsForest) (operation : Operation)
    (hknown : operation.Known doc) : (operation.apply doc).IsForest := by
  cases operation using Operation.cases_links with
  | hcreate className => exact hforest.create className
  | happend parent className => exact hforest.append parent className
  | happendChild parent child =>
      exact hforest.appendChild parent (hknown child (by simp [handles]))
  | hdetach id => exact hforest.detach id
  | hspares operation hspares => exact hforest.of_skeleton (skeleton_apply hspares doc)

theorem isForest_new (sizeObserver : Bool) : ({ sizeObserver } : Document).IsForest := by
  have hsingle : ∀ {id : ElementId} {element : Element},
      ({ sizeObserver } : Document).element? id = some element → element = {} := by
    intro id element helement
    rcases id with _ | _ | number <;> simp_all [element?]
  have hparent : ∀ id, ({ sizeObserver } : Document).parent? id = none := by
    intro id
    rw [parent?]
    cases helement : ({ sizeObserver } : Document).element? id with
    | none => rfl
    | some element => simp [hsingle helement]
  have hchildren : ∀ id, ({ sizeObserver } : Document).children id = [] := by
    intro id
    rw [children_eq_getD]
    cases helement : ({ sizeObserver } : Document).element? id with
    | none => rfl
    | some element => simp [hsingle helement]
  refine ⟨rfl, ?_, ?_, ?_, ?_, ?_⟩
  · intro parent child _
    simp [hparent, hchildren]
  · intro parent child _
    simp [hchildren]
  · intro parent child hmem
    simp [hchildren] at hmem
  · intro parent child hlink
    simp [hparent] at hlink
  · intro id hcycle
    obtain ⟨parent, hlink, -⟩ := Relation.TransGen.head'_iff.mp hcycle
    rw [IsParent, hparent] at hlink
    cases hlink

/-- Whatever a host does with the handles it was given, its document is a forest. -/
theorem Reachable.isForest (hdoc : doc.Reachable) : doc.IsForest := by
  induction hdoc with
  | new sizeObserver => exact isForest_new sizeObserver
  | step _ operation hknown ih => exact operation.isForest_apply ih hknown

end UtilityCss.Document
