import UtilityCss.Proofs.Document.Operation

/-!
The links of a document, read in both directions.  Upwards every way ends, so the search for an
ancestor does as well, and what it finds above an element is what is found below the ancestor.
-/

namespace UtilityCss.Document

variable {doc : Document} {id ancestor start : ElementId} {answer : Bool}

/-- The search for an ancestor, one parent after the other, and its answer in the end.  A search that
goes round in a circle has none. -/
inductive Climb (doc : Document) (ancestor : ElementId) : ElementId → Bool → Prop where
  | found : Climb doc ancestor ancestor true
  | top {id : ElementId} (hid : id ≠ ancestor) (htop : doc.parent? id = none) :
      Climb doc ancestor id false
  | up {id parent : ElementId} {answer : Bool} (hid : id ≠ ancestor)
      (hparent : doc.parent? id = some parent) (hrest : Climb doc ancestor parent answer) :
      Climb doc ancestor id answer

def IsChild (doc : Document) (parent child : ElementId) : Prop :=
  child ∈ doc.children parent

theorem Climb.unique {other : Bool} (hclimb : doc.Climb ancestor id answer)
    (hother : doc.Climb ancestor id other) : other = answer := by
  induction hclimb with
  | found =>
      cases hother with
      | found => rfl
      | top hid htop => exact absurd rfl hid
      | up hid hparent hrest => exact absurd rfl hid
  | top hid htop =>
      cases hother with
      | found => exact absurd rfl hid
      | top => rfl
      | up hid hparent hrest =>
          rw [htop] at hparent
          cases hparent
  | up hid hparent hrest ih =>
      cases hother with
      | found => exact absurd rfl hid
      | top hid htop =>
          rw [htop] at hparent
          cases hparent
      | up hid hlink hlater =>
          rw [hparent, Option.some.injEq] at hlink
          subst hlink
          exact ih hlater

namespace IsForest

/-- The steps that are left always reach to the top. -/
theorem climb_climbsTo (hforest : doc.IsForest) {taken left : Nat}
    (hlength : taken + left = doc.elements.length + 1)
    (htaken : doc.ancestor? taken start = some id) :
    doc.Climb ancestor id (doc.climbsTo ancestor left id) := by
  induction left generalizing taken id with
  | zero =>
      have hle := hforest.steps_le htaken
      omega
  | succ left ih =>
      rw [climbsTo]
      by_cases hid : id = ancestor
      · subst hid
        rw [if_pos rfl]
        exact Climb.found
      · rw [if_neg hid]
        cases hparent : doc.parent? id with
        | none => exact Climb.top hid hparent
        | some parent =>
            have hnext : doc.ancestor? (taken + 1) start = some parent :=
              ancestor?_succ_eq_some_iff.mpr ⟨id, htaken, hparent⟩
            exact Climb.up hid hparent (ih (by omega) hnext)

theorem climb_iff (hforest : doc.IsForest) :
    doc.Climb ancestor id answer ↔ answer = doc.isBelow ancestor id := by
  have hends : doc.Climb ancestor id (doc.isBelow ancestor id) :=
    hforest.climb_climbsTo (Nat.zero_add _) rfl
  constructor
  · intro hclimb
    exact hends.unique hclimb
  · rintro rfl
    exact hends

/-- No element comes up twice on a way up. -/
theorem ancestor?_ne (hforest : doc.IsForest) {low high : Nat} (hlt : low < high)
    (hlow : doc.ancestor? low id = some ancestor) : doc.ancestor? high id ≠ some ancestor :=
  fun hhigh => hforest.acyclic ancestor (transGen_of_ancestor? hlt hlow hhigh)

theorem count_children (hforest : doc.IsForest) {parent child : ElementId}
    (hchild : doc.contains child = true) (hmem : child ∈ doc.children parent) :
    (doc.children parent).count child = 1 :=
  Nat.le_antisymm (hforest.count_children_le_one hchild) (List.count_pos_iff.mpr hmem)

theorem isChild_iff (hforest : doc.IsForest) {parent child : ElementId}
    (hchild : doc.contains child = true) : doc.IsChild parent child ↔ doc.IsParent child parent :=
  hforest.mem_children_iff hchild

theorem reaches_iff_below (hforest : doc.IsForest) (hid : doc.contains id = true) :
    Relation.ReflTransGen doc.IsChild start id ↔ doc.Below id start := by
  constructor
  · intro hreaches
    induction hreaches with
    | refl => exact Relation.ReflTransGen.refl
    | tail _ hlink ih =>
        have hparent := (hforest.isChild_iff hid).mp hlink
        exact (ih (hforest.contains_parent hparent)).head hparent
  · intro hbelow
    induction hbelow using Relation.ReflTransGen.head_induction_on with
    | refl => exact Relation.ReflTransGen.refl
    | head hparent _ ih =>
        exact (ih (hforest.contains_parent hparent)).tail ((hforest.isChild_iff hid).mpr hparent)

end IsForest

/-- Operations one after the other, each on handles that the document has given out by then. -/
def Operation.AllKnown (doc : Document) : List Operation → Prop
  | [] => True
  | operation :: rest => operation.Known doc ∧ AllKnown (operation.apply doc) rest

instance Operation.decidableAllKnown (doc : Document) :
    (operations : List Operation) → Decidable (AllKnown doc operations)
  | [] => inferInstanceAs (Decidable True)
  | operation :: rest =>
      have := decidableAllKnown (operation.apply doc) rest
      inferInstanceAs (Decidable (operation.Known doc ∧ AllKnown (operation.apply doc) rest))

theorem Reachable.foldl (hdoc : doc.Reachable) {operations : List Operation}
    (hknown : Operation.AllKnown doc operations) :
    Reachable (operations.foldl Operation.apply doc) := by
  induction operations generalizing doc with
  | nil => exact hdoc
  | cons operation rest ih => exact ih (hdoc.step operation hknown.1) hknown.2

/-- Whatever a host does with the handles it was given, a parent and its children know each other, an
element is listed once, a way up meets nobody twice, the search for an ancestor ends, and it connects
to the root what is reached from there. -/
theorem linked_of_operations (sizeObserver : Bool) {operations : List Operation}
    (hknown : Operation.AllKnown { sizeObserver } operations) :
    let doc := operations.foldl Operation.apply { sizeObserver }
    (∀ parent child, doc.contains parent = true → doc.contains child = true →
      (doc.parent? child = some parent ↔ child ∈ doc.children parent) ∧
        (child ∈ doc.children parent → (doc.children parent).count child = 1)) ∧
      (∀ id low high ancestor, low < high → doc.ancestor? low id = some ancestor →
        doc.ancestor? high id ≠ some ancestor) ∧
      (∀ ancestor id answer, doc.Climb ancestor id answer ↔ answer = doc.isBelow ancestor id) ∧
      ∀ id, doc.contains id = true →
        (Relation.ReflTransGen doc.IsChild root id ↔ doc.isConnected id = true) := by
  intro doc
  have hforest : doc.IsForest := ((Reachable.new sizeObserver).foldl hknown).isForest
  refine ⟨fun parent child _ hchild => ⟨?_, hforest.count_children hchild⟩,
    fun id low high ancestor hlt hlow => hforest.ancestor?_ne hlt hlow,
    fun ancestor id answer => hforest.climb_iff, fun id hid => ?_⟩
  · exact (hforest.mem_children_iff hchild).symm
  · rw [hforest.reaches_iff_below hid, hforest.isConnected_iff]

/-- An element is to move below its own child, and the root below an element that is attached
nowhere; the null handle is among the children of the root. -/
def rehung : List Operation :=
  [.append root [], .append (.element 1) [], .appendChild (.element 2) (.element 1), .create [],
    .appendChild (.element 3) root, .appendChild root .null]

theorem linked_rehung :
    let doc := rehung.foldl Operation.apply {}
    Operation.AllKnown {} rehung ∧ doc.parent? root = some (.element 3) ∧
      (doc.parent? (.element 2) = some (.element 1) ↔ .element 2 ∈ doc.children (.element 1)) ∧
      (doc.children (.element 1)).count (.element 2) = 1 ∧
      doc.ancestor? 3 (.element 2) ≠ some (.element 1) ∧ doc.Climb root (.element 2) true ∧
      doc.Climb (.element 2) (.element 1) false ∧
      Relation.ReflTransGen doc.IsChild root (.element 2) ∧
      ¬ Relation.ReflTransGen doc.IsChild root (.element 3) := by
  intro doc
  have hknown : Operation.AllKnown {} rehung := by decide +kernel
  obtain ⟨hlinks, hways, hclimb, hreach⟩ := linked_of_operations true hknown
  have hpair := hlinks (.element 1) (.element 2) (by decide +kernel) (by decide +kernel)
  refine ⟨hknown, by decide +kernel, hpair.1, hpair.2 (by decide +kernel), ?_, ?_, ?_, ?_, ?_⟩
  · exact hways (.element 2) 1 3 (.element 1) (by decide) (by decide +kernel)
  · exact (hclimb root (.element 2) true).mpr (by decide +kernel)
  · exact (hclimb (.element 2) (.element 1) false).mpr (by decide +kernel)
  · exact (hreach (.element 2) (by decide +kernel)).mpr (by decide +kernel)
  · rw [hreach (.element 3) (by decide +kernel)]
    decide +kernel

end UtilityCss.Document
