import UtilityCss.Proofs.Document.Forest
import UtilityCss.Proofs.Lists

/-!
The skeleton of a document: its links without class attributes and styles.  Everything that is said
about the tree depends on the skeleton alone, so a change that keeps it moves nothing.
-/

namespace UtilityCss

namespace Document

variable {doc before after : Document}

/-- The parent and the children of each element. -/
def skeleton (doc : Document) : List (Option ElementId × List ElementId) :=
  doc.elements.map fun element => (element.parent, element.children)

theorem length_skeleton (doc : Document) : doc.skeleton.length = doc.elements.length :=
  List.length_map _

theorem parent?_eq_of_skeleton (hskeleton : after.skeleton = before.skeleton) (id : ElementId) :
    after.parent? id = before.parent? id := by
  cases id with
  | null => rfl
  | element number =>
      have hlink := congrArg (fun links => (links[number]?).bind Prod.fst) hskeleton
      simpa [skeleton, parent?, element?, Option.bind_map, Function.comp_def] using hlink

theorem children_eq_of_skeleton (hskeleton : after.skeleton = before.skeleton) (id : ElementId) :
    after.children id = before.children id := by
  cases id with
  | null => rfl
  | element number =>
      have hlink := congrArg (fun links => (links[number]?).map Prod.snd) hskeleton
      simp only [skeleton, List.getElem?_map, Option.map_map, Function.comp_def] at hlink
      unfold children element?
      cases hafter : after.elements[number]? <;> cases hbefore : before.elements[number]? <;>
        simp_all

theorem contains_eq_of_skeleton (hskeleton : after.skeleton = before.skeleton) (id : ElementId) :
    after.contains id = before.contains id := by
  have hlength := congrArg List.length hskeleton
  rw [length_skeleton, length_skeleton] at hlength
  rw [Bool.eq_iff_iff, contains_iff_exists_number, contains_iff_exists_number, hlength]

theorem climbsTo_eq_of_skeleton (hskeleton : after.skeleton = before.skeleton)
    (ancestor : ElementId) (steps : Nat) (id : ElementId) :
    after.climbsTo ancestor steps id = before.climbsTo ancestor steps id := by
  induction steps generalizing id with
  | zero => rfl
  | succ steps ih => simp only [climbsTo, parent?_eq_of_skeleton hskeleton, ih]

theorem isBelow_eq_of_skeleton (hskeleton : after.skeleton = before.skeleton)
    (ancestor id : ElementId) : after.isBelow ancestor id = before.isBelow ancestor id := by
  have hlength := congrArg List.length hskeleton
  rw [length_skeleton, length_skeleton] at hlength
  rw [isBelow, isBelow, hlength, climbsTo_eq_of_skeleton hskeleton]

theorem isConnected_eq_of_skeleton (hskeleton : after.skeleton = before.skeleton)
    (id : ElementId) : after.isConnected id = before.isConnected id :=
  isBelow_eq_of_skeleton hskeleton root id

theorem preorder_eq_of_skeleton (hskeleton : after.skeleton = before.skeleton) (depth : Nat)
    (id : ElementId) : after.preorder depth id = before.preorder depth id := by
  induction depth generalizing id with
  | zero => rfl
  | succ depth ih =>
      have hwalk : after.preorder depth = before.preorder depth := funext ih
      rw [preorder, preorder, children_eq_of_skeleton hskeleton, hwalk]

theorem subtree_eq_of_skeleton (hskeleton : after.skeleton = before.skeleton) (id : ElementId) :
    after.subtree id = before.subtree id := by
  have hlength := congrArg List.length hskeleton
  rw [length_skeleton, length_skeleton] at hlength
  rw [subtree, subtree, hlength, preorder_eq_of_skeleton hskeleton]

theorem isParent_eq_of_skeleton (hskeleton : after.skeleton = before.skeleton) :
    after.IsParent = before.IsParent := by
  funext child parent
  rw [IsParent, IsParent, parent?_eq_of_skeleton hskeleton]

theorem IsForest.of_skeleton (hforest : before.IsForest)
    (hskeleton : after.skeleton = before.skeleton) : after.IsForest where
  contains_root := by
    rw [contains_eq_of_skeleton hskeleton]
    exact hforest.contains_root
  mem_children_iff {parent child} hchild := by
    rw [contains_eq_of_skeleton hskeleton] at hchild
    rw [children_eq_of_skeleton hskeleton, parent?_eq_of_skeleton hskeleton]
    exact hforest.mem_children_iff hchild
  count_children_le_one {parent child} hchild := by
    rw [contains_eq_of_skeleton hskeleton] at hchild
    rw [children_eq_of_skeleton hskeleton]
    exact hforest.count_children_le_one hchild
  eq_null_of_mem_children {parent child} hmem hchild := by
    rw [contains_eq_of_skeleton hskeleton] at hchild
    rw [children_eq_of_skeleton hskeleton] at hmem
    exact hforest.eq_null_of_mem_children hmem hchild
  contains_parent {parent child} hparent := by
    rw [parent?_eq_of_skeleton hskeleton] at hparent
    rw [contains_eq_of_skeleton hskeleton]
    exact hforest.contains_parent hparent
  acyclic id := by
    rw [isParent_eq_of_skeleton hskeleton]
    exact hforest.acyclic id

/-- A change of an element that leaves its links alone keeps the skeleton. -/
theorem skeleton_update (doc : Document) (id : ElementId) {change : Element → Element}
    (hparent : ∀ element, (change element).parent = element.parent)
    (hchildren : ∀ element, (change element).children = element.children) :
    (doc.update id change).skeleton = doc.skeleton := by
  cases id with
  | null => rfl
  | element number =>
      refine List.ext_getElem? fun n => ?_
      simp only [skeleton, update, List.getElem?_map, List.getElem?_modify, Option.map_eq_map,
        Option.map_map]
      refine Option.map_congr fun element _ => ?_
      simp only [Function.comp_apply]
      split <;> simp [hparent, hchildren]

theorem sizeObserver_update (doc : Document) (id : ElementId) (change : Element → Element) :
    (doc.update id change).sizeObserver = doc.sizeObserver := by
  cases id <;> rfl

@[simp]
theorem skeleton_setClassName (doc : Document) (id : ElementId) (className : Text) :
    (doc.setClassName id className).skeleton = doc.skeleton :=
  skeleton_update doc id (fun _ => rfl) (fun _ => rfl)

@[simp]
theorem skeleton_addClass (doc : Document) (id : ElementId) (name : Text) :
    (doc.addClass id name).skeleton = doc.skeleton :=
  skeleton_update doc id (fun _ => rfl) (fun _ => rfl)

@[simp]
theorem skeleton_removeClass (doc : Document) (id : ElementId) (name : Text) :
    (doc.removeClass id name).skeleton = doc.skeleton :=
  skeleton_update doc id (fun _ => rfl) (fun _ => rfl)

@[simp]
theorem skeleton_setStyle (doc : Document) (id : ElementId) (property value : Text) :
    (doc.setStyle id property value).skeleton = doc.skeleton :=
  skeleton_update doc id (fun _ => rfl) (fun _ => rfl)

@[simp]
theorem skeleton_removeStyle (doc : Document) (id : ElementId) (property : Text) :
    (doc.removeStyle id property).skeleton = doc.skeleton :=
  skeleton_update doc id (fun _ => rfl) (fun _ => rfl)

@[simp]
theorem skeleton_observeSize (doc : Document) (id : ElementId) :
    (doc.observeSize id).skeleton = doc.skeleton := by
  unfold observeSize
  split <;> rfl

@[simp]
theorem skeleton_unobserveSize (doc : Document) (id : ElementId) :
    (doc.unobserveSize id).skeleton = doc.skeleton := rfl

@[simp]
theorem skeleton_observeIntersection (doc : Document) (id : ElementId) (threshold : Binary64) :
    (doc.observeIntersection id threshold).skeleton = doc.skeleton := rfl

@[simp]
theorem skeleton_unobserveIntersection (doc : Document) (id : ElementId) :
    (doc.unobserveIntersection id).skeleton = doc.skeleton := rfl

end Document

end UtilityCss
