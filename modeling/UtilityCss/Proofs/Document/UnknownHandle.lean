import UtilityCss.Proofs.Document.Record

/-!
Handles that refer to no element.  Whatever looks its element up ignores them.  An attachment looks
up the parent only, so such a handle can get into a list of children, but it has no parent and nothing
is below it.
-/

namespace UtilityCss.Document

variable {doc : Document} {id parent child : ElementId}

theorem parent?_of_not_contains (hid : doc.contains id = false) : doc.parent? id = none := by
  rw [parent?, element?_of_not_contains hid]
  rfl

theorem update_of_not_contains (hid : doc.contains id = false) (change : Element → Element) :
    doc.update id change = doc := by
  cases id with
  | null => rfl
  | element number =>
      have hlength : doc.elements.length ≤ number :=
        List.getElem?_eq_none_iff.mp (element?_of_not_contains hid)
      rw [update, List.modify_eq_self hlength]

theorem detach_of_not_contains (hid : doc.contains id = false) : doc.detach id = doc := by
  rw [detach, parent?_of_not_contains hid]

theorem appendChild_of_not_contains_parent (hparent : doc.contains parent = false)
    (child : ElementId) : doc.appendChild parent child = doc := by
  rw [appendChild_eq, mayAppend, hparent]
  rfl

/-- Every parent is an element, whatever the children lists hold. -/
def ParentsExist (doc : Document) : Prop :=
  ∀ child parent, doc.parent? child = some parent → doc.contains parent = true

theorem parentsExist_new (sizeObserver : Bool) : ({ sizeObserver } : Document).ParentsExist :=
  fun _ _ hparent => (isForest_new sizeObserver).contains_parent hparent

theorem ParentsExist.of_skeleton {before after : Document} (hparents : before.ParentsExist)
    (hskeleton : after.skeleton = before.skeleton) : after.ParentsExist := by
  intro child parent hparent
  rw [parent?_eq_of_skeleton hskeleton] at hparent
  rw [contains_eq_of_skeleton hskeleton]
  exact hparents child parent hparent

theorem ParentsExist.create (hparents : doc.ParentsExist) (className : Text) :
    (doc.create className).1.ParentsExist := by
  intro child parent hparent
  rw [parent?_create] at hparent
  rw [contains_create, hparents child parent hparent, Bool.true_or]

theorem ParentsExist.detach (hparents : doc.ParentsExist) (id : ElementId) :
    (doc.detach id).ParentsExist := by
  intro child parent hparent
  rw [contains_detach]
  exact hparents child parent (isParent_of_detach hparent)

theorem ParentsExist.appendChild (hparents : doc.ParentsExist) (parent child : ElementId) :
    (doc.appendChild parent child).ParentsExist := by
  intro low high hlink
  rw [contains_appendChild]
  by_cases hlow : low = child
  · subst hlow
    rw [appendChild_eq] at hlink
    split at hlink
    · rename_i hmay
      cases hcontains : (doc.detach low).contains low with
      | true =>
          rw [parent?_attach hcontains, if_pos rfl] at hlink
          cases hlink
          rw [mayAppend, Bool.and_eq_true] at hmay
          exact hmay.1
      | false =>
          rw [parent?_attach_of_not_contains hcontains, parent?_detach, if_pos rfl] at hlink
          cases hlink
    · exact hparents low high hlink
  · rw [parent?_appendChild_of_ne hlow] at hlink
    exact hparents low high hlink

theorem Operation.parentsExist_apply (hparents : doc.ParentsExist) (operation : Operation) :
    (operation.apply doc).ParentsExist := by
  cases operation using Operation.cases_links with
  | hcreate className => exact hparents.create className
  | happend parent className => exact (hparents.create className).appendChild parent _
  | happendChild parent child => exact hparents.appendChild parent child
  | hdetach id => exact hparents.detach id
  | hspares operation hspares => exact hparents.of_skeleton (skeleton_apply hspares doc)

/-- A way up passes elements only, so it never comes to a handle that refers to none. -/
theorem ParentsExist.climbsTo_eq_false (hparents : doc.ParentsExist)
    (hid : doc.contains id = false) (steps : Nat) {low : ElementId}
    (hlow : doc.contains low = true) : doc.climbsTo id steps low = false := by
  induction steps generalizing low with
  | zero => rfl
  | succ steps ih =>
      have hne : low ≠ id := by
        rintro rfl
        rw [hlow] at hid
        cases hid
      rw [climbsTo, if_neg hne]
      cases hparent : doc.parent? low with
      | none => rfl
      | some parent => exact ih (hparents low parent hparent)

/-- Nothing stands in the way of a handle that refers to no element. -/
theorem ParentsExist.children_appendChild (hparents : doc.ParentsExist)
    (hparent : doc.contains parent = true) (hchild : doc.contains child = false) :
    (doc.appendChild parent child).children parent = doc.children parent ++ [child] := by
  have hmay : doc.mayAppend parent child = true := by
    rw [mayAppend, hparent, isBelow, hparents.climbsTo_eq_false hchild _ hparent]
    rfl
  rw [appendChild_eq, if_pos hmay, detach_of_not_contains hchild, children_attach hparent,
    if_pos rfl]

/-- An element that is created for a parent that does not exist gets into no list of children. -/
theorem children_append_of_not_contains (hparent : doc.contains parent = false) (className : Text) :
    (doc.append parent className).1.children = doc.children := by
  have hmay : (doc.create className).1.mayAppend parent (doc.create className).2 = false := by
    rw [Bool.eq_false_iff]
    intro hmay
    rw [contains_of_mayAppend_created hmay] at hparent
    cases hparent
  funext probe
  show ((doc.create className).1.appendChild parent (doc.create className).2).children probe = _
  rw [appendChild_eq, hmay, if_neg Bool.false_ne_true, children_create]

end UtilityCss.Document
