import UtilityCss.Proofs.Document.Operation

/-!
Which operations leave inline styles alone: all but the two that write them.  A new element has no
style, and an element that moves takes its style along.
-/

namespace UtilityCss.Document

variable {before after : Document} {id : ElementId}

theorem styles_eq (doc : Document) (id : ElementId) :
    doc.styles id = ((doc.element? id).map Element.styles).getD .empty := by
  rw [styles]
  cases doc.element? id <;> rfl

/-- An element that changes in other respects keeps its style. -/
theorem styles_eq_of_map {change : Element → Element}
    (helement : after.element? id = (before.element? id).map change)
    (hchange : ∀ element, (change element).styles = element.styles) :
    after.styles id = before.styles id := by
  have hstyles : Element.styles ∘ change = Element.styles := funext hchange
  rw [styles_eq, styles_eq, helement, Option.map_map, hstyles]

theorem styles_update (doc : Document) (id probe : ElementId) {change : Element → Element}
    (hchange : ∀ element, (change element).styles = element.styles) :
    (doc.update id change).styles probe = doc.styles probe := by
  by_cases hprobe : probe = id
  · subst hprobe
    exact styles_eq_of_map (by rw [element?_update, if_pos rfl]) hchange
  · rw [styles_eq, styles_eq, element?_update, if_neg hprobe]

theorem styles_addClass (doc : Document) (id : ElementId) (name : Text) (probe : ElementId) :
    (doc.addClass id name).styles probe = doc.styles probe :=
  styles_update doc id probe fun _ => rfl

theorem styles_removeClass (doc : Document) (id : ElementId) (name : Text) (probe : ElementId) :
    (doc.removeClass id name).styles probe = doc.styles probe :=
  styles_update doc id probe fun _ => rfl

theorem styles_create (doc : Document) (className : Text) (probe : ElementId) :
    (doc.create className).1.styles probe = doc.styles probe := by
  rw [styles_eq, styles_eq, element?_create]
  split
  · rename_i hprobe
    subst hprobe
    rw [element?_of_not_contains (not_contains_created doc className)]
    rfl
  · rfl

theorem styles_detach (doc : Document) (id probe : ElementId) :
    (doc.detach id).styles probe = doc.styles probe :=
  styles_eq_of_map (element?_detach doc id probe) fun _ => rfl

theorem styles_appendChild (doc : Document) (parent child probe : ElementId) :
    (doc.appendChild parent child).styles probe = doc.styles probe := by
  rw [appendChild_eq]
  split
  · have hattach : ((doc.detach child).attach parent child).styles probe =
        (doc.detach child).styles probe :=
      styles_eq_of_map (element?_attach _ parent child probe) fun _ => rfl
    exact hattach.trans (styles_detach doc child probe)
  · rfl

theorem styles_append (doc : Document) (parent : ElementId) (className : Text)
    (probe : ElementId) : (doc.append parent className).1.styles probe = doc.styles probe := by
  have hcreate := styles_create doc className probe
  exact (styles_appendChild _ parent _ probe).trans hcreate

/-- An operation that writes no inline style. -/
def Operation.SparesStyles : Operation → Prop
  | .setStyle _ _ _ | .removeStyle _ _ => False
  | _ => True

theorem Operation.styles_apply {operation : Operation} (hspares : operation.SparesStyles)
    (doc : Document) (probe : ElementId) : (operation.apply doc).styles probe = doc.styles probe := by
  cases operation with
  | create className => exact styles_create doc className probe
  | append parent className => exact styles_append doc parent className probe
  | appendChild parent child => exact styles_appendChild doc parent child probe
  | detach id => exact styles_detach doc id probe
  | setClassName id className => exact styles_update doc id probe fun _ => rfl
  | addClass id name => exact styles_addClass doc id name probe
  | removeClass id name => exact styles_removeClass doc id name probe
  | setStyle id property value => cases hspares
  | removeStyle id property => cases hspares
  | observeSize id =>
      rw [apply, Document.observeSize]
      split <;> rfl
  | unobserveSize id => rfl
  | observeIntersection id threshold => rfl
  | unobserveIntersection id => rfl

end UtilityCss.Document
