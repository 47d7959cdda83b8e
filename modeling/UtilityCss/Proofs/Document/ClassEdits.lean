import UtilityCss.Proofs.Document.ClassNames
import UtilityCss.Proofs.Document.Operation

/-!
Edits of class attributes.  A class that an element did not have before is one of those that were
added to it, and all operations but three leave the attribute of an element alone: an element that
moves takes its classes along.
-/

namespace UtilityCss.Document

variable {doc before after : Document} {id probe target : ElementId} {name : Text}

/-- An element that changes in other respects keeps its class attribute. -/
theorem className_eq_of_map {change : Element → Element}
    (helement : after.element? id = (before.element? id).map change)
    (hchange : ∀ element, (change element).className = element.className) :
    after.className id = before.className id := by
  have hclass : Element.className ∘ change = Element.className := funext hchange
  rw [className_eq, className_eq, helement, Option.map_map, hclass]

theorem className_update (doc : Document) (id probe : ElementId) {change : Element → Element}
    (hchange : ∀ element, (change element).className = element.className) :
    (doc.update id change).className probe = doc.className probe :=
  className_eq_of_classNames (classNames_update doc id hchange) probe

theorem className_update_of_ne (change : Element → Element) (hprobe : probe ≠ id) :
    (doc.update id change).className probe = doc.className probe := by
  rw [className_eq, className_eq, element?_update, if_neg hprobe]

theorem className_create (hprobe : doc.contains probe = true) (className : Text) :
    (doc.create className).1.className probe = doc.className probe := by
  have hnew : probe ≠ (doc.create className).2 := by
    rintro rfl
    rw [not_contains_created] at hprobe
    cases hprobe
  rw [className_eq, className_eq, element?_create, if_neg hnew]

theorem className_appendChild (doc : Document) (parent child probe : ElementId) :
    (doc.appendChild parent child).className probe = doc.className probe := by
  rw [appendChild_eq]
  split
  · have hattach : ((doc.detach child).attach parent child).className probe =
        (doc.detach child).className probe :=
      className_eq_of_map (element?_attach _ parent child probe) fun _ => rfl
    exact hattach.trans (className_eq_of_map (element?_detach doc child probe) fun _ => rfl)
  · rfl

theorem classes_eq_nil_of_not_contains (hid : doc.contains id = false) : doc.classes id = [] := by
  rw [List.eq_nil_iff_forall_not_mem]
  intro name hname
  rw [contains_of_mem_classes hname] at hid
  cases hid

theorem mem_classes_addClass_target {other : Text}
    (hother : other ∈ (doc.addClass target name).classes id) :
    other ∈ doc.classes id ∨ target = id ∧ other ∈ name.words := by
  by_cases htarget : id = target
  · subst htarget
    exact (mem_classes_addClass hother).imp_right fun hword => ⟨rfl, hword⟩
  · rw [classes, addClass, className_update_of_ne _ htarget] at hother
    exact Or.inl hother

theorem mem_classes_of_removeClass {other : Text}
    (hother : other ∈ (doc.removeClass target name).classes id) : other ∈ doc.classes id := by
  by_cases htarget : id = target
  · subst htarget
    rw [classes_removeClass] at hother
    exact List.mem_of_mem_filter hother
  · rwa [classes, removeClass, className_update_of_ne _ htarget] at hother

/-- A class that is there after a loop was there before it, or one of the rounds brings it. -/
theorem mem_classes_foldl {α : Type} {step : Document → α → Document} {brings : α → Prop}
    (hstep : ∀ doc item, name ∈ (step doc item).classes id → name ∈ doc.classes id ∨ brings item)
    {items : List α} (hname : name ∈ (items.foldl step doc).classes id) :
    name ∈ doc.classes id ∨ ∃ item ∈ items, brings item := by
  induction items generalizing doc with
  | nil => exact Or.inl hname
  | cons item rest ih =>
      rcases ih hname with hfirst | ⟨other, hother, hbrings⟩
      · refine (hstep doc item hfirst).imp_right fun hbrings => ?_
        exact ⟨item, List.mem_cons_self, hbrings⟩
      · exact Or.inr ⟨other, List.mem_cons_of_mem item hother, hbrings⟩

/-- An operation that does not write the class attribute of an element. -/
def Operation.SparesClasses (id : ElementId) : Operation → Prop
  | .setClassName target _ | .addClass target _ | .removeClass target _ => target ≠ id
  | _ => True

theorem Operation.className_apply {operation : Operation} (hspares : operation.SparesClasses id)
    (hid : doc.contains id = true) : (operation.apply doc).className id = doc.className id := by
  cases operation with
  | create className => exact className_create hid className
  | append parent className =>
      exact (className_appendChild _ parent _ id).trans (className_create hid className)
  | appendChild parent child => exact className_appendChild doc parent child id
  | detach target => exact className_eq_of_map (element?_detach doc target id) fun _ => rfl
  | setClassName target className => exact className_update_of_ne _ (Ne.symm hspares)
  | addClass target name => exact className_update_of_ne _ (Ne.symm hspares)
  | removeClass target name => exact className_update_of_ne _ (Ne.symm hspares)
  | setStyle target property value => exact className_update doc target id fun _ => rfl
  | removeStyle target property => exact className_update doc target id fun _ => rfl
  | observeSize target =>
      rw [apply, Document.observeSize]
      split <;> rfl
  | unobserveSize target => rfl
  | observeIntersection target threshold => rfl
  | unobserveIntersection target => rfl

end UtilityCss.Document
