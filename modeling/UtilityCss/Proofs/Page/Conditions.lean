import UtilityCss.Proofs.Compiler.Operation
import UtilityCss.Proofs.Page.Locality

/-!
What serving the conditions of an element does to them and to its inline style.  The style belongs
to the conditions: a property is set as long as an active condition claims it.
-/

namespace UtilityCss

namespace Document

variable {doc : Document} {id : ElementId}

theorem contains_update (doc : Document) (id probe : ElementId) (change : Element → Element) :
    (doc.update id change).contains probe = doc.contains probe := by
  simp only [contains, element?_update]
  split
  · rename_i hprobe
    rw [hprobe, Option.isSome_map]
  · rfl

theorem style?_eq (doc : Document) (id : ElementId) (property : Text) :
    doc.style? id property = (doc.element? id).bind fun element => element.styles.get? property := by
  rw [style?, styles]
  cases doc.element? id <;> rfl

theorem style?_setStyle (hid : doc.contains id = true) (property value probe : Text) :
    (doc.setStyle id property value).style? id probe =
      if probe = property then some value else doc.style? id probe := by
  obtain ⟨element, helement⟩ := Option.isSome_iff_exists.mp hid
  simp [style?_eq, setStyle, element?_update, helement, OrderedMap.get?_insert]

theorem style?_removeStyle (hid : doc.contains id = true) (property probe : Text) :
    (doc.removeStyle id property).style? id probe =
      if probe = property then none else doc.style? id probe := by
  obtain ⟨element, helement⟩ := Option.isSome_iff_exists.mp hid
  simp [style?_eq, removeStyle, element?_update, helement, OrderedMap.get?_erase]

/-- Writing a style sets each of its properties; distinct keys make the order irrelevant. -/
theorem style?_foldl_setStyle {entries : List (Text × Text)} (hid : doc.contains id = true)
    (hnodup : (entries.map Prod.fst).Nodup) (probe : Text) :
    (entries.foldl (fun doc (property, value) => doc.setStyle id property value) doc).style? id
        probe =
      (Entries.get? probe entries).or (doc.style? id probe) := by
  induction entries generalizing doc with
  | nil => rfl
  | cons entry rest ih =>
      obtain ⟨property, value⟩ := entry
      simp only [List.map_cons, List.nodup_cons] at hnodup
      have hrest : (doc.setStyle id property value).contains id = true := by
        rw [setStyle, contains_update]
        exact hid
      rw [List.foldl_cons, ih hrest hnodup.2, style?_setStyle hid]
      by_cases hprobe : probe = property
      · subst hprobe
        have habsent : Entries.get? probe rest = none := Entries.get?_eq_none_iff.mpr hnodup.1
        simp [Entries.get?, habsent]
      · simp [Entries.get?, hprobe, Ne.symm hprobe]

/-- Rewriting properties by a rule gives each of them what the rule says. -/
theorem style?_foldl_rewrite (rule : Text → Option Text) (properties : List Text)
    (hid : doc.contains id = true) (probe : Text) :
    (properties.foldl (fun doc property =>
        match rule property with
        | some value => doc.setStyle id property value
        | none => doc.removeStyle id property) doc).style? id probe =
      if probe ∈ properties then rule probe else doc.style? id probe := by
  induction properties generalizing doc with
  | nil => simp
  | cons property rest ih =>
      rw [List.foldl_cons]
      cases hrule : rule property with
      | some value =>
          have hrest : (doc.setStyle id property value).contains id = true := by
            rw [setStyle, contains_update]
            exact hid
          rw [ih hrest, style?_setStyle hid]
          by_cases hprobe : probe = property
          · simp [hprobe, hrule]
          · simp [hprobe]
      | none =>
          have hrest : (doc.removeStyle id property).contains id = true := by
            rw [removeStyle, contains_update]
            exact hid
          rw [ih hrest, style?_removeStyle hid]
          by_cases hprobe : probe = property
          · simp [hprobe, hrule]
          · simp [hprobe]

end Document

namespace Compiler

/-- The inline style of a payload, as a compiler has it now. -/
def payloadStyle (compiler : Compiler) (payload : Text) : InlineStyle :=
  (compiler.inlineStyle payload).2

/-- An inline style depends on what classes are compiled against, and on nothing else. -/
theorem payloadStyle_eq_of_context {before after : Compiler}
    (hcontext : after.context = before.context) (payload : Text) :
    after.payloadStyle payload = before.payloadStyle payload := by
  simp only [payloadStyle, inlineStyle, hcontext]
  split <;> rfl

end Compiler

/-- What a condition is after its end. -/
def Condition.ended (condition : Condition) : Condition :=
  { condition with active := false, applied := .empty }

/-- What a condition is after its beginning with a style. -/
def Condition.begun (condition : Condition) (style : InlineStyle) : Condition :=
  { condition with active := true, applied := style }

namespace Page

variable {page : Page} {id : ElementId} {token property : Text} {condition : Condition}

theorem container?_updateContainer (page : Page) (id : ElementId)
    (change : ContainerState → ContainerState) :
    (page.updateContainer id change).container? id = (page.container? id).map change := by
  unfold updateContainer
  cases hstate : page.container? id with
  | none => exact hstate
  | some state => simp [container?, OrderedMap.get?_insert]

theorem document_updateContainer (page : Page) (id : ElementId)
    (change : ContainerState → ContainerState) :
    (page.updateContainer id change).document = page.document := by
  unfold updateContainer
  split <;> rfl

theorem compiler_updateContainer (page : Page) (id : ElementId)
    (change : ContainerState → ContainerState) :
    (page.updateContainer id change).compiler = page.compiler := by
  unfold updateContainer
  split <;> rfl

theorem conditions_eq (page : Page) (id : ElementId) :
    page.conditions id = ((page.container? id).map ContainerState.conditions).getD .empty := by
  unfold conditions
  cases page.container? id <;> rfl

/-- The last width that was reported for an element, since it is tracked. -/
def width? (page : Page) (id : ElementId) : Option Binary64 :=
  (page.container? id).bind ContainerState.width

theorem isTracked_iff {page : Page} {id : ElementId} :
    page.isTracked id = true ↔ ∃ state, page.container? id = some state := by
  rw [isTracked, OrderedMap.contains, Option.isSome_iff_exists]
  rfl

theorem isTracked_of_condition (hcondition : (page.conditions id).get? token = some condition) :
    page.isTracked id = true := by
  rw [conditions_eq] at hcondition
  rw [isTracked_iff]
  cases hstate : page.container? id with
  | none => simp [hstate] at hcondition
  | some state => exact ⟨state, rfl⟩

theorem width?_updateContainer (page : Page) (id : ElementId)
    {change : ContainerState → ContainerState}
    (hchange : ∀ state, (change state).width = state.width) :
    (page.updateContainer id change).width? id = page.width? id := by
  simp only [width?, container?_updateContainer]
  cases page.container? id with
  | none => rfl
  | some state => exact hchange state

theorem style?_releaseStyles (hid : page.document.contains id = true) (properties : List Text)
    (probe : Text) :
    (page.releaseStyles id properties).document.style? id probe =
      if probe ∈ properties then claimedValue? (page.conditions id) probe
      else page.document.style? id probe :=
  Document.style?_foldl_rewrite (claimedValue? (page.conditions id)) properties hid probe

theorem conditions_updateCondition (hcondition : (page.conditions id).get? token = some condition)
    (change : Condition → Condition) :
    (page.updateCondition id token change).conditions id =
      (page.conditions id).insert token (change condition) := by
  obtain ⟨state, hstate⟩ := isTracked_iff.mp (isTracked_of_condition hcondition)
  have hconditions : page.conditions id = state.conditions := by simp [conditions_eq, hstate]
  rw [hconditions] at hcondition ⊢
  simp [conditions_eq, updateCondition, container?_updateContainer, hstate, hcondition]

theorem width?_updateCondition (page : Page) (id : ElementId) (token : Text)
    (change : Condition → Condition) :
    (page.updateCondition id token change).width? id = page.width? id := by
  refine width?_updateContainer page id fun state => ?_
  split <;> rfl

theorem deactivate_of_none (hcondition : (page.conditions id).get? token = none) :
    page.deactivate id token = page := by
  simp [deactivate, hcondition]

theorem deactivate_of_some (hcondition : (page.conditions id).get? token = some condition) :
    page.deactivate id token =
      (page.updateCondition id token Condition.ended).releaseStyles id condition.applied.keys := by
  rw [deactivate, hcondition]
  rfl

theorem conditions_deactivate (hcondition : (page.conditions id).get? token = some condition) :
    (page.deactivate id token).conditions id = (page.conditions id).insert token condition.ended := by
  rw [deactivate_of_some hcondition]
  exact conditions_updateCondition hcondition _

theorem width?_deactivate (page : Page) (id : ElementId) (token : Text) :
    (page.deactivate id token).width? id = page.width? id := by
  unfold deactivate
  split
  · exact width?_updateCondition page id token _
  · rfl

theorem compiler_deactivate (page : Page) (id : ElementId) (token : Text) :
    (page.deactivate id token).compiler = page.compiler := by
  unfold deactivate
  split
  · exact compiler_updateContainer page id _
  · rfl

theorem style?_deactivate (hid : page.document.contains id = true)
    (hcondition : (page.conditions id).get? token = some condition) (probe : Text) :
    (page.deactivate id token).document.style? id probe =
      if probe ∈ condition.applied.keys then
        claimedValue? ((page.conditions id).insert token condition.ended) probe
      else page.document.style? id probe := by
  have hconditions := conditions_updateCondition hcondition Condition.ended
  have hdocument : (page.updateCondition id token Condition.ended).document = page.document :=
    document_updateContainer page id _
  rw [deactivate_of_some hcondition, ← hconditions, style?_releaseStyles (hdocument ▸ hid),
    hdocument]

/-- An element without the condition of a token. -/
def eraseCondition (page : Page) (id : ElementId) (token : Text) : Page :=
  page.updateContainer id fun state => { state with conditions := state.conditions.erase token }

theorem dropCondition_of_none (hcondition : (page.conditions id).get? token = none) :
    page.dropCondition id token = page := by
  simp [dropCondition, hcondition]

theorem dropCondition_of_some (hcondition : (page.conditions id).get? token = some condition) :
    page.dropCondition id token =
      (page.eraseCondition id token).releaseStyles id condition.applied.keys := by
  rw [dropCondition, hcondition]
  rfl

theorem conditions_eraseCondition (hcondition : (page.conditions id).get? token = some condition) :
    (page.eraseCondition id token).conditions id = (page.conditions id).erase token := by
  obtain ⟨state, hstate⟩ := isTracked_iff.mp (isTracked_of_condition hcondition)
  simp [conditions_eq, eraseCondition, container?_updateContainer, hstate]

theorem conditions_dropCondition (hcondition : (page.conditions id).get? token = some condition) :
    (page.dropCondition id token).conditions id = (page.conditions id).erase token := by
  rw [dropCondition_of_some hcondition]
  exact conditions_eraseCondition hcondition

theorem width?_dropCondition (page : Page) (id : ElementId) (token : Text) :
    (page.dropCondition id token).width? id = page.width? id := by
  unfold dropCondition
  split
  · exact width?_updateContainer page id fun _ => rfl
  · rfl

theorem style?_dropCondition (hid : page.document.contains id = true)
    (hcondition : (page.conditions id).get? token = some condition) (probe : Text) :
    (page.dropCondition id token).document.style? id probe =
      if probe ∈ condition.applied.keys then
        claimedValue? ((page.conditions id).erase token) probe
      else page.document.style? id probe := by
  have hdocument : (page.eraseCondition id token).document = page.document :=
    document_updateContainer page id _
  rw [dropCondition_of_some hcondition, ← conditions_eraseCondition hcondition,
    style?_releaseStyles (hdocument ▸ hid), hdocument]

theorem activate_of_none (hcondition : (page.conditions id).get? token = none) :
    page.activate id token = page := by
  simp [activate, hcondition]

/-- An element with a style written over its own, and the compiler that gave the style. -/
def applyPayload (page : Page) (id : ElementId) (payload : Text) : Page :=
  { page with compiler := (page.compiler.inlineStyle payload).1 }.withDocument fun doc =>
    (page.compiler.payloadStyle payload).entries.foldl
      (fun doc (property, value) => doc.setStyle id property value) doc

theorem activate_of_some (hcondition : (page.conditions id).get? token = some condition) :
    page.activate id token =
      (page.applyPayload id condition.token.payload).updateCondition id token fun condition' =>
        condition'.begun (page.compiler.payloadStyle condition.token.payload) := by
  rw [activate, hcondition]
  rfl

theorem conditions_activate (hcondition : (page.conditions id).get? token = some condition) :
    (page.activate id token).conditions id =
      (page.conditions id).insert token
        (condition.begun (page.compiler.payloadStyle condition.token.payload)) := by
  have happlied : ((page.applyPayload id condition.token.payload).conditions id).get? token =
      some condition := hcondition
  rw [activate_of_some hcondition, conditions_updateCondition happlied]
  rfl

theorem width?_activate (page : Page) (id : ElementId) (token : Text) :
    (page.activate id token).width? id = page.width? id := by
  unfold activate
  split
  · exact width?_updateCondition _ id token _
  · rfl

theorem context_activate (page : Page) (id : ElementId) (token : Text) :
    (page.activate id token).compiler.context = page.compiler.context := by
  unfold activate
  split
  · dsimp only
    rw [updateCondition, compiler_updateContainer]
    exact Compiler.context_inlineStyle _ _
  · rfl

theorem style?_activate (hid : page.document.contains id = true)
    (hcondition : (page.conditions id).get? token = some condition) (probe : Text) :
    (page.activate id token).document.style? id probe =
      ((page.compiler.payloadStyle condition.token.payload).get? probe).or
        (page.document.style? id probe) := by
  rw [activate_of_some hcondition, updateCondition, document_updateContainer]
  exact Document.style?_foldl_setStyle hid (page.compiler.payloadStyle _).nodup_keys probe

end Page

end UtilityCss
