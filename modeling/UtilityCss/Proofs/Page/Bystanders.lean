import UtilityCss.Proofs.Document.ClassNames
import UtilityCss.Proofs.Page.Syncing

/-!
What the service of container conditions leaves alone: class attributes, observed elements and
deferred classes.
-/

namespace UtilityCss.Page

/-- What a page keeps besides container conditions and inline styles. -/
structure Bystanders where
  classNames : List Text
  observed : List ElementId
  scheduled : OrderedMap ElementId (List Text)
  queue : List DeferredClass

def bystanders (page : Page) : Bystanders :=
  ⟨page.document.classNames, page.observed, page.scheduled, page.queue⟩

variable {page before after : Page} {id : ElementId}

theorem classes_eq_of_bystanders (hbystanders : after.bystanders = before.bystanders)
    (id : ElementId) : after.document.classes id = before.document.classes id :=
  congrArg Text.words (Document.className_eq_of_classNames
    (congrArg Bystanders.classNames hbystanders) id)

theorem bystanders_updateContainer (page : Page) (id : ElementId)
    (change : ContainerState → ContainerState) :
    (page.updateContainer id change).bystanders = page.bystanders := by
  unfold updateContainer
  split <;> rfl

theorem bystanders_withDocument {change : Document → Document}
    (hclasses : (change page.document).classNames = page.document.classNames) :
    (page.withDocument change).bystanders = page.bystanders := by
  rw [bystanders, withDocument, hclasses]
  rfl

theorem classNames_setStyle (doc : Document) (id : ElementId) (property value : Text) :
    (doc.setStyle id property value).classNames = doc.classNames :=
  doc.classNames_update id fun _ => rfl

theorem classNames_removeStyle (doc : Document) (id : ElementId) (property : Text) :
    (doc.removeStyle id property).classNames = doc.classNames :=
  doc.classNames_update id fun _ => rfl

theorem bystanders_releaseStyles (page : Page) (id : ElementId) (properties : List Text) :
    (page.releaseStyles id properties).bystanders = page.bystanders := by
  refine bystanders_withDocument
    (foldl_eq_of_step Document.classNames (fun doc property => ?_) properties _)
  split
  · exact classNames_setStyle doc id property _
  · exact classNames_removeStyle doc id property

theorem bystanders_deactivate (page : Page) (id : ElementId) (token : Text) :
    (page.deactivate id token).bystanders = page.bystanders := by
  unfold deactivate
  split
  · exact (bystanders_releaseStyles _ id _).trans (bystanders_updateContainer page id _)
  · rfl

theorem bystanders_activate (page : Page) (id : ElementId) (token : Text) :
    (page.activate id token).bystanders = page.bystanders := by
  unfold activate
  split
  · refine (bystanders_updateContainer _ id _).trans ?_
    exact bystanders_withDocument (foldl_eq_of_step Document.classNames
      (fun doc (entry : Text × Text) => classNames_setStyle doc id entry.1 entry.2) _ _)
  · rfl

theorem bystanders_evaluate (page : Page) (id : ElementId) (width : Binary64) :
    (page.evaluate id width).bystanders = page.bystanders :=
  (foldl_eq_of_step bystanders (fun page token => bystanders_activate page id token) _ _).trans
    (foldl_eq_of_step bystanders (fun page token => bystanders_deactivate page id token) _ page)

theorem bystanders_resize (page : Page) (id : ElementId) (width : Binary64) :
    (page.resize id width).bystanders = page.bystanders := by
  unfold resize
  split
  · exact (bystanders_evaluate _ id width).trans (bystanders_updateContainer page id _)
  · rfl

theorem bystanders_dropCondition (page : Page) (id : ElementId) (token : Text) :
    (page.dropCondition id token).bystanders = page.bystanders := by
  unfold dropCondition
  split
  · exact (bystanders_releaseStyles _ id _).trans (bystanders_updateContainer page id _)
  · rfl

theorem bystanders_rekey (page : Page) (id : ElementId)
    (queries : List (Text × ContainerToken)) :
    (page.rekey id queries).bystanders = page.bystanders :=
  (bystanders_updateContainer _ id _).trans
    (foldl_eq_of_step bystanders (fun page token => bystanders_dropCondition page id token) _ page)

theorem bystanders_teardown (page : Page) (id : ElementId) :
    (page.teardown id).bystanders = page.bystanders := by
  unfold teardown
  split <;> rfl

theorem bystanders_track (page : Page) (id : ElementId) :
    (page.track id).bystanders = page.bystanders := by
  have hobserve : (page.withDocument fun doc => doc.observeSize id).bystanders =
      page.bystanders := by
    refine bystanders_withDocument ?_
    unfold Document.observeSize
    split <;> rfl
  unfold track
  split
  · rfl
  · split
    · exact hobserve
    · exact hobserve

theorem bystanders_syncConditions (page : Page) (id : ElementId)
    (queries : List (Text × ContainerToken)) :
    (page.syncConditions id queries).bystanders = page.bystanders := by
  rw [syncConditions_eq]
  dsimp only
  split
  · exact (bystanders_teardown _ id).trans (bystanders_rekey page id queries)
  · split
    · split
      · exact (bystanders_evaluate _ id _).trans (bystanders_rekey page id queries)
      · exact bystanders_rekey page id queries
    · exact bystanders_rekey page id queries

theorem bystanders_sync (page : Page) (id : ElementId) (tokens : List Text) :
    (page.sync id tokens).bystanders = page.bystanders := by
  unfold sync
  dsimp only
  split
  · rfl
  split
  · rfl
  split
  · exact (bystanders_syncConditions _ id _).trans (bystanders_track page id)
  · exact bystanders_track page id

end UtilityCss.Page
