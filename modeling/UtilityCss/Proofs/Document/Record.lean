import UtilityCss.Proofs.Document.ClassNames
import UtilityCss.Proofs.Document.Operation

/-!
What a host notes about the changes of its document: elements that were attached, elements that were
taken away, and elements whose class attribute changed.
-/

namespace UtilityCss

inductive Record where
  | added (id : ElementId)
  | removed (id : ElementId)
  | className (id : ElementId)
deriving DecidableEq

/-- What a change says, element by element. -/
def Mutation.records : Mutation → List Record
  | .childList added removed => removed.map Record.removed ++ added.map Record.added
  | .classAttribute target => [.className target]

namespace Document

variable {before middle after doc : Document} {first second : List Record}

/-- The elements whose class attribute is not what it was. -/
def classRecords (before after : Document) : List Record :=
  (((List.range before.elements.length).map ElementId.element).filter fun id =>
    after.className id ≠ before.className id).map Record.className

/-- The links that an operation makes and breaks, in this order of notes: an element that moves is
taken away first. -/
def Operation.linkRecords (doc : Document) : Operation → List Record
  | .append parent _ => if doc.contains parent then [.added (.element doc.elements.length)] else []
  | .appendChild parent child =>
      if doc.mayAppend parent child then
        (if (doc.parent? child).isSome then [.removed child] else []) ++ [.added child]
      else []
  | .detach id => if (doc.parent? id).isSome then [.removed id] else []
  | _ => []

/-- Notes that account for every difference between two documents. -/
structure Accounts (before after : Document) (records : List Record) : Prop where
  added : ∀ {child parent}, after.parent? child = some parent →
    before.parent? child = some parent ∨ .added child ∈ records
  removed : ∀ {child parent}, before.parent? child = some parent →
    after.parent? child = some parent ∨ .removed child ∈ records
  className : ∀ {id}, before.contains id = true →
    after.className id = before.className id ∨ .className id ∈ records
  contains : ∀ {id}, before.contains id = true → after.contains id = true

theorem Accounts.refl (doc : Document) : Accounts doc doc [] where
  added hparent := Or.inl hparent
  removed hparent := Or.inl hparent
  className _ := Or.inl rfl
  contains hid := hid

theorem Accounts.trans (hfirst : Accounts before middle first)
    (hsecond : Accounts middle after second) : Accounts before after (first ++ second) where
  added {child parent} hparent := by
    rw [List.mem_append]
    rcases hsecond.added hparent with hmiddle | hlater
    · rcases hfirst.added hmiddle with hbefore | hearlier
      · exact Or.inl hbefore
      · exact Or.inr (Or.inl hearlier)
    · exact Or.inr (Or.inr hlater)
  removed {child parent} hparent := by
    rw [List.mem_append]
    rcases hfirst.removed hparent with hmiddle | hearlier
    · rcases hsecond.removed hmiddle with hafter | hlater
      · exact Or.inl hafter
      · exact Or.inr (Or.inr hlater)
    · exact Or.inr (Or.inl hearlier)
  className {id} hid := by
    rw [List.mem_append]
    rcases hfirst.className hid with hmiddle | hearlier
    · rcases hsecond.className (hfirst.contains hid) with hafter | hlater
      · exact Or.inl (hafter.trans hmiddle)
      · exact Or.inr (Or.inr hlater)
    · exact Or.inr (Or.inl hearlier)
  contains hid := hsecond.contains (hfirst.contains hid)

theorem mem_classRecords {id : ElementId} (hid : before.contains id = true)
    (hname : after.className id ≠ before.className id) :
    .className id ∈ classRecords before after := by
  obtain ⟨number, hnumber, rfl⟩ := contains_iff_exists_number.mp hid
  refine List.mem_map_of_mem (List.mem_filter.mpr ⟨?_, decide_eq_true hname⟩)
  exact List.mem_map_of_mem (List.mem_range.mpr hnumber)

/-- Notes on the links, with those on the class attributes, account for everything. -/
theorem accounts_of_links {links : List Record}
    (hadded : ∀ {child parent}, after.parent? child = some parent →
      before.parent? child = some parent ∨ .added child ∈ links)
    (hremoved : ∀ {child parent}, before.parent? child = some parent →
      after.parent? child = some parent ∨ .removed child ∈ links)
    (hcontains : ∀ {id}, before.contains id = true → after.contains id = true) :
    Accounts before after (links ++ classRecords before after) where
  added hparent := (hadded hparent).imp_right (List.mem_append_left _)
  removed hparent := (hremoved hparent).imp_right (List.mem_append_left _)
  className {id} hid := by
    by_cases hname : after.className id = before.className id
    · exact Or.inl hname
    · exact Or.inr (List.mem_append_right _ (mem_classRecords hid hname))
  contains := hcontains

/-- Where no link changes there is nothing to note about links. -/
theorem accounts_of_skeleton (hskeleton : after.skeleton = before.skeleton) :
    Accounts before after (classRecords before after) := by
  have hparent := parent?_eq_of_skeleton hskeleton
  have haccounts : Accounts before after ([] ++ classRecords before after) := by
    refine accounts_of_links (fun hlink => ?_) (fun hlink => ?_) fun hid => ?_
    · rw [hparent] at hlink
      exact Or.inl hlink
    · rw [hparent]
      exact Or.inl hlink
    · rw [contains_eq_of_skeleton hskeleton]
      exact hid
  exact haccounts

theorem accounts_detach (doc : Document) (id : ElementId) :
    Accounts doc (doc.detach id)
      ((if (doc.parent? id).isSome then [.removed id] else []) ++
        classRecords doc (doc.detach id)) := by
  refine accounts_of_links (fun hlink => ?_) (fun {child parent} hlink => ?_) fun hid => ?_
  · exact Or.inl (isParent_of_detach hlink)
  · rw [parent?_detach]
    by_cases hchild : child = id
    · subst hchild
      rw [hlink]
      exact Or.inr List.mem_cons_self
    · rw [if_neg hchild]
      exact Or.inl hlink
  · rw [contains_detach]
    exact hid

theorem parent?_appendChild_of_ne {parent child probe : ElementId} (hprobe : probe ≠ child) :
    (doc.appendChild parent child).parent? probe = doc.parent? probe := by
  rw [appendChild_eq]
  split
  · cases hchild : (doc.detach child).contains child with
    | true => rw [parent?_attach hchild, if_neg hprobe, parent?_detach, if_neg hprobe]
    | false => rw [parent?_attach_of_not_contains hchild, parent?_detach, if_neg hprobe]
  · rfl

theorem contains_appendChild (doc : Document) (parent child probe : ElementId) :
    (doc.appendChild parent child).contains probe = doc.contains probe := by
  rw [appendChild_eq]
  split
  · rw [contains_attach, contains_detach]
  · rfl

theorem accounts_appendChild (doc : Document) (parent child : ElementId) :
    Accounts doc (doc.appendChild parent child)
      (((if (doc.parent? child).isSome then [.removed child] else []) ++ [.added child]) ++
        classRecords doc (doc.appendChild parent child)) := by
  refine accounts_of_links (fun {probe link} hlink => ?_) (fun {probe link} hlink => ?_) fun hid => ?_
  · by_cases hprobe : probe = child
    · rw [hprobe]
      exact Or.inr (List.mem_append_right _ List.mem_cons_self)
    · rw [parent?_appendChild_of_ne hprobe] at hlink
      exact Or.inl hlink
  · by_cases hprobe : probe = child
    · subst hprobe
      rw [hlink]
      exact Or.inr (List.mem_append_left _ List.mem_cons_self)
    · rw [parent?_appendChild_of_ne hprobe]
      exact Or.inl hlink
  · rw [contains_appendChild]
    exact hid

/-- A new element takes a parent only if the document has it. -/
theorem contains_of_mayAppend_created {className : Text} {parent : ElementId}
    (hmay : (doc.create className).1.mayAppend parent (doc.create className).2 = true) :
    doc.contains parent = true := by
  rw [mayAppend, Bool.and_eq_true, contains_create, Bool.or_eq_true, decide_eq_true_eq] at hmay
  obtain ⟨hold | rfl, hbelow⟩ := hmay
  · exact hold
  · rw [isBelow, climbsTo, if_pos rfl] at hbelow
    cases hbelow

theorem accounts_append (doc : Document) (parent : ElementId) (className : Text) :
    Accounts doc (doc.append parent className).1
      ((if doc.contains parent then [.added (doc.create className).2] else []) ++
        classRecords doc (doc.append parent className).1) := by
  have hnew := not_contains_created doc className
  have happend : (doc.append parent className).1 =
      (doc.create className).1.appendChild parent (doc.create className).2 := rfl
  refine accounts_of_links (fun {probe link} hlink => ?_) (fun {probe link} hlink => ?_)
    fun {probe} hid => ?_
  · rw [happend] at hlink
    by_cases hmay : (doc.create className).1.mayAppend parent (doc.create className).2 = true
    · by_cases hprobe : probe = (doc.create className).2
      · rw [if_pos (contains_of_mayAppend_created hmay), hprobe]
        exact Or.inr List.mem_cons_self
      · rw [parent?_appendChild_of_ne hprobe, parent?_create] at hlink
        exact Or.inl hlink
    · rw [appendChild_eq, if_neg hmay, parent?_create] at hlink
      exact Or.inl hlink
  · have hprobe : probe ≠ (doc.create className).2 := by
      rintro rfl
      rw [contains_of_parent? hlink] at hnew
      cases hnew
    rw [happend, parent?_appendChild_of_ne hprobe, parent?_create]
    exact Or.inl hlink
  · rw [happend, contains_appendChild, contains_create, hid, Bool.true_or]

theorem Operation.linkRecords_of_sparesLinks {operation : Operation}
    (hspares : operation.SparesLinks) (doc : Document) : operation.linkRecords doc = [] := by
  cases operation <;> first | rfl | cases hspares

theorem Operation.accounts (doc : Document) (operation : Operation) :
    Accounts doc (operation.apply doc)
      (operation.linkRecords doc ++ classRecords doc (operation.apply doc)) := by
  cases operation using Operation.cases_links with
  | hcreate className =>
      refine accounts_of_links (fun hlink => ?_) (fun hlink => ?_) fun hid => ?_
      · exact Or.inl ((parent?_create doc className _).symm.trans hlink)
      · exact Or.inl ((parent?_create doc className _).trans hlink)
      · rw [apply, contains_create, hid, Bool.true_or]
  | happend parent className => exact accounts_append doc parent className
  | happendChild parent child =>
      rw [linkRecords]
      split
      · exact accounts_appendChild doc parent child
      · rename_i hmay
        have hsame : doc.appendChild parent child = doc := by rw [appendChild_eq, if_neg hmay]
        exact accounts_of_skeleton (congrArg skeleton hsame)
  | hdetach id => exact accounts_detach doc id
  | hspares operation hspares =>
      rw [linkRecords_of_sparesLinks hspares, List.nil_append]
      exact accounts_of_skeleton (skeleton_apply hspares doc)

/-- An operation that does not give the root a parent. -/
def Operation.SparesRoot : Operation → Prop
  | .appendChild _ child => child ≠ root
  | _ => True

instance (operation : Operation) : Decidable operation.SparesRoot :=
  match operation with
  | .appendChild _ child => inferInstanceAs (Decidable (child ≠ root))
  | .create _ | .append _ _ | .detach _ | .setClassName _ _ | .addClass _ _ | .removeClass _ _
  | .setStyle _ _ _ | .removeStyle _ _ | .observeSize _ | .unobserveSize _
  | .observeIntersection _ _ | .unobserveIntersection _ => inferInstanceAs (Decidable True)

theorem Operation.parent?_root_apply (hforest : doc.IsForest) {operation : Operation}
    (hspares : operation.SparesRoot) (hroot : doc.parent? root = none) :
    (operation.apply doc).parent? root = none := by
  cases operation using Operation.cases_links with
  | hcreate className => exact (parent?_create doc className root).trans hroot
  | happend parent className =>
      have hnew : root ≠ (doc.create className).2 := by
        intro heq
        have hcontains := hforest.contains_root
        rw [heq, not_contains_created] at hcontains
        cases hcontains
      exact (parent?_appendChild_of_ne hnew).trans ((parent?_create doc className root).trans hroot)
  | happendChild parent child =>
      exact (parent?_appendChild_of_ne (Ne.symm hspares)).trans hroot
  | hdetach id =>
      rw [apply, parent?_detach, hroot, ite_self]
  | hspares operation hkeeps =>
      exact (parent?_eq_of_skeleton (skeleton_apply hkeeps doc) root).trans hroot

theorem sizeObserver_detach (doc : Document) (id : ElementId) :
    (doc.detach id).sizeObserver = doc.sizeObserver := by
  unfold detach
  split
  · exact (sizeObserver_update _ _ _).trans (sizeObserver_update doc id _)
  · rfl

theorem sizeObserver_appendChild (doc : Document) (parent child : ElementId) :
    (doc.appendChild parent child).sizeObserver = doc.sizeObserver := by
  rw [appendChild_eq]
  split
  · exact ((sizeObserver_update _ parent _).trans (sizeObserver_update _ child _)).trans
      (sizeObserver_detach doc child)
  · rfl

theorem Operation.sizeObserver_apply (doc : Document) (operation : Operation) :
    (operation.apply doc).sizeObserver = doc.sizeObserver := by
  cases operation with
  | create className => rfl
  | append parent className => exact sizeObserver_appendChild (doc.create className).1 parent _
  | appendChild parent child => exact sizeObserver_appendChild doc parent child
  | detach id => exact sizeObserver_detach doc id
  | setClassName id className => exact sizeObserver_update doc id _
  | addClass id name => exact sizeObserver_update doc id _
  | removeClass id name => exact sizeObserver_update doc id _
  | setStyle id property value => exact sizeObserver_update doc id _
  | removeStyle id property => exact sizeObserver_update doc id _
  | observeSize id =>
      rw [apply, Document.observeSize]
      split <;> rfl
  | unobserveSize id => rfl
  | observeIntersection id threshold => rfl
  | unobserveIntersection id => rfl

end Document

end UtilityCss
