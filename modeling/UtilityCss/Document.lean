import UtilityCss.Number.Binary64
import UtilityCss.OrderedMap
import UtilityCss.Text.Blank

/-!
A tree of elements with class attributes and inline styles.  Elements are numbered in the order of
their creation and keep their number whether they are attached or not; the root is number zero.  The
document also records which elements its host observes.
-/

namespace UtilityCss

/-- A handle to an element; the null handle refers to none. -/
inductive ElementId where
  | null
  | element (number : Nat)
deriving DecidableEq, Repr, Inhabited

/-- What the document keeps of an element. -/
structure Element where
  parent : Option ElementId := none
  children : List ElementId := []
  className : Text := []
  styles : OrderedMap Text Text := .empty
deriving DecidableEq, Inhabited

structure Document where
  elements : List Element := [{}]
  /-- Whether the host can report element sizes. -/
  sizeObserver : Bool := true
  sizeObserved : List ElementId := []
  /-- The thresholds of the elements whose intersection is observed. -/
  intersections : OrderedMap ElementId Binary64 := .empty
deriving DecidableEq, Inhabited

namespace Document

def root : ElementId := .element 0

def element? (doc : Document) : ElementId → Option Element
  | .null => none
  | .element number => doc.elements[number]?

def contains (doc : Document) (id : ElementId) : Bool :=
  (doc.element? id).isSome

/-- Change an element, if it exists. -/
def update (doc : Document) (id : ElementId) (change : Element → Element) : Document :=
  match id with
  | .null => doc
  | .element number => { doc with elements := doc.elements.modify number change }

def parent? (doc : Document) (id : ElementId) : Option ElementId :=
  (doc.element? id).bind Element.parent

def children (doc : Document) (id : ElementId) : List ElementId :=
  match doc.element? id with
  | some element => element.children
  | none => []

/-- The class attribute; empty for a handle without element. -/
def className (doc : Document) (id : ElementId) : Text :=
  match doc.element? id with
  | some element => element.className
  | none => []

/-- The class tokens of an element, in order. -/
def classes (doc : Document) (id : ElementId) : List Text :=
  (doc.className id).words

def styles (doc : Document) (id : ElementId) : OrderedMap Text Text :=
  match doc.element? id with
  | some element => element.styles
  | none => .empty

/-- Whether one of the first `steps` elements on the way up from `id`, itself included, is
`ancestor`. -/
def climbsTo (doc : Document) (ancestor : ElementId) : (steps : Nat) → ElementId → Bool
  | 0, _ => false
  | steps + 1, id =>
      if id = ancestor then true
      else
        match doc.parent? id with
        | some parent => climbsTo doc ancestor steps parent
        | none => false

/-- Whether an element is `ancestor` or below it.  The way up has no more elements than the document,
and one more step allows for a handle without element. -/
def isBelow (doc : Document) (ancestor id : ElementId) : Bool :=
  doc.climbsTo ancestor (doc.elements.length + 1) id

/-- Whether an element is attached to the root. -/
def isConnected (doc : Document) (id : ElementId) : Bool :=
  doc.isBelow root id

/-- An element and what is below it, to a depth, in document order. -/
def preorder (doc : Document) : (depth : Nat) → ElementId → List ElementId
  | 0, id => [id]
  | depth + 1, id => id :: (doc.children id).flatMap (preorder doc depth)

/-- An element and everything below it, in document order.  No branch is longer than the number of
elements. -/
def subtree (doc : Document) (id : ElementId) : List ElementId :=
  doc.preorder doc.elements.length id

/-- Create a detached element. -/
def create (doc : Document) (className : Text) : Document × ElementId :=
  ({ doc with elements := doc.elements ++ [{ className }] }, .element doc.elements.length)

/-- Take an element from its parent; what is below it stays. -/
def detach (doc : Document) (id : ElementId) : Document :=
  match doc.parent? id with
  | some parent =>
      (doc.update id fun element => { element with parent := none }).update parent fun element =>
        { element with children := element.children.filter (· ≠ id) }
  | none => doc

/-- Move an element to the end of a parent's children.  Nothing moves below itself, and a parent that
does not exist takes no children. -/
def appendChild (doc : Document) (parent child : ElementId) : Document :=
  if !doc.contains parent || doc.isBelow child parent then doc
  else
    let detached := doc.detach child
    let placed := detached.update child fun element => { element with parent := some parent }
    placed.update parent fun element => { element with children := element.children ++ [child] }

/-- Create an element at the end of a parent's children. -/
def append (doc : Document) (parent : ElementId) (className : Text) : Document × ElementId :=
  let (created, child) := doc.create className
  (created.appendChild parent child, child)

def setClassName (doc : Document) (id : ElementId) (className : Text) : Document :=
  doc.update id fun element => { element with className }

/-- A class attribute with one more token, unless it has it. -/
def withClass (name current : Text) : Text :=
  if name ∈ current.words then current
  else if current.isEmpty then name
  else current ++ ' ' :: name

/-- A class attribute without a token; the others end up with one space between them. -/
def withoutClass (name current : Text) : Text :=
  [' '].intercalate (current.words.filter (· ≠ name))

def addClass (doc : Document) (id : ElementId) (name : Text) : Document :=
  doc.update id fun element => { element with className := withClass name element.className }

def removeClass (doc : Document) (id : ElementId) (name : Text) : Document :=
  doc.update id fun element => { element with className := withoutClass name element.className }

def hasClass (doc : Document) (id : ElementId) (name : Text) : Bool :=
  (doc.classes id).contains name

def setStyle (doc : Document) (id : ElementId) (property value : Text) : Document :=
  doc.update id fun element => { element with styles := element.styles.insert property value }

def removeStyle (doc : Document) (id : ElementId) (property : Text) : Document :=
  doc.update id fun element => { element with styles := element.styles.erase property }

def style? (doc : Document) (id : ElementId) (property : Text) : Option Text :=
  (doc.styles id).get? property

def observeSize (doc : Document) (id : ElementId) : Document :=
  if id ∈ doc.sizeObserved then doc else { doc with sizeObserved := doc.sizeObserved ++ [id] }

def unobserveSize (doc : Document) (id : ElementId) : Document :=
  { doc with sizeObserved := doc.sizeObserved.filter (· ≠ id) }

def observeIntersection (doc : Document) (id : ElementId) (threshold : Binary64) : Document :=
  { doc with intersections := doc.intersections.insert id threshold }

def unobserveIntersection (doc : Document) (id : ElementId) : Document :=
  { doc with intersections := doc.intersections.erase id }

theorem element?_update (doc : Document) (id probe : ElementId) (change : Element → Element) :
    (doc.update id change).element? probe =
      if probe = id then (doc.element? id).map change else doc.element? probe := by
  cases id with
  | null => cases probe <;> simp [update, element?]
  | element number =>
      cases probe with
      | null => simp [element?]
      | element other =>
          by_cases hother : other = number
          · simp [update, element?, hother]
          · simp [update, element?, hother, Ne.symm hother]

theorem element?_create (doc : Document) (className : Text) (probe : ElementId) :
    (doc.create className).1.element? probe =
      if probe = (doc.create className).2 then some { className } else doc.element? probe := by
  cases probe with
  | null => simp [create, element?]
  | element number =>
      by_cases hnumber : number = doc.elements.length
      · simp [create, element?, hnumber]
      · simp only [create, element?, ElementId.element.injEq, hnumber, ↓reduceIte]
        rcases Nat.lt_or_gt_of_ne hnumber with hlt | hgt
        · exact List.getElem?_append_left hlt
        · rw [List.getElem?_eq_none (Nat.le_of_lt hgt)]
          exact List.getElem?_eq_none (by rw [List.length_append]; exact hgt)

theorem element?_of_not_contains {doc : Document} {id : ElementId}
    (hid : doc.contains id = false) : doc.element? id = none := by
  rwa [contains, Option.isSome_eq_false_iff, Option.isNone_iff_eq_none] at hid

end Document

/-- A change that the host reports. -/
inductive Mutation where
  /-- Elements that were attached, and elements that were taken away. -/
  | childList (added removed : List ElementId)
  /-- An element whose class attribute changed. -/
  | classAttribute (target : ElementId)
deriving DecidableEq, Repr

end UtilityCss
