import UtilityCss.Compiler
import UtilityCss.Document

/-!
A page: a document with the compiler of its classes and the bookkeeping that keeps the two in step.
-/

namespace UtilityCss

/-- A container token on an element. -/
structure Condition where
  token : ContainerToken
  active : Bool := false
  /-- The inline style that the condition set when it became active. -/
  applied : InlineStyle := .empty
deriving DecidableEq, Inhabited

/-- The conditions of an element by token, and the width that was reported last. -/
structure ContainerState where
  conditions : OrderedMap Text Condition := .empty
  width : Option Binary64 := none
deriving DecidableEq, Inhabited

/-- A class that waits for its time. -/
structure DeferredClass where
  target : ElementId
  name : Text
  due : Nat
deriving DecidableEq, Repr

structure Page where
  document : Document := {}
  compiler : Compiler := {}
  /-- The elements with container conditions. -/
  containers : OrderedMap ElementId ContainerState := .empty
  /-- The elements that carry the visibility class while they are in view. -/
  observed : List ElementId := []
  /-- The classes that were deferred for an element since it was last released. -/
  scheduled : OrderedMap ElementId (List Text) := .empty
  /-- The deferred classes that are still to come, in the order in which they were deferred. -/
  queue : List DeferredClass := []
  /-- The host's time in milliseconds. -/
  now : Nat := 0
deriving Inhabited

namespace Page

/-- Change the document only. -/
def withDocument (page : Page) (change : Document → Document) : Page :=
  { page with document := change page.document }

/-- Change the compiler only. -/
def withCompiler (page : Page) (change : Compiler → Compiler) : Page :=
  { page with compiler := change page.compiler }

end Page

end UtilityCss
