import UtilityCss.Page

/-!
The visibility class and deferred classes.  An observed element carries the visibility class while at
least half of it is in view.  A deferred class is added to its element, if that is still attached,
some time after it was first met, and once only until the element is released.
-/

namespace UtilityCss.Page

/-- The part of an element that has to be in view: one half. -/
def visibilityThreshold : Binary64 := .ofDecimal false 5 (-1)

/-- Milliseconds between the first sight of a deferred class and its addition. -/
def deferralDelay : Nat := 100

/-- The last moment that the clock can show. -/
def lastMoment : Nat := Nat.pow 2 64 - 1

def isObserved (page : Page) (id : ElementId) : Bool :=
  page.observed.contains id

/-- Keep the visibility class of an element up to date from now on.  The null handle is asked for at
the host as well, but it is never observed. -/
def observe (page : Page) (id : ElementId) : Page :=
  if page.isObserved id then page
  else
    { page with
      document := page.document.observeIntersection id visibilityThreshold
      observed := if id = .null then page.observed else page.observed ++ [id] }

/-- Stop doing so, and take the class from an element that is still attached. -/
def unobserve (page : Page) (id : ElementId) : Page :=
  if page.isObserved id then
    let silent :=
      { page with
        document := page.document.unobserveIntersection id
        observed := page.observed.filter (· ≠ id) }
    if silent.document.isConnected id then
      silent.withDocument fun doc => doc.removeClass id visibleClass
    else silent
  else page

/-- A report on how much of an element is in view. -/
def intersect (page : Page) (id : ElementId) (ratio : Binary64) : Page :=
  if !page.isObserved id then page
  else if visibilityThreshold.le ratio then
    page.withDocument fun doc => doc.addClass id visibleClass
  else page.withDocument fun doc => doc.removeClass id visibleClass

/-- The moment at which a class that is met now is due. -/
def dueMoment (now : Nat) : Nat :=
  min (now + deferralDelay) lastMoment

/-- Queue a class for an element, unless it was queued since the element was last released. -/
def defer (page : Page) (id : ElementId) (name : Text) (now : Nat) : Page :=
  if id = .null then page
  else
    let names := (page.scheduled.get? id).getD []
    if name ∈ names then page
    else
      { page with
        scheduled := page.scheduled.insert id (names ++ [name])
        queue := page.queue ++ [⟨id, name, dueMoment now⟩] }

/-- Add the classes that are due to the elements that are attached; the others that are due are lost.
The result lists what was added. -/
def applyDue (page : Page) (now : Nat) : Page × List DeferredClass :=
  let due := page.queue.filter fun task => task.due ≤ now
  let applied := due.filter fun task => page.document.isConnected task.target
  ({ page with
      queue := page.queue.filter fun task => now < task.due
      document := applied.foldl (fun doc task => doc.addClass task.target task.name)
        page.document },
    applied)

/-- Stop observing an element and drop its deferred classes. -/
def forget (page : Page) (id : ElementId) : Page :=
  let silent := page.unobserve id
  { silent with
    scheduled := silent.scheduled.erase id
    queue := silent.queue.filter fun task => task.target ≠ id }

end UtilityCss.Page
