import UtilityCss.Media
import UtilityCss.Page.Containers
import UtilityCss.Page.Visibility

/-!
How a page reacts to its host: to the start, to changes of the tree and of class attributes, to sizes
and intersections, to the width of the viewport and to time.
-/

namespace UtilityCss.Page

/-- Serve one class token of an element: defer a class, or compile the token.  Container tokens are
served with the whole attribute. -/
def serveToken (page : Page) (id : ElementId) (token : Text) : Page :=
  if (ContainerToken.parse? token).isSome then page
  else
    match deferredClass? token with
    | some name => page.defer id name page.now
    | none => page.withCompiler fun compiler => compiler.compile token

/-- Whether a class token asks for the visibility class. -/
def wantsVisibility (breakpoints : Breakpoints) (token : Text) : Bool :=
  (ContainerToken.parse? token).isNone && (deferredClass? token).isNone
    && (ParsedToken.parse breakpoints token).hasState .visible

/-- Serve all class tokens of an element, in order. -/
def process (page : Page) (id : ElementId) : Page :=
  let tokens := page.document.classes id
  let served := tokens.foldl (fun page token => page.serveToken id token) page
  let watched :=
    if tokens.any (wantsVisibility served.compiler.breakpoints) then served.observe id
    else served.unobserve id
  watched.sync id tokens

/-- Process an element and everything below it, in document order. -/
def scan (page : Page) (id : ElementId) : Page :=
  (page.document.subtree id).foldl process page

/-- Drop all bookkeeping of an element. -/
def releaseElement (page : Page) (id : ElementId) : Page :=
  (page.teardown id).forget id

/-- Drop all bookkeeping of an element and of everything below it. -/
def release (page : Page) (id : ElementId) : Page :=
  (page.document.subtree id).foldl releaseElement page

/-- Process the whole tree. -/
def start (page : Page) : Page :=
  page.scan Document.root

/-- React to one change.  An element that is reported as taken away but is attached again stays, and
one that is reported as attached but is not is left alone. -/
def handleMutation (page : Page) : Mutation → Page
  | .childList added removed =>
      let released := removed.foldl
        (fun page id => if page.document.isConnected id then page else page.release id) page
      added.foldl (fun page id => if page.document.isConnected id then page.scan id else page)
        released
  | .classAttribute target =>
      if page.document.isConnected target then page.process target else page

/-- React to a batch of changes, in order. -/
def handleMutations (page : Page) (mutations : List Mutation) : Page :=
  mutations.foldl handleMutation page

/-- The root class that stands for a breakpoint. -/
def viewportClass (key : Text) : Text :=
  "pw-".toList ++ key

/-- Bring the viewport classes of the root in line with a width, if they are switched on. -/
def handleViewport (page : Page) (width : Binary64) : Page :=
  if page.compiler.bodyClass then
    page.withDocument fun doc =>
      page.compiler.breakpoints.entries.foldl (fun doc (key, media) =>
        if matchesWidth media width then doc.addClass Document.root (viewportClass key)
        else doc.removeClass Document.root (viewportClass key)) doc
  else page

/-- Move the time forward, add the classes that are due, and compile them.  Time never runs back. -/
def advanceTime (page : Page) (time : Nat) : Page :=
  let now := max page.now time
  let (advanced, applied) := { page with now }.applyDue now
  applied.foldl
    (fun page task => page.withCompiler fun compiler => compiler.compile task.name) advanced

end UtilityCss.Page
