import UtilityCss.Page

/-!
Container conditions.  An element with container tokens has its size observed, and each reported
width decides which of its conditions are active.  An active condition sets the inline style of its
payload.  Conditions that end give up their properties before others begin, and a property that an
active condition still claims gets that condition's value back.
-/

namespace UtilityCss.Page

def container? (page : Page) (id : ElementId) : Option ContainerState :=
  page.containers.get? id

def isTracked (page : Page) (id : ElementId) : Bool :=
  page.containers.contains id

/-- Change the container state of a tracked element. -/
def updateContainer (page : Page) (id : ElementId) (change : ContainerState → ContainerState) :
    Page :=
  match page.container? id with
  | some state => { page with containers := page.containers.insert id (change state) }
  | none => page

/-- The conditions of an element; none when it is not tracked. -/
def conditions (page : Page) (id : ElementId) : OrderedMap Text Condition :=
  match page.container? id with
  | some state => state.conditions
  | none => .empty

/-- The value that the last active condition claiming a property has set. -/
def claimedValue? (conditions : OrderedMap Text Condition) (property : Text) : Option Text :=
  (conditions.values.filterMap fun condition =>
    if condition.active then condition.applied.get? property else none).getLast?

/-- Give up inline properties, except those that an active condition claims. -/
def releaseStyles (page : Page) (id : ElementId) (properties : List Text) : Page :=
  page.withDocument fun doc =>
    properties.foldl (fun doc property =>
      match claimedValue? (page.conditions id) property with
      | some value => doc.setStyle id property value
      | none => doc.removeStyle id property) doc

/-- Stop observing an element's size and drop its conditions; its inline style stays. -/
def teardown (page : Page) (id : ElementId) : Page :=
  if page.isTracked id then
    { page with
      containers := page.containers.erase id
      document := page.document.unobserveSize id }
  else page

/-- Change the condition of a token. -/
def updateCondition (page : Page) (id : ElementId) (token : Text)
    (change : Condition → Condition) : Page :=
  page.updateContainer id fun state =>
    match state.conditions.get? token with
    | some condition =>
        { state with conditions := state.conditions.insert token (change condition) }
    | none => state

/-- End a condition and release what it applied. -/
def deactivate (page : Page) (id : ElementId) (token : Text) : Page :=
  match (page.conditions id).get? token with
  | some condition =>
      (page.updateCondition id token fun condition =>
        { condition with active := false, applied := .empty }).releaseStyles id
          condition.applied.keys
  | none => page

/-- Begin a condition: apply the inline style of its payload and record it. -/
def activate (page : Page) (id : ElementId) (token : Text) : Page :=
  match (page.conditions id).get? token with
  | some condition =>
      let (compiler, style) := page.compiler.inlineStyle condition.token.payload
      let styled := { page with compiler }.withDocument fun doc =>
        style.entries.foldl (fun doc (property, value) => doc.setStyle id property value) doc
      styled.updateCondition id token fun condition =>
        { condition with active := true, applied := style }
  | none => page

/-- The tokens whose conditions have to change to `active` at a width. -/
def changing (conditions : OrderedMap Text Condition) (width : Binary64) (active : Bool) :
    List Text :=
  (conditions.entries.filter fun (_, condition) =>
    condition.active ≠ active && condition.token.bound.admits width = active).map Prod.fst

/-- Bring the conditions of an element in line with a width. -/
def evaluate (page : Page) (id : ElementId) (width : Binary64) : Page :=
  let conditions := page.conditions id
  let ended := (changing conditions width false).foldl (fun page token => page.deactivate id token)
    page
  (changing conditions width true).foldl (fun page token => page.activate id token) ended

/-- A size report; it means nothing for an element that is not tracked. -/
def resize (page : Page) (id : ElementId) (width : Binary64) : Page :=
  if page.isTracked id then
    (page.updateContainer id fun state => { state with width := some width }).evaluate id width
  else page

/-- Remove a condition and release what it applied. -/
def dropCondition (page : Page) (id : ElementId) (token : Text) : Page :=
  match (page.conditions id).get? token with
  | some condition =>
      (page.updateContainer id fun state =>
        { state with conditions := state.conditions.erase token }).releaseStyles id
          condition.applied.keys
  | none => page

/-- Start to observe an element's size, without conditions yet.  The null handle is asked for at the
host as well, but it is never tracked. -/
def track (page : Page) (id : ElementId) : Page :=
  if page.isTracked id then page
  else
    let observing := page.withDocument fun doc => doc.observeSize id
    if id = .null then observing
    else { observing with containers := observing.containers.insert id {} }

/-- Add the conditions of tokens that an element does not have yet. -/
def addConditions (page : Page) (id : ElementId) (queries : List (Text × ContainerToken)) : Page :=
  page.updateContainer id fun state =>
    { state with
      conditions := queries.foldl
        (fun conditions (text, token) => conditions.insertNew text { token }) state.conditions }

/-- The container tokens among class tokens. -/
def containerTokens (tokens : List Text) : List (Text × ContainerToken) :=
  tokens.filterMap fun text => (ContainerToken.parse? text).map fun token => (text, token)

/-- Bring the conditions of a tracked element in line with its container tokens: drop those that are
gone, add the new ones, and evaluate these if a width is known. -/
def syncConditions (page : Page) (id : ElementId) (queries : List (Text × ContainerToken)) : Page :=
  let stale := (page.conditions id).keys.filter fun text => text ∉ queries.map Prod.fst
  let kept := stale.foldl (fun page text => page.dropCondition id text) page
  let added := queries.any fun (text, _) => !(kept.conditions id).contains text
  let extended := kept.addConditions id queries
  if (extended.conditions id).isEmpty then extended.teardown id
  else
    match (extended.container? id).bind ContainerState.width with
    | some width => if added then extended.evaluate id width else extended
    | none => extended

/-- Bring an element in line with its class tokens.  Without a size observer nothing is tracked, and
the first container token is reported. -/
def sync (page : Page) (id : ElementId) (tokens : List Text) : Page :=
  let queries := containerTokens tokens
  if queries.isEmpty && !page.isTracked id then page
  else if !page.document.sizeObserver then
    page.withCompiler fun compiler => compiler.warn .sizeObserverUnavailable
  else
    let tracking := page.track id
    if tracking.isTracked id then tracking.syncConditions id queries else tracking

end UtilityCss.Page
