import UtilityCss.Text

/-!
The states and pseudo-elements that a class token may name in front of its base, with the selector
fragment that each contributes.
-/

namespace UtilityCss

/-- The class of elements that are at least half in view. -/
def visibleClass : Text := "pw-visible".toList

/-- The ancestor class under which dark rules apply. -/
def darkClass : Text := "dark".toList

inductive PseudoState where
  | hover
  | focus
  | active
  | disabled
  | visited
  | focusWithin
  | focusVisible
  | first
  | last
  | odd
  | even
  /-- In view, as the helper class says. -/
  | visible
  | checked
  | target
  /-- Carrying the `open` attribute. -/
  | isOpen
  | placeholderShown
  /-- The immediate children instead of the element. -/
  | children
  /-- Below a dark ancestor. -/
  | dark
  | before
  | after
  | placeholder
  | selection
  | marker
  | firstLine
  | firstLetter
  | file
  | backdrop
deriving DecidableEq, Repr, Inhabited

namespace PseudoState

/-- Every state, in the order in which names are looked up. -/
def all : List PseudoState :=
  [.hover, .focus, .active, .disabled, .visited, .focusWithin, .focusVisible, .first, .last, .odd,
    .even, .visible, .checked, .target, .isOpen, .placeholderShown, .children, .dark, .before,
    .after, .placeholder, .selection, .marker, .firstLine, .firstLetter, .file, .backdrop]

/-- The name of a state in a token. -/
def name : PseudoState → Text
  | hover => "hover".toList
  | focus => "focus".toList
  | active => "active".toList
  | disabled => "disabled".toList
  | visited => "visited".toList
  | focusWithin => "focus-within".toList
  | focusVisible => "focus-visible".toList
  | first => "first".toList
  | last => "last".toList
  | odd => "odd".toList
  | even => "even".toList
  | visible => "visible".toList
  | checked => "checked".toList
  | target => "target".toList
  | isOpen => "open".toList
  | placeholderShown => "placeholder-shown".toList
  | children => "children".toList
  | dark => "dark".toList
  | before => "before".toList
  | after => "after".toList
  | placeholder => "placeholder".toList
  | selection => "selection".toList
  | marker => "marker".toList
  | firstLine => "first-line".toList
  | firstLetter => "first-letter".toList
  | file => "file".toList
  | backdrop => "backdrop".toList

/-- The fragment that follows the class selector.  `dark` has none: it goes in front. -/
def selector : PseudoState → Text
  | hover => ":hover".toList
  | focus => ":focus".toList
  | active => ":active".toList
  | disabled => ":disabled".toList
  | visited => ":visited".toList
  | focusWithin => ":focus-within".toList
  | focusVisible => ":focus-visible".toList
  | first => ":first-child".toList
  | last => ":last-child".toList
  | odd => ":nth-child(odd)".toList
  | even => ":nth-child(even)".toList
  | visible => '.' :: visibleClass
  | checked => ":checked".toList
  | target => ":target".toList
  | isOpen => "[open]".toList
  | placeholderShown => ":placeholder-shown".toList
  | children => " > *".toList
  | dark => []
  | before => "::before".toList
  | after => "::after".toList
  | placeholder => "::placeholder".toList
  | selection => "::selection".toList
  | marker => "::marker".toList
  | firstLine => "::first-line".toList
  | firstLetter => "::first-letter".toList
  | file => "::file-selector-button".toList
  | backdrop => "::backdrop".toList

/-- The state that a token segment names. -/
def ofName? (name : Text) : Option PseudoState :=
  all.find? fun state => state.name = name

/-- Whether the fragment is a pseudo-element, which must end its compound selector. -/
def isElement (state : PseudoState) : Bool :=
  "::".toList.isPrefixOf state.selector

theorem mem_all (state : PseudoState) : state ∈ all := by
  cases state <;> decide

theorem ofName?_name (state : PseudoState) : ofName? state.name = some state := by
  cases state <;> decide

theorem ofName?_eq_some_iff {name : Text} {state : PseudoState} :
    ofName? name = some state ↔ state.name = name := by
  constructor
  · intro hfind
    simpa [ofName?] using List.find?_some hfind
  · rintro rfl
    exact ofName?_name state

theorem name_injective {s t : PseudoState} (hname : s.name = t.name) : s = t := by
  have hs := ofName?_name s
  rw [hname, ofName?_name t] at hs
  exact (Option.some.inj hs).symm

theorem colon_not_mem_name (state : PseudoState) : ':' ∉ state.name := by
  cases state <;> decide

end PseudoState

end UtilityCss
