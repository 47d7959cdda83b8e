import UtilityCss.Media

/-!
Tokens that the document layer serves instead of the rule compiler: container conditions such as
`min-640:flex`, which depend on the width of the element, and deferred classes such as
`onload:fade-in`, which are added some time after the element is first seen.
-/

namespace UtilityCss

/-- A class whose declarations apply inline while the element's width is within the bound. -/
structure ContainerToken where
  bound : WidthBound
  payload : Text
deriving DecidableEq, Repr, Inhabited

/-- The side that a container token names, and the text after the name and its dash. -/
def readBoundSide (token : Text) : Option (BoundSide × Text) :=
  match Text.after? "min-".toList token with
  | some rest => some (.atLeast, rest)
  | none => (Text.after? "max-".toList token).map fun rest => (.atMost, rest)

/-- Read `min-<digits>:<payload>` or `max-<digits>:<payload>`; the payload is one non-empty line. -/
def ContainerToken.parse? (token : Text) : Option ContainerToken := do
  let (side, rest) ← readBoundSide token
  let (digits, rest) := spanDigits rest
  let payload ← Text.after? [':'] rest
  if digits.isEmpty || payload.isEmpty || payload.contains '\n' then none
  else some ⟨⟨side, .ofDecimal false (digitsValue digits) 0⟩, payload⟩

/-- What a token that defers a class begins with. -/
def deferralMark : Text := "onload:".toList

/-- The class that a token defers; it is never empty. -/
def deferredClass? (token : Text) : Option Text :=
  (Text.after? deferralMark token).filter fun name => !name.isEmpty

/-- Whether the rule compiler must leave the token alone. -/
def isDocumentToken (token : Text) : Bool :=
  deferralMark.isPrefixOf token || (ContainerToken.parse? token).isSome

end UtilityCss
