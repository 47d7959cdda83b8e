import UtilityCss.Number.Binary64
import UtilityCss.Text.Blank

/-!
Inclusive bounds on a width, as container tokens and media features state them, and media texts.
`mediaRule` writes a media text as an at-rule.  `widthBounds?` reads one that only speaks of the
viewport width, `matchesWidth` tests a width against it, and a text of any other kind matches no
width.
-/

namespace UtilityCss

/-- Which side of its limit a bound admits. -/
inductive BoundSide where
  | atLeast
  | atMost
deriving DecidableEq, Repr, Inhabited

/-- A limit on a width; the limit itself is admitted. -/
structure WidthBound where
  side : BoundSide
  limit : Binary64
deriving DecidableEq, Repr, Inhabited

/-- Nothing is admitted when either number is not a number. -/
def WidthBound.admits (bound : WidthBound) (width : Binary64) : Bool :=
  match bound.side with
  | .atLeast => bound.limit.le width
  | .atMost => width.le bound.limit

/-- A bound that admits two widths admits every width between them. -/
theorem WidthBound.admits_between {bound : WidthBound} {low width high : Binary64}
    (hlow : bound.admits low = true) (hhigh : bound.admits high = true)
    (hlw : low.le width = true) (hwh : width.le high = true) : bound.admits width = true := by
  cases hside : bound.side with
  | atLeast =>
      simp only [admits, hside] at hlow ⊢
      exact Binary64.le_trans hlow hlw
  | atMost =>
      simp only [admits, hside] at hhigh ⊢
      exact Binary64.le_trans hwh hhigh

/-- The at-rule of a media text; a text that starts with `@` already is one. -/
def mediaRule (media : Text) : Text :=
  match media.trimStart with
  | '@' :: _ => media.trim
  | _ => "@media ".toList ++ media.trim

/-- A number in decimal notation without sign or exponent: digits, and a fraction only after a
point. -/
def readPlainDecimal (text : Text) : Option (Binary64 × Text) :=
  match spanDigits text with
  | ([], _) => none
  | (whole, rest) =>
      match rest with
      | '.' :: tail =>
          match spanDigits tail with
          | ([], _) => some (.ofDecimal false (digitsValue whole) 0, rest)
          | (fraction, after) =>
              some (.ofDecimal false (digitsValue (whole ++ fraction)) (-(fraction.length : Int)),
                after)
      | _ => some (.ofDecimal false (digitsValue whole) 0, rest)

/-- Which side a width feature bounds, and the text after its name. -/
def readFeatureName (text : Text) : Option (BoundSide × Text) :=
  match Text.after? "min-width".toList text with
  | some rest => some (.atLeast, rest)
  | none => (Text.after? "max-width".toList text).map fun rest => (.atMost, rest)

/-- A single feature, `(min-width: 641px)` or `(max-width: 640px)`. -/
def readFeature (text : Text) : Option WidthBound := do
  let inside ← Text.after? ['('] text
  let (side, rest) ← readFeatureName (Text.trimStart inside)
  let value ← Text.after? [':'] (Text.trimStart rest)
  let (limit, rest) ← readPlainDecimal (Text.trimStart value)
  let rest ← Text.after? "px".toList rest
  if Text.trimStart rest = [')'] then some ⟨side, limit⟩ else none

/-- The text of a media query without an `@media` in front. -/
def mediaQuery (media : Text) : Text :=
  let text := media.trim
  ((Text.after? "@media".toList text).getD text).trim

/-- The bounds that a media text joins by `and`, if it states nothing else. -/
def widthBounds? (media : Text) : Option (List WidthBound) :=
  let query := mediaQuery media
  if query.isEmpty || query.contains ',' then none
  else (Text.splitOnText " and ".toList query).mapM fun part => readFeature part.trim

/-- Whether a viewport of this width satisfies the media text. -/
def matchesWidth (media : Text) (width : Binary64) : Bool :=
  match widthBounds? media with
  | some bounds => bounds.all fun bound => bound.admits width
  | none => false

end UtilityCss
