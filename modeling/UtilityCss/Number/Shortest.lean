import UtilityCss.Number.Binary64

/-!
The two written forms of a double.  `shortest` has the fewest digits that still read back, always
positional; `fixed` has a set number of decimal places, rounded from the exact value.
-/

namespace UtilityCss.Binary64

/-- The middle points towards the two neighbours of a positive number, in half units, and whether
the middle points themselves round to the number. -/
structure Window where
  low : Nat
  high : Nat
  closed : Bool

/-- The reals that round to the number with this count of units. -/
def window (units : Nat) : Window :=
  let step := spacing units
  let below := if units = step * Nat.pow 2 52 ∧ 1 < step then step / 2 else step
  ⟨2 * units - below, 2 * units + step, units / step % 2 = 0⟩

/-- Whether `candidate * grid` lies in the window once both are scaled by `scale`. -/
def Window.holds (w : Window) (scale grid candidate : Nat) : Bool :=
  let point := 2 * candidate * grid
  if w.closed then w.low * scale ≤ point && point ≤ w.high * scale
  else w.low * scale < point && point < w.high * scale

/-- The multiple of `10 ^ exponent` in the window that is nearest to the number, the larger of two
equally near ones. -/
def onGrid (units : Nat) (exponent : Int) : Option Nat :=
  let scale := Nat.pow 10 (-exponent).toNat
  let grid := unitsPerOne * Nat.pow 10 exponent.toNat
  let lower := units * scale / grid
  let rest := units * scale % grid
  let w := window units
  let lowerHolds := lower ≠ 0 && w.holds scale grid lower
  let upperHolds := w.holds scale grid (lower + 1)
  if lowerHolds && (!upperHolds || 2 * rest < grid) then some lower
  else if upperHolds then some (lower + 1)
  else none

/-- The coarsest decimal grid, from `10 ^ exponent` downwards, with a point in the window. -/
def coarsest (units : Nat) : (steps : Nat) → (exponent : Int) → Nat × Int
  | 0, exponent => (roundHalfEven (units * Nat.pow 10 (-exponent).toNat) unitsPerOne, exponent)
  | steps + 1, exponent =>
      match onGrid units exponent with
      | some digits => (digits, exponent)
      | none => coarsest units steps (exponent - 1)

/-- A whole number times a power of ten, in positional notation. -/
def positional (digits : Nat) (exponent : Int) : Text :=
  let text := decimal digits
  if 0 ≤ exponent then text ++ List.replicate exponent.toNat '0'
  else
    let places := (-exponent).toNat
    let padded := List.replicate (places + 1 - text.length) '0' ++ text
    let whole := padded.length - places
    padded.take whole ++ '.' :: padded.drop whole

def signText (negative : Bool) : Text :=
  if negative then ['-'] else []

/-- The shortest decimal that reads back, without exponent and without a trailing `.0`. -/
def shortest : Binary64 → Text
  | nan => "NaN".toList
  | infinite negative => signText negative ++ "inf".toList
  | finite negative units =>
      signText negative ++
        if units = 0 then ['0']
        else
          let top : Int := ((units.log2 : Int) - 1074) * 30103 / 100000 + 2
          let (digits, exponent) := coarsest units 24 top
          positional digits exponent

/-- Exactly `places` decimal places of the exact value, a half going to the even neighbour. -/
def fixed (places : Nat) : Binary64 → Text
  | nan => "NaN".toList
  | infinite negative => signText negative ++ "inf".toList
  | finite negative units =>
      signText negative ++
        positional (roundHalfEven (units * Nat.pow 10 places) unitsPerOne) (-(places : Int))

end UtilityCss.Binary64
