import UtilityCss.Number.Decimal

/-!
Numbers in double precision.  Every finite number is a whole multiple of the least positive one,
`2 ^ -1074`, so a finite number is a sign and a count of such units, an order test compares whole
numbers, and an operation is an exact quotient followed by one rounding.
-/

namespace UtilityCss

/-- A double: not a number, an infinity, or a signed count of units of `2 ^ -1074`. -/
inductive Binary64 where
  | nan
  | infinite (negative : Bool)
  | finite (negative : Bool) (units : Nat)
deriving DecidableEq, Repr, Inhabited

/-- The quotient `num / den` rounded to a whole number, a half going to the even neighbour. -/
def roundHalfEven (num den : Nat) : Nat :=
  let quotient := num / den
  let twice := 2 * (num % den)
  if twice < den then quotient
  else if den < twice then quotient + 1
  else quotient + quotient % 2

namespace Binary64

/-- How many units make one. -/
def unitsPerOne : Nat := Nat.pow 2 1074

/-- The least count of units that is out of range. -/
def overflowUnits : Nat := Nat.pow 2 2098

/-- The distance from a number to the next larger one, in units: 53 binary digits are kept. -/
def spacing (units : Nat) : Nat := Nat.pow 2 (units.log2 - 52)

def zero : Binary64 := finite false 0

/-- The double nearest to `num / den`, a half going to the even neighbour. -/
def ofRatio (negative : Bool) (num den : Nat) : Binary64 :=
  let step := spacing (num * unitsPerOne / den)
  let units := roundHalfEven (num * unitsPerOne) (den * step) * step
  if units < overflowUnits then finite negative units else infinite negative

def ofNat (n : Nat) : Binary64 := ofRatio false n 1

/-- The double nearest to `digits * 10 ^ exponent`.  The two bounds on the magnitude keep the powers
of ten small; beyond them the result is an infinity or zero in any case. -/
def ofDecimal (negative : Bool) (digits : Nat) (exponent : Int) : Binary64 :=
  let magnitude := (digits.log2 : Int) + 4 * exponent
  if digits = 0 then finite negative 0
  else if exponent ≥ 0 ∧ (310 < exponent ∨ 4 * 1100 < magnitude) then infinite negative
  else if exponent < 0 ∧ (digits.log2 : Int) + 3 * exponent < -1200 then finite negative 0
  else if exponent ≥ 0 then ofRatio negative (digits * Nat.pow 10 exponent.toNat) 1
  else ofRatio negative digits (Nat.pow 10 (-exponent).toNat)

/-- The whole number of units with its sign. -/
def signedUnits (negative : Bool) (units : Nat) : Int :=
  if negative then -(units : Int) else units

/-- Less or equal; never true of what is not a number. -/
def le : Binary64 → Binary64 → Bool
  | nan, _ => false
  | _, nan => false
  | infinite true, _ => true
  | _, infinite false => true
  | infinite false, _ => false
  | _, infinite true => false
  | finite n u, finite n' u' => signedUnits n u ≤ signedUnits n' u'

def isZero : Binary64 → Bool
  | finite _ units => units == 0
  | _ => false

def neg : Binary64 → Binary64
  | nan => nan
  | infinite negative => infinite !negative
  | finite negative units => finite (!negative) units

def mul : Binary64 → Binary64 → Binary64
  | finite n u, finite n' u' => ofRatio (n != n') (u * u') (unitsPerOne * unitsPerOne)
  | infinite n, infinite n' => infinite (n != n')
  | infinite n, finite n' u' => if u' = 0 then nan else infinite (n != n')
  | finite n u, infinite n' => if u = 0 then nan else infinite (n != n')
  | _, _ => nan

def div : Binary64 → Binary64 → Binary64
  | finite n u, finite n' u' =>
      if u' ≠ 0 then ofRatio (n != n') u u'
      else if u = 0 then nan
      else infinite (n != n')
  | infinite n, finite n' _ => infinite (n != n')
  | finite n _, infinite n' => finite (n != n') 0
  | _, _ => nan

theorem le_nan_left (x : Binary64) : le nan x = false := by
  cases x <;> rfl

theorem le_nan_right (x : Binary64) : le x nan = false := by
  cases x with
  | infinite negative => cases negative <;> rfl
  | _ => rfl

theorem le_trans {x y z : Binary64} (hxy : le x y = true) (hyz : le y z = true) :
    le x z = true := by
  cases x with
  | nan => simp [le_nan_left] at hxy
  | infinite nx =>
      cases y with
      | nan => simp [le_nan_left] at hyz
      | infinite ny => cases nx <;> cases ny <;> cases z <;> simp_all [le]
      | finite ny uy => cases nx <;> cases z <;> simp_all [le]
  | finite nx ux =>
      cases y with
      | nan => simp [le_nan_left] at hyz
      | infinite ny =>
          cases ny with
          | true => simp [le] at hxy
          | false =>
              cases z with
              | nan => simp [le_nan_right] at hyz
              | infinite nz => cases nz <;> simp_all [le]
              | finite nz uz => simp [le] at hyz
      | finite ny uy =>
          cases z with
          | nan => simp [le] at hyz
          | infinite nz => cases nz <;> simp_all [le]
          | finite nz uz =>
              simp only [le, decide_eq_true_eq] at *
              omega

end Binary64

end UtilityCss
