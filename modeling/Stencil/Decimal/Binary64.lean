import Stencil.Decimal.Power

/-!
# Binary floating-point numbers as exact numbers

A finite double is a whole number times a power of two. `Binary64.parts` takes a double apart, and
`Binary64.ofRatio?` rounds an exact quotient to the nearest double, a tie going to the even
mantissa. Between the two, all arithmetic is on whole numbers.
-/

namespace Stencil.Binary64

/-- A double taken apart: a finite one is `mantissa * 2 ^ exponent`, up to its sign. -/
inductive Parts where
  | nan
  | infinite (negative : Bool)
  | finite (negative : Bool) (mantissa : Nat) (exponent : Int)
  deriving DecidableEq, Inhabited, Repr

/-- The parts of a double. -/
def parts (x : Float) : Parts :=
  let bits := x.toBits.toNat
  let negative := bits / twoPow 63 == 1
  let exponent : Nat := bits / twoPow 52 % twoPow 11
  let fraction : Nat := bits % twoPow 52
  if exponent = 2047 then
    if fraction = 0 then .infinite negative else .nan
  else if exponent = 0 then
    .finite negative fraction (-1074)
  else
    .finite negative (fraction + twoPow 52) ((exponent : Int) - 1075)

/-- The double with the given sign, exponent field and fraction field. -/
def ofFields (negative : Bool) (exponent fraction : Nat) : Float :=
  Float.ofBits
    (UInt64.ofNat ((if negative then twoPow 63 else 0) + exponent * twoPow 52 + fraction))

/-- Infinity with a sign. -/
def infinity (negative : Bool) : Float :=
  ofFields negative 2047 0

/-- The number that is not a number. -/
def nan : Float :=
  ofFields false 2047 (twoPow 51)

/-- Zero with a sign. -/
def zero (negative : Bool) : Float :=
  ofFields negative 0 0

/-- The quotient of two whole numbers, rounded to the nearest one; a tie goes to the even one. -/
def roundDiv (num den : Nat) : Nat :=
  let q := num / den
  let twice := 2 * (num % den)
  if twice > den ∨ (twice = den ∧ q % 2 = 1) then q + 1 else q

/-- The fraction `num / den` divided by a power of two, as a fraction. -/
def scaleDown (num den : Nat) : Int → Nat × Nat
  | .ofNat e => (num, den * twoPow e)
  | .negSucc e => (num * twoPow (e + 1), den)

/-- The exponent at which a positive fraction has a mantissa of 53 binary digits, or the least
exponent of a double if that is larger. -/
def exponentFor (num den : Nat) : Int :=
  let guess : Int := (num.log2 : Int) - den.log2 - 52
  let (n, d) := scaleDown num den guess
  max (if n / d < twoPow 52 then guess - 1 else guess) (-1074)

/-- The double nearest to `num / den` with the given sign, for a positive `den`; none if the
quotient is too large. -/
def ofRatio? (negative : Bool) (num den : Nat) : Option Float :=
  if num = 0 then
    some (zero negative)
  else
    let e := exponentFor num den
    let (n, d) := scaleDown num den e
    let m := roundDiv n d
    let (m, e) := if m = twoPow 53 then (twoPow 52, e + 1) else (m, e)
    if m < twoPow 52 then
      some (ofFields negative 0 m)
    else if e > 971 then
      none
    else
      some (ofFields negative (e + 1075).toNat (m - twoPow 52))

/-- The double nearest to a whole number; none if it is too large. -/
def ofInt? (n : Int) : Option Float :=
  ofRatio? (n < 0) n.natAbs 1

/-- The sign of a double, also of zeros. -/
def isNegative (x : Float) : Bool :=
  x.toBits.toNat / twoPow 63 == 1

/-- Whether a double is not a number. -/
def isNan (x : Float) : Bool :=
  parts x == .nan

/-- Whether a double is zero, of either sign. -/
def isZero (x : Float) : Bool :=
  match parts x with
  | .finite _ 0 _ => true
  | _ => false

/-- The floor of `mantissa * 2 ^ exponent` with a sign. -/
def floorParts (negative : Bool) (mantissa : Nat) : Int → Int
  | .ofNat e => let m : Int := (mantissa * twoPow e : Nat); if negative then -m else m
  | .negSucc e =>
    let m : Int := mantissa
    Int.fdiv (if negative then -m else m) (twoPow (e + 1) : Nat)

/-- The whole part of `mantissa * 2 ^ exponent` with a sign. -/
def truncParts (negative : Bool) (mantissa : Nat) : Int → Int
  | .ofNat e => let m : Int := (mantissa * twoPow e : Nat); if negative then -m else m
  | .negSucc e =>
    let m : Int := (mantissa / twoPow (e + 1) : Nat)
    if negative then -m else m

/-- Compare a finite double, given by its parts, with a whole number. -/
def compareInt (negative : Bool) (mantissa : Nat) (exponent : Int) (n : Int) : Ordering :=
  let m : Int := if negative then -(mantissa : Int) else mantissa
  match exponent with
  | .ofNat e => compare (m * (twoPow e : Nat)) n
  | .negSucc e => compare m (n * (twoPow (e + 1) : Nat))

/-- Whether a double equals a whole number. -/
def eqInt (x : Float) (n : Int) : Bool :=
  match parts x with
  | .finite s m e => compareInt s m e n == .eq
  | _ => false

/-- Whether a double is below a whole number. -/
def ltInt (x : Float) (n : Int) : Bool :=
  match parts x with
  | .finite s m e => compareInt s m e n == .lt
  | .infinite negative => negative
  | .nan => false

/-- Whether a double is above a whole number. -/
def gtInt (x : Float) (n : Int) : Bool :=
  match parts x with
  | .finite s m e => compareInt s m e n == .gt
  | .infinite negative => !negative
  | .nan => false

/-- The double of a mantissa, given in units of a power of two. -/
def ofUnits (negative : Bool) (m : Nat) (e : Int) : Float :=
  let (n, d) := scaleDown m 1 (-e)
  (ofRatio? negative n d).getD (infinity negative)

/-- The remainder of two finite doubles, the second one not zero, with the sign of the first. -/
def remainder (sx : Bool) (mx : Nat) (ex : Int) (my : Nat) (ey : Int) : Float :=
  let e := min ex ey
  let a := mx * twoPow (ex - e).toNat
  let b := my * twoPow (ey - e).toNat
  ofUnits sx (a % b) e

/-- The modulus of two doubles, with the sign of the second one, which is not zero. -/
def modulus (x y : Float) : Float :=
  let adjust (r : Float) : Float :=
    if isZero r then zero (isNegative y)
    else if isNegative r = isNegative y then r else r + y
  match parts x, parts y with
  | .nan, _ | _, .nan | .infinite _, _ => nan
  | .finite .., .infinite _ => adjust x
  | .finite sx mx ex, .finite _ my ey => adjust (remainder sx mx ex my ey)

/-- Whether a finite double, given by its parts, is a whole number. -/
def isWhole (mantissa : Nat) : Int → Bool
  | .ofNat _ => true
  | .negSucc e => mantissa % twoPow (e + 1) == 0

/-- Whether a double is an odd whole number. -/
def isOdd (x : Float) : Bool :=
  match parts x with
  | .finite _ m (.ofNat e) => m * twoPow e % 2 == 1
  | .finite _ m (.negSucc e) => m % twoPow (e + 2) == twoPow (e + 1)
  | _ => false

end Stencil.Binary64
