import Stencil.Decimal.Complex
import Stencil.Fault
import Stencil.Value.Basic

/-!
# Arithmetic

Whole numbers are exact and of any size. An operation with a floating-point operand is done on
doubles, and a whole number that has to become a double must be in range. Truth values count as 0
and 1.
-/

namespace Stencil

/-- Numbers by kind. -/
inductive Number where
  | int (n : Int)
  | float (x : Float)
  | complex (z : Complex)
  deriving Inhabited

namespace Value

/-- The number that a value is. -/
def number? : Value → Option Number
  | bool b => some (.int (if b then 1 else 0))
  | int n => some (.int n)
  | float x => some (.float x)
  | complex z => some (.complex z)
  | _ => Option.none

/-- The whole number that a value is, counting truth values. -/
def int? : Value → Option Int
  | bool b => some (if b then 1 else 0)
  | int n => some n
  | _ => Option.none

end Value

namespace Number

/-- Equality of numbers of any kinds, exactly. -/
def eq : Number → Number → Bool
  | int m, int n => m == n
  | int m, float x | float x, int m => Binary64.eqInt x m
  | float x, float y => x == y
  | complex z, int n | int n, complex z => Binary64.eqInt z.re n && Binary64.isZero z.im
  | complex z, float x | float x, complex z => z.re == x && Binary64.isZero z.im
  | complex z, complex w => z.re == w.re && z.im == w.im

/-- Order of real numbers, exactly; none for complex numbers. -/
def lt? : Number → Number → Option Bool
  | int m, int n => some (m < n)
  | int m, float x => some (Binary64.gtInt x m)
  | float x, int n => some (Binary64.ltInt x n)
  | float x, float y => some (x < y)
  | _, _ => none

/-- Order of real numbers, equality included; none for complex numbers. -/
def le? (a b : Number) : Option Bool :=
  (lt? a b).map fun less => less || eq a b

/-- Whether a number is zero. -/
def isZero : Number → Bool
  | int n => n == 0
  | float x => Binary64.isZero x
  | complex z => z.isZero

/-- A real number as a double. -/
def toFloat : Number → Except Fault Float
  | int n =>
    match Binary64.ofInt? n with
    | some x => .ok x
    | none => .error .intTooLarge
  | float x => .ok x
  | complex z => .ok z.re

/-- Apply an operation to the real parts of numbers as doubles. -/
def onFloats (f : Float → Float → Except Fault Number) (a b : Number) : Except Fault Number := do
  f (← a.toFloat) (← b.toFloat)

/-- A number as a complex number. -/
def toComplex : Number → Except Fault Complex
  | complex z => .ok z
  | n => do return .ofReal (← n.toFloat)

/-- Apply an operation to numbers as complex numbers. -/
def onComplex (f : Complex → Complex → Except Fault Number) (a b : Number) :
    Except Fault Number := do
  f (← a.toComplex) (← b.toComplex)

/-- Apply one of three operations: on whole numbers, on complex numbers if one operand is complex,
and on doubles otherwise. -/
def byKind (onInts : Int → Int → Except Fault Number)
    (onDoubles : Float → Float → Except Fault Number)
    (onPairs : Complex → Complex → Except Fault Number) : Number → Number → Except Fault Number
  | int m, int n => onInts m n
  | complex z, y => onComplex onPairs (complex z) y
  | x, complex w => onComplex onPairs x (complex w)
  | x, y => onFloats onDoubles x y

/-- Addition. -/
def add : Number → Number → Except Fault Number :=
  byKind (fun m n => .ok (int (m + n))) (fun x y => .ok (float (x + y)))
    (fun z w => .ok (complex (z.add w)))

/-- Subtraction. -/
def sub : Number → Number → Except Fault Number :=
  byKind (fun m n => .ok (int (m - n))) (fun x y => .ok (float (x - y)))
    (fun z w => .ok (complex (z.sub w)))

/-- Multiplication. -/
def mul : Number → Number → Except Fault Number :=
  byKind (fun m n => .ok (int (m * n))) (fun x y => .ok (float (x * y)))
    (fun z w => .ok (complex (z.mul w)))

/-- The quotient of two whole numbers as the nearest double. -/
def intQuotient (m n : Int) : Except Fault Number :=
  if n = 0 then .error .divisionByZero
  else
    match Binary64.ofRatio? ((m < 0) != (n < 0)) m.natAbs n.natAbs with
    | some x => .ok (float x)
    | none => .error .quotientTooLarge

/-- Division; the quotient of whole numbers is a double. -/
def div : Number → Number → Except Fault Number :=
  byKind intQuotient
    (fun x y => if Binary64.isZero y then .error .floatDivisionByZero else .ok (float (x / y)))
    (fun z w =>
      match z.div? w with
      | some q => .ok (complex q)
      | none => .error .complexDivisionByZero)

/-- The remainder with the sign of the divisor. -/
def mod : Number → Number → Except Fault Number
  | int m, int n => if n = 0 then .error .moduloByZero else .ok (int (Int.fmod m n))
  | x, y => onFloats (fun x y =>
      if Binary64.isZero y then .error .floatModulo else .ok (float (Binary64.modulus x y))) x y

/-- A whole number to a power, by repeated squaring; `bits` bounds the binary length of the
exponent. -/
def intPower (base : Int) : Nat → Nat → Int
  | 0, _ => 1
  | bits + 1, e =>
    if e = 0 then 1
    else
      let half := intPower (base * base) bits (e / 2)
      if e % 2 = 1 then base * half else half

/-- A power of complex numbers. -/
def complexPower (z w : Complex) : Except Fault Number :=
  match z.pow? w with
  | none => .error .zeroToComplexPower
  | some p => if p.isInfinite then .error .complexPowerTooLarge else .ok (complex p)

/-- A power of doubles that are finite and not zero. -/
def finitePower (x y : Float) : Except Fault Number :=
  let negative := x < 0 && Binary64.isOdd y
  let r := Float.pow x.abs y
  match Binary64.parts r with
  | .infinite _ => .error .powerTooLarge
  | _ => .ok (float (if negative then -r else r))

/-- Whether a double is a whole number. -/
def isWholeFloat (x : Float) : Bool :=
  match Binary64.parts x with
  | .finite _ m e => Binary64.isWhole m e
  | _ => false

/-- A power of doubles. Zero has no negative powers, and a negative number to a power that is not
whole is complex. -/
def floatPower (x y : Float) : Except Fault Number :=
  match Binary64.parts x, Binary64.parts y with
  | _, .finite _ 0 _ => .ok (float 1.0)
  | .nan, _ => .ok (float x)
  | _, .nan => .ok (float (if x == 1.0 then 1.0 else y))
  | _, .infinite negative =>
    let size := x.abs
    .ok (float
      (if size == 1.0 then 1.0
       else if (!negative) == (size > 1.0) then Binary64.infinity false
       else Binary64.zero false))
  | .infinite negative, .finite below _ _ =>
    let odd := Binary64.isOdd y
    .ok (float
      (if below then Binary64.zero (negative && odd) else Binary64.infinity (negative && odd)))
  | .finite negative 0 _, .finite below _ _ =>
    if below then .error .zeroToNegativePower
    else .ok (float (Binary64.zero (negative && Binary64.isOdd y)))
  | .finite negative _ _, .finite .. =>
    if negative && !isWholeFloat y then complexPower (.ofReal x) (.ofReal y)
    else finitePower x y

/-- Powers: whole for a whole base and a whole exponent that is not negative. -/
def pow : Number → Number → Except Fault Number :=
  byKind
    (fun m n =>
      if n ≥ 0 then .ok (int (intPower m (n.natAbs.log2 + 1) n.natAbs))
      else onFloats floatPower (int m) (int n))
    floatPower complexPower

/-- The floor of a real number. -/
def floor : Number → Except Fault Int
  | int n => .ok n
  | float x =>
    match Binary64.parts x with
    | .finite s m e => .ok (Binary64.floorParts s m e)
    | .infinite _ => .error .infinityToInt
    | .nan => .error .nanToInt
  | complex .. => .error (.notReal "complex")

/-- The whole part of a double. -/
def truncate (x : Float) : Except Fault Int :=
  match Binary64.parts x with
  | .finite s m e => .ok (Binary64.truncParts s m e)
  | .infinite _ => .error .infinityToInt
  | .nan => .error .nanToInt

/-- The opposite of a number. -/
def neg : Number → Number
  | int n => int (-n)
  | float x => float (-x)
  | complex z => complex ⟨-z.re, -z.im⟩

end Number

end Stencil
