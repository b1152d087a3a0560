import Stencil.Decimal.Length

/-!
# Complex numbers

Complex arithmetic on pairs of doubles. Only a negative number to a power that is not whole leads
here. Quotients are formed by scaling with the larger part of the divisor. Powers with a small whole
exponent are products, other powers go through absolute value and angle.
-/

namespace Stencil

/-- A complex number. -/
structure Complex where
  re : Float
  im : Float
  deriving Inhabited

namespace Complex

/-- A real number as a complex number. -/
def ofReal (x : Float) : Complex :=
  ⟨x, Binary64.zero false⟩

/-- Whether both parts are zero. -/
def isZero (z : Complex) : Bool :=
  Binary64.isZero z.re && Binary64.isZero z.im

/-- Whether one of the parts is infinite. -/
def isInfinite (z : Complex) : Bool :=
  z.re.isInf || z.im.isInf

/-- The sum. -/
def add (z w : Complex) : Complex :=
  ⟨z.re + w.re, z.im + w.im⟩

/-- The difference. -/
def sub (z w : Complex) : Complex :=
  ⟨z.re - w.re, z.im - w.im⟩

/-- The product. -/
def mul (z w : Complex) : Complex :=
  ⟨z.re * w.re - z.im * w.im, z.re * w.im + z.im * w.re⟩

/-- The quotient; none for a zero divisor. -/
def div? (z w : Complex) : Option Complex :=
  if w.re.abs ≥ w.im.abs then
    if Binary64.isZero w.re then none
    else
      let ratio := w.im / w.re
      let denominator := w.re + w.im * ratio
      some ⟨(z.re + z.im * ratio) / denominator, (z.im - z.re * ratio) / denominator⟩
  else if w.im.abs ≥ w.re.abs then
    let ratio := w.re / w.im
    let denominator := w.re * ratio + w.im
    some ⟨(z.re * ratio + z.im) / denominator, (z.im * ratio - z.re) / denominator⟩
  else
    some ⟨Binary64.nan, Binary64.nan⟩

/-- The product of `acc` and the power of a number with a whole exponent, by repeated squaring;
`bits` bounds the binary length of the exponent. -/
def natPower (acc z : Complex) : Nat → Nat → Complex
  | 0, _ => acc
  | bits + 1, n =>
    if n = 0 then acc
    else natPower (if n % 2 = 1 then acc.mul z else acc) (z.mul z) bits (n / 2)

/-- The absolute value. -/
def abs (z : Complex) : Float :=
  Binary64.length z.re z.im

/-- A power through absolute value and angle; none if the angle is infinite, and for a zero base
with an exponent that is negative or not real. -/
def polarPower? (z w : Complex) : Option Complex :=
  if w.isZero then some (ofReal 1.0)
  else if z.isZero then
    if !Binary64.isZero w.im || w.re < 0 then none else some (ofReal 0.0)
  else
    let size := z.abs
    let angle := Float.atan2 z.im z.re
    let real := Float.pow size w.re
    let (length, phase) :=
      if Binary64.isZero w.im then (real, angle * w.re)
      else (real / (angle * w.im).exp, angle * w.re + w.im * size.log)
    if phase.isInf then none else some ⟨length * phase.cos, length * phase.sin⟩

/-- The small whole number that an exponent is. -/
def smallExponent? (w : Complex) : Option Int :=
  match Binary64.parts w.re with
  | .finite negative m e =>
    let n := Binary64.truncParts negative m e
    if Binary64.isZero w.im && Binary64.isWhole m e && n.natAbs ≤ 100 then some n else none
  | _ => none

/-- A power; none where there is none. -/
def pow? (z w : Complex) : Option Complex :=
  match smallExponent? w with
  | some n =>
    let p := natPower (ofReal 1.0) z 7 n.natAbs
    if n > 0 then some p else div? (ofReal 1.0) p
  | none => polarPower? z w

end Complex

end Stencil
