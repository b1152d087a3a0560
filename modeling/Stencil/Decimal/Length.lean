import Stencil.Decimal.Binary64

/-!
# Lengths

`Binary64.length` is the length of a vector of two doubles. The root of the sum of the squares is
corrected once by what the squares leave over, which needs no more than double precision. Very large
and very small vectors are scaled first, and a part that is too small to count is only added.
-/

namespace Stencil

namespace Binary64

/-- A power of two as a double. -/
def powerOfTwo (e : Int) : Float :=
  ofUnits false 1 e

/-- The length of a vector whose squares are neither too large nor too small, for `long ≥ short`.
The square of the root differs from the sum of the squares, and half that difference over the root
is taken off. The difference is formed in one of two ways so that little is lost. -/
def correctedLength (long short : Float) : Float :=
  let h := (long * long + short * short).sqrt
  let excess :=
    if h ≤ 2.0 * short then
      let d := h - short
      long * (2.0 * d - long) + (d - 2.0 * (long - short)) * d
    else
      let d := h - long
      2.0 * d * (long - 2.0 * short) + ((4.0 * d - short) * short + d * d)
  h - excess / (2.0 * h)

/-- The length of a vector of finite parts, for `long ≥ short ≥ 0`. -/
def finiteLength (long short : Float) : Float :=
  let scale := powerOfTwo (-600)
  let negligible := powerOfTwo (-54)
  if long > powerOfTwo 511 then
    if short ≤ long * negligible then long + short
    else correctedLength (long * scale) (short * scale) / scale
  else if short < powerOfTwo (-459) then
    if long ≥ short / negligible then long + short
    else correctedLength (long / scale) (short / scale) * scale
  else if short ≤ long * negligible then long + short
  else correctedLength long short

/-- The length of a vector of two doubles; infinite if one of them is, whatever the other one is. -/
def length (x y : Float) : Float :=
  match parts x, parts y with
  | .infinite _, _ | _, .infinite _ => infinity false
  | .nan, _ | _, .nan => nan
  | .finite .., .finite .. =>
    let a := x.abs
    let b := y.abs
    if a < b then finiteLength b a else finiteLength a b

end Binary64

end Stencil
