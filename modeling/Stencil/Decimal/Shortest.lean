import Stencil.Decimal.Binary64

/-!
# The shortest decimal of a double

`Shortest.digits` finds the decimal with the fewest digits among those that lie closer to a double
than to any other one, and of several the nearest. `Shortest.text` writes it: positional between
`1e-4` and `1e16`, with an exponent of at least two digits otherwise.
-/

namespace Stencil.Shortest

/-- A positive decimal number `coefficient * 10 ^ exponent`. -/
structure Scientific where
  coefficient : Nat
  exponent : Int
  deriving DecidableEq, Inhabited, Repr

/-- The least exponent of ten, as a number of decimal places, at which a positive fraction below one
has a whole part. -/
def leadingPlaces (num den : Nat) : Nat → Nat → Nat
  | 0, k => k
  | fuel + 1, k => if num * tenPow k ≥ den then k else leadingPlaces num den fuel (k + 1)

/-- The exponent of the leading decimal digit of a positive fraction. -/
def leadingExponent (num den : Nat) : Int :=
  if num ≥ den then ((toString (num / den)).length : Int) - 1
  else -(leadingPlaces num den 400 1 : Int)

/-- The decimal of `n` digits that lies in the rounding interval around a value and is nearest to
the value, if there is one. Value and interval ends are given over the common denominator `den`. -/
def candidate? (value low high den : Nat) (closed : Bool) (leading : Int) (n : Nat) :
    Option Scientific :=
  let p : Int := leading - (n : Int) + 1
  let up := tenPow (-p).toNat
  let unit := den * tenPow p.toNat
  let v := value * up
  let inside (d : Nat) : Bool :=
    let x := d * unit
    if closed then low * up ≤ x ∧ x ≤ high * up else low * up < x ∧ x < high * up
  let below := v / unit
  let above := below + 1
  match inside below, inside above with
  | false, false => none
  | true, false => some ⟨below, p⟩
  | false, true => some ⟨above, p⟩
  | true, true =>
    let down := v - below * unit
    let rest := above * unit - v
    if down < rest ∨ (down = rest ∧ below % 2 = 0) then some ⟨below, p⟩ else some ⟨above, p⟩

/-- Drop the trailing zeros of a coefficient. -/
def strip : Nat → Scientific → Scientific
  | 0, s => s
  | fuel + 1, ⟨c, e⟩ => if c ≠ 0 ∧ c % 10 = 0 then strip fuel ⟨c / 10, e + 1⟩ else ⟨c, e⟩

/-- The shortest decimal of `mantissa * 2 ^ exponent`. -/
def digits (mantissa : Nat) (exponent : Int) : Scientific :=
  let scale (n : Nat) : Nat := n * twoPow (exponent - 2).toNat
  let den := twoPow (2 - exponent).toNat
  let value := scale (4 * mantissa)
  let narrow := mantissa = twoPow 52 ∧ exponent > -1074
  let low := scale (4 * mantissa - if narrow then 1 else 2)
  let high := scale (4 * mantissa + 2)
  let closed := mantissa % 2 == 0
  let leading := leadingExponent value den
  let found := (List.range' 1 17).findSome? (candidate? value low high den closed leading)
  strip 20 (found.getD ⟨mantissa, 0⟩)

/-- The exponent part: a sign and at least two digits. -/
def exponentText (e : Int) : String :=
  let n := toString e.natAbs
  (if e < 0 then "e-" else "e+") ++ (if n.length < 2 then "0" ++ n else n)

/-- The text of a positive decimal. -/
def Scientific.text (s : Scientific) : String :=
  let ds := (toString s.coefficient).toList
  let point : Int := ds.length + s.exponent
  if -4 < point ∧ point ≤ 16 then
    if point ≤ 0 then
      "0." ++ String.ofList (List.replicate (-point).toNat '0' ++ ds)
    else
      let whole := ds.take point.toNat ++ List.replicate s.exponent.toNat '0'
      let fraction := ds.drop point.toNat
      String.ofList (whole ++ '.' :: if fraction.isEmpty then ['0'] else fraction)
  else
    let fraction := ds.drop 1
    String.ofList (ds.take 1 ++ if fraction.isEmpty then [] else '.' :: fraction) ++
      exponentText (point - 1)

/-- The text of a double. -/
def text (x : Float) : String :=
  let signed (negative : Bool) (t : String) : String := if negative then "-" ++ t else t
  match Binary64.parts x with
  | .nan => "nan"
  | .infinite negative => signed negative "inf"
  | .finite negative 0 _ => signed negative "0.0"
  | .finite negative m e => signed negative (digits m e).text

end Stencil.Shortest
