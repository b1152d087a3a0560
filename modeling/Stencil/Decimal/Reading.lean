import Stencil.Decimal.Binary64
import Stencil.Text.Blank
import Stencil.Text.Digit
import Stencil.Text.Pieces

/-!
# Reading numbers

A whole number is an optional sign and digits of any script; a single underscore may stand between
two digits. A decimal number also has a point and an exponent, or is the name of infinity or of the
number that is not one. Blanks around a number do not count.
-/

namespace Stencil.Reading

/-- A character as number readers see it: a digit of any script as the plain digit, and a blank
outside the basic range as a space. -/
def plainChar (c : Char) : Char :=
  if c.toNat < 127 then c
  else if Text.isBlank c then ' '
  else
    match Text.digitValue? c with
    | some d => Char.ofNat ('0'.toNat + d)
    | none => '?'

/-- The blanks that may stand around a number. -/
def isPadding (c : Char) : Bool :=
  c = ' ' || (9 ≤ c.toNat && c.toNat ≤ 13)

/-- The characters of a number without the blanks around it. -/
def normalize (s : String) : List Char :=
  Text.trimBy isPadding (s.toList.map plainChar)

/-- Split off an optional sign; true stands for a minus. -/
def sign : List Char → Bool × List Char
  | '-' :: rest => (true, rest)
  | '+' :: rest => (false, rest)
  | cs => (false, cs)

/-- The text without underscores, provided that each stands between two digits. -/
def joinDigits? : Option Char → List Char → Option (List Char)
  | prev, [] => if prev = some '_' then none else some []
  | prev, c :: rest =>
    if c = '_' then
      match prev with
      | some p => if p.isDigit then joinDigits? (some '_') rest else none
      | none => none
    else if prev = some '_' && !c.isDigit then none
    else (joinDigits? (some c) rest).map (c :: ·)

/-- The number that plain digits write. -/
def natOf (ds : List Char) : Nat :=
  ds.foldl (fun n c => 10 * n + (c.toNat - '0'.toNat)) 0

/-- The whole number that a text writes, if it does not write too many digits. -/
def int? (s : String) : Option Int :=
  let (negative, rest) := sign (normalize s)
  match joinDigits? none rest with
  | some (d :: ds) =>
    if (d :: ds).all Char.isDigit && (d :: ds).length ≤ digitLimit then
      let n : Int := natOf (d :: ds)
      some (if negative then -n else n)
    else none
  | _ => none

/-- The double nearest to `digits * 10 ^ exponent`, where `digits` has `count` digits. -/
def nearest (negative : Bool) (digits : Nat) (count : Nat) (exponent : Int) : Float :=
  if digits = 0 ∨ (count : Int) + exponent < -400 then Binary64.zero negative
  else if exponent > 400 then Binary64.infinity negative
  else
    ((match exponent with
      | .ofNat e => Binary64.ofRatio? negative (digits * tenPow e) 1
      | .negSucc e => Binary64.ofRatio? negative digits (tenPow (e + 1)))).getD
      (Binary64.infinity negative)

/-- The exponent part of a decimal number; none if it is malformed. -/
def exponent? : List Char → Option Int
  | [] => some 0
  | c :: rest =>
    if c = 'e' ∨ c = 'E' then
      let (negative, ds) := sign rest
      if ds.isEmpty || !ds.all Char.isDigit then none
      else some (if negative then -(natOf ds : Int) else natOf ds)
    else none

/-- The decimal number that unsigned characters without underscores write. -/
def unsigned? (negative : Bool) (cs : List Char) : Option Float :=
  let whole := cs.takeWhile Char.isDigit
  let rest := cs.dropWhile Char.isDigit
  let (fraction, rest) := match rest with
    | '.' :: rest => (rest.takeWhile Char.isDigit, rest.dropWhile Char.isDigit)
    | rest => ([], rest)
  let digits := whole ++ fraction
  if digits.isEmpty then none
  else
    (exponent? rest).map fun e =>
      let significant := digits.dropWhile (· = '0')
      nearest negative (natOf digits) significant.length (e - fraction.length)

/-- The decimal number that a text writes. -/
def float? (s : String) : Option Float :=
  match joinDigits? none (normalize s) with
  | none => none
  | some cs =>
    let (negative, rest) := sign cs
    match String.ofList (rest.map Char.toLower) with
    | "inf" | "infinity" => some (Binary64.infinity negative)
    | "nan" => some Binary64.nan
    | _ => unsigned? negative rest

end Stencil.Reading
