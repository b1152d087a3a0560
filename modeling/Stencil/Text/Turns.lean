/-!
# Sets of code points

A set of code points that consists of few ranges is given by the turns at which it begins and ends.
-/

namespace Stencil.Text

/-- Whether a code point lies behind an odd number of turns, which are given by the distance of the
first one from zero and the distances between neighbours. -/
def isTurned : (turns : List Nat) → (code : Nat) → Bool
  | [], _ => false
  | d :: rest, code => d ≤ code && !isTurned rest (code - d)

end Stencil.Text
