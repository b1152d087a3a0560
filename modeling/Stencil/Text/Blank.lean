/-!
# Blank characters

The characters that count as white space when a text is trimmed, split or read as a number: those of
a separator category or with a white-space direction class.
-/

namespace Stencil.Text

/-- The ranges of blank code points, in ascending order. -/
def blankRanges : List (Nat × Nat) :=
  [(0x09, 0x0d), (0x1c, 0x20), (0x85, 0x85), (0xa0, 0xa0), (0x1680, 0x1680), (0x2000, 0x200a),
   (0x2028, 0x2029), (0x202f, 0x202f), (0x205f, 0x205f), (0x3000, 0x3000)]

/-- Whether a character is blank. -/
def isBlank (c : Char) : Bool :=
  blankRanges.any fun r => r.1 ≤ c.toNat && c.toNat ≤ r.2

end Stencil.Text
