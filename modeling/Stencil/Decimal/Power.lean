/-!
# Powers of two and ten

The scales of binary and decimal notation, and how far decimal notation goes.
-/

namespace Stencil

/-- A power of two. -/
def twoPow (n : Nat) : Nat :=
  Nat.pow 2 n

/-- A power of ten. -/
def tenPow (n : Nat) : Nat :=
  Nat.pow 10 n

/-- How many digits a whole number may have that is read from a text or written as one. -/
def digitLimit : Nat := 4300

end Stencil
