/-!
# Constants

The values a template may write down: the empty value, truth values, whole numbers of any size,
binary floating-point numbers and texts. The origin of a value tells which object holds it.
-/

namespace Stencil

/-- Where an object comes from. Equal contents of one origin are one and the same object. `shared`
is the origin of objects that exist once for each content, `written` that of a floating-point number
written in a template, `joined` that of the result of an operation on constants of two origins, and
`made` that of an object made later on. -/
inductive Origin where
  | shared
  | written (id : Nat)
  | joined (left right : Origin)
  | made (id : Nat)
  deriving DecidableEq, Inhabited, Repr

/-- Whether an origin is that of a constant of a template. -/
def Origin.isConstant : Origin → Bool
  | written _ | joined .. => true
  | shared | made _ => false

/-- A literal of the template language. A floating-point constant has an origin: two NaN objects
differ, and one NaN object is the same as itself. -/
inductive Constant where
  | null
  | bool (b : Bool)
  | int (n : Int)
  | float (x : Float) (origin : Origin)
  | str (s : String)
  deriving Inhabited

end Stencil
