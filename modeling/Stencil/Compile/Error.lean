import Stencil.Fault
import Stencil.Node.Basic

/-!
# Why a tree does not compile

Each cause has one code and one wording. A violation is reported at the node that shows it.
-/

namespace Stencil

/-- The rules of the template grammar that a tree can violate. -/
inductive CompileCause where
  | unknownNode (kind : String)
  | invalidType (kind : String)
  | loopTargets (count : Nat)
  | dictKey
  | multipleExtends
  | rootWithFrame
  | invalidOperator (sign : String)
  | reused
  deriving DecidableEq, Inhabited, Repr

namespace CompileCause

/-- The code of a violation. -/
def code : CompileCause → ErrorCode
  | unknownNode _ => .unknownNode
  | invalidType _ | loopTargets _ => .invalidType
  | dictKey => .invalidDictKey
  | multipleExtends => .multipleExtends
  | rootWithFrame => .rootWithFrame
  | invalidOperator _ => .invalidOperator
  | reused => .compilerReused

/-- The wording of a violation. -/
def message : CompileCause → String
  | unknownNode kind => s!"cannot compile node: {kind}"
  | invalidType kind => s!"invalid type: {kind}"
  | loopTargets count => s!"for loop target must name 1 or 2 variables, got {count}"
  | dictKey => "dict keys must be strings or names"
  | multipleExtends => "cannot extend multiple times"
  | rootWithFrame => "root node can't have frame"
  | invalidOperator sign => s!"invalid comparison operator: {sign}"
  | reused => "compiler instance already used"

end CompileCause

/-- Why a compilation stops: the tree violates a rule, something stands in a place that needs a part
which things of its type do not have, or a name has a part of a type that cannot be a key. A
violation is known with the position of the node that shows it. -/
inductive CompileError where
  | violation (cause : CompileCause) (pos? : Option Position)
  | lacks (type part : String)
  | unhashable (type : String)
  deriving DecidableEq, Inhabited, Repr

namespace CompileError

/-- The fault that an error is, in the template with the given name. -/
def fault (e : CompileError) (template? : Option String) : Fault :=
  match e with
  | violation cause pos? =>
    .report (.compile
      { message := cause.message
        code := cause.code
        line? := pos?.bind (·.line?)
        column? := pos?.bind (·.column?)
        template? })
  | lacks type part => .missingAttribute type part
  | unhashable type => .unhashable type

end CompileError

end Stencil
