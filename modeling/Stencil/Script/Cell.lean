import Stencil.Value.Basic

/-!
# What the variables of a script hold

A variable of a running script holds a value of the template or a part of the machinery that runs
it: the render context, a runtime frame, the runtime itself, a function that every module knows, or
a method of one of these. The two are kept apart, so no operation on values can make or find a part
of the machinery.
-/

namespace Stencil

/-- The functions that every module can call by name. -/
inductive CoreFn where
  | len | list | range
  deriving DecidableEq, Inhabited, Repr

/-- The content of a script variable. -/
inductive Cell where
  | value (v : Value)
  | context (r : Ref)
  | frame (r : Ref)
  | runtime
  | core (f : CoreFn)
  | method (self : Cell) (attr : Script.Attr)
  deriving Inhabited

namespace Cell

/-- The name of the type of a variable's content. -/
def typeName : Cell → String
  | value v => v.typeName
  | context _ => "Context"
  | frame _ => "Frame"
  | runtime => "module"
  | core .len => "builtin_function_or_method"
  | core _ => "type"
  | method .. => "method"

end Cell

end Stencil
