import Stencil.Compile.Error
import Stencil.Compile.Scope
import Stencil.Node.Equal
import Stencil.Node.Text
import Stencil.Script.Basic

/-!
# Compiling expressions

`Compile.expr` turns an expression node into a script expression. Names bound in the scope become
variables of the generated code; every other name is resolved when the template runs. A call gets a
temporary for its callee, and both calling conventions are generated: a macro takes a list of
positional and a dictionary of keyword arguments, anything else the positional arguments alone.
-/

namespace Stencil.Compile

open Script (Ident)

/-- What a compilation has done so far: the number of temporaries handed out, and whether an
inheritance statement was met. -/
structure Progress where
  temps : Nat := 0
  child : Bool := false
  deriving DecidableEq, Inhabited, Repr

/-- Compilation steps: they advance the progress, which stays readable after an error. -/
abbrev Gen := ExceptT CompileError (StateM Progress)

/-- Report a violation at a node. -/
def reject {α : Type} (cause : CompileCause) (n : Node) : Gen α :=
  throw (.violation cause (some n.position))

/-- Report that a node lacks a part that its place needs. -/
def lacking {α : Type} (n : Node) (part : String) : Gen α :=
  throw (.lacks n.kindName part)

/-- Hand out the next temporary. -/
def fresh : Gen Ident := do
  let p ← get
  set { p with temps := p.temps + 1 }
  return .temp (p.temps + 1)

/-- The kinds accepted where the grammar demands a value. -/
def isValueKind : Node → Bool
  | .literal .. | .symbol .. | .group .. | .array .. | .dict .. | .call .. | .filter ..
  | .lookup .. | .compare .. => true
  | .binary _ .and _ _ | .binary _ .or _ _ | .unary _ .not _ => true
  | _ => false

/-- Reject a node that is not of an accepted kind. -/
def demand (accepted : Bool) (n : Node) : Gen Unit :=
  if accepted then pure () else reject (.invalidType n.kindName) n

/-- The comparison written as the given sign. -/
def compareOp? : String → Option Script.CompareOp
  | "==" => some .eq
  | "!=" => some .ne
  | "<" => some .lt
  | ">" => some .gt
  | "<=" => some .le
  | ">=" => some .ge
  | _ => none

/-- The text that the key of a dictionary entry stands for: a name or a literal text. -/
def dictKey? : Node → Option String
  | .symbol _ s | .literal _ (.str s) => some s
  | _ => none

/-- What a node in the place of a name stands for. -/
def nameOf (n : Node) : Gen Node.Content :=
  match n.content? with
  | some c => return c
  | none => lacking n "value"

/-- Demand that a name can be the key of a table. -/
def demandKey (name : Node.Content) : Gen Unit :=
  if name.isKey then pure () else throw (.unhashable "list")

/-- The text of a name that is about to be published. Only a text can be tested for being
private. -/
def textOf : Node.Content → Gen String
  | .constant (.str s) => return s
  | c => throw (.lacks c.typeName "startswith")

/-- A reference to a name of the template. -/
def reference (scope : Scope Ident) (name : String) : Script.Expr :=
  match scope.lookup name with
  | some id => .name id
  | none => .helper .resolve [.name .context, .name .frame, .text name]

/-- The call of the value bound to `callee`, in the convention that the value asks for. -/
def dualCall (callee : Ident) (function : Script.Expr) (positional : List Script.Expr)
    (keywords : List (Script.Expr × Script.Expr)) : Script.Expr :=
  .conditional (.helper .isMacro [.bind callee function])
    (.call (.name callee) [.list positional, .dict keywords])
    (.call (.name callee) positional)

mutual

/-- The script expression of an expression node. -/
def expr (scope : Scope Ident) : Node → Gen Script.Expr
  | .literal _ c => pure (.const c)
  | .text _ s => pure (.text s)
  | .symbol _ s => pure (reference scope s)
  | .group _ [item] => expr scope item
  | .group _ items => return .tuple (← exprs scope items)
  | .array _ items => return .list (← exprs scope items)
  | .dict _ entries => return .dict (← dictEntries scope entries)
  | .binary _ .or left right => return .boolean .or (← expr scope left) (← expr scope right)
  | .binary _ .and left right => return .boolean .and (← expr scope left) (← expr scope right)
  | .binary _ .add left right => return .binary .add (← expr scope left) (← expr scope right)
  | .binary _ .sub left right => return .binary .sub (← expr scope left) (← expr scope right)
  | .binary _ .mul left right => return .binary .mult (← expr scope left) (← expr scope right)
  | .binary _ .div left right => return .binary .div (← expr scope left) (← expr scope right)
  | .binary _ .mod left right => return .binary .mod (← expr scope left) (← expr scope right)
  | .binary _ .floorDiv left right =>
    return .helper .floor [.binary .div (← expr scope left) (← expr scope right)]
  | .binary _ .pow left right =>
    return .helper .power [← expr scope left, ← expr scope right]
  | .unary _ .not target => return .unary .not (← expr scope target)
  | .unary _ .neg target => return .unary .neg (← expr scope target)
  | .unary _ .pos target => return .unary .pos (← expr scope target)
  | .compare _ first rest => return .compare (← expr scope first) (← operands scope rest)
  | .lookup _ target key => do
    demand (isValueKind target) target
    let target ← expr scope target
    demand (isValueKind key) key
    return .helper .member [target, ← expr scope key]
  | .call _ callee args? => do
    let id ← fresh
    let (positional, keywords) ← callArguments scope args?
    demand (isValueKind callee) callee
    return dualCall id (← expr scope callee) positional keywords
  | .filter _ (.symbol _ name) args? => do
    let (positional, _) ← callArguments scope args?
    return .call (.method (.name .env) .getFilter [.text name]) positional
  | .filter _ name _ => reject (.invalidType name.kindName) name
  | n => reject (.unknownNode n.kindName) n

/-- The script expressions of expression nodes, in order. -/
def exprs (scope : Scope Ident) : List Node → Gen (List Script.Expr)
  | [] => return []
  | n :: rest => return (← expr scope n) :: (← exprs scope rest)

/-- The entries of a dictionary display. -/
def dictEntries (scope : Scope Ident) : List Node → Gen (List (Script.Expr × Script.Expr))
  | [] => return []
  | .pair _ key value :: rest => do
    let some k := dictKey? key | reject .dictKey key
    demand (isValueKind value) value
    let v ← expr scope value
    return (.text k, v) :: (← dictEntries scope rest)
  | n :: _ => reject (.invalidType n.kindName) n

/-- The steps of a comparison chain. -/
def operands (scope : Scope Ident) : List Node → Gen (List (Script.CompareOp × Script.Expr))
  | [] => return []
  | .operand pos e sign :: rest => do
    let some op := compareOp? sign | throw (.violation (.invalidOperator sign) (some pos))
    let e ← expr scope e
    return (op, e) :: (← operands scope rest)
  | n :: _ => lacking n "type"

/-- Call arguments, split into positional and keyword arguments. -/
def arguments (scope : Scope Ident) :
    List Node → Gen (List Script.Expr × List (Script.Expr × Script.Expr))
  | [] => return ([], [])
  | .keyword _ key value :: rest => do
    let k ← nameOf key
    let v ← expr scope value
    let (positional, keywords) ← arguments scope rest
    return (positional, (.ofContent k, v) :: keywords)
  | n :: rest => do
    let e ← expr scope n
    let (positional, keywords) ← arguments scope rest
    return (e :: positional, keywords)

/-- The arguments that a call may have. -/
def callArguments (scope : Scope Ident) :
    Option (List Node) → Gen (List Script.Expr × List (Script.Expr × Script.Expr))
  | none => return ([], [])
  | some args => arguments scope args

end

/-- The script expression of a node that stands where the grammar demands a value. -/
def value (scope : Scope Ident) (n : Node) : Gen Script.Expr := do
  demand (isValueKind n) n
  expr scope n

end Stencil.Compile
