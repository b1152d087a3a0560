import Stencil.Script.Basic

/-!
# Which modules can be loaded

Four rules decide whether a module can be loaded. A comparison must compare something, no template
tree may stand for a constant, the parameters of a function must have different names, and loops of
one function must not be nested too deep. The first two rules are about the form of single
expressions and are checked in one pass over the whole module; the other two are checked after that,
each in a pass of its own.
-/

namespace Stencil.Script

/-- Why a module cannot be loaded. -/
inductive LoadError where
  | emptyComparison
  | treeConstant (kind : String)
  | duplicateParam (id : Ident)
  | nestedLoops
  deriving DecidableEq, Inhabited, Repr

/-- The first identifier of a list that also occurs before its place. -/
def firstDuplicate (seen : List Ident) : List Ident → Option Ident
  | [] => none
  | id :: rest => if id ∈ seen then some id else firstDuplicate (id :: seen) rest

mutual

/-- The first fault in the form of an expression. The index of a subscript is looked at before its
object, the keys of a dictionary display before its values, and the further operands of a comparison
before its first one. -/
def Expr.malformed? : Expr → Option LoadError
  | .const _ | .name _ => none
  | .tree n => some (.treeConstant n.kindName)
  | .attr object _ => object.malformed?
  | .subscript object index => index.malformed? <|> object.malformed?
  | .call callee args => callee.malformed? <|> malformedIn? args
  | .list items | .tuple items => malformedIn? items
  | .dict entries => malformedKey? entries <|> malformedValue? entries
  | .boolean _ left right | .binary _ left right => left.malformed? <|> right.malformed?
  | .unary _ operand => operand.malformed?
  | .compare _ [] => some .emptyComparison
  | .compare first rest => malformedOperand? rest <|> first.malformed?
  | .conditional test body otherwise =>
    test.malformed? <|> body.malformed? <|> otherwise.malformed?
  | .bind _ value => value.malformed?

/-- The first fault in the form of expressions. -/
def malformedIn? : List Expr → Option LoadError
  | [] => none
  | e :: rest => e.malformed? <|> malformedIn? rest

/-- The first fault in the form of the keys of a dictionary display. -/
def malformedKey? : List (Expr × Expr) → Option LoadError
  | [] => none
  | (key, _) :: rest => key.malformed? <|> malformedKey? rest

/-- The first fault in the form of the values of a dictionary display. -/
def malformedValue? : List (Expr × Expr) → Option LoadError
  | [] => none
  | (_, e) :: rest => e.malformed? <|> malformedValue? rest

/-- The first fault in the form of the further operands of a comparison. -/
def malformedOperand? : List (CompareOp × Expr) → Option LoadError
  | [] => none
  | (_, e) :: rest => e.malformed? <|> malformedOperand? rest

end

mutual

/-- The first fault in the form of a statement. The body of a function is looked at before what it
captures. -/
def Stmt.malformed? : Stmt → Option LoadError
  | .expr e | .assign _ e | .increment _ e | .ret e => e.malformed?
  | .branch test body otherwise =>
    test.malformed? <|> malformedBody? body <|> malformedBody? otherwise
  | .loop _ source body => source.malformed? <|> malformedBody? body
  | .define _ _ captured body =>
    malformedBody? body <|> malformedIn? (captured.map (·.2))
  | .pass => none

/-- The first fault in the form of statements. -/
def malformedBody? : List Stmt → Option LoadError
  | [] => none
  | s :: rest => s.malformed? <|> malformedBody? rest

end

mutual

/-- The first parameter that a function defined in a statement takes twice. -/
def Stmt.duplicateParam? : Stmt → Option Ident
  | .branch _ body otherwise => bodyDuplicateParam? body <|> bodyDuplicateParam? otherwise
  | .loop _ _ body => bodyDuplicateParam? body
  | .define _ params captured body =>
    firstDuplicate [] (params ++ captured.map (·.1)) <|> bodyDuplicateParam? body
  | .expr _ | .assign .. | .increment .. | .ret _ | .pass => none

/-- The first parameter that a function defined in the statements takes twice. -/
def bodyDuplicateParam? : List Stmt → Option Ident
  | [] => none
  | s :: rest => s.duplicateParam? <|> bodyDuplicateParam? rest

end

/-- How many loops of a function may stand inside each other. -/
def loopLimit : Nat := 20

mutual

/-- Whether loops are nested too deep in a statement that stands in `depth` loops of its function,
or in a function that it defines. -/
def Stmt.nestsTooDeep (depth : Nat) : Stmt → Bool
  | .branch _ body otherwise => bodyNestsTooDeep depth body || bodyNestsTooDeep depth otherwise
  | .loop _ _ body => decide (loopLimit ≤ depth) || bodyNestsTooDeep (depth + 1) body
  | .define _ _ _ body => bodyNestsTooDeep 0 body
  | .expr _ | .assign .. | .increment .. | .ret _ | .pass => false

/-- Whether loops are nested too deep in statements that stand in `depth` loops of their
function. -/
def bodyNestsTooDeep (depth : Nat) : List Stmt → Bool
  | [] => false
  | s :: rest => s.nestsTooDeep depth || bodyNestsTooDeep depth rest

end

/-- The first reason why a module cannot be loaded. -/
def Module.loadError? (m : Module) : Option LoadError :=
  (m.functions.findSome? fun f => malformedBody? f.body) <|>
    (m.functions.findSome? fun f =>
      firstDuplicate [] f.params <|> bodyDuplicateParam? f.body).map .duplicateParam <|>
    if m.functions.any fun f => bodyNestsTooDeep 0 f.body then some .nestedLoops else none

end Stencil.Script
