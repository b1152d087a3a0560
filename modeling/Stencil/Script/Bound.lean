import Stencil.Script.Basic

/-!
# The variables of a function

An identifier belongs to the function whose body assigns it, wherever in the body that happens; the
bodies of functions defined inside do not count. An identifier that a body reads, there or in a
function defined inside, and that does not belong to it is free in it.
-/

namespace Stencil.Script

mutual

/-- The identifiers that an expression assigns. -/
def Expr.assigned : Expr → List Ident
  | .const _ | .tree _ | .name _ => []
  | .attr object _ => object.assigned
  | .subscript object index => object.assigned ++ index.assigned
  | .call callee args => callee.assigned ++ assignedIn args
  | .list items | .tuple items => assignedIn items
  | .dict entries => assignedInEntries entries
  | .boolean _ left right | .binary _ left right => left.assigned ++ right.assigned
  | .unary _ operand => operand.assigned
  | .compare first rest => first.assigned ++ assignedInOperands rest
  | .conditional test body otherwise => test.assigned ++ body.assigned ++ otherwise.assigned
  | .bind id value => id :: value.assigned

/-- The identifiers that expressions assign. -/
def assignedIn : List Expr → List Ident
  | [] => []
  | e :: rest => e.assigned ++ assignedIn rest

/-- The identifiers that the entries of a dictionary display assign. -/
def assignedInEntries : List (Expr × Expr) → List Ident
  | [] => []
  | (key, e) :: rest => key.assigned ++ e.assigned ++ assignedInEntries rest

/-- The identifiers that the operands of a comparison assign. -/
def assignedInOperands : List (CompareOp × Expr) → List Ident
  | [] => []
  | (_, e) :: rest => e.assigned ++ assignedInOperands rest

end

/-- The identifiers that a loop assigns in each round. -/
def Target.assigned : Target → List Ident
  | single id => [id]
  | pair first second => [first, second]

mutual

/-- The identifiers that a statement assigns in the function it stands in. -/
def Stmt.assigned : Stmt → List Ident
  | .expr e | .ret e => e.assigned
  | .assign id e | .increment id e => id :: e.assigned
  | .branch test body otherwise => test.assigned ++ assignedInBody body ++ assignedInBody otherwise
  | .loop target source body => target.assigned ++ source.assigned ++ assignedInBody body
  | .define name _ captured _ => name :: captured.flatMap (·.2.assigned)
  | .pass => []

/-- The identifiers that statements assign in the function they stand in. -/
def assignedInBody : List Stmt → List Ident
  | [] => []
  | s :: rest => s.assigned ++ assignedInBody rest

end

/-- The identifiers that belong to a function: its parameters and all that its body assigns. -/
def ownedBy (params : List Ident) (body : List Stmt) : List Ident :=
  (params ++ assignedInBody body).eraseDups

mutual

/-- The identifiers that an expression reads. -/
def Expr.mentioned : Expr → List Ident
  | .const _ | .tree _ => []
  | .name id => [id]
  | .attr object _ => object.mentioned
  | .subscript object index => object.mentioned ++ index.mentioned
  | .call callee args => callee.mentioned ++ mentionedIn args
  | .list items | .tuple items => mentionedIn items
  | .dict entries => mentionedInEntries entries
  | .boolean _ left right | .binary _ left right => left.mentioned ++ right.mentioned
  | .unary _ operand => operand.mentioned
  | .compare first rest => first.mentioned ++ mentionedInOperands rest
  | .conditional test body otherwise => test.mentioned ++ body.mentioned ++ otherwise.mentioned
  | .bind _ value => value.mentioned

/-- The identifiers that expressions read. -/
def mentionedIn : List Expr → List Ident
  | [] => []
  | e :: rest => e.mentioned ++ mentionedIn rest

/-- The identifiers that the entries of a dictionary display read. -/
def mentionedInEntries : List (Expr × Expr) → List Ident
  | [] => []
  | (key, e) :: rest => key.mentioned ++ e.mentioned ++ mentionedInEntries rest

/-- The identifiers that the operands of a comparison read. -/
def mentionedInOperands : List (CompareOp × Expr) → List Ident
  | [] => []
  | (_, e) :: rest => e.mentioned ++ mentionedInOperands rest

end

mutual

/-- The identifiers that a statement reads, those free in functions defined in it included. -/
def Stmt.mentioned : Stmt → List Ident
  | .expr e | .ret e | .assign _ e => e.mentioned
  | .increment id e => id :: e.mentioned
  | .branch test body otherwise =>
    test.mentioned ++ mentionedInBody body ++ mentionedInBody otherwise
  | .loop _ source body => source.mentioned ++ mentionedInBody body
  | .define _ params captured body =>
    let own := ownedBy (params ++ captured.map (·.1)) body
    captured.flatMap (·.2.mentioned) ++ (mentionedInBody body).filter fun id => !own.contains id
  | .pass => []

/-- The identifiers that statements read, those free in functions defined in them included. -/
def mentionedInBody : List Stmt → List Ident
  | [] => []
  | s :: rest => s.mentioned ++ mentionedInBody rest

end

/-- The identifiers that are free in a body to which the given ones belong. -/
def freeIn (own : List Ident) (body : List Stmt) : List Ident :=
  ((mentionedInBody body).filter fun id => !own.contains id).eraseDups

end Stencil.Script
