import Stencil.Script.Bound

/-!
# The parts of expressions

`Expr.parts` lists an expression with all its parts. What an expression reads and assigns can be
told from its parts (`Expr.mem_mentioned_iff`, `Expr.mem_assigned_iff`), so a condition on each part
is enough to know what an expression can do.
-/

namespace Stencil.Script

variable {id : Ident}

mutual

/-- An expression with all its parts, each one before its own parts. -/
def Expr.parts : Expr → List Expr
  | .const c => [.const c]
  | .tree n => [.tree n]
  | .name id => [.name id]
  | .attr object field => .attr object field :: object.parts
  | .subscript object index => .subscript object index :: (object.parts ++ index.parts)
  | .call callee args => .call callee args :: (callee.parts ++ partsOf args)
  | .list items => .list items :: partsOf items
  | .tuple items => .tuple items :: partsOf items
  | .dict entries => .dict entries :: partsOfEntries entries
  | .boolean op left right => .boolean op left right :: (left.parts ++ right.parts)
  | .binary op left right => .binary op left right :: (left.parts ++ right.parts)
  | .unary op operand => .unary op operand :: operand.parts
  | .compare first rest => .compare first rest :: (first.parts ++ partsOfOperands rest)
  | .conditional test body otherwise =>
    .conditional test body otherwise :: (test.parts ++ body.parts ++ otherwise.parts)
  | .bind id value => .bind id value :: value.parts

/-- Expressions with all their parts. -/
def partsOf : List Expr → List Expr
  | [] => []
  | e :: rest => e.parts ++ partsOf rest

/-- The entries of a dictionary display with all their parts. -/
def partsOfEntries : List (Expr × Expr) → List Expr
  | [] => []
  | (key, e) :: rest => key.parts ++ e.parts ++ partsOfEntries rest

/-- The operands of a comparison with all their parts. -/
def partsOfOperands : List (CompareOp × Expr) → List Expr
  | [] => []
  | (_, e) :: rest => e.parts ++ partsOfOperands rest

end

section

attribute [local simp] Expr.mentioned mentionedIn mentionedInEntries mentionedInOperands
  Expr.assigned assignedIn assignedInEntries assignedInOperands Expr.parts partsOf partsOfEntries
  partsOfOperands exists_or

mutual

/-- An expression reads the identifiers among its parts. -/
theorem Expr.mem_mentioned_iff : ∀ e : Expr, id ∈ e.mentioned ↔ .name id ∈ e.parts
  | .const _ | .tree _ => by simp
  | .name _ => by simp
  | .attr object _ => by simp [object.mem_mentioned_iff]
  | .subscript object index => by simp [object.mem_mentioned_iff, index.mem_mentioned_iff]
  | .call callee args => by simp [callee.mem_mentioned_iff, mem_mentionedIn_iff args]
  | .list items | .tuple items => by simp [mem_mentionedIn_iff items]
  | .dict entries => by simp [mem_mentionedInEntries_iff entries]
  | .boolean _ left right | .binary _ left right => by
    simp [left.mem_mentioned_iff, right.mem_mentioned_iff]
  | .unary _ operand => by simp [operand.mem_mentioned_iff]
  | .compare first rest => by simp [first.mem_mentioned_iff, mem_mentionedInOperands_iff rest]
  | .conditional test body otherwise => by
    simp [test.mem_mentioned_iff, body.mem_mentioned_iff, otherwise.mem_mentioned_iff]
  | .bind _ value => by simp [value.mem_mentioned_iff]

theorem mem_mentionedIn_iff : ∀ es : List Expr, id ∈ mentionedIn es ↔ .name id ∈ partsOf es
  | [] => by simp
  | e :: rest => by simp [e.mem_mentioned_iff, mem_mentionedIn_iff rest]

theorem mem_mentionedInEntries_iff : ∀ es : List (Expr × Expr),
    id ∈ mentionedInEntries es ↔ .name id ∈ partsOfEntries es
  | [] => by simp
  | (key, e) :: rest => by
    simp [key.mem_mentioned_iff, e.mem_mentioned_iff, mem_mentionedInEntries_iff rest]

theorem mem_mentionedInOperands_iff : ∀ es : List (CompareOp × Expr),
    id ∈ mentionedInOperands es ↔ .name id ∈ partsOfOperands es
  | [] => by simp
  | (_, e) :: rest => by simp [e.mem_mentioned_iff, mem_mentionedInOperands_iff rest]

end

mutual

/-- An expression assigns the identifiers that are bound among its parts. -/
theorem Expr.mem_assigned_iff : ∀ e : Expr, id ∈ e.assigned ↔ ∃ v, .bind id v ∈ e.parts
  | .const _ | .tree _ | .name _ => by simp
  | .attr object _ => by simp [object.mem_assigned_iff]
  | .subscript object index => by simp [object.mem_assigned_iff, index.mem_assigned_iff]
  | .call callee args => by simp [callee.mem_assigned_iff, mem_assignedIn_iff args]
  | .list items | .tuple items => by simp [mem_assignedIn_iff items]
  | .dict entries => by simp [mem_assignedInEntries_iff entries]
  | .boolean _ left right | .binary _ left right => by
    simp [left.mem_assigned_iff, right.mem_assigned_iff]
  | .unary _ operand => by simp [operand.mem_assigned_iff]
  | .compare first rest => by simp [first.mem_assigned_iff, mem_assignedInOperands_iff rest]
  | .conditional test body otherwise => by
    simp [test.mem_assigned_iff, body.mem_assigned_iff, otherwise.mem_assigned_iff]
  | .bind _ value => by simp [value.mem_assigned_iff]

theorem mem_assignedIn_iff : ∀ es : List Expr, id ∈ assignedIn es ↔ ∃ v, .bind id v ∈ partsOf es
  | [] => by simp
  | e :: rest => by simp [e.mem_assigned_iff, mem_assignedIn_iff rest]

theorem mem_assignedInEntries_iff : ∀ es : List (Expr × Expr),
    id ∈ assignedInEntries es ↔ ∃ v, .bind id v ∈ partsOfEntries es
  | [] => by simp
  | (key, e) :: rest => by
    simp [key.mem_assigned_iff, e.mem_assigned_iff, mem_assignedInEntries_iff rest]

theorem mem_assignedInOperands_iff : ∀ es : List (CompareOp × Expr),
    id ∈ assignedInOperands es ↔ ∃ v, .bind id v ∈ partsOfOperands es
  | [] => by simp
  | (_, e) :: rest => by simp [e.mem_assigned_iff, mem_assignedInOperands_iff rest]

end

end

end Stencil.Script
