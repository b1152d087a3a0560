import Stencil.Constant

/-!
# Template trees

A template is a tree of nodes handed over by some parser. All kinds of nodes share one type, because
a tree may put any kind of node in any place, also where a name is expected; which placements make
sense is decided when the tree is compiled.
-/

namespace Stencil

/-- The source position of a node: line and column, as far as the parser knows them. -/
structure Position where
  line? : Option Int := some 0
  column? : Option Int := some 0
  deriving DecidableEq, Inhabited, Repr

/-- Binary operators. `generic` is the operator of no particular meaning. -/
inductive BinaryOp where
  | or | and | add | sub | mul | div | floorDiv | mod | pow | generic
  deriving DecidableEq, Inhabited, Repr

/-- Unary operators. `generic` is the operator of no particular meaning. -/
inductive UnaryOp where
  | not | neg | pos | generic
  deriving DecidableEq, Inhabited, Repr

/-- A node of a template tree. An absent list of arguments differs from an empty one only when
trees are compared. -/
inductive Node where
  | literal (pos : Position) (value : Constant)
  | symbol (pos : Position) (name : String)
  | group (pos : Position) (items : List Node)
  | array (pos : Position) (items : List Node)
  | pair (pos : Position) (key value : Node)
  | dict (pos : Position) (entries : List Node)
  | binary (pos : Position) (op : BinaryOp) (left right : Node)
  | unary (pos : Position) (op : UnaryOp) (target : Node)
  | operand (pos : Position) (expr : Node) (sign : String)
  | compare (pos : Position) (first : Node) (rest : List Node)
  | lookup (pos : Position) (target key : Node)
  | keyword (pos : Position) (key value : Node)
  | call (pos : Position) (callee : Node) (args? : Option (List Node))
  | filter (pos : Position) (name : Node) (args? : Option (List Node))
  | sequence (pos : Position) (items : List Node)
  | conditional (pos : Position) (test body : Node) (otherwise? : Option Node)
  | loop (pos : Position) (target source body : Node)
  | assign (pos : Position) (targets : List Node) (value : Node)
  | param (pos : Position) (name : Node) (default? : Option Node)
  | macroDef (pos : Position) (name : Node) (params : List Node) (body : Node)
  | text (pos : Position) (data : String)
  | output (pos : Position) (items : List Node)
  | inherit (pos : Position) (parent : Node)
  | block (pos : Position) (name body : Node)
  | inclusion (pos : Position) (template : Node)
  | importAll (pos : Position) (template : Node) (target : String)
  | importNames (pos : Position) (template : Node) (names : List (String × Option String))
  | root (pos : Position) (items : List Node)
  | unknown (pos : Position) (kind : String)
  deriving Inhabited

namespace BinaryOp

/-- The kind name of a node with this operator. -/
def kindName : BinaryOp → String
  | or => "Or"
  | and => "And"
  | add => "Add"
  | sub => "Sub"
  | mul => "Mul"
  | div => "Div"
  | floorDiv => "FloorDiv"
  | mod => "Mod"
  | pow => "Pow"
  | generic => "BinOp"

end BinaryOp

namespace UnaryOp

/-- The kind name of a node with this operator. -/
def kindName : UnaryOp → String
  | not => "Not"
  | neg => "Neg"
  | pos => "Pos"
  | generic => "UnaryOp"

end UnaryOp

namespace Node

/-- The name of a node's kind, as diagnostics print it. -/
def kindName : Node → String
  | literal .. => "Literal"
  | symbol .. => "Symbol"
  | group .. => "Group"
  | array .. => "Array"
  | pair .. => "Pair"
  | dict .. => "Dict"
  | binary _ op _ _ => op.kindName
  | unary _ op _ => op.kindName
  | operand .. => "CompareOperand"
  | compare .. => "Compare"
  | lookup .. => "LookupVal"
  | keyword .. => "KeywordArg"
  | call .. => "FunCall"
  | filter .. => "Filter"
  | sequence .. => "NodeList"
  | conditional .. => "If"
  | loop .. => "For"
  | assign .. => "Set"
  | param .. => "MacroParam"
  | macroDef .. => "Macro"
  | text .. => "TemplateData"
  | output .. => "Output"
  | inherit .. => "Extends"
  | block .. => "Block"
  | inclusion .. => "Include"
  | importAll .. => "Import"
  | importNames .. => "FromImport"
  | root .. => "Root"
  | unknown _ kind => kind

/-- Where a node stands in its source. -/
def position : Node → Position
  | literal p _ | symbol p _ | group p _ | array p _ | pair p _ _ | dict p _ | binary p _ _ _
  | unary p _ _ | operand p _ _ | compare p _ _ | lookup p _ _ | keyword p _ _ | call p _ _
  | filter p _ _ | sequence p _ | conditional p _ _ _ | loop p _ _ _ | assign p _ _ | param p _ _
  | macroDef p _ _ _ | text p _ | output p _ | inherit p _ | block p _ _ | inclusion p _
  | importAll p _ _ | importNames p _ _ | root p _ | unknown p _ => p

/-- The kinds a node counts as when nodes of a kind are searched: its own, the family of its
operator, and the family of all nodes. -/
def families (n : Node) : List String :=
  match n with
  | binary .. => [n.kindName, "BinOp", "Node"]
  | unary .. => [n.kindName, "UnaryOp", "Node"]
  | _ => [n.kindName, "Node"]

/-- The list of nodes that a node consists of, for the kinds that are such a list. -/
def items? : Node → Option (List Node)
  | group _ items | array _ items | dict _ items | sequence _ items | output _ items
  | root _ items => some items
  | _ => none

/-- What a node carries as its value: a constant, or another node. -/
inductive Content where
  | constant (c : Constant)
  | node (n : Node)

/-- The value that a node carries, for the kinds that carry one. A name carries its text. -/
def content? : Node → Option Content
  | literal _ c => some (.constant c)
  | symbol _ s | text _ s => some (.constant (.str s))
  | pair _ _ value | keyword _ _ value | assign _ _ value => some (.node value)
  | _ => none

/-- The node that names a node, for the kinds that have such a part. -/
def nameNode? : Node → Option Node
  | call _ name _ | filter _ name _ | loop _ name _ _ | param _ name _ | macroDef _ name _ _
  | block _ name _ => some name
  | _ => none

end Node

end Stencil
