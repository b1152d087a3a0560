import Stencil.Node.Basic

/-!
# The script language

A compiled template is a module of script functions. The language has function-level variables,
closures, attribute access, calls, conditionals and loops. Identifiers are typed by their origin, so
that a name taken from a template cannot be confused with one that the compiler chose;
`Ident.text` gives their spelling.
-/

namespace Stencil.Script

/-- Identifiers of generated code. `temp` numbers the temporaries; `localName`, `macroName` and
`blockName` carry a name of the template. -/
inductive Ident where
  | temp (k : Nat)
  | localName (name : String)
  | macroName (name : String)
  | blockName (name : String)
  | env | context | frame | runtime
  | output | macroOutput | parentTemplate
  | root | len | list | range
  deriving DecidableEq, Inhabited, Repr

/-- Attributes that generated code reads. -/
inductive Attr where
  | append | join
  | push | pop | set
  | setVariable | addExport | addBlock | getBlock | getSuper | getVariables
  | getTemplate | getFilter
  | blocks | rootRenderFunc | render | getModule
  | resolve | member | toStr | isMacro | iterItems | missingExport | wrapMacro | floor | power
  deriving DecidableEq, Inhabited, Repr

inductive BoolOp where
  | or | and
  deriving DecidableEq, Inhabited, Repr

inductive BinOp where
  | add | sub | mult | div | mod
  deriving DecidableEq, Inhabited, Repr

inductive UnaryOp where
  | not | neg | pos
  deriving DecidableEq, Inhabited, Repr

inductive CompareOp where
  | eq | ne | lt | gt | le | ge | is | isNot | within
  deriving DecidableEq, Inhabited, Repr

/-- Expressions. `tree` is a template tree in the place of a constant: it has no meaning, and a
module that holds one is never run. `bind` assigns an identifier and has the assigned value. -/
inductive Expr where
  | const (c : Constant)
  | tree (n : Node)
  | name (id : Ident)
  | attr (object : Expr) (field : Attr)
  | subscript (object index : Expr)
  | call (callee : Expr) (args : List Expr)
  | list (items : List Expr)
  | tuple (items : List Expr)
  | dict (entries : List (Expr × Expr))
  | boolean (op : BoolOp) (left right : Expr)
  | binary (op : BinOp) (left right : Expr)
  | unary (op : UnaryOp) (operand : Expr)
  | compare (first : Expr) (rest : List (CompareOp × Expr))
  | conditional (test body otherwise : Expr)
  | bind (id : Ident) (value : Expr)
  deriving Inhabited

/-- What a loop assigns in each round: one identifier, or the two parts of a pair. -/
inductive Target where
  | single (id : Ident)
  | pair (first second : Ident)
  deriving DecidableEq, Inhabited, Repr

/-- Statements. The `captured` parameters of a function take their values when it is defined. -/
inductive Stmt where
  | expr (e : Expr)
  | assign (id : Ident) (value : Expr)
  | increment (id : Ident) (amount : Expr)
  | ret (value : Expr)
  | branch (test : Expr) (body otherwise : List Stmt)
  | loop (target : Target) (source : Expr) (body : List Stmt)
  | define (name : Ident) (params : List Ident) (captured : List (Ident × Expr))
      (body : List Stmt)
  | pass
  deriving Inhabited

/-- A function of a module. -/
structure Function where
  name : Ident
  params : List Ident
  body : List Stmt
  deriving Inhabited

/-- A compiled template before it is loaded: its functions in order. -/
structure Module where
  functions : List Function
  deriving Inhabited

namespace Ident

/-- The spelling of an identifier. -/
def text : Ident → String
  | temp k => "t_" ++ toString k
  | localName name => "l_" ++ name
  | macroName name => "m_" ++ name
  | blockName name => "b_" ++ name
  | env => "env"
  | context => "context"
  | frame => "frame"
  | runtime => "runtime"
  | output => "output"
  | macroOutput => "macro_output"
  | parentTemplate => "parent_template"
  | root => "root"
  | len => "_len"
  | list => "_list"
  | range => "_range"

end Ident

namespace Attr

/-- The spelling of an attribute. -/
def text : Attr → String
  | append => "append"
  | join => "join"
  | push => "push"
  | pop => "pop"
  | set => "set"
  | setVariable => "set_variable"
  | addExport => "add_export"
  | addBlock => "add_block"
  | getBlock => "get_block"
  | getSuper => "get_super"
  | getVariables => "get_variables"
  | getTemplate => "get_template"
  | getFilter => "get_filter"
  | blocks => "blocks"
  | rootRenderFunc => "root_render_func"
  | render => "render"
  | getModule => "get_module"
  | resolve => "resolve"
  | member => "member"
  | toStr => "to_str"
  | isMacro => "is_macro"
  | iterItems => "iter_items"
  | missingExport => "missing_export"
  | wrapMacro => "wrap_macro"
  | floor => "floor"
  | power => "power"

end Attr

namespace Expr

/-- The method call `object.field(args)`. -/
def method (object : Expr) (field : Attr) (args : List Expr) : Expr :=
  call (attr object field) args

/-- The call of a function of the rendering runtime. -/
def helper (field : Attr) (args : List Expr) : Expr :=
  method (name .runtime) field args

/-- A constant text. -/
def text (s : String) : Expr :=
  const (.str s)

/-- A constant whole number. -/
def int (n : Int) : Expr :=
  const (.int n)

/-- What a node carries, written as a constant. -/
def ofContent : Node.Content → Expr
  | .constant c => const c
  | .node n => tree n

/-- Whether an expression is a constant: it is written as one, or its operators apply to constants
only. -/
def isConstant : Expr → Bool
  | const _ => true
  | binary _ left right => left.isConstant && right.isConstant
  | unary _ operand => operand.isConstant
  | _ => false

/-- The concatenation of the texts in a buffer. -/
def joined (buffer : Ident) : Expr :=
  method (text "") .join [name buffer]

/-- The arguments that every entry point takes. -/
def entryArgs : List Expr :=
  [name .env, name .context, name .frame, name .runtime]

end Expr

/-- The parameters of every entry point, in order. -/
def entryParams : List Ident :=
  [.env, .context, .frame, .runtime]

namespace Stmt

/-- Append a text to a buffer. -/
def emit (buffer : Ident) (e : Expr) : Stmt :=
  expr (.method (.name buffer) .append [e])

/-- Bind a name in the innermost runtime frame. -/
def frameSet (name : String) (e : Expr) : Stmt :=
  expr (.method (.name .frame) .set [.text name, e])

/-- Bind a render variable. -/
def setVariable (name : String) (e : Expr) : Stmt :=
  expr (.method (.name .context) .setVariable [.text name, e])

/-- Publish a render variable. -/
def addExport (name : String) : Stmt :=
  expr (.method (.name .context) .addExport [.text name])

/-- Open a runtime frame. -/
def pushFrame : Stmt :=
  assign .frame (.method (.name .frame) .push [])

/-- Close the innermost runtime frame. -/
def popFrame : Stmt :=
  assign .frame (.method (.name .frame) .pop [])

end Stmt

end Stencil.Script
