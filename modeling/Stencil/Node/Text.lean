import Stencil.Node.Basic
import Stencil.Text.Literal

/-!
# The printed form of a tree

A tree is printed as the name of its kind with all its parts in brackets, the position first. The
printed form spells the identifiers of what a tree names by another tree.
-/

namespace Stencil

/-- The printed form of a coordinate of a source position. -/
def Position.coordinate : Option Int → String
  | some n => toString n
  | none => "None"

/-- The printed form of a name that an import takes, with the name it is bound under. -/
def importedName : String × Option String → String
  | (name, some bound) => s!"({Text.quoted name}, {Text.quoted bound})"
  | (name, none) => s!"({Text.quoted name}, None)"

namespace Node

/-- The printed form of a node of a kind at a position, from its printed parts. -/
def form (kind : String) (pos : Position) (parts : List (String × String)) : String :=
  let parts := ("lineno", Position.coordinate pos.line?) ::
    ("col_offset", Position.coordinate pos.column?) :: parts
  Text.bracketed (kind ++ "(") ")" (parts.map fun (part, shown) => part ++ "=" ++ shown)

mutual

/-- The printed form of a tree. -/
def shown : Node → String
  | literal p c => form "Literal" p [("value", c.shown)]
  | symbol p s => form "Symbol" p [("value", Text.quoted s)]
  | group p items => form "Group" p [("children", Text.bracketed "[" "]" (shownAll items))]
  | array p items => form "Array" p [("children", Text.bracketed "[" "]" (shownAll items))]
  | pair p key value => form "Pair" p [("key", key.shown), ("value", value.shown)]
  | dict p entries => form "Dict" p [("children", Text.bracketed "[" "]" (shownAll entries))]
  | binary p op left right => form op.kindName p [("left", left.shown), ("right", right.shown)]
  | unary p op target => form op.kindName p [("target", target.shown)]
  | operand p e sign => form "CompareOperand" p [("expr", e.shown), ("type", Text.quoted sign)]
  | compare p first rest =>
    form "Compare" p [("expr", first.shown), ("ops", Text.bracketed "[" "]" (shownAll rest))]
  | lookup p target key => form "LookupVal" p [("target", target.shown), ("val", key.shown)]
  | keyword p key value => form "KeywordArg" p [("key", key.shown), ("value", value.shown)]
  | call p callee none => form "FunCall" p [("name", callee.shown), ("args", "()")]
  | call p callee (some args) =>
    form "FunCall" p [("name", callee.shown), ("args", Text.bracketed "[" "]" (shownAll args))]
  | filter p name none => form "Filter" p [("name", name.shown), ("args", "()")]
  | filter p name (some args) =>
    form "Filter" p [("name", name.shown), ("args", Text.bracketed "[" "]" (shownAll args))]
  | sequence p items => form "NodeList" p [("children", Text.bracketed "[" "]" (shownAll items))]
  | conditional p test body none =>
    form "If" p [("cond", test.shown), ("body", body.shown), ("else_", "None")]
  | conditional p test body (some otherwise) =>
    form "If" p [("cond", test.shown), ("body", body.shown), ("else_", otherwise.shown)]
  | loop p target source body =>
    form "For" p [("name", target.shown), ("arr", source.shown), ("body", body.shown)]
  | assign p targets value =>
    form "Set" p [("targets", Text.bracketed "[" "]" (shownAll targets)), ("value", value.shown)]
  | param p name none => form "MacroParam" p [("name", name.shown), ("default", "None")]
  | param p name (some d) => form "MacroParam" p [("name", name.shown), ("default", d.shown)]
  | macroDef p name params body =>
    form "Macro" p
      [("name", name.shown), ("params", Text.bracketed "[" "]" (shownAll params)),
        ("body", body.shown)]
  | text p s => form "TemplateData" p [("value", Text.quoted s)]
  | output p items => form "Output" p [("children", Text.bracketed "[" "]" (shownAll items))]
  | inherit p parent => form "Extends" p [("template", parent.shown)]
  | block p name body => form "Block" p [("name", name.shown), ("body", body.shown)]
  | inclusion p template => form "Include" p [("template", template.shown)]
  | importAll p template target =>
    form "Import" p [("template", template.shown), ("target", Text.quoted target)]
  | importNames p template names =>
    form "FromImport" p
      [("template", template.shown), ("names", Text.bracketed "[" "]" (names.map importedName))]
  | root p items => form "Root" p [("children", Text.bracketed "[" "]" (shownAll items))]
  | unknown p kind => form kind p []

/-- The printed forms of trees, in order. -/
def shownAll : List Node → List String
  | [] => []
  | n :: rest => n.shown :: shownAll rest

end

namespace Content

/-- The name of the type of what a node carries. -/
def typeName : Content → String
  | constant c => c.typeName
  | node n => n.kindName

/-- The text of what a node carries. -/
def text : Content → String
  | constant c => c.text
  | node n => n.shown

/-- The printed form of what a node carries. -/
def shown : Content → String
  | constant c => c.shown
  | node n => n.shown

end Content

end Node

end Stencil
