/-!
# Error reports

Every failure that concerns a template is a `Report`. A report has a searchable code, a text that
names the place and the circumstances, and a compact form that starts with the code.
-/

namespace Stencil

/-- Searchable error codes. -/
inductive ErrorCode where
  | unknownNode | invalidType | invalidDictKey | multipleExtends | rootWithFrame | invalidOperator
  | compilerReused
  | unknownBlock | noSuper | importName | unknownFilter | includeDepth | runtimeError
  | templateNotFound
  deriving DecidableEq, Inhabited, Repr

namespace ErrorCode

/-- The code as it is printed. -/
def text : ErrorCode → String
  | unknownNode => "K-CMP-001"
  | invalidType => "K-CMP-002"
  | invalidDictKey => "K-CMP-003"
  | multipleExtends => "K-CMP-004"
  | rootWithFrame => "K-CMP-005"
  | invalidOperator => "K-CMP-006"
  | compilerReused => "K-CMP-007"
  | unknownBlock => "K-RUN-001"
  | noSuper => "K-RUN-002"
  | importName => "K-RUN-003"
  | unknownFilter => "K-RUN-004"
  | includeDepth => "K-RUN-005"
  | runtimeError => "K-RUN-006"
  | templateNotFound => "K-TPL-001"

/-- The symbolic name of a code. -/
def name : ErrorCode → String
  | unknownNode => "UNKNOWN_NODE"
  | invalidType => "INVALID_TYPE"
  | invalidDictKey => "INVALID_DICT_KEY"
  | multipleExtends => "MULTIPLE_EXTENDS"
  | rootWithFrame => "ROOT_WITH_FRAME"
  | invalidOperator => "INVALID_OPERATOR"
  | compilerReused => "COMPILER_REUSED"
  | unknownBlock => "UNKNOWN_BLOCK"
  | noSuper => "NO_SUPER"
  | importName => "IMPORT_NAME"
  | unknownFilter => "UNKNOWN_FILTER"
  | includeDepth => "INCLUDE_DEPTH"
  | runtimeError => "RUNTIME_ERROR"
  | templateNotFound => "TEMPLATE_NOT_FOUND"

/-- All codes. -/
def all : List ErrorCode :=
  [unknownNode, invalidType, invalidDictKey, multipleExtends, rootWithFrame, invalidOperator,
    compilerReused, unknownBlock, noSuper, importName, unknownFilter, includeDepth, runtimeError,
    templateNotFound]

/-- The code with a symbolic name. -/
def ofName? (s : String) : Option ErrorCode :=
  all.find? fun c => c.name == s

/-- The stage at which a code arises. -/
def category : ErrorCode → String
  | unknownNode | invalidType | invalidDictKey | multipleExtends | rootWithFrame
  | invalidOperator | compilerReused => "compiler"
  | unknownBlock | noSuper | importName | unknownFilter | includeDepth | runtimeError => "runtime"
  | templateNotFound => "template"

end ErrorCode

/-- The renders that led to a point: template names with their depths, outermost first. -/
abbrev TemplateStack := List (String × Int)

/-- The lines that show a template stack; nothing for an empty one. -/
def TemplateStack.text : TemplateStack → String
  | [] => ""
  | stack => "\n".intercalate
      ("Template stack:" :: stack.map fun e => s!"  • {e.1} (depth {e.2})")

/-- A value quoted in a report: its name, its printed form and the name of its type. -/
structure QuotedValue where
  name : String
  shown : String
  typeName : String
  deriving Inhabited, Repr

namespace QuotedValue

/-- The line that shows a quoted value. A printed form of more than 80 characters is cut. -/
def line (v : QuotedValue) : String :=
  let shown :=
    if v.shown.length > 80 then String.ofList (v.shown.toList.take 77) ++ "..." else v.shown
  s!"    {v.name} = {shown} ({v.typeName})"

end QuotedValue

/-- A failure to compile a template: the message, its code, and what is known of the place. -/
structure CompileReport where
  message : String
  code : ErrorCode := .unknownNode
  line? : Option Int := none
  column? : Option Int := none
  template? : Option String := none
  deriving Inhabited, Repr

namespace CompileReport

/-- The place, as far as it is known: template, line and column. A column without a line is not
shown. -/
def location (r : CompileReport) : String :=
  let base := match r.template? with
    | some t => if t.isEmpty then "<template>" else t
    | none => "<template>"
  match r.line?, r.column? with
  | some line, some column => s!"{base}:{line}:{column}"
  | some line, none => s!"{base}:{line}"
  | none, _ => base

/-- The full text. -/
def text (r : CompileReport) : String :=
  match r.line?, r.template? with
  | none, none => r.message
  | _, _ => s!"{r.message}\n  --> {r.location}"

end CompileReport

/-- A failure to render a template: the message, its code, the values concerned, the template, the
renders around it and a suggestion. -/
structure RenderReport where
  message : String
  code : ErrorCode := .runtimeError
  values : List QuotedValue := []
  template? : Option String := none
  suggestion? : Option String := none
  stack : TemplateStack := []
  deriving Inhabited, Repr

namespace RenderReport

/-- The full text, line by line; parts that are missing or empty are left out. -/
def text (r : RenderReport) : String :=
  let location := match r.template? with
    | some t => if t.isEmpty then [] else [s!"  Location: {t}"]
    | none => []
  let stack := if r.stack.isEmpty then [] else [TemplateStack.text r.stack]
  let values := if r.values.isEmpty then [] else "  Values:" :: r.values.map QuotedValue.line
  let suggestion := match r.suggestion? with
    | some s => if s.isEmpty then [] else [s!"\n  Suggestion: {s}"]
    | none => []
  "\n".intercalate
    (s!"Runtime Error: {r.message}" :: location ++ stack ++ values ++ suggestion)

end RenderReport

/-- A failure that concerns a template. -/
inductive Report where
  | plain (message : String)
  | notFound (message : String)
  | compile (r : CompileReport)
  | render (r : RenderReport)
  deriving Inhabited, Repr

namespace Report

/-- The code of a report. -/
def code? : Report → Option ErrorCode
  | plain _ => none
  | notFound _ => some .templateNotFound
  | compile r => some r.code
  | render r => some r.code

/-- The full text of a report. -/
def text : Report → String
  | plain message | notFound message => message
  | compile r => r.text
  | render r => r.text

/-- Whether a text occurs in another one. -/
def occursIn (needle : List Char) : List Char → Bool
  | [] => needle.isEmpty
  | c :: rest => needle.isPrefixOf (c :: rest) || occursIn needle rest

/-- The text of a report behind its code, which is left out when the text already contains it. -/
def compact (r : Report) : String :=
  match r.code? with
  | none => r.text
  | some code =>
    if occursIn code.text.toList r.text.toList then r.text else s!"{code.text}: {r.text}"

/-- The name of a report's class. -/
def className : Report → String
  | plain _ => "TemplateError"
  | notFound _ => "TemplateNotFoundError"
  | compile _ => "TemplateCompileError"
  | render _ => "TemplateRuntimeError"

end Report

end Stencil
