import Stencil.Text.Quoted
import Stencil.Value.Attribute

/-!
# Facts about the library

What an application learns about the library as a whole: its version, that it needs no global lock,
and the public names with the kinds of things they stand for.
-/

namespace Stencil.About

/-- The version of the library. -/
def version : String := "0.1.0"

/-- The public names, in order, with the kind of what they stand for. -/
def publicNames : List (String × String) :=
  [("ChoiceLoader", "type"), ("CompiledUnit", "ABCMeta"), ("DictLoader", "type"),
    ("Environment", "type"), ("ErrorCode", "EnumType"), ("FunctionLoader", "type"),
    ("PrefixLoader", "type"), ("RenderState", "type"), ("Template", "type"),
    ("TemplateCompileError", "type"), ("TemplateError", "type"),
    ("TemplateNotFoundError", "type"), ("TemplateRuntimeError", "type"), ("__version__", "str"),
    ("compile", "function"), ("get_render_state", "function"), ("render_state", "function")]

/-- The parts of the library, which are modules in their own right. -/
def parts : List String :=
  ["compiler", "environment", "nodes", "render_context", "runtime", "template"]

/-- Further names that every module of the library has, with the kind of what they stand for. -/
def moduleNames : List (String × String) :=
  [("__builtins__", "dict"), ("__class__", "type"), ("__getattr__", "function"),
    ("__loader__", "SourceFileLoader"), ("__spec__", "ModuleSpec"), ("annotations", "_Feature")]

/-- The kind of a method that the library has as every object has it. -/
def methodKind? (name : String) : Option String :=
  let m := Members.common
  if (m.methods ++ m.shared).contains name then some "builtin_function_or_method"
  else if ("__hash__" :: m.slots).contains name then some "method-wrapper"
  else none

/-- A fact about the library by its name. -/
def fact (name : String) : Except Fault Datum :=
  match name with
  | "__version__" => .ok (.str version)
  | "_Py_mod_gil" => .ok (.int 0)
  | "__all__" => .ok (.list (publicNames.map fun p => .str p.1))
  | "__name__" | "__package__" => .ok (.str "kiln")
  | "TYPE_CHECKING" => .ok (.bool false)
  | "__annotations__" => .ok (.dict [])
  | _ =>
    if parts.contains name then .ok (.other "module")
    else
      match Table.findIn name (publicNames ++ moduleNames) <|> methodKind? name with
      | some kind => .ok (.other kind)
      | none => .error (.missingModuleAttribute "kiln" (Text.quoted name))

end Stencil.About
