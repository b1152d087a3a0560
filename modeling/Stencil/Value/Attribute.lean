import Stencil.Value.Operator

/-!
# Attributes

What a template reaches behind a dot besides entries and elements: the methods of built-in types,
the fields of records, and the parts of numbers, macros, templates and types. Each type has methods
of its own and those that every type has.
-/

namespace Stencil

/-- The methods of a type: those bound to a value, those behind operators, and those bound to the
type itself. -/
structure Members where
  methods : List String := []
  slots : List String := []
  shared : List String := []

namespace Members

/-- The methods that every type has. -/
def common : Members where
  methods := ["__dir__", "__format__", "__getstate__", "__reduce__", "__reduce_ex__", "__sizeof__"]
  slots := ["__delattr__", "__eq__", "__ge__", "__getattribute__", "__gt__", "__init__", "__le__",
    "__lt__", "__ne__", "__repr__", "__setattr__", "__str__"]
  shared := ["__init_subclass__", "__new__", "__subclasshook__"]

/-- The methods of texts. -/
def text : Members where
  methods := ["capitalize", "casefold", "center", "count", "encode", "endswith", "expandtabs",
    "find", "format", "format_map", "index", "isalnum", "isalpha", "isascii", "isdecimal",
    "isdigit", "isidentifier", "islower", "isnumeric", "isprintable", "isspace", "istitle",
    "isupper", "join", "ljust", "lower", "lstrip", "partition", "removeprefix", "removesuffix",
    "replace", "rfind", "rindex", "rjust", "rpartition", "rsplit", "rstrip", "split",
    "splitlines", "startswith", "strip", "swapcase", "title", "translate", "upper", "zfill",
    "__getnewargs__"]
  slots := ["__add__", "__contains__", "__getitem__", "__iter__", "__len__", "__mod__", "__mul__",
    "__rmod__", "__rmul__", "__hash__"]
  shared := ["maketrans"]

/-- The methods of lists. -/
def list : Members where
  methods := ["append", "clear", "copy", "count", "extend", "index", "insert", "pop", "remove",
    "reverse", "sort", "__getitem__", "__reversed__"]
  slots := ["__add__", "__contains__", "__delitem__", "__iadd__", "__imul__", "__iter__",
    "__len__", "__mul__", "__rmul__", "__setitem__"]
  shared := ["__class_getitem__"]

/-- The methods of dictionaries. -/
def dict : Members where
  methods := ["clear", "copy", "get", "items", "keys", "pop", "popitem", "setdefault", "update",
    "values", "__contains__", "__getitem__", "__reversed__"]
  slots := ["__delitem__", "__ior__", "__iter__", "__len__", "__or__", "__ror__", "__setitem__"]
  shared := ["fromkeys", "__class_getitem__"]

/-- The methods of tuples. -/
def tuple : Members where
  methods := ["count", "index", "__getnewargs__"]
  slots := ["__add__", "__contains__", "__getitem__", "__iter__", "__len__", "__mul__",
    "__rmul__", "__hash__"]
  shared := ["__class_getitem__"]

/-- The methods of whole numbers and truth values. -/
def int : Members where
  methods := ["as_integer_ratio", "bit_count", "bit_length", "conjugate", "to_bytes", "__ceil__",
    "__floor__", "__getnewargs__", "__round__", "__trunc__"]
  slots := ["__abs__", "__add__", "__and__", "__bool__", "__divmod__", "__float__",
    "__floordiv__", "__index__", "__int__", "__invert__", "__lshift__", "__mod__", "__mul__",
    "__neg__", "__or__", "__pos__", "__pow__", "__radd__", "__rand__", "__rdivmod__",
    "__rfloordiv__", "__rlshift__", "__rmod__", "__rmul__", "__ror__", "__rpow__", "__rrshift__",
    "__rshift__", "__rsub__", "__rtruediv__", "__rxor__", "__sub__", "__truediv__", "__xor__",
    "__hash__"]
  shared := ["from_bytes"]

/-- The methods of floating-point numbers. -/
def float : Members where
  methods := ["as_integer_ratio", "conjugate", "hex", "is_integer", "__ceil__", "__floor__",
    "__getnewargs__", "__round__", "__trunc__"]
  slots := ["__abs__", "__add__", "__bool__", "__divmod__", "__float__", "__floordiv__",
    "__int__", "__mod__", "__mul__", "__neg__", "__pos__", "__pow__", "__radd__", "__rdivmod__",
    "__rfloordiv__", "__rmod__", "__rmul__", "__rpow__", "__rsub__", "__rtruediv__", "__sub__",
    "__truediv__", "__hash__"]
  shared := ["fromhex", "__getformat__"]

/-- The methods of complex numbers. -/
def complex : Members where
  methods := ["conjugate", "__complex__", "__getnewargs__"]
  slots := ["__abs__", "__add__", "__bool__", "__mul__", "__neg__", "__pos__", "__pow__",
    "__radd__", "__rmul__", "__rpow__", "__rsub__", "__rtruediv__", "__sub__", "__truediv__",
    "__hash__"]

/-- The methods of the read-only view of a mapping. -/
def mappingView : Members where
  methods := ["copy", "get", "items", "keys", "values", "__reversed__"]
  slots := ["__contains__", "__getitem__", "__ior__", "__iter__", "__len__", "__or__", "__ror__"]
  shared := ["__class_getitem__"]

/-- The methods of one-shot iterators. -/
def cursor : Members where
  methods := ["__length_hint__", "__setstate__"]
  slots := ["__iter__", "__next__", "__hash__"]

/-- The methods of generators. -/
def generator : Members where
  methods := ["close", "send", "throw"]
  slots := ["__del__", "__iter__", "__next__", "__hash__"]

/-- The methods of a type by its name. -/
def ofType : String → Members
  | "str" => text
  | "list" => list
  | "dict" => dict
  | "tuple" => tuple
  | "int" | "bool" => int
  | "float" => float
  | "complex" => complex
  | "mappingproxy" => mappingView
  | "list_iterator" => cursor
  | "generator" => generator
  | _ => {}

/-- The method of a value under a name. -/
def find? (m : Members) (self : Value) (name : String) : Option Value :=
  if m.shared.contains name then some (.method .builtin (.typeObject self.typeName) name)
  else if m.methods.contains name then some (.method .builtin self name)
  else if m.slots.contains name then some (.method .slot self name)
  else none

/-- The method under a name, taken from the type itself. -/
def findInType? (m : Members) (type : Value) (name : String) : Option Value :=
  if m.shared.contains name then some (.method .builtin type name)
  else if m.methods.contains name then some (.method .unbound type name)
  else if m.slots.contains name then some (.method .unboundSlot type name)
  else none

end Members

namespace Heap

/-- The built-in type that a built-in type extends; none for the type of all objects and for types
that are not built in. -/
def baseType? (type : String) : Option String :=
  if type == "bool" then some "int"
  else if ["int", "float", "complex", "str", "list", "tuple", "dict", "NoneType", "type",
      "list_iterator", "generator", "mappingproxy"].contains type then some "object"
  else none

/-- A built-in type and the types that it extends, directly or through others. -/
def typeChain (type : String) : List String :=
  match baseType? type with
  | some base => type :: base :: (baseType? base).toList
  | none => if type == "object" then [type] else []

/-- The attribute of a type under a name. -/
def typeAttribute? (type : String) (name : String) : Option Value :=
  match name with
  | "__base__" => (baseType? type).map .typeObject
  | "__bases__" =>
    if (typeChain type).isEmpty then none
    else some (.ofItems ((baseType? type).toList.map .typeObject))
  | "__mro__" =>
    if (typeChain type).isEmpty then none
    else some (.ofItems ((typeChain type).map .typeObject))
  | "__name__" | "__qualname__" => some (.ofText type)
  | "__module__" => some (.ofText "builtins")
  | "__class__" => some (.typeObject "type")
  | _ =>
    (Members.ofType type).findInType? (.typeObject type) name <|>
      Members.common.findInType? (.typeObject type) name

/-- The part of a macro under a name. -/
def macroAttribute? (m : Macro) : String → Option Value
  | "func" => some m.function
  | "name" => some (.ofConstant m.name)
  | "params" => some (.ofItems (m.params.map fun p => .ofItems [.ofConstant p.1, p.2]))
  | "catch_kwargs" => some m.catchKwargs
  | "catch_varargs" => some m.catchVarargs
  | "caller" => some m.caller
  | "is_macro" => some (.bool true)
  | _ => none

/-- The part of a template under a name. -/
def templateAttribute? (w : Heap) (r : Ref) (name : String) : Option Value :=
  let t := w.template r
  match name with
  | "name" | "_name" => some (.ofText? t.name?)
  | "filename" | "_filename" => some (.ofText? t.file?)
  | "unit" | "_unit" => some (.unit r)
  | "blocks" | "_blocks" => some (.blockMap r)
  | "root_render_func" => some t.root
  | "render" => some (.bound (.template r) .render)
  | "get_module" => some (.bound (.template r) .getModule)
  | "list_blocks" | "render_block" => some (.method .defined (.template r) name)
  | _ => none

/-- The part of a compiled unit under a name. -/
def unitAttribute? (w : Heap) (r : Ref) (name : String) : Option Value :=
  match name with
  | "root" => some (w.template r).root
  | "from_namespace" => some (.method .defined (.typeObject "CompiledUnit") name)
  | "get" | "items" | "keys" | "values" | "__contains__" | "__eq__" | "__getitem__" | "__init__"
  | "__iter__" | "__len__" | "__repr__" => some (.method .defined (.unit r) name)
  | _ => none

/-- The name of the function that a function object is. -/
def functionName? (w : Heap) (r : Ref) : Option String :=
  match w.functions.get? r with
  | some (.closure c) => some c.name
  | some (.superBlock _ _ _ next?) =>
    some (if next?.isSome then "Context.get_super.<locals>.call_super"
      else "Context.get_super.<locals>.no_super")
  | none => none

/-- The last part of a dotted name. -/
def lastPart (name : String) : String :=
  String.ofList ((name.toList.reverse.takeWhile (· ≠ '.')).reverse)

/-- The attributes that the values of a type have besides methods. -/
def ownAttribute? (w : Heap) (v : Value) (name : String) : Option Value :=
  match v with
  | .int _ | .bool _ =>
    match name with
    | "real" | "numerator" =>
      match v with
      | .int _ => some v
      | _ => v.int?.map .ofInt
    | "imag" => some (.ofInt 0)
    | "denominator" => some (.ofInt 1)
    | _ => none
  | .float (o := o) _ =>
    match name with
    | "real" => some v
    | "imag" => some (.float (o := o) (Binary64.zero false))
    | _ => none
  | .complex (o := o) z =>
    match name with
    | "real" => some (.float (o := o) z.re)
    | "imag" => some (.float (o := o) z.im)
    | _ => none
  | .generator _ =>
    match name with
    | "__name__" => some (.ofText "<genexpr>")
    | "__qualname__" => some (.ofText "_filter_join.<locals>.<genexpr>")
    | "gi_running" => some (.bool false)
    | "gi_yieldfrom" => some .none
    | _ => none
  | .record r => ((w.records.get? r).getD {}).find? name
  | .host .macroLike => if name == "is_macro" then some (.bool true) else none
  | .host .macroOne => if name == "is_macro" then some (.ofInt 1) else none
  | .macroObject r => macroAttribute? (w.macroAt r) name
  | .template r => w.templateAttribute? r name
  | .unit r => w.unitAttribute? r name
  | .function r =>
    match name with
    | "__name__" => (w.functionName? r).map fun s => .ofText (lastPart s)
    | "__qualname__" => (w.functionName? r).map .ofText
    | _ => none
  | .method _ self method =>
    match name with
    | "__name__" => some (.ofText method)
    | "__qualname__" => some (.ofText s!"{typeOf self}.{method}")
    | "__self__" => some self
    | _ => none
  | .bound self field =>
    match name with
    | "__name__" => some (.ofText field.text)
    | "__self__" => some self
    | _ => none
  | .typeObject type => typeAttribute? type name
  | .typeAlias type argument =>
    match name with
    | "__origin__" => some (.typeObject type)
    | "__args__" => some (.ofItems [argument])
    | "__class__" => none
    | _ => typeAttribute? type name
  | _ => none

/-- The attribute of a value under a name. -/
def attribute? (w : Heap) (v : Value) (name : String) : Option Value :=
  w.ownAttribute? v name <|>
    match v, name with
    | _, "__class__" => some (.typeObject v.typeName)
    | .record _, _ | .host _, _ => none
    | _, _ => (Members.ofType v.typeName).find? v name <|> Members.common.find? v name

end Heap

end Stencil
