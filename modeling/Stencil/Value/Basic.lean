import Stencil.Decimal.Complex
import Stencil.Script.Basic
import Stencil.Store

/-!
# Values

What a template computes with. Numbers, texts and tuples are values in their own right and carry the
origin of the object that holds them. Lists, dictionaries and the other objects that can change or
that have an identity live in stores, and a value refers to them.
-/

namespace Stencil

/-- The views of a dictionary. -/
inductive ViewKind where
  | keys | values | items
  deriving DecidableEq, Inhabited, Repr

/-- The callables that an application can put into a render context. `blockProbe` stands for a block
and prints its tag, and with a tag that ends in `^` also what the block it overrides prints. -/
inductive HostFn where
  | args | concat | ident | none | log | count | state
  | boom | boomEmpty | boomKey | boomTemplate
  | macroLike | macroOne
  | blockProbe (name tag : String)
  deriving DecidableEq, Inhabited, Repr

/-- The filters that every environment starts with. -/
inductive BuiltinFilter where
  | capitalize | default | first | int | join | last | length | lower | replace | reverse
  | string | title | trim | upper
  deriving DecidableEq, Inhabited, Repr

/-- Kinds of methods: `builtin` for those that types of values have, `slot` for those behind
operators, `defined` for those that the library defines. A method taken from a type and not from a
value is `unbound` or an `unboundSlot`. -/
inductive MethodKind where
  | builtin | slot | defined | unbound | unboundSlot
  deriving DecidableEq, Inhabited, Repr

/-- Values of a running template. The origin `o` of numbers, texts, tuples, generators and callables
tells objects of equal content apart. A `cursor` gives its elements once, and a `generator` the
texts of the elements of something, also once; `numbered` pairs elements with their positions. -/
inductive Value where
  | none
  | bool (b : Bool)
  | int {o : Origin} (n : Int)
  | float {o : Origin} (x : Float)
  | complex {o : Origin} (z : Complex)
  | str {o : Origin} (s : String)
  | tuple {o : Origin} (items : List Value)
  | list (r : Ref)
  | dict (r : Ref)
  | cursor (r : Ref)
  | generator {o : Origin} (r : Ref)
  | view (kind : ViewKind) (r : Ref)
  | range (n : Nat)
  | numbered (source : Value)
  | record (r : Ref)
  | host {o : Origin} (f : HostFn)
  | filter (f : BuiltinFilter)
  | function (r : Ref)
  | macroObject (r : Ref)
  | method (kind : MethodKind) (self : Value) (name : String)
  | bound (self : Value) (attr : Script.Attr)
  | typeObject (name : String)
  | typeAlias (name : String) (argument : Value)
  | environment
  | template (r : Ref)
  | unit (r : Ref)
  | blockMap (r : Ref)
  deriving Inhabited

namespace Value

/-- A text that exists once. -/
def ofText (s : String) : Value :=
  str (o := .shared) s

/-- A whole number that exists once. -/
def ofInt (n : Int) : Value :=
  int (o := .shared) n

/-- A tuple that exists once for its items. -/
def ofItems (items : List Value) : Value :=
  tuple (o := .shared) items

/-- A text, or nothing. -/
def ofText? (s? : Option String) : Value :=
  (s?.map ofText).getD none

/-- The value of a constant. -/
def ofConstant : Constant → Value
  | .null => none
  | .bool b => bool b
  | .int n => ofInt n
  | .float x origin => float (o := origin) x
  | .str s => ofText s

/-- The constant that a value is. -/
def constant? : Value → Option Constant
  | none => some .null
  | bool b => some (.bool b)
  | int n => some (.int n)
  | float (o := o) x => some (.float x o)
  | str s => some (.str s)
  | _ => Option.none

/-- Whether all values of this content are one object: small whole numbers, texts of at most one
character of the first 256, and the empty tuple. -/
def isUnique : Value → Bool
  | int n => -5 ≤ n && n ≤ 256
  | str s => s.utf8ByteSize ≤ 2 && s.toList.length ≤ 1 && s.toList.all fun c => c.toNat < 256
  | tuple items => items.isEmpty
  | _ => false

/-- The content of a value in an object of the given origin. -/
def withOrigin (origin : Origin) : Value → Value
  | int n => int (o := origin) n
  | float x => float (o := origin) x
  | complex z => complex (o := origin) z
  | str s => str (o := origin) s
  | tuple items => tuple (o := origin) items
  | generator r => generator (o := origin) r
  | host f => host (o := origin) f
  | v => v

/-- The origin of a value that has one. -/
def origin : Value → Origin
  | int (o := o) _ | float (o := o) _ | complex (o := o) _ | str (o := o) _ | tuple (o := o) _
  | generator (o := o) _ | host (o := o) _ => o
  | _ => .shared

/-- The result `v` of an operation on the constants `a` and `b`. It is a constant itself: whenever
the operation is met again, it gives the same object. -/
def constantResult (a b v : Value) : Value :=
  match v with
  | float x => float (o := .joined a.origin b.origin) x
  | v => v.withOrigin .shared

/-- The name of a value's type. -/
def typeName : Value → String
  | none => "NoneType"
  | bool _ => "bool"
  | int _ => "int"
  | float _ => "float"
  | complex _ => "complex"
  | str _ => "str"
  | tuple _ => "tuple"
  | list _ => "list"
  | dict _ => "dict"
  | cursor _ => "list_iterator"
  | generator _ => "generator"
  | view .keys _ => "dict_keys"
  | view .values _ => "dict_values"
  | view .items _ => "dict_items"
  | range _ => "range"
  | numbered _ => "enumerate"
  | record _ => "Obj"
  | host .macroLike => "MacroLike"
  | host .macroOne => "MacroOne"
  | host _ => "Fn"
  | filter _ | function _ => "function"
  | typeObject _ => "type"
  | macroObject _ => "MacroWrapper"
  | method .builtin _ _ => "builtin_function_or_method"
  | method .slot _ _ => "method-wrapper"
  | method .unbound _ _ => "method_descriptor"
  | method .unboundSlot _ _ => "wrapper_descriptor"
  | method .defined _ _ | bound .. => "method"
  | typeAlias .. => "GenericAlias"
  | environment => "Environment"
  | template _ => "Template"
  | unit _ => "CompiledUnit"
  | blockMap _ => "mappingproxy"

end Value

namespace HostFn

/-- The name of a callable. -/
def name : HostFn → String
  | args => "args"
  | concat => "concat"
  | ident => "ident"
  | none => "none"
  | log => "log"
  | count => "count"
  | state => "state"
  | boom => "boom"
  | boomEmpty => "boom_empty"
  | boomKey => "boom_key"
  | boomTemplate => "boom_tpl"
  | macroLike => "macro_like"
  | macroOne => "macro_one"
  | blockProbe _ tag => tag

/-- The callables that have a name of their own. -/
def all : List HostFn :=
  [args, concat, ident, none, log, count, state, boom, boomEmpty, boomKey, boomTemplate, macroLike,
    macroOne]

/-- The callable with a name. -/
def ofName? (s : String) : Option HostFn :=
  all.find? fun f => f.name == s

end HostFn

namespace BuiltinFilter

/-- The name of a filter. -/
def name : BuiltinFilter → String
  | capitalize => "capitalize"
  | default => "default"
  | first => "first"
  | int => "int"
  | join => "join"
  | last => "last"
  | length => "length"
  | lower => "lower"
  | replace => "replace"
  | reverse => "reverse"
  | string => "string"
  | title => "title"
  | trim => "trim"
  | upper => "upper"

/-- The filters in the order of the filter table. -/
def all : List BuiltinFilter :=
  [capitalize, default, first, int, join, last, length, lower, replace, reverse, string, title,
    trim, upper]

end BuiltinFilter

end Stencil
