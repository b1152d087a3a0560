import Stencil.Node.Basic
import Stencil.Table

/-!
# Loaders

A loader finds template trees by name. Loaders can be combined: tried one after the other, or chosen
by the beginning of the name.
-/

namespace Stencil

/-- What a loading function has for a name: a tree alone, or a tree with the name of its file. -/
inductive Found where
  | tree (root : Node)
  | treeAndFile (root : Node) (file? : Option String)
  deriving Inhabited

/-- Ways to find a template. Names and beginnings of names are bound at most once. `absent` stands
where a loader is missing. -/
inductive Loader where
  | absent
  | dict (templates : List (String × Node))
  | function (templates : List (String × Found))
  | choice (loaders : List Loader)
  | byPrefix (loaders : List (String × Loader)) (delimiter : String)
  deriving Inhabited

namespace Loader

/-- The loader of the given templates; of two with one name, the later one counts. -/
def ofTemplates (templates : List (String × Node)) : Loader :=
  dict (Table.ofList templates).entries

/-- The loader that asks a loading function, given by what it finds. -/
def ofFunction (templates : List (String × Found)) : Loader :=
  function (Table.ofList templates).entries

/-- The delimiter behind the beginning of a name, unless another one is chosen. -/
def defaultDelimiter : String := "/"

/-- The loader that picks another one by the beginning of a name. -/
def ofPrefixes (loaders : List (String × Loader)) (delimiter : String) : Loader :=
  byPrefix (Table.ofList loaders).entries delimiter

/-- The name of a loader's type. -/
def typeName : Loader → String
  | absent => "NoneType"
  | dict _ => "DictLoader"
  | function _ => "FunctionLoader"
  | choice _ => "ChoiceLoader"
  | byPrefix .. => "PrefixLoader"

end Loader

end Stencil
