import Stencil.Text.Pieces
import Stencil.Text.Similar
import Stencil.Value.Sequence

/-!
# Finding templates

`Loader.source` finds the tree of a template. A name that a dictionary of templates does not have is
answered with the most similar one, or else with some that it has. `Loader.names` lists what a
loader can find. A missing loader can do neither, but the beginning it belongs to counts as unknown.
-/

namespace Stencil

namespace Loader

open Eval

/-- The report of a name that a dictionary of templates does not have. -/
def missText (name : String) (available : List String) : String :=
  let start := s!"Template '{name}' not found"
  match Similar.closest? name available with
  | some other => s!"{start}. Did you mean '{other}'?"
  | none =>
    if available.isEmpty then start
    else
      let some_ := ", ".intercalate (available.take 10)
      let more := if available.length > 10 then s!" ... ({available.length} total)" else ""
      s!"{start}. Available: {some_}{more}"

/-- What a value names among the given pairs: only texts name anything, and what can change cannot
be a name. -/
def named? {α : Type} (pairs : List (String × α)) (name : Value) : Operation (Option α) :=
  match Heap.unhashable? name with
  | some t => fail (.unhashable t)
  | none =>
    match name with
    | .str s => return Table.findIn s pairs
    | _ => return none

/-- The names of pairs in alphabetical order. -/
def sortedNames {α : Type} (pairs : List (String × α)) : List String :=
  Text.sorted (pairs.map (·.1))

/-- The tree and the file name that a loading function has found. -/
def unpack : Found → Operation (Node × Option String)
  | .tree (.root pos items) => return (.root pos items, some "<function>")
  | .tree n => fail (.cannotUnpack n.kindName)
  | .treeAndFile n file? => return (n, file?)

/-- The beginning of a name up to a delimiter, and the rest behind it. -/
def splitName (delimiter : String) (name : Value) : Operation (Value × String) := do
  if ← within (.ofText delimiter) name then
    match name with
    | .str s =>
      if delimiter.isEmpty then
        fail .emptySeparator
      match Text.breakOn? delimiter.toList s.toList with
      | some (start, rest) => return (.ofText (String.ofList start), String.ofList rest)
      | none => return (name, "")
    | _ => fail (.missingAttribute name.typeName "split")
  else
    return (name, "")

/-- The report of a name whose beginning stands for no loader. -/
def noLoaderText (name start : String) (available : List String) : String :=
  s!"Template '{name}': no loader for prefix '{start}'. Available prefixes: " ++
    ", ".intercalate available

/-- Whether a fault says that a template was not found. -/
def isMiss : Fault → Bool
  | .report (.notFound _) => true
  | _ => false

mutual

/-- The tree of the template with a name, and the name of its file. -/
def source (name : Value) : Loader → Operation (Node × Option String)
  | .absent => fail (.missingAttribute (typeName .absent) "get_source")
  | .dict templates => do
    match ← named? templates name with
    | some tree => return (tree, none)
    | none =>
      let text ← textOf name
      let shown ← shownOf name
      note s!"DictLoader miss: {shown}"
      failWith (.notFound (missText text (sortedNames templates)))
  | .function templates => do
    match ← named? templates name with
    | some found => unpack found
    | none =>
      let shown ← shownOf name
      note s!"FunctionLoader miss: {shown}"
      let text ← textOf name
      failWith (.notFound s!"Template '{text}' not found")
  | .choice loaders => firstSource name loaders.length loaders
  | .byPrefix loaders delimiter => do
    let (start, rest) ← splitName delimiter name
    match Heap.unhashable? start with
    | some t => fail (.unhashable t)
    | none =>
      match start with
      | .str s => prefixSource name s rest (sortedNames loaders) loaders
      | _ =>
        failWith (.notFound
          (noLoaderText (← textOf name) (← textOf start) (sortedNames loaders)))

/-- What the first of the loaders finds that finds anything. -/
def firstSource (name : Value) (count : Nat) : List Loader → Operation (Node × Option String)
  | [] => do
    let text ← textOf name
    failWith (.notFound s!"Template '{text}' not found in any of {count} loaders")
  | l :: rest =>
    recover isMiss (source name l) fun _ => firstSource name count rest

/-- What the loader for a beginning finds under the rest of a name. -/
def prefixSource (name : Value) (start rest : String) (available : List String) :
    List (String × Loader) → Operation (Node × Option String)
  | [] => do failWith (.notFound (noLoaderText (← textOf name) start available))
  | (_, .absent) :: more => prefixSource name start rest available more
  | (s, l) :: more =>
    if s = start then source (.ofText rest) l else prefixSource name start rest available more

end

mutual

/-- The names of the templates that a loader can list, in alphabetical order. -/
def names : Loader → Except Fault (List String)
  | .absent => .error (.missingAttribute (typeName .absent) "list_templates")
  | .dict templates => .ok (sortedNames templates)
  | .function _ => .ok []
  | .choice loaders => do return Text.sorted (← namesOfAll loaders).eraseDups
  | .byPrefix loaders delimiter => do return Text.sorted (← namesBehind delimiter loaders)

/-- The names that some loaders can list. -/
def namesOfAll : List Loader → Except Fault (List String)
  | [] => .ok []
  | l :: rest => do return (← l.names) ++ (← namesOfAll rest)

/-- The names that loaders can list, each behind its beginning. -/
def namesBehind (delimiter : String) : List (String × Loader) → Except Fault (List String)
  | [] => .ok []
  | (start, l) :: rest => do
    let own := (← l.names).map fun name => start ++ delimiter ++ name
    return own ++ (← namesBehind delimiter rest)

end

end Loader

/-- What the first item of a tree carries as its value; nothing for a tree without items. -/
def Node.leading (n : Node) : Except Fault (Option Node.Content) :=
  match n.items? with
  | none => .error (.missingAttribute n.kindName "children")
  | some [] => .ok none
  | some (first :: _) =>
    match first.content? with
    | some c => .ok (some c)
    | none => .error (.missingAttribute first.kindName "value")

end Stencil
