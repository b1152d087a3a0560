import Stencil.Fault
import Stencil.Table
import Stencil.Text.Pieces
import Stencil.Text.Sorted

/-!
# Compiled units

A compiled unit lists the entry points of a template: `root`, and `block_<name>` for every block.
-/

namespace Stencil

/-- Entry points by key. -/
structure CompiledUnit (β : Type) where
  entries : Table String β := {}
  deriving Inhabited

namespace CompiledUnit

/-- The key of a block's entry point. -/
def blockKey (name : String) : String :=
  "block_" ++ name

/-- The bare name of the block with the given key. -/
def blockName? (key : String) : Option String :=
  if Text.startsWith key "block_" then some (String.ofList (key.toList.drop 6)) else none

variable {β : Type}

/-- The unit of the given entry points, one of which must be the root. -/
def ofEntries (entries : Table String β) : Except Fault (CompiledUnit β) :=
  if entries.contains "root" then .ok ⟨entries⟩ else .error .rootMissing

/-- The entry under a key. -/
def get (u : CompiledUnit β) (key : String) : Except Fault β :=
  match u.entries.find? key with
  | some b => .ok b
  | none => .error (.keyMissing (Text.quoted key))

/-- The unit of the functions named `root` and `b_<name>` among the given functions. -/
def ofFunctions (functions : Table String β) (blocks : List String) :
    Except Fault (CompiledUnit β) := do
  let find (name : String) : Except Fault β :=
    match functions.find? name with
    | some b => .ok b
    | none => .error (.keyMissing (Text.quoted name))
  let root ← find "root"
  let entries ← blocks.mapM fun name => do return (blockKey name, ← find ("b_" ++ name))
  return ⟨Table.ofList (("root", root) :: entries)⟩

/-- The entry points of blocks by the bare names of the blocks. -/
def blocks (u : CompiledUnit β) : Table String β :=
  Table.ofList (u.entries.entries.filterMap fun (key, b) =>
    (blockName? key).map fun name => (name, b))

/-- The printed form of a unit: its keys in alphabetical order. -/
def text (u : CompiledUnit β) : String :=
  s!"<CompiledUnit {Text.sortedList u.entries.keys}>"

end CompiledUnit

end Stencil
