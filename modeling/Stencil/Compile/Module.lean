import Stencil.Compile.Stmt
import Stencil.Node.Walk
import Stencil.Script.Check

/-!
# Compiling a template

A template compiles to a root function and one function for each block defined anywhere in the tree.
When a block is defined more than once, the last definition counts, in the place of the first.
A `Compiler` serves one compilation and then remembers how far it came.
-/

namespace Stencil.Compile

open Script (Ident Stmt)

/-- The root function: it outputs the root's statements, or hands over to the parent template once
one is known. -/
def rootFunction (items : List Node) : Gen Script.Function := do
  let (body, _) ← stmts ⟨true, .output⟩ {} items
  let delegate : List Stmt :=
    if (← get).child then
      [.branch (.compare (.name .parentTemplate) [(.isNot, .const .null)])
        [.ret (.method (.name .parentTemplate) .rootRenderFunc Script.Expr.entryArgs)] []]
    else
      []
  return {
    name := .root
    params := Script.entryParams
    body := [.assign .output (.list []), .assign .parentTemplate (.const .null)] ++ body ++
      delegate ++ [.ret (.joined .output)] }

/-- The function of a block. Its body starts from a scope in which only `super` is bound. -/
def blockFunction (name : Node.Content) (body : Node) : Gen Script.Function := do
  let scope : Scope Ident := Scope.set {} "super" (.localName "super")
  let (body, _) ← stmt ⟨false, .output⟩ scope body
  return {
    name := .blockName name.text
    params := Script.entryParams
    body := [.assign .output (.list []),
        .assign (.localName "super")
          (.method (.name .context) .getSuper
            [.name .env, .ofContent name, .name (.blockName name.text), .name .runtime])] ++
      body ++ [.ret (.joined .output)] }

/-- Blocks by name: names are equal when their values are. -/
abbrev BlockTable := List (Node.Content × Node)

/-- Enter a block. A name that is already there keeps its place and gets the new body. -/
def enterBlock (name : Node.Content) (body : Node) : BlockTable → BlockTable
  | [] => [(name, body)]
  | (known, old) :: rest =>
    if known.equal name then (known, body) :: rest
    else (known, old) :: enterBlock name body rest

/-- The blocks of a tree by name, in order of first occurrence, each with its last body. -/
def blockTable (n : Node) : Gen BlockTable :=
  n.blocks.foldlM (fun table (name, body) => do
    let name ← nameOf name
    demandKey name
    return enterBlock name body table) []

/-- The functions of the given blocks, in order. -/
def blockFunctions : BlockTable → Gen (List Script.Function)
  | [] => return []
  | (name, body) :: rest => return (← blockFunction name body) :: (← blockFunctions rest)

/-- The module of a template, with the names of its blocks. -/
def templateModule : Node → Gen (Script.Module × List Node.Content)
  | .root pos items => do
    let root ← rootFunction items
    let table ← blockTable (.root pos items)
    let blocks ← blockFunctions table
    return (⟨root :: blocks⟩, table.map (·.1))
  | n => reject (.unknownNode n.kindName) n

end Stencil.Compile

namespace Stencil

/-- A compilation in progress: whether it has begun, how far it came, and the blocks it compiled. -/
structure Compiler where
  used : Bool := false
  progress : Compile.Progress := {}
  blockNames : List Node.Content := []
  deriving Inhabited

namespace Compiler

/-- Hand out a temporary. -/
def temporary (c : Compiler) : Script.Ident × Compiler :=
  let temps := c.progress.temps + 1
  (.temp temps, { c with progress := { c.progress with temps } })

/-- Compile a template to a module. A compiler serves once, and only a tree without a surrounding
frame has a module. -/
def compileModule (c : Compiler) (tree : Node) (framed : Bool) :
    Except CompileError Script.Module × Compiler :=
  if c.used then
    (.error (.violation .reused none), c)
  else
    let c := { c with used := true }
    match tree with
    | .root pos _ =>
      if framed then
        (.error (.violation .rootWithFrame (some pos)), c)
      else
        match (Compile.templateModule tree).run.run c.progress with
        | (.error e, progress) => (.error e, { c with progress })
        | (.ok (m, blockNames), progress) => (.ok m, { c with progress, blockNames })
    | n => (.error (.violation (.unknownNode n.kindName) (some n.position)), c)

end Compiler

end Stencil
