import Stencil.Compile.Module
import Stencil.Loader.Source
import Stencil.Render.Context
import Stencil.Script.Bound

/-!
# Loading templates

A tree becomes a template by compiling it to a module and loading the module: its functions become
objects that see each other by name.
-/

namespace Stencil

/-- A name that is given and not empty, or a stand-in. -/
def properName (names : List (Option String)) : String :=
  (names.findSome? RenderState.properName?).getD "<template>"

namespace Compiler

/-- Compile a template to a module that can be loaded. The name of its file must not contain the
null character. -/
def compile (c : Compiler) (tree : Node) (framed : Bool) (name? file? : Option String) :
    Except Fault Script.Module × Compiler :=
  match c.compileModule tree framed with
  | (.error e, c) => (.error (e.fault name?), c)
  | (.ok m, c) =>
    let file := properName [file?, name?]
    if file.toList.contains (Char.ofNat 0) then
      (.error .nullInFileName, c)
    else
      match m.loadError? with
      | some e => (.error (.badModule e file), c)
      | none => (.ok m, c)

/-- The names of the compiled blocks as texts. -/
def blockTexts (c : Compiler) : List String :=
  c.blockNames.map Node.Content.text

/-- The keys of the unit that a compiler has compiled. -/
def unitKeys (c : Compiler) : List String :=
  (Table.ofList (("root" :: c.blockTexts.map CompiledUnit.blockKey).map fun k => (k, ()))).keys

end Compiler

/-- The function object of a function, defined in the given activation of its module. -/
def Script.Function.closure (f : Script.Function) (r : Ref) : Closure :=
  { name := f.name.text
    params := f.params
    body := f.body
    owned := ownedBy f.params f.body
    outer := some r }

/-- The functions of a module as values, when the first one has the given reference. -/
def functionValues : Ref → List Script.Function → List (Script.Ident × Value)
  | _, [] => []
  | r, f :: rest => (f.name, .function r) :: functionValues (r + 1) rest

namespace Eval

/-- The function objects of a module, by their spelling. They share an activation in which each of
them is bound. -/
def loadModule (m : Script.Module) : Eval (Table String Value) :=
  modifyGet fun w =>
    let values := functionValues w.functions.size m.functions
    (Table.ofList (values.map fun (id, v) => (id.text, v)),
      { w with
        functions := w.functions.append
          (m.functions.map fun f => .closure (f.closure w.activations.size))
        activations := w.activations.push {
          owned := m.functions.map (·.name)
          vars := Table.ofList (values.map fun (id, v) => (id, .value v)) } })

/-- Compile a tree and load it. -/
def loadUnit (tree : Node) (name? file? : Option String) : Eval (CompiledUnit Value) := do
  let (result, c) := ({} : Compiler).compile tree false name? file?
  let m ← ofExcept result
  let unit ← ofExcept (CompiledUnit.ofFunctions (← loadModule m) c.blockTexts)
  let child := if c.progress.child then "True" else "False"
  let names := ", ".intercalate (c.blockNames.map Node.Content.shown)
  note (s!"Compiled {properName [name?]}: {c.progress.temps} temporaries, " ++
    s!"blocks=[{names}], child={child}")
  return unit

/-- Compile a tree to a template object. -/
def loadTemplate (tree : Node) (name? file? : Option String) : Eval Ref := do
  newTemplate { name?, file?, unit := ← loadUnit tree name? file? }

/-- Find a template by name and load it. -/
def getTemplate (name : Value) (eager : Bool) : Eval Ref := do
  match (← get).env.loader? with
  | none =>
    let text ← textOf name
    failWith (.notFound s!"Template '{text}' not found: no loader configured")
  | some loader =>
    let (tree, file?) ← loader.source name
    let shown ← shownOf name
    let file := (file?.map Text.quoted).getD "None"
    let eagerly := if eager then "True" else "False"
    note s!"Resolved template {shown} (filename={file}, eager={eagerly})"
    let name? := match name with
      | .str s => some s
      | _ => none
    loadTemplate tree name? file?

/-- The filter with a name. -/
def getFilter (name : String) : Operation Value := do
  match (← heap).env.filters.find? name with
  | none | some .none => failWith (.unknownFilter name)
  | some f => return f

end Eval

end Stencil
