import Stencil.Engine.Load
import Stencil.Script.Run

/-!
# Renders

A render runs a template's root or one of its blocks in a new context and in a render state of its
own; how the entry point is called is a parameter. A fault that is no report is turned into one by
the innermost render around it.
-/

namespace Stencil

namespace Eval

/-- Run a computation in another render state; afterwards the old one holds again, whatever
happened. -/
def withState {α : Type} (state? : Option RenderState) (x : Eval α) : Eval α :=
  ExceptT.mk fun w =>
    let (result, w') := x.run.run { w with state? }
    (result, { w' with state? := w.state? })

/-- Run a computation in the render state of a template: a new one outside of any render, one level
deeper inside of one, as long as there is room. -/
def inRender {α : Type} (template? : Option String) (x : Eval α) : Eval α := do
  let w ← get
  match w.state? with
  | none => withState (some { template?, maxDepth := w.env.maxDepth }) x
  | some s =>
    match s.depthReport? template? with
    | some r => failWith r
    | none => withState (some (s.child template?)) x

/-- Turn a fault that is no report into one: its wording, or the name of its class if it has none,
with the template and the renders around it. A fault met while looking for the wording takes the
place of the first one and is left to the next render. -/
def reporting {α : Type} (template? : Option String) (x : Eval α) : Eval α :=
  recover (fun f => f.family ≠ .template) x fun f => do
    let stack := ((← get).state?.map (·.stack)).getD []
    let wording ← ofExcept f.wording
    let message := if wording.isEmpty then f.className else wording
    failWith (.render { message, template?, stack })

/-- The environment of a template must still be there when it is rendered. -/
def checkAlive (template? : Option String) : Operation Unit := do
  if !(← heap).env.alive then
    fail (.environmentGone (RenderState.nameText template?))

/-- A variable given by an entry of a dictionary, if its key is a text. -/
def binding? (entry : Value × Value) : Option (String × Value) :=
  match entry.1 with
  | .str name => some (name, entry.2)
  | _ => none

/-- The variables given by a dictionary object. -/
def variablesOf (w : Heap) : Value → List (String × Value)
  | .dict r => (w.dictEntries r).filterMap binding?
  | _ => []

end Eval

namespace Engine

open Eval

/-- Call an entry point of a template. -/
def enter (call : Call) (entry env : Value) (context frame : Ref) : Eval Value :=
  call.enter entry env context frame

/-- Run an entry point in the render state of its template. -/
def runEntry (call : Call) (t : Template) (entry : Value) (context frame : Ref) : Eval Value :=
  inRender t.name? (reporting t.name? (enter call entry .environment context frame))

/-- The context of a render: the globals of the environment under the given variables, and the
template's own blocks. -/
def renderContext (t : Template) (vars : List (String × Value)) : Eval Ref := do
  let globals := (← get).env.globals
  newContext (.ofBlocks (globals.insertAll vars) t.blocks.entries)

/-- Render a template with variables, inside a frame if one is given. -/
def render (call : Call) (r : Ref) (vars : List (String × Value)) (frame? : Option Ref) :
    Eval Value := do
  let t := (← get).template r
  checkAlive t.name?
  let context ← renderContext t vars
  let frame ← newFrame { parent := frame? }
  runEntry call t t.root context frame

/-- Render one block of a template with variables. -/
def renderBlock (call : Call) (r : Ref) (block : String) (vars : List (String × Value)) :
    Eval Value := do
  let t := (← get).template r
  match t.blocks.find? block with
  | none => failWith (.noSuchBlock t.name? block t.blocks.keys)
  | some entry =>
    checkAlive t.name?
    let context ← renderContext t vars
    let frame ← newFrame {}
    runEntry call t entry context frame

/-- Run a template for the names it publishes. -/
def getModule (call : Call) (r : Ref) : Eval Value := do
  let t := (← get).template r
  checkAlive t.name?
  let context ← renderContext t []
  let frame ← newFrame {}
  let _ ← runEntry call t t.root context frame
  exportsDict context

/-- What running one entry point of a unit gives: the keys of the unit, the result, and the context
it was run in. -/
structure DetachedRun where
  keys : List String
  result : Value
  context : Ref

/-- Compile a tree and run an entry point with the given variables, outside of any environment and
render state. -/
def runDetached (call : Call) (tree : Node) (name? : Option String)
    (vars : List (String × Value)) (key : String) : Eval DetachedRun := do
  let unit ← loadUnit tree name? none
  let context ← newContext (.ofBlocks (Table.ofList vars) unit.blocks.entries)
  let entry ← ofExcept (unit.get key)
  let result ← enter call entry .none context (← newFrame {})
  return { keys := unit.entries.keys, result, context }

end Engine

end Stencil
