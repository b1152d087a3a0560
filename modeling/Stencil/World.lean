import Stencil.CompiledUnit
import Stencil.Fault
import Stencil.Loader.Basic
import Stencil.Render.State
import Stencil.Script.Cell
import Stencil.Table
import Stencil.Value.Dict

/-!
# The state of a run

A `World` holds everything that running templates share and change. It has layers. An `Operation` on
values changes `Objects` and looks at their `Surroundings`, which together make up a `Heap`; frames
and activations belong to running scripts and are out of its reach. `Eval` is the type of
computations on the whole world, among them all operations. A computation ends with a result or
halts, with a fault or for want of fuel; the changes it made stay either way.
-/

namespace Stencil

/-- A scope of loop variables at run time. -/
structure Frame where
  vars : Table String Value := {}
  parent : Option Ref := none
  deriving Inhabited

/-- The variables, the published names and the block chains of a render. A chain lists the
definitions of a block from the most derived template to the base. -/
structure Context where
  vars : Table String Value := {}
  blocks : Table String (List Value) := {}
  exported : List String := []
  deriving Inhabited

/-- The variables of one call of a script function: the name of the function, the identifiers that
belong to it, their values so far, and the call it is nested in. -/
structure Activation where
  functionName : String := ""
  owned : List Script.Ident
  vars : Table Script.Ident Cell := {}
  outer : Option Ref := none
  deriving Inhabited

/-- A script function with the call it was defined in, and a name for messages. -/
structure Closure where
  name : String
  params : List Script.Ident
  captured : List (Script.Ident × Cell) := []
  body : List Script.Stmt
  owned : List Script.Ident
  outer : Option Ref := none
  deriving Inhabited

/-- Function objects: script functions, and the functions that render the definition which a block
overrides, if there is one. -/
inductive Function where
  | closure (c : Closure)
  | superBlock (env : Value) (context : Ref) (name : Constant) (next? : Option Value)
  deriving Inhabited

/-- A macro: the function that runs its body, and its parameters with their defaults. -/
structure Macro where
  function : Value
  name : Constant
  params : List (Constant × Value)
  catchKwargs : Value := .bool false
  catchVarargs : Value := .bool false
  caller : Value := .bool false
  deriving Inhabited

/-- How far something has been gone through: the elements still to come; the next position in a
list; for a dictionary the next slot, its size at the start and the number of entries still to come;
or a one-shot iterator, which itself knows. -/
inductive Traversal where
  | fixed (rest : List Value)
  | listFrom (r : Ref) (next : Nat)
  | dictFrom (kind : ViewKind) (r : Ref) (slot size left : Nat)
  | cursor (r : Ref)
  deriving Inhabited

/-- A compiled template with its names. -/
structure Template where
  name? : Option String
  file? : Option String
  unit : CompiledUnit Value
  deriving Inhabited

/-- Where templates come from and what every render starts with. It is `held` while the application
has not let go of it, and `alive` while anything holds it. -/
structure Environment where
  loader? : Option Loader := none
  filters : Table String Value := {}
  globals : Table String Value := {}
  maxDepth : Int := RenderState.defaultMaxDepth
  held : Bool := true
  alive : Bool := true
  deriving Inhabited

/-- A value copied out of a run, without references. -/
inductive Datum where
  | null
  | bool (b : Bool)
  | int (n : Int)
  | float (x : Float)
  | str (s : String)
  | list (items : List Datum)
  | tuple (items : List Datum)
  | dict (entries : List (Datum × Datum))
  | iterator (items : List Datum)
  | record (fields : List (String × Datum))
  | host (f : HostFn)
  | saved (name : String)
  | macroObject (name : Constant) (params : List (Constant × Datum))
  | other (typeName : String)
  deriving Inhabited

/-- The objects that operations on values make and change, and what they record. -/
structure Objects where
  lists : Store (Array Value) := {}
  dicts : Store Dict := {}
  cursors : Store (List Value) := {}
  generators : Store Traversal := {}
  records : Store (Table String Value) := {}
  objects : Nat := 0
  counter : Nat := 0
  calls : Array (List Datum) := #[]
  messages : Array String := #[]
  deriving Inhabited

/-- What operations on values look at and never change. -/
structure Surroundings where
  contexts : Store Context := {}
  functions : Store Function := {}
  macros : Store Macro := {}
  templates : Store Template := {}
  env : Environment := {}
  state? : Option RenderState := none
  deriving Inhabited

/-- All that operations on values can see. -/
structure Heap extends Objects, Surroundings
  deriving Inhabited

/-- The state of a run. -/
structure World extends Heap where
  frames : Store Frame := {}
  activations : Store Activation := {}
  deriving Inhabited

/-- Why a computation ends without a result. -/
inductive Halt where
  | fault (f : Fault)
  | outOfFuel
  deriving Inhabited

/-- Operations on values: they end with a result or a fault. -/
abbrev Operation := ReaderT Surroundings (ExceptT Fault (StateM Objects))

/-- Computations on the state of a run. -/
abbrev Eval := ExceptT Halt (StateM World)

/-- How a running script reaches beyond itself: what the call of a value does, what entering a
template or a block does, and what the methods of the objects do that its machinery works with. -/
structure Call where
  value : Value → List Value → Eval Value
  enter : (entry env : Value) → (context frame : Ref) → Eval Value
  method : Cell → Script.Attr → List Cell → Eval Cell

instance : CoeFun Call fun _ => Value → List Value → Eval Value := ⟨Call.value⟩

namespace Operation

/-- The outcome of an operation and the objects it leaves. -/
def perform {α : Type} (x : Operation α) (s : Surroundings) (o : Objects) :
    Except Fault α × Objects :=
  (x.run s).run.run o

/-- An operation as a computation on the whole state. -/
def toEval {α : Type} (x : Operation α) : Eval α :=
  ExceptT.mk fun w =>
    match w with
    | ⟨⟨objects, surroundings⟩, frames, activations⟩ =>
      let (result, objects) := x.perform surroundings objects
      (result.mapError .fault, ⟨⟨objects, surroundings⟩, frames, activations⟩)

instance : MonadLift Operation Eval := ⟨toEval⟩

end Operation

/-- The state of a computation is the whole world, not only the objects that operations change. -/
instance : MonadStateOf World Eval :=
  inferInstanceAs (MonadStateOf World (ExceptT Halt (StateM World)))

/-- Computations that can end with a fault. -/
class CanFail (m : Type → Type) where
  /-- End with a fault. -/
  fail {α : Type} (f : Fault) : m α
  /-- Run a computation; on a fault, run another one instead. -/
  catchFault {α : Type} (x : m α) (handler : Fault → m α) : m α

instance : CanFail Operation where
  fail f := throw f
  catchFault x handler := tryCatch x handler

instance : CanFail Eval where
  fail f := throw (.fault f)
  catchFault x handler := tryCatch x fun
    | .fault f => handler f
    | .outOfFuel => throw .outOfFuel

namespace Eval

section Faults

variable {m : Type → Type} {α : Type} [CanFail m]

/-- Halt with a fault. -/
def fail (f : Fault) : m α :=
  CanFail.fail f

/-- Halt with a report. -/
def failWith (r : Report) : m α :=
  fail (.report r)

/-- Run a computation; on a fault of an accepted kind, run another one instead. -/
def recover (accepts : Fault → Bool) (x : m α) (handler : Fault → m α) : m α :=
  CanFail.catchFault x fun f => if accepts f then handler f else fail f

/-- The result of a computation that may fail without touching the state. -/
def ofExcept [Monad m] : Except Fault α → m α
  | .ok a => pure a
  | .error f => fail f

end Faults

/-- The outcome of a computation and the state it leaves. -/
def outcome {α : Type} (x : Eval α) (w : World) : Except Halt α × World :=
  x.run.run w

/-- All that an operation can see. -/
def heap : Operation Heap := do
  return { toObjects := ← get, toSurroundings := ← read }

/-- The value that a variable holds. -/
def valueIn : Cell → Operation Value
  | .value v => pure v
  | c => fail (.notValue c.typeName)

/-- The values that variables hold. -/
def valuesIn (cells : List Cell) : Operation (List Value) :=
  cells.mapM valueIn

/-- Record a message for the log. -/
def note (message : String) : Operation Unit :=
  modify fun w => { w with messages := w.messages.push message }

/-- A new list object. -/
def newList (items : List Value) : Operation Value :=
  modifyGet fun w => (.list w.lists.size, { w with lists := w.lists.push items.toArray })

/-- A new dictionary object. -/
def newDict (d : Dict) : Operation Value :=
  modifyGet fun w => (.dict w.dicts.size, { w with dicts := w.dicts.push d })

/-- The origin of a new object. -/
def newOrigin : Operation Origin :=
  modifyGet fun w => (.made w.objects, { w with objects := w.objects + 1 })

/-- The content of a value in a new object, unless all values of that content are one object. -/
def renew (v : Value) : Operation Value := do
  if v.isUnique then
    return v.withOrigin .shared
  else
    return v.withOrigin (← newOrigin)

/-- A floating-point number in a new object. -/
def newFloat (x : Float) : Operation Value := do
  return .float (o := ← newOrigin) x

/-- A whole number in a new object. -/
def newInt (n : Int) : Operation Value :=
  renew (.ofInt n)

/-- A text in a new object. -/
def newText (s : String) : Operation Value :=
  renew (.ofText s)

/-- A tuple in a new object. -/
def newTuple (items : List Value) : Operation Value :=
  renew (.ofItems items)

/-- A new generator of the texts of what is gone through. -/
def newGenerator (t : Traversal) : Operation Value := do
  let r ← modifyGet fun w =>
    (w.generators.size, { w with generators := w.generators.push t })
  return .generator (o := ← newOrigin) r

/-- A new function object. -/
def newFunction (f : Function) : Eval Value :=
  modifyGet fun w => (.function w.functions.size, { w with functions := w.functions.push f })

/-- A new runtime frame. -/
def newFrame (f : Frame) : Eval Ref :=
  modifyGet fun w => (w.frames.size, { w with frames := w.frames.push f })

/-- A new render context. -/
def newContext (c : Context) : Eval Ref :=
  modifyGet fun w => (w.contexts.size, { w with contexts := w.contexts.push c })

/-- A new activation. -/
def newActivation (a : Activation) : Eval Ref :=
  modifyGet fun w => (w.activations.size, { w with activations := w.activations.push a })

/-- A new template object. -/
def newTemplate (t : Template) : Eval Ref :=
  modifyGet fun w => (w.templates.size, { w with templates := w.templates.push t })

/-- A new macro object. -/
def newMacro (m : Macro) : Eval Value :=
  modifyGet fun w => (.macroObject w.macros.size, { w with macros := w.macros.push m })

end Eval

/-- The outcome of an operation on the whole state. -/
def Operation.outcome {α : Type} (x : Operation α) (w : World) : Except Halt α × World :=
  Eval.outcome x.toEval w

namespace Objects

/-- A list object. -/
def listAt (w : Objects) (r : Ref) : Array Value :=
  (w.lists.get? r).getD #[]

/-- The elements of a list object. -/
def listItems (w : Objects) (r : Ref) : List Value :=
  (w.listAt r).toList

/-- A dictionary object. -/
def dictAt (w : Objects) (r : Ref) : Dict :=
  (w.dicts.get? r).getD {}

/-- The entries of a dictionary object. -/
def dictEntries (w : Objects) (r : Ref) : List (Value × Value) :=
  (w.dictAt r).entries

/-- The elements that a one-shot iterator still has. -/
def cursorRest (w : Objects) (r : Ref) : List Value :=
  (w.cursors.get? r).getD []

/-- How far a generator has come. -/
def generatorAt (w : Objects) (r : Ref) : Traversal :=
  (w.generators.get? r).getD (.fixed [])

end Objects

namespace Heap

/-- A template object. -/
def template (w : Heap) (r : Ref) : Template :=
  (w.templates.get? r).getD default

/-- A macro object. -/
def macroAt (w : Heap) (r : Ref) : Macro :=
  (w.macros.get? r).getD default

/-- A render context. -/
def context (w : Heap) (r : Ref) : Context :=
  (w.contexts.get? r).getD default

end Heap

/-- A runtime frame. -/
def World.frame (w : World) (r : Ref) : Frame :=
  (w.frames.get? r).getD default

namespace Template

/-- The entry points of blocks by the bare names of the blocks. -/
def blocks (t : Template) : Table String Value :=
  t.unit.blocks

/-- The entry point of the whole template. -/
def root (t : Template) : Value :=
  (t.unit.entries.find? "root").getD .none

end Template

end Stencil
