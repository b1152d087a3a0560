import Stencil.Engine.Call
import Stencil.Engine.Reach

/-!
# Sessions

A session is what an application does with one environment, step by step: load templates, render
them, call macros, change globals and filters. Values can be saved under a name and used by later
steps. A step that fails leaves the session usable. When the application lets go of the environment,
steps that need it fail, and templates can be rendered only while a saved value holds it.
-/

namespace Stencil

/-- Values by name, before they enter a run. -/
abbrev Bindings := List (String × Datum)

/-- How an environment is set up. -/
structure EnvironmentSpec where
  loader? : Option Loader := none
  globals : Bindings := []
  filters : Bindings := []
  maxDepth : Int := RenderState.defaultMaxDepth

/-- What an application can do. A template is referred to by the name it was saved under. -/
inductive Step where
  | keep (v : Datum) (save? : Option String)
  | getTemplate (name : Datum) (eager : Bool) (save? : Option String)
  | fromTree (tree : Node) (name? : Option String) (save? : Option String)
  | render (t : String) (ctx kwargs : Bindings) (frames : List Bindings)
  | renderBlock (t block : String) (ctx kwargs : Bindings)
  | getModule (t : String) (save? : Option String)
  | showUnit (t : String)
  | call (f : Datum) (args : List Datum) (kwargs? : Option Bindings) (save? : Option String)
  | listTemplates
  | showEnvironment
  | setGlobal (name : String) (v : Datum)
  | globals
  | setFilter (name : String) (v : Datum)
  | addFilter (name : String) (v : Datum)
  | updateFilters (items : Bindings)
  | removeFilter (name : String)
  | hasFilter (name : String)
  | filterNames
  | countFilters
  | showFilters
  | extendCopy (name : String)
  | callFilter (name : String) (byIndex : Bool) (args : List Datum)
  | dropEnvironment

/-- What a step answers: a value, the facts about a template, or those about a compiled unit. -/
inductive Answer where
  | value (d : Datum)
  | template (name? file? : Option String) (blocks : List String) (text : String)
  | unit (keys : List String) (text : String)

/-- The filters that every environment starts with. -/
def standardFilters : Table String Value :=
  Table.ofList (BuiltinFilter.all.map fun f => (f.name, .filter f))

namespace Environment

/-- The printed form of an environment's filter table. -/
def filtersText (e : Environment) : String :=
  s!"<FilterRegistry {Text.sortedList e.filters.keys}>"

end Environment

namespace Eval

/-- Set up the environment. -/
def openEnvironment (spec : EnvironmentSpec) : Eval Unit := do
  let globals ← thawFields {} spec.globals
  let filters ← thawFields {} spec.filters
  modify fun w =>
    { w with
      env := {
        loader? := spec.loader?
        globals := Table.ofList globals
        filters := standardFilters.insertAll filters
        maxDepth := spec.maxDepth } }

/-- Change the environment. -/
def modifyEnvironment (f : Environment → Environment) : Eval Unit :=
  modify fun w => { w with env := f w.env }

/-- The application asks its environment for something, by the name of the attribute. It must not
have let go of the environment. -/
def demandEnvironment (field : String) : Eval Environment := do
  let env := (← get).env
  if env.held then return env
  else fail (.missingAttribute Value.none.typeName field)

/-- Bind names in a frame, one after the other. -/
def setAllInFrame (r : Ref) : List (String × Value) → Eval Unit
  | [] => pure ()
  | (name, v) :: rest => do
    setInFrame r name v
    setAllInFrame r rest

/-- The frames of the given scopes, outermost first; the result is the innermost one. -/
def openFrames (saved : Table String Value) : Option Ref → List Bindings → Eval (Option Ref)
  | parent, [] => return parent
  | parent, scope :: rest => do
    let r ← newFrame { parent }
    setAllInFrame r (← thawFields saved scope)
    openFrames saved (some r) rest

/-- A function whose own parameters have the given names takes no keyword arguments of these
names. -/
def checkKeywords (function : String) (own : List String) (kwargs : Bindings) : Eval Unit :=
  match kwargs.find? fun p => own.contains p.1 with
  | some (name, _) => fail (.arity s!"{function}() got multiple values for argument '{name}'")
  | none => pure ()

/-- The template that was saved under a name, to be asked for one of its attributes. -/
def savedTemplate (saved : Table String Value) (name field : String) : Eval Ref := do
  match saved.find? name with
  | some (.template r) => return r
  | some v => fail (.missingAttribute v.typeName field)
  | none => fail (.keyMissing (Text.quoted name))

/-- The facts about a template. -/
def describe (r : Ref) : Eval Answer := do
  let t := (← get).template r
  return .template t.name? t.file? t.blocks.keys t.text

/-- Answer with a value. -/
def answer (v : Value) : Eval Answer := do
  return .value ((← get).freeze v)

/-- The entry of the filter table under a name. -/
def filterEntry (name : String) : Eval Value := do
  match (← demandEnvironment "filters").filters.find? name with
  | some f => return f
  | none => fail (.keyMissing (Text.quoted name))

/-- Put filters into the filter table. -/
def enterFilters (items : List (String × Value)) : Eval Unit :=
  modifyEnvironment fun e => { e with filters := e.filters.insertAll items }

end Eval

namespace Step

open Eval Engine

/-- What a step answers, and the value that it saves. -/
def run (saved : Table String Value) : Step → Eval (Answer × Option (String × Value))
  | keep v save? => do
    let v ← thaw saved v
    return (← answer v, save?.map fun s => (s, v))
  | getTemplate name eager save? => do
    let _ ← demandEnvironment "get_template"
    let r ← Eval.getTemplate (← thaw saved name) eager
    return (← describe r, save?.map fun s => (s, .template r))
  | fromTree tree name? save? => do
    let _ ← demandEnvironment "from_ast"
    let r ← loadTemplate tree name? none
    return (← describe r, save?.map fun s => (s, .template r))
  | render t ctx kwargs frames => do
    let ctx ← thawFields saved ctx
    let frame? ← openFrames saved none frames
    let r ← savedTemplate saved t "render"
    let vars ← thawFields saved kwargs
    checkKeywords "Template.render" ["self", "ctx", "frame"] kwargs
    return (← answer (← Engine.render callFully r (ctx ++ vars) frame?), none)
  | renderBlock t block ctx kwargs => do
    let ctx ← thawFields saved ctx
    let r ← savedTemplate saved t "render_block"
    let vars ← thawFields saved kwargs
    checkKeywords "Template.render_block" ["self", "block_name", "ctx"] kwargs
    return (← answer (← Engine.renderBlock callFully r block (ctx ++ vars)), none)
  | getModule t save? => do
    let v ← Engine.getModule callFully (← savedTemplate saved t "get_module")
    return (← answer v, save?.map fun s => (s, v))
  | showUnit t => do
    let unit := ((← get).template (← savedTemplate saved t "unit")).unit
    return (.unit unit.entries.keys unit.text, none)
  | call f args kwargs? save? => do
    let f ← thaw saved f
    let args ← thawAll saved args
    let args ← match kwargs? with
      | none => pure args
      | some kwargs => do
        let positional ← newList args
        let named := Table.ofList (← thawFields saved kwargs)
        pure [positional, ← newDict (.ofEntries (named.entries.map fun e => (.ofText e.1, e.2)))]
    let v ← callFully f args
    return (← answer v, save?.map fun s => (s, v))
  | listTemplates => do
    let env ← demandEnvironment "list_templates"
    let names ← match env.loader? with
      | some loader => ofExcept loader.names
      | none => pure []
    return (.value (.list (names.map .str)), none)
  | showEnvironment => do
    let env := (← get).env
    return (.value (.str (if env.held then env.text else "None")), none)
  | setGlobal name v => do
    let v ← thaw saved v
    let _ ← demandEnvironment "globals"
    modifyEnvironment fun e => { e with globals := e.globals.insert name v }
    return (.value .null, none)
  | globals => do
    let env ← demandEnvironment "globals"
    let w ← get
    return (.value (.dict (env.globals.entries.map fun e => (.str e.1, w.freeze e.2))), none)
  | setFilter name v => do
    let v ← thaw saved v
    let _ ← demandEnvironment "filters"
    enterFilters [(name, v)]
    return (.value .null, none)
  | addFilter name v => do
    let _ ← demandEnvironment "add_filter"
    enterFilters [(name, ← thaw saved v)]
    return (.value .null, none)
  | updateFilters items => do
    let _ ← demandEnvironment "filters"
    enterFilters (← thawFields saved items)
    return (.value .null, none)
  | removeFilter name => do
    let _ ← filterEntry name
    modifyEnvironment fun e => { e with filters := e.filters.erase name }
    return (.value .null, none)
  | hasFilter name => do
    return (.value (.bool ((← demandEnvironment "filters").filters.contains name)), none)
  | filterNames => do
    return (.value (.list ((← demandEnvironment "filters").filters.keys.map .str)), none)
  | countFilters => do
    return (.value (.int (← demandEnvironment "filters").filters.size), none)
  | showFilters => do
    return (.value (.str (← demandEnvironment "filters").filtersText), none)
  | extendCopy name => do
    let filters := (← demandEnvironment "filters").filters
    let copy := filters.insert name .none
    return (.value (.list [.int copy.size, .int filters.size]), none)
  | callFilter name byIndex args => do
    let f ←
      if byIndex then filterEntry name
      else do
        let _ ← demandEnvironment "get_filter"
        getFilter name
    return (← answer (← callFully f (← thawAll saved args)), none)
  | dropEnvironment => do
    modifyEnvironment fun e => { e with held := false }
    return (.value .null, none)

end Step

/-- The state of a session: the run, and the values saved so far. -/
structure Session where
  world : World := {}
  saved : Table String Value := {}

namespace Session

/-- A session with an environment, unless its values cannot be made. -/
def start (spec : EnvironmentSpec) : Except Halt Session :=
  match (Eval.openEnvironment spec).outcome {} with
  | (.ok _, world) => .ok { world }
  | (.error h, _) => .error h

/-- The session with its environment alive just if the application or a saved value holds it. -/
def settle (s : Session) : Session :=
  let w := s.world
  if w.env.held then s
  else
    let alive := w.holdsEnvironment (s.saved.entries.map (·.2))
    { s with world := { w with env := { w.env with alive } } }

/-- Take a step. -/
def perform (s : Session) (step : Step) : Except Halt Answer × Session :=
  let s := s.settle
  match (step.run s.saved).outcome s.world with
  | (.ok (a, some (name, v)), world) => (.ok a, { world, saved := s.saved.insert name v })
  | (.ok (a, none), world) => (.ok a, { s with world })
  | (.error h, world) => (.error h, { s with world })

end Session

end Stencil
