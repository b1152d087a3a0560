import Stencil.Script.Run

/-!
# What keeps an environment alive

An environment that the application has let go of lives on while some value still holds it. A
macro holds the variables of the calls around it that its body mentions, and the function that
renders an overridden block holds the environment it was made with. Templates do not hold their
environment.
-/

namespace Stencil

/-- What the variables hold that are free in a function. -/
def Closure.freeCells (w : World) (c : Closure) : List Cell :=
  match c.outer with
  | none => []
  | some r =>
    (Script.freeIn c.owned c.body).filterMap fun id =>
      (Script.owner? w id (r + 1) r).bind fun a => a.vars.find? id

/-- What a function object holds. -/
def Function.held (w : World) : Function → List Cell
  | .closure c => c.captured.map (·.2) ++ c.freeCells w
  | .superBlock env context _ (some next) => [.value env, .context context, .value next]
  | .superBlock _ _ _ none => []

/-- The values that something to be gone through holds. -/
def Traversal.held : Traversal → List Value
  | .fixed rest => rest
  | .listFrom r _ => [.list r]
  | .dictFrom _ r _ _ _ => [.dict r]
  | .cursor r => [.cursor r]

namespace Cell

/-- Whether two variables hold the same object. -/
def identical : Cell → Cell → Bool
  | value v, value u => v.identical u
  | context r, context s | frame r, frame s => r == s
  | runtime, runtime => true
  | core f, core g => f == g
  | method c a, method d b => a == b && identical c d
  | _, _ => false

end Cell

namespace World

/-- The values that a value holds directly, unless it is a function. -/
def heldValues (w : World) : Value → List Value
  | .tuple items => items
  | .list r => w.listItems r
  | .dict r | .view _ r => (w.dictEntries r).flatMap fun e => [e.1, e.2]
  | .cursor r => w.cursorRest r
  | .generator r => (w.generatorAt r).held
  | .numbered source => [source]
  | .record r => ((w.records.get? r).getD {}).entries.map (·.2)
  | .macroObject r => (w.macroAt r).function :: (w.macroAt r).params.map (·.2)
  | .method _ self _ | .bound self _ | .typeAlias _ self => [self]
  | _ => []

/-- What the content of a variable holds directly. -/
def held (w : World) : Cell → List Cell
  | .value (.function r) => ((w.functions.get? r).map (·.held w)).getD []
  | .value v => (w.heldValues v).map .value
  | .context r =>
    let c := w.context r
    (c.vars.entries.map (·.2) ++ c.blocks.entries.flatMap (·.2)).map .value
  | .frame r =>
    let f := w.frame r
    f.vars.entries.map (.value ·.2) ++ (f.parent.map .frame).toList
  | .method self _ => [self]
  | .runtime | .core _ => []

/-- Whether the environment is among what there is to look at or is held by it, directly or through
others. `seen` was looked at before; the fuel bounds how much is looked at. -/
def reachesEnvironment (w : World) : Nat → List Cell → List Cell → Bool
  | 0, _, _ => false
  | _, _, [] => false
  | fuel + 1, seen, c :: rest =>
    match c with
    | .value .environment => true
    | _ =>
      if seen.any c.identical then reachesEnvironment w fuel seen rest
      else reachesEnvironment w fuel (c :: seen) (w.held c ++ rest)

/-- Whether one of the given values holds the environment. -/
def holdsEnvironment (w : World) (values : List Value) : Bool :=
  w.reachesEnvironment 1000000 [] (values.map .value)

end World

end Stencil
