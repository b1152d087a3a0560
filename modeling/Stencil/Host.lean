import Stencil.Value.Datum

/-!
# Callables of the application

What the callables do that an application can put into a render context: give back, join, count or
record their arguments, show the render state, or fail in various ways.
-/

namespace Stencil

namespace RenderState

/-- A render state as a list object: name, depth, limit and the renders around it. -/
def toValue (s : RenderState) : Operation Value := do
  let stack ← s.stack.mapM fun e => Eval.newList [.ofText e.1, .ofInt e.2]
  let name : Value := .ofText? s.template?
  Eval.newList [name, .ofInt s.depth, .ofInt s.maxDepth, ← Eval.newList stack]

end RenderState

namespace HostFn

open Eval

/-- Call a callable of the application. Block probes are called by the engine. -/
def run (f : HostFn) (args : List Value) : Operation Value := do
  match f with
  | .args | .macroLike | .macroOne => newList args
  | .concat => newText (String.join (← args.mapM textOf))
  | .ident => return args.headD .none
  | .none => return .none
  | .log =>
    let w ← heap
    modify fun o => { o with calls := o.calls.push (args.map w.freeze) }
    return args.headD .none
  | .count =>
    modify fun w => { w with counter := w.counter + 1 }
    newInt (← get).counter
  | .state =>
    match (← heap).state? with
    | some s => s.toValue
    | Option.none => return .none
  | .boom => fail (.custom "boom")
  | .boomEmpty => fail (.custom "")
  | .boomKey => fail (.customKey "'k'")
  | .boomTemplate => failWith (.render { message := "custom", suggestion? := some "none" })
  | .blockProbe _ tag => newText tag

end HostFn

end Stencil
