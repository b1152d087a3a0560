import Stencil.Engine.Render
import Stencil.Filter
import Stencil.Host

/-!
# Calls

`Engine.apply` says what the call of a value does, `Engine.applyEntry` what entering a template or a
block does and `Engine.callMethod` what a method of the machinery does, each given how further calls
are made. `Engine.call` ties the knot with fuel that bounds how deep calls may be nested.
-/

namespace Stencil

/-- The activation that a call of a script function starts with. -/
def Closure.activation (c : Closure) (args : List Cell) : Activation :=
  { functionName := c.name
    owned := c.owned
    vars := Table.ofList (c.params.zip args ++ c.captured)
    outer := c.outer }

namespace Engine

open Eval

/-- The value of a macro's parameter at a place: by position, else by name, else the default. -/
def bindParam (args kwargs : Value) (i : Nat) (param : Constant × Value) : Operation Value := do
  if i < (← length args) then subscript args (.ofInt i)
  else if ← within (.ofConstant param.1) kwargs then subscript kwargs (.ofConstant param.1)
  else return param.2

/-- The values of a macro's parameters, counted from a place on. -/
def bindParams (args kwargs : Value) : Nat → List (Constant × Value) → Operation (List Value)
  | _, [] => return []
  | i, param :: rest => do
    let v ← bindParam args kwargs i param
    return v :: (← bindParams args kwargs (i + 1) rest)

/-- Call a macro with a list of positional arguments and a dictionary of keyword arguments. -/
def callMacro (call : Call) (r : Ref) (args : List Value) : Eval Value := do
  checkArity "MacroWrapper.__call__" ⟨["self"], ["args", "kwargs"]⟩ (args.length + 1)
  let m := (← get).macroAt r
  let kwargs := (args.drop 1).headD .none
  let kwargs ← if (← get).truthy kwargs then pure kwargs else newDict {}
  call.value m.function (← bindParams (args.headD (.ofItems [])) kwargs 0 m.params)

/-- Call a script function. -/
def callClosure (call : Call) (limit : Nat) (c : Closure) (args : List Cell) : Eval Value := do
  checkArity c.name ⟨c.params.map (·.text), []⟩ args.length
  let r ← newActivation (c.activation args)
  valueIn ((← Script.execAll call limit r c.body).getD (.value .none))

/-- Call a function that renders an overridden block, with the given number of arguments. -/
def callSuper (call : Call) (env : Value) (context : Ref) (name : Constant) (next? : Option Value)
    (given : Nat) : Eval Value := do
  match next? with
  | none =>
    checkArity "Context.get_super.<locals>.no_super" ⟨[], []⟩ given
    failWith (.noSuper name.text)
  | some block =>
    checkArity "Context.get_super.<locals>.call_super" ⟨[], []⟩ given
    enter call block env context (← newFrame {})

/-- Call a function object. -/
def callFunction (call : Call) (limit : Nat) (r : Ref) (args : List Cell) : Eval Value := do
  match (← get).functions.get? r with
  | some (.closure c) => callClosure call limit c args
  | some (.superBlock env context name next?) => callSuper call env context name next? args.length
  | none => fail (.notCallable (Value.function r).typeName)

/-- Enter a block probe: its tag, with what it overrides in parentheses if the tag ends in `^`. -/
def enterProbe (call : Call) (name tag : String) (env : Value) (context : Ref) : Eval Value := do
  if Text.endsWith tag "^" then
    let next ← getSuper env context (.str name) (.host (o := .shared) (.blockProbe name tag))
    let inner ← call.value next []
    newText (String.ofList tag.toList.dropLast ++ "(" ++ (← textOf inner) ++ ")")
  else
    newText tag

/-- The parameter that an entry of a signature describes: a name with a default. -/
def signatureParam? : Value → Option (Constant × Value)
  | .tuple [name, default] => name.constant?.map fun c => (c, default)
  | _ => none

/-- The macro object of a function, a name, parameters and up to three flags. -/
def wrapMacro (function : Value) (name : Constant) (params : List (Constant × Value))
    (flags : List Value) : Eval Value := do
  checkArity "wrap_macro" ⟨["func", "name", "params"], ["catch_kwargs", "catch_varargs", "caller"]⟩
    (3 + flags.length)
  let flag (i : Nat) : Value := (flags.drop i).headD (.bool false)
  newMacro {
    function, name, params, catchKwargs := flag 0, catchVarargs := flag 1, caller := flag 2 }

/-- The pairs that a loop with two names runs over: the entries of a mapping, or the numbered
elements of anything else. -/
def iterItems (v : Value) : Operation Value := do
  match v with
  | .dict r => return .view .items r
  | .unit r => newList (((← heap).template r).unitEntries.map fun e => .ofItems [e.1, e.2])
  | .blockMap r => newList (((← heap).template r).blockEntries.map fun e => .ofItems [e.1, e.2])
  | _ =>
    match Iteration.start? (← heap) v with
    | some _ => return .numbered v
    | none => fail (.notIterable v.typeName)

/-- The parameters of the functions of the runtime that check their arguments in one way. -/
def helperParameters? : Script.Attr → Option Parameters
  | .member => some ⟨["obj", "key"], []⟩
  | .toStr | .isMacro | .iterItems => some ⟨["value"], []⟩
  | .missingExport => some ⟨["template_name", "name"], []⟩
  | _ => none

/-- Check the number of arguments of a function of the runtime. -/
def checkHelper (field : Script.Attr) (given : Nat) : Operation Unit :=
  match helperParameters? field with
  | some p => checkArity field.text p given
  | none => pure ()

/-- Call a function of the runtime that works on values. -/
def callHelper (field : Script.Attr) (args : List Value) : Eval Value := do
  checkHelper field args.length
  match field, args with
  | .member, [v, key] => member v key
  | .toStr, [v] => toText v
  | .isMacro, [v] => return .bool (← isMacro v)
  | .iterItems, [v] => iterItems v
  | .missingExport, [template, name] => do
    let name ← textOf name
    failWith (.missingExport (← shownOf template) template.typeName name)
  | .wrapMacro, function :: name :: .list r :: flags =>
    wrapMacro function (name.constant?.getD .null)
      (((← get).listItems r).filterMap signatureParam?) flags
  | .floor, _ => oneArgument "math.floor" args floor
  | .power, [a, b] => power a b
  | _, _ => fail (.notCallable "function")

/-- Call a method of a context that works on values. -/
def callContext (r : Ref) (field : Script.Attr) (args : List Value) : Eval Value := do
  match field, args with
  | .setVariable, [.str name, v] =>
    setVariable r name v
    return .none
  | .addExport, [.str name] =>
    modifyContext r (·.addExport name)
    return .none
  | .addBlock, [.str name, block] =>
    modifyContext r (·.addBlock name block)
    return .none
  | .getBlock, [name] => getBlock r (name.constant?.getD .null)
  | .getVariables, [] =>
    newDict (.ofEntries (((← get).context r).vars.entries.map fun e => (.ofText e.1, e.2)))
  | _, _ => fail (.notCallable "method")

/-- Call a method of a template that works on values. -/
def callTemplate (call : Call) (r : Ref) (field : Script.Attr) (args : List Value) :
    Eval Value := do
  match field, args with
  | .render, [] => render call r [] none
  | .render, [vars] => render call r (variablesOf (← get).toHeap vars) none
  | .getModule, [] => getModule call r
  | _, _ => fail (.notCallable "method")

/-- Call a method that generated code has taken from what a variable holds. -/
def callMethod (call : Call) (self : Cell) (field : Script.Attr) (args : List Cell) :
    Eval Cell := do
  match self, field, args with
  | .runtime, .resolve, [.context c, .frame f, .value (.str name)] =>
    return .value (← resolve c f name)
  | .runtime, _, _ => return .value (← callHelper field (← valuesIn args))
  | .context r, .getSuper, [.value env, .value name, .value block, _] =>
    return .value (← getSuper env r (name.constant?.getD .null) block)
  | .context r, _, _ => return .value (← callContext r field (← valuesIn args))
  | .frame r, .push, [] => return .frame (← pushFrame r)
  | .frame r, .pop, [] => return ((← popFrame r).map .frame).getD (.value .none)
  | .frame r, .set, [.value (.str name), .value v] =>
    setInFrame r name v
    return .value .none
  | .value .environment, .getTemplate, .value name :: rest =>
    let eager := (← valuesIn rest).any fun v => v.int? == some 1
    return .value (.template (← getTemplate name eager))
  | .value .environment, .getFilter, [.value (.str name)] => return .value (← getFilter name)
  | .value (.template r), .render, [.value vars, .frame f] =>
    return .value (← render call r (variablesOf (← get).toHeap vars) (some f))
  | .value (.template r), _, _ => return .value (← callTemplate call r field (← valuesIn args))
  | .value (.str s), .join, [.value v] => return .value (← joinWith s v)
  | .value (.list r), .append, [.value v] => return .value (← listMethod r "append" [v])
  | _, _, _ => fail (.notCallable "method")

/-- Call a value, given how further calls are made and how many rounds a loop may take. -/
def apply (call : Call) (limit : Nat) (f : Value) (args : List Value) : Eval Value := do
  match f with
  | .function r => callFunction call limit r (args.map .value)
  | .macroObject r => callMacro call r args
  | .host h => h.run args
  | .filter b => b.apply call args
  | .method .unbound (.typeObject type) name => unboundMethod type name args
  | .method _ self name => method self name args
  | .bound (.template r) field => callTemplate call r field args
  | _ => fail (.notCallable f.typeName)

/-- Enter a template or a block, given how further calls are made and how many rounds a loop may
take. -/
def applyEntry (call : Call) (limit : Nat) (entry env : Value) (context frame : Ref) :
    Eval Value := do
  match entry with
  | .function r =>
    callFunction call limit r [.value env, .context context, .frame frame, .runtime]
  | .host (.blockProbe name tag) => enterProbe call name tag env context
  | _ => fail (.notCallable entry.typeName)

/-- Calls nested at most as deep as the fuel says. -/
def call : Nat → Call
  | 0 => ⟨fun _ _ => throw .outOfFuel, fun _ _ _ _ => throw .outOfFuel,
    fun _ _ _ => throw .outOfFuel⟩
  -- The parts are functions written out, so that running one builds the next level and no more.
  | fuel + 1 => ⟨fun f args => apply (call fuel) fuel f args,
    fun entry env context frame => applyEntry (call fuel) fuel entry env context frame,
    fun self field args => callMethod (call fuel) self field args⟩

/-- Calls with ample fuel. -/
def callFully : Call :=
  call 1000000

end Engine

end Stencil
