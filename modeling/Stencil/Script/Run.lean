import Stencil.Script.Bound
import Stencil.Value.Method

/-!
# Running scripts

`Script.eval` and `Script.exec` give expressions and statements their meaning. What a call does is a
parameter, so the meaning of a script does not depend on the functions around it. Expressions are
evaluated from left to right, every part at most once, and a constant expression always gives the
same object. Operators and containers work on values only; the machinery of a script is passed on to
entry points and otherwise used for its methods. A statement list ends early when a return is met.
Of all loops, only a loop over a list that grows can go on for ever; its rounds are limited.
-/

namespace Stencil

/-- The activation in which an identifier holds something new. -/
def Activation.assign (a : Activation) (id : Script.Ident) (c : Cell) : Activation :=
  { a with vars := a.vars.insert id c }

namespace Script

/-- The activation that owns an identifier, looking at no more activations than the first argument
says. -/
def owner? (w : World) (id : Ident) : Nat → Ref → Option Activation
  | 0, _ => none
  | fuel + 1, r =>
    match w.activations.get? r with
    | none => none
    | some a =>
      if a.owned.contains id then some a
      else
        match a.outer with
        | some o => owner? w id fuel o
        | none => none

/-- The functions that every module can call. -/
def coreFunction? : Ident → Option Cell
  | .len => some (.core .len)
  | .list => some (.core .list)
  | .range => some (.core .range)
  | _ => none

/-- The value of an identifier in an activation. The function at hand owns it, or one around it, or
it is a function that every module knows. -/
def read (r : Ref) (id : Ident) : Eval Cell := do
  let w ← get
  match owner? w id (r + 1) r with
  | some a =>
    match a.vars.find? id with
    | some v => return v
    | none =>
      let isOwn := ((w.activations.get? r).map fun own => own.owned.contains id).getD false
      Eval.fail (if isOwn then .unboundLocal id else .unboundFree id)
  | none =>
    match coreFunction? id with
    | some v => return v
    | none => Eval.fail (.undefined id)

/-- Assign an identifier of an activation. -/
def write (r : Ref) (id : Ident) (c : Cell) : Eval Unit :=
  modify fun w => { w with activations := w.activations.modify r (·.assign id c) }

/-- Whether an object has an attribute that generated code can call. -/
def hasMethod : Cell → Attr → Bool
  | .value (.str _), .join | .value (.list _), .append => true
  | .frame _, .push | .frame _, .pop | .frame _, .set => true
  | .context _, .setVariable | .context _, .addExport | .context _, .addBlock
  | .context _, .getBlock | .context _, .getSuper | .context _, .getVariables => true
  | .value .environment, .getTemplate | .value .environment, .getFilter => true
  | .value (.template _), .render | .value (.template _), .getModule => true
  | .runtime, .resolve | .runtime, .member | .runtime, .toStr | .runtime, .isMacro
  | .runtime, .iterItems | .runtime, .missingExport | .runtime, .wrapMacro | .runtime, .floor
  | .runtime, .power => true
  | _, _ => false

/-- The attribute of an object that generated code reads. -/
def fieldOf (c : Cell) (field : Attr) : Eval Cell := do
  match c, field with
  | .value (.template r), .blocks => return .value (.blockMap r)
  | .value (.template r), .rootRenderFunc => return .value ((← get).template r).root
  | _, _ =>
    if hasMethod c field then return .method c field
    else Eval.fail (.missingAttribute c.typeName field.text)

/-- Call one of the functions that every module can call. -/
def callCore : CoreFn → List Value → Operation Value
  | .len, [v] => do Eval.newInt (← Eval.length v)
  | .list, [v] => do Eval.newList (← Eval.elements v)
  | .range, [v] => return .range ((v.int?.getD 0).toNat)
  | f, _ => Eval.fail (.notCallable (Cell.core f).typeName)

/-- The arguments of an entry point: an environment, a context, a frame and the runtime. -/
def entryArguments? : List Cell → Option (Value × Ref × Ref)
  | [.value env, .context context, .frame frame, .runtime] => some (env, context, frame)
  | _ => none

/-- Call what a variable holds. -/
def callCell (call : Call) (callee : Cell) (args : List Cell) : Eval Cell := do
  match callee with
  | .value f =>
    match entryArguments? args with
    | some (env, context, frame) => return .value (← call.enter f env context frame)
    | none => return .value (← call.value f (← Eval.valuesIn args))
  | .method self field => call.method self field args
  | .core f => return .value (← callCore f (← Eval.valuesIn args))
  | _ => Eval.fail (.notCallable callee.typeName)

/-- The dictionary that a display of the given number of entries starts from. A short display makes
room for all of them at once. -/
def displayStart (count : Nat) : Dict :=
  if count ≤ 15 then .forEntries count else {}

/-- The dictionary that a display with the given entries makes. -/
def display (w : Heap) (entries : List (Value × Value)) : Dict :=
  entries.foldl (fun d e => w.insertEntry e.1 e.2 d) (displayStart entries.length)

mutual

/-- What an expression gives in an activation. -/
def eval (call : Call) (r : Ref) : Expr → Eval Cell
  | .const c => return .value (.ofConstant c)
  | .tree n => Eval.fail (.badModule (.treeConstant n.kindName) "")
  | .name id => read r id
  | .attr object field => do fieldOf (← eval call r object) field
  | .subscript object index => do
    let object ← Eval.valueIn (← eval call r object)
    let index ← Eval.valueIn (← eval call r index)
    return .value (← Eval.subscript object index)
  | .call callee args => do
    let callee ← eval call r callee
    callCell call callee (← evalAll call r args)
  | .list items => do
    return .value (← Eval.newList (← Eval.valuesIn (← evalAll call r items)))
  | .tuple items => do
    return .value (← Eval.newTuple (← Eval.valuesIn (← evalAll call r items)))
  | .dict entries => do
    let values ← evalEntries call r entries
    return .value (← Eval.newDict (display (← get).toHeap values))
  | .boolean .or left right => do
    let v ← Eval.valueIn (← eval call r left)
    if (← get).truthy v then return .value v else eval call r right
  | .boolean .and left right => do
    let v ← Eval.valueIn (← eval call r left)
    if (← get).truthy v then eval call r right else return .value v
  | .binary op left right => do
    let a ← Eval.valueIn (← eval call r left)
    let b ← Eval.valueIn (← eval call r right)
    let v ← Eval.binary op a b
    return .value (if left.isConstant && right.isConstant then .constantResult a b v else v)
  | .unary op operand => do
    let a ← Eval.valueIn (← eval call r operand)
    let v ← Eval.unary op a
    return .value (if operand.isConstant && op != .pos then .constantResult a a v else v)
  | .compare first rest => do
    return .value (← evalChain call r (← Eval.valueIn (← eval call r first)) rest)
  | .conditional test body otherwise => do
    let v ← Eval.valueIn (← eval call r test)
    if (← get).truthy v then eval call r body else eval call r otherwise
  | .bind id value => do
    let c ← eval call r value
    write r id c
    return c

/-- What expressions give, from left to right. -/
def evalAll (call : Call) (r : Ref) : List Expr → Eval (List Cell)
  | [] => return []
  | e :: rest => do
    let c ← eval call r e
    return c :: (← evalAll call r rest)

/-- The entries of a dictionary display, from left to right. -/
def evalEntries (call : Call) (r : Ref) : List (Expr × Expr) → Eval (List (Value × Value))
  | [] => return []
  | (key, e) :: rest => do
    let k ← Eval.valueIn (← eval call r key)
    let v ← Eval.valueIn (← eval call r e)
    return (k, v) :: (← evalEntries call r rest)

/-- The rest of a comparison chain behind the operand `left`: it ends at the first step that does
not hold. -/
def evalChain (call : Call) (r : Ref) (left : Value) : List (CompareOp × Expr) → Eval Value
  | [] => return .bool true
  | (op, e) :: rest => do
    let right ← Eval.valueIn (← eval call r e)
    if ← Eval.compareBy op left right then
      if rest.isEmpty then return .bool true else evalChain call r right rest
    else
      return .bool false

end

/-- Assign what a loop iterates over. -/
def assignTarget (r : Ref) : Target → Value → Eval Unit
  | .single id, v => write r id (.value v)
  | .pair first second, .tuple [a, b] => do
    write r first (.value a)
    write r second (.value b)
  | .pair .., v => Eval.fail (.cannotUnpack v.typeName)

/-- Run the rounds of a loop over a fixed list of values, until one returns. -/
def roundsOver (round : Value → Eval (Option Cell)) : List Value → Eval (Option Cell)
  | [] => return none
  | v :: rest => do
    match ← round v with
    | some result => return some result
    | none => roundsOver round rest

/-- Run the rounds of a loop over something that may change, until one returns. -/
def roundsFrom (round : Value → Eval (Option Cell)) : Nat → Iteration → Eval (Option Cell)
  | 0, _ => throw .outOfFuel
  | fuel + 1, it => do
    match ← it.next with
    | none => return none
    | some (v, it) =>
      match ← round v with
      | some result => return some result
      | none => roundsFrom round fuel it

/-- Run a loop over a value. -/
def runLoop (limit : Nat) (source : Value) (round : Value → Eval (Option Cell)) :
    Eval (Option Cell) := do
  let w ← get
  match Iteration.start? w.toHeap source with
  | none => Eval.fail (.notIterable source.typeName)
  | some (.over (.fixed items)) => roundsOver round items
  | some it => roundsFrom round ((it.limit? w.toHeap).getD limit + 1) it

/-- What a function captures when it is defined. -/
def captureAll (call : Call) (r : Ref) : List (Ident × Expr) → Eval (List (Ident × Cell))
  | [] => return []
  | (id, e) :: rest => do
    let c ← eval call r e
    return (id, c) :: (← captureAll call r rest)

/-- The name of a function defined inside another one, as messages show it. -/
def innerName (w : World) (r : Ref) (name : Ident) : String :=
  match w.activations.get? r with
  | some a =>
    if a.functionName.isEmpty then name.text else s!"{a.functionName}.<locals>.{name.text}"
  | none => name.text

/-- The function that a definition makes in an activation. -/
def closureIn (w : World) (r : Ref) (name : Ident) (params : List Ident)
    (captured : List (Ident × Cell)) (body : List Stmt) : Closure :=
  { name := innerName w r name
    params, captured, body
    owned := ownedBy (params ++ captured.map (·.1)) body
    outer := some r }

mutual

/-- Run a statement in an activation; the result is what it returns, if it returns. -/
def exec (call : Call) (limit : Nat) (r : Ref) : Stmt → Eval (Option Cell)
  | .expr e => do
    let _ ← eval call r e
    return none
  | .assign id e => do
    write r id (← eval call r e)
    return none
  | .increment id e => do
    let v ← Eval.valueIn (← read r id)
    let amount ← Eval.valueIn (← eval call r e)
    write r id (.value (← Eval.binary .add v amount))
    return none
  | .ret e => return some (← eval call r e)
  | .branch test body otherwise => do
    let v ← Eval.valueIn (← eval call r test)
    if (← get).truthy v then execAll call limit r body else execAll call limit r otherwise
  | .loop target source body => do
    let source ← Eval.valueIn (← eval call r source)
    runLoop limit source fun v => do
      assignTarget r target v
      execAll call limit r body
  | .define name params captured body => do
    let captured ← captureAll call r captured
    let f ← Eval.newFunction (.closure (closureIn (← get) r name params captured body))
    write r name (.value f)
    return none
  | .pass => return none

/-- Run statements one after the other until one returns. -/
def execAll (call : Call) (limit : Nat) (r : Ref) : List Stmt → Eval (Option Cell)
  | [] => return none
  | s :: rest => do
    match ← exec call limit r s with
    | some c => return some c
    | none => execAll call limit r rest

end

end Script

end Stencil
