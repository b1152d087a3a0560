import Stencil.Engine.Call

/-!
# Direct interpretation of templates

What the expressions and the plain statements of a template mean, read off the tree with no code in
between. Names that a surrounding loop binds have a value of their own; every other name is looked
up in the render variables, then in the runtime frames, and else means the empty text. Parts are
evaluated from left to right, each at most once. Output is appended to a buffer in the order of the
document.
-/

namespace Stencil

namespace BinaryOp

/-- The logical operators. -/
def logical? : BinaryOp → Option Script.BoolOp
  | or => some .or
  | and => some .and
  | _ => none

/-- The operators of arithmetic that are operations on values. -/
def arithmetic? : BinaryOp → Option Script.BinOp
  | add => some .add
  | sub => some .sub
  | mul => some .mult
  | div => some .div
  | mod => some .mod
  | _ => none

end BinaryOp

/-- The unary operators that have a meaning. -/
def UnaryOp.meaning? : UnaryOp → Option Script.UnaryOp
  | not => some .not
  | neg => some .neg
  | pos => some .pos
  | generic => none

namespace Direct

open Eval

/-- Where a template is interpreted: the environment, the context and the frame of the render, and
the values of the names that the loops around bind. -/
structure Place where
  env : Value
  context : Ref
  frame : Ref
  names : String → Option Value

/-- The place in which a name has a value of its own. -/
def Place.bind (p : Place) (name : String) (v : Value) : Place :=
  { p with names := fun x => if x = name then some v else p.names x }

/-- What a name means. -/
def reference (p : Place) (name : String) : Eval Value :=
  match p.names name with
  | some v => return v
  | none => resolve p.context p.frame name

/-- The filter with a name. -/
def filterNamed (env : Value) (name : String) : Eval Value :=
  match env with
  | .environment => getFilter name
  | _ => fail (.missingAttribute env.typeName Script.Attr.getFilter.text)

/-- The key of a keyword argument. -/
def keywordKey (n : Node) : Eval Value :=
  match n.content? with
  | some (.constant c) => return .ofConstant c
  | some (.node m) => fail (.badModule (.treeConstant m.kindName) "")
  | none => fail (.notValue n.kindName)

/-- Whether an expression is a constant: a literal, or operators on constants. Such an expression
always gives the same object. -/
def isConstant : Node → Bool
  | .literal .. | .text .. => true
  | .group _ [item] => isConstant item
  | .binary _ op left right => op.arithmetic?.isSome && isConstant left && isConstant right
  | .unary _ op target => op.meaning?.isSome && isConstant target
  | _ => false

variable {pos : Position} {call : Call} {p : Place} {n : Node} {rest : List Node}

theorem isConstant_tuple {items} (h : ∀ item, items ≠ [item]) :
    isConstant (.group pos items) = false := by
  match items, h with
  | [], _ => rfl
  | [item], h => exact absurd rfl (h item)
  | _ :: _ :: _, _ => rfl

theorem isConstant_logical {op left right o} (h : op.logical? = some o) :
    isConstant (.binary pos op left right) = false := by
  cases op <;> first | rfl | cases h

/-- The result of an operator of arithmetic on the values of two expressions. -/
def arithmetic (op : Script.BinOp) (left right : Node) (a b : Value) : Eval Value := do
  let v ← binary op a b
  return if isConstant left && isConstant right then .constantResult a b v else v

/-- Call a macro with a list of the positional and a dictionary of the keyword arguments. -/
def callMacro (call : Call) (f : Value) (positional : Eval (List Value))
    (keywords : Eval (List (Value × Value))) : Eval Value := do
  let args ← newList (← positional)
  let entries ← keywords
  let kwargs ← newDict (Script.display (← get).toHeap entries)
  call.value f [args, kwargs]

/-- Call a value: a macro takes both kinds of arguments, anything else takes the positional
arguments alone. Keyword arguments are evaluated for a macro only. -/
def callWith (call : Call) (f : Value) (positional : Eval (List Value))
    (keywords : Eval (List (Value × Value))) : Eval Value := do
  if ← isMacro f then
    callMacro call f positional keywords
  else
    call.value f (← positional)

mutual

/-- The value of an expression. -/
def expr (call : Call) (p : Place) : Node → Eval Value
  | .literal _ c => return .ofConstant c
  | .text _ s => return .ofText s
  | .symbol _ name => reference p name
  | .group _ [item] => expr call p item
  | .group _ items => do newTuple (← exprs call p items)
  | .array _ items => do newList (← exprs call p items)
  | .dict _ entries => do
    let entries ← dictEntries call p entries
    newDict (Script.display (← get).toHeap entries)
  | .binary _ .or left right => do
    let v ← expr call p left
    if (← get).truthy v then return v else expr call p right
  | .binary _ .and left right => do
    let v ← expr call p left
    if (← get).truthy v then expr call p right else return v
  | .binary _ .floorDiv left right => do
    let a ← expr call p left
    let b ← expr call p right
    floor (← arithmetic .div left right a b)
  | .binary _ .pow left right => do
    let a ← expr call p left
    power a (← expr call p right)
  | .binary pos op left right => do
    match op.arithmetic? with
    | some o =>
      let a ← expr call p left
      let b ← expr call p right
      arithmetic o left right a b
    | none => fail (.notValue (Node.binary pos op left right).kindName)
  | .unary pos op target => do
    match op.meaning? with
    | some o =>
      let a ← expr call p target
      let v ← unary o a
      return if isConstant target && o != .pos then .constantResult a a v else v
    | none => fail (.notValue (Node.unary pos op target).kindName)
  | .compare _ first rest => do chain call p (← expr call p first) rest
  | .lookup _ target key => do
    let v ← expr call p target
    member v (← expr call p key)
  | .call _ callee args? => do
    let f ← expr call p callee
    callWith call f (positional? call p args?) (keywords? call p args?)
  | .filter _ (.symbol _ name) args? => do
    let f ← filterNamed p.env name
    call.value f (← positional? call p args?)
  | n => fail (.notValue n.kindName)

/-- The values of expressions, from left to right. -/
def exprs (call : Call) (p : Place) : List Node → Eval (List Value)
  | [] => return []
  | n :: rest => do
    let v ← expr call p n
    return v :: (← exprs call p rest)

/-- The entries of a dictionary, from left to right. -/
def dictEntries (call : Call) (p : Place) : List Node → Eval (List (Value × Value))
  | [] => return []
  | .pair _ key value :: rest => do
    match Compile.dictKey? key with
    | some k =>
      let v ← expr call p value
      return (.ofText k, v) :: (← dictEntries call p rest)
    | none => fail (.notValue key.kindName)
  | n :: _ => fail (.notValue n.kindName)

/-- The rest of a chain of comparisons behind the operand `left`: it ends at the first step that
does not hold. -/
def chain (call : Call) (p : Place) (left : Value) : List Node → Eval Value
  | [] => return .bool true
  | .operand _ n sign :: rest => do
    match Compile.compareOp? sign with
    | some op =>
      let right ← expr call p n
      if ← compareBy op left right then
        if rest.isEmpty then return .bool true else chain call p right rest
      else
        return .bool false
    | none => fail (.notValue sign)
  | n :: _ => fail (.notValue n.kindName)

/-- The values of the positional arguments, from left to right. -/
def positional (call : Call) (p : Place) : List Node → Eval (List Value)
  | [] => return []
  | .keyword .. :: rest => positional call p rest
  | n :: rest => do
    let v ← expr call p n
    return v :: (← positional call p rest)

/-- The keyword arguments with their values, from left to right. -/
def keywords (call : Call) (p : Place) : List Node → Eval (List (Value × Value))
  | [] => return []
  | .keyword _ key value :: rest => do
    let k ← keywordKey key
    let v ← expr call p value
    return (k, v) :: (← keywords call p rest)
  | _ :: rest => keywords call p rest

/-- The values of the positional arguments that a call may have. -/
def positional? (call : Call) (p : Place) : Option (List Node) → Eval (List Value)
  | none => return []
  | some args => positional call p args

/-- The keyword arguments that a call may have. -/
def keywords? (call : Call) (p : Place) : Option (List Node) → Eval (List (Value × Value))
  | none => return []
  | some args => keywords call p args

end

theorem expr_tuple {items} (h : ∀ item, items ≠ [item]) :
    expr call p (.group pos items) = exprs call p items >>= fun vs => newTuple vs := by
  match items, h with
  | [], _ => simp only [expr]
  | [item], h => exact absurd rfl (h item)
  | _ :: _ :: _, _ => simp only [expr]

theorem expr_arithmetic {op o left right} (h : op.arithmetic? = some o) :
    expr call p (.binary pos op left right) =
      expr call p left >>= fun a => expr call p right >>= fun b => arithmetic o left right a b := by
  cases op <;> cases h <;> simp only [expr, BinaryOp.arithmetic?]

theorem positional?_eq (args? : Option (List Node)) :
    positional? call p args? = positional call p (args?.getD []) := by
  cases args? <;> simp only [positional?, positional, Option.getD]

theorem keywords?_eq (args? : Option (List Node)) :
    keywords? call p args? = keywords call p (args?.getD []) := by
  cases args? <;> simp only [keywords?, keywords, Option.getD]

theorem positional_cons (h : ∀ pos key value, n ≠ .keyword pos key value) :
    positional call p (n :: rest) = (do
      let v ← expr call p n
      return v :: (← positional call p rest)) := by
  rw [positional]
  exact h

theorem keywords_cons (h : ∀ pos key value, n ≠ .keyword pos key value) :
    keywords call p (n :: rest) = keywords call p rest := by
  rw [keywords]
  exact h

/-! ## Statements -/

/-- Append a value to an output buffer. -/
def append (out : Ref) (v : Value) : Eval Unit := do
  let _ ← listMethod out "append" [v]

/-- Append text as it stands; there is nothing to append for an empty text. -/
def appendText (out : Ref) (s : String) : Eval Unit :=
  if s.isEmpty then pure () else append out (.ofText s)

/-- Output items in order: raw text as it stands, anything else in its text form. -/
def outputs (call : Call) (out : Ref) (p : Place) : List Node → Eval Unit
  | [] => pure ()
  | .text _ s :: rest => do
    appendText out s
    outputs call out p rest
  | n :: rest => do
    append out (← toText (← expr call p n))
    outputs call out p rest

theorem outputs_cons {out} (h : ∀ pos s, n ≠ .text pos s) : outputs call out p (n :: rest) = (do
      append out (← toText (← expr call p n))
      outputs call out p rest) := by
  rw [outputs]
  exact h

/-- The name that a target of an assignment stands for. -/
def targetName? (n : Node) : Option String :=
  match n.content? with
  | some (.constant (.str name)) => some name
  | _ => none

/-- Publish a render variable, unless it is private. -/
def publish (context : Ref) (name : String) : Eval Unit :=
  if Compile.isPrivate name then pure () else modifyContext context (·.addExport name)

/-- Store a value in the render variables under every target. -/
def stores (context : Ref) (v : Value) : List Node → Eval Unit
  | [] => pure ()
  | n :: rest => do
    match targetName? n with
    | some name =>
      setVariable context name v
      publish context name
      stores context v rest
    | none => fail (.notValue n.kindName)

/-- The names of a loop target: a name, or an array of two names. -/
def loopNames? : Node → Option Compile.LoopNames
  | .symbol _ name => some (.one name)
  | .array _ [.symbol _ key, .symbol _ value] => some (.two key value)
  | _ => none

/-- The rounds of a loop over something that may change, at most as many as the fuel says. -/
def eachFrom {σ : Type} (round : σ → Value → Eval σ) : Nat → Iteration → σ → Eval σ
  | 0, _, _ => throw .outOfFuel
  | fuel + 1, it, s => do
    match ← it.next with
    | none => return s
    | some (v, it) => eachFrom round fuel it (← round s v)

/-- Go through the elements of a value and carry something along from round to round. Only a list
that grows while it is gone through can reach the limit. -/
def each {σ : Type} (limit : Nat) (source : Value) (round : σ → Value → Eval σ) (s : σ) :
    Eval σ := do
  let w ← get
  match Iteration.start? w.toHeap source with
  | none => fail (.notIterable source.typeName)
  | some (.over (.fixed items)) => items.foldlM round s
  | some it => eachFrom round ((it.limit? w.toHeap).getD limit + 1) it s

/-- A value if it counts as true, else a stand-in. -/
def orElse (v : Value) (standIn : Operation Value) : Eval Value := do
  if (← get).truthy v then return v else standIn

/-- The loop record of round `i` in a loop of `n` rounds. -/
def sequenceRecord (frame : Ref) (i n : Value) : Eval Unit := do
  setInFrame frame "loop.index" (← binary .add i (.ofInt 1))
  setInFrame frame "loop.index0" i
  setInFrame frame "loop.revindex" (← binary .sub n i)
  setInFrame frame "loop.revindex0" (← binary .sub (← binary .sub n i) (.ofInt 1))
  setInFrame frame "loop.first" (.bool (← compareBy .eq i (.ofInt 0)))
  setInFrame frame "loop.last" (.bool (← compareBy .eq i (← binary .sub n (.ofInt 1))))
  setInFrame frame "loop.length" n

/-- Round `i` of a loop of `n` rounds over a sequence. The body sees the element under the loop's
name. -/
def sequenceRound (p : Place) (name : String) (items n : Value) (body : Place → Eval Unit)
    (i : Value) : Eval Unit := do
  let element ← subscript items i
  setInFrame p.frame name element
  sequenceRecord p.frame i n
  body (p.bind name element)

/-- A loop over the elements of a sequence, taken when the loop starts. -/
def sequenceLoop (limit : Nat) (p : Place) (name : String) (v : Value)
    (body : Place → Eval Unit) : Eval Unit := do
  let items ← newList (← elements (← orElse v (newTuple [])))
  let count ← length items
  let n ← newInt count
  each limit (.range count) (fun _ i => sequenceRound p name items n body i) ()

/-- The loop record of round `i` in a loop over pairs. -/
def pairRecord (frame : Ref) (i : Value) : Eval Unit := do
  setInFrame frame "loop.index" (← binary .add i (.ofInt 1))
  setInFrame frame "loop.index0" i
  setInFrame frame "loop.first" (.bool (← compareBy .eq i (.ofInt 0)))

/-- The two parts of a pair. -/
def unpack : Value → Eval (Value × Value)
  | .tuple [a, b] => return (a, b)
  | v => fail (.cannotUnpack v.typeName)

/-- The round after round `i` of a loop over pairs; its number is the result. The body sees both
parts of the pair under the loop's names. -/
def pairRound (p : Place) (keyName valueName : String) (body : Place → Eval Unit)
    (i pair : Value) : Eval Value := do
  let (key, value) ← unpack pair
  let i ← binary .add i (.ofInt 1)
  setInFrame p.frame keyName key
  setInFrame p.frame valueName value
  pairRecord p.frame i
  body ((p.bind keyName key).bind valueName value)
  return i

/-- A loop over the pairs of a mapping, or over the positions and elements of a sequence. -/
def pairLoop (limit : Nat) (p : Place) (keyName valueName : String) (v : Value)
    (body : Place → Eval Unit) : Eval Unit := do
  let items ← orElse v (newDict (Script.displayStart 0))
  let _ ← each limit (← Engine.iterItems items) (pairRound p keyName valueName body) (.ofInt (-1))

mutual

/-- What a statement does. -/
def stmt (call : Call) (limit : Nat) (out : Ref) (p : Place) : Node → Eval Unit
  | .text _ s => appendText out s
  | .output _ items => outputs call out p items
  | .sequence _ items => stmts call limit out p items
  | .conditional _ test body none => do
    let v ← expr call p test
    if (← get).truthy v then stmt call limit out p body else pure ()
  | .conditional _ test body (some otherwise) => do
    let v ← expr call p test
    if (← get).truthy v then stmt call limit out p body else stmt call limit out p otherwise
  | .assign _ targets e => do
    let v ← expr call p e
    stores p.context v targets
  | .loop _ target source body => do
    let frame ← pushFrame p.frame
    let inner := { p with frame }
    let v ← expr call inner source
    match loopNames? target with
    | some (.one name) =>
      sequenceLoop limit inner name v fun q => stmt call limit out q body
    | some (.two key value) =>
      pairLoop limit inner key value v fun q => stmt call limit out q body
    | none => fail (.notValue target.kindName)
  | n => fail (.notValue n.kindName)

/-- What statements do, one after the other. -/
def stmts (call : Call) (limit : Nat) (out : Ref) (p : Place) : List Node → Eval Unit
  | [] => pure ()
  | n :: rest => do
    stmt call limit out p n
    stmts call limit out p rest

end

/-- A new output buffer. -/
def newBuffer : Operation Ref :=
  modifyGet fun w => (w.lists.size, { w with lists := w.lists.push #[] })

/-- The text of a whole template. -/
def root (call : Call) (limit : Nat) (p : Place) (items : List Node) : Eval Value := do
  let out ← newBuffer
  stmts call limit out p items
  joinWith "" (.list out)

end Direct

end Stencil
