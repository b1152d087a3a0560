import Stencil.Value.Text

/-!
# Iterating and indexing

Texts are sequences of one-character texts, dictionaries iterate over their keys, and a one-shot
iterator gives every element once. A loop follows a list or a dictionary while it changes: the
elements of a list are taken by position and the entries of a dictionary slot by slot. A dictionary
must keep its size, and must not have more entries for the loop than it had at the start.

A generator gives the texts of the elements of something, one by one as they are asked for. Once it
has come to the end, or an element had no text, it gives nothing more.
-/

namespace Stencil

namespace Heap

/-- The elements of a value that iteration does not use up; none if it cannot be iterated. -/
def elements? (w : Heap) : Value → Option (List Value)
  | .str s => some (s.toList.map fun c => .ofText (String.singleton c))
  | .tuple items => some items
  | .list r => some (w.listItems r)
  | .dict r | .view .keys r => some ((w.dictEntries r).map (·.1))
  | .view .values r => some ((w.dictEntries r).map (·.2))
  | .view .items r => some ((w.dictEntries r).map fun e => .ofItems [e.1, e.2])
  | .range n => some ((List.range n).map fun (i : Nat) => .ofInt i)
  | .unit r => some ((w.template r).unit.entries.keys.map .ofText)
  | .blockMap r => some ((w.template r).blocks.keys.map .ofText)
  | .cursor r => some (w.cursorRest r)
  | _ => none

/-- The number of elements of a container or text. -/
def length (w : Heap) (v : Value) : Except Fault Nat :=
  match v with
  | .cursor _ => .error (.noLength v.typeName)
  | .str s => .ok s.length
  | .list r => .ok (w.listAt r).size
  | .range n => .ok n
  | _ =>
    match w.elements? v with
    | some items => .ok items.length
    | none => .error (.noLength v.typeName)

/-- The position that an index names in a sequence of the given size; negative indices count from
the end. -/
def position? (size : Nat) (i : Int) : Option Nat :=
  let p := if i < 0 then size + i else i
  if 0 ≤ p ∧ p < size then some p.toNat else none

/-- The element of a sequence under an index. -/
def sequenceItem (sequence : String) (size : Nat) (element? : Nat → Option Value) (key : Value) :
    Except Fault Value :=
  match key.int? with
  | none => .error (.badIndex sequence key.typeName)
  | some i =>
    match (position? size i).bind element? with
    | some v => .ok v
    | none => .error (.indexOutOfRange sequence)

/-- What a mapping with the given entries has under a key. -/
def mappingItem (w : Heap) (entries : List (Value × Value)) (key : Value) : Except Fault Value :=
  match unhashable? key with
  | some t => .error (.unhashable t)
  | none =>
    match w.findEntry? entries key with
    | some v => .ok v
    | none => .error (w.missingKey key)

/-- The types that take arguments. -/
def genericTypes : List String :=
  ["dict", "enumerate", "list", "mappingproxy", "tuple", "type"]

/-- What stands in a container or text under an index or key. A type that takes arguments gives the
type with that argument. -/
def subscript (w : Heap) (v key : Value) : Except Fault Value :=
  match v with
  | .typeObject name =>
    if genericTypes.contains name then .ok (.typeAlias name key)
    else .error (.notSubscriptable v.typeName)
  | .list r => sequenceItem "list" (w.listAt r).size (fun p => (w.listAt r)[p]?) key
  | .tuple items => sequenceItem "tuple" items.length (fun p => items[p]?) key
  | .str s =>
    match key.int? with
    | none => .error (.badTextIndex key.typeName)
    | some i =>
      match (position? s.length i).bind fun p => s.toList[p]? with
      | some c => .ok (.ofText (String.singleton c))
      | none => .error (.indexOutOfRange "string")
  | .range n => sequenceItem "range object" n (fun p => some (.ofInt p)) key
  | _ =>
    match w.mapping? v with
    | some entries => w.mappingItem entries key
    | none => .error (.notSubscriptable v.typeName)

end Heap

namespace Traversal

/-- The beginning of what can be gone through without a generator; none if the value is nothing of
that kind. -/
def start? (w : Heap) : Value → Option Traversal
  | .list r => some (.listFrom r 0)
  | .dict r => some (.dictFrom .keys r 0 (w.dictAt r).size (w.dictAt r).size)
  | .view kind r => some (.dictFrom kind r 0 (w.dictAt r).size (w.dictAt r).size)
  | .cursor r => some (.cursor r)
  | v => (w.elements? v).map .fixed

/-- The number of elements still to come, if nothing changes. -/
def left (w : Heap) : Traversal → Nat
  | .fixed rest => rest.length
  | .listFrom r next => (w.listAt r).size - next
  | .dictFrom _ _ _ _ left => left
  | .cursor r => (w.cursorRest r).length

/-- Whether there may come more elements than are there now. -/
def canGrow : Traversal → Bool
  | .listFrom .. => true
  | _ => false

/-- The next element and the rest behind it; none at the end. -/
def next : Traversal → Operation (Option (Value × Traversal))
  | .fixed [] => return none
  | .fixed (v :: rest) => return some (v, .fixed rest)
  | .listFrom r i => do
    let w ← get
    match (w.listAt r)[i]? with
    | some v => return some (v, .listFrom r (i + 1))
    | none => return none
  | .dictFrom kind r slot size left => do
    let d := (← get).dictAt r
    if d.size != size then
      Eval.fail .dictChanged
    match d.entryFrom? slot, left with
    | none, _ => return none
    | some _, 0 => Eval.fail .dictKeysChanged
    | some ((k, v), slot), left + 1 =>
      let element ← match kind with
        | .keys => pure k
        | .values => pure v
        | .items => Eval.newTuple [k, v]
      return some (element, .dictFrom kind r slot size left)
  | .cursor r => do
    let w ← get
    match w.cursorRest r with
    | [] => return none
    | v :: rest =>
      modify fun w => { w with cursors := w.cursors.set r rest }
      return some (v, .cursor r)

end Traversal

namespace Eval

/-- The generator of the texts of a value's elements. The texts of a generator's elements are what
that generator gives. -/
def textsOf (v : Value) : Operation Value := do
  match v with
  | .generator r => return .generator (o := ← newOrigin) r
  | _ =>
    match Traversal.start? (← heap) v with
    | some t => newGenerator t
    | none => fail (.notIterable v.typeName)

/-- The next text of a generator; none at the end. The generator has ended unless it gives one. -/
def nextText (r : Ref) : Operation (Option Value) := do
  let t ← modifyGet fun w =>
    (w.generatorAt r, { w with generators := w.generators.set r (.fixed []) })
  match ← t.next with
  | none => return none
  | some (v, t) =>
    let text ← toText v
    modify fun w => { w with generators := w.generators.set r t }
    return some text

/-- The texts that a generator gives, at most as many as the first argument says, behind those in
`taken`, which are in reverse order. -/
def restOfTexts (r : Ref) : Nat → List Value → Operation (List Value)
  | 0, taken => return taken.reverse
  | n + 1, taken => do
    match ← nextText r with
    | none => return taken.reverse
    | some v => restOfTexts r n (v :: taken)

/-- All elements of a value in order. One-shot iterators and generators are empty afterwards. -/
def elements : Value → Operation (List Value)
  | .numbered source => do
    let items ← elements source
    items.zipIdx.mapM fun (x, i) => do newTuple [← newInt i, x]
  | .str s => s.toList.mapM fun c => newText (String.singleton c)
  | .view .items r => do ((← heap).dictEntries r).mapM fun e => newTuple [e.1, e.2]
  | .cursor r => modifyGet fun w => (w.cursorRest r, { w with cursors := w.cursors.set r [] })
  | .generator r => do
    let w ← heap
    restOfTexts r ((w.generatorAt r).left w + 1) []
  | v => do
    match (← heap).elements? v with
    | some items => return items
    | none => fail (.notIterable v.typeName)

/-- The number of elements of a container or text. -/
def length (v : Value) : Operation Nat := do
  ofExcept ((← heap).length v)

/-- The object that an element of a value is: a character is a new text, any other element the
object that the container holds. -/
def taken (v element : Value) : Operation Value :=
  match v with
  | .str _ => renew element
  | _ => return element

/-- What stands in a container or text under an index or key. -/
def subscript (v key : Value) : Operation Value := do
  taken v (← ofExcept ((← heap).subscript v key))

/-- A key must not be something that can change. -/
def checkKey (key : Value) : Operation Unit :=
  match Heap.unhashable? key with
  | some t => fail (.unhashable t)
  | none => pure ()

/-- Bind a key in a dictionary object. -/
def setEntry (r : Ref) (key v : Value) : Operation Unit := do
  let w ← heap
  modify fun o => { o with dicts := o.dicts.set r (w.insertEntry key v (w.dictAt r)) }

/-- Whether a value occurs among the texts that a generator gives, looking at no more than the first
argument says. What was looked at is used up. -/
def withinTexts (x : Value) (r : Ref) : Nat → Operation Bool
  | 0 => return false
  | n + 1 => do
    match ← nextText r with
    | none => return false
    | some v => if (← heap).same v x then return true else withinTexts x r n

/-- Whether a value occurs in a container; in a text, whether a text is a part of it. The search in
a one-shot iterator or a generator uses up what it has looked at. -/
def within (x container : Value) : Operation Bool := do
  let w ← heap
  match container with
  | .str s =>
    match x with
    | .str part => return Report.occursIn part.toList s.toList
    | _ => fail (.arity s!"'in <string>' requires string as left operand, not {x.typeName}")
  | .dict _ | .view .keys _ | .unit _ | .blockMap _ =>
    match Heap.unhashable? x with
    | some t => fail (.unhashable t)
    | none => return ((w.elements? container).getD []).any fun k => w.same k x
  | .cursor r =>
    let found := (w.cursorRest r).dropWhile fun y => !w.same y x
    modify fun w => { w with cursors := w.cursors.set r (found.drop 1) }
    return !found.isEmpty
  | .generator r => withinTexts x r ((w.generatorAt r).left w + 1)
  | _ =>
    match w.elements? container with
    | some items => return items.any fun y => w.same y x
    | none => fail (.notContainer container.typeName)

end Eval

/-- How far a loop has come through what it iterates over: something that is gone through, the texts
of a generator, or the elements of another iteration with their positions. -/
inductive Iteration where
  | over (t : Traversal)
  | texts (r : Ref)
  | numbered (next : Nat) (source : Iteration)
  deriving Inhabited

namespace Iteration

/-- The start of an iteration; none if the value cannot be iterated. -/
def start? (w : Heap) : Value → Option Iteration
  | .generator r => some (.texts r)
  | .numbered source => (start? w source).map (.numbered 0)
  | v => (Traversal.start? w v).map .over

/-- The number of rounds after which an iteration must have ended, if there is one. -/
def limit? (w : Heap) : Iteration → Option Nat
  | .over t => if t.canGrow then none else some (t.left w)
  | .texts r =>
    let t := w.generatorAt r
    if t.canGrow then none else some (t.left w)
  | .numbered _ source => source.limit? w

/-- The next element and the iteration behind it; none at the end. -/
def next : Iteration → Operation (Option (Value × Iteration))
  | .over t => do
    match ← t.next with
    | some (v, t) => return some (v, .over t)
    | none => return none
  | .texts r => do
    match ← Eval.nextText r with
    | some v => return some (v, .texts r)
    | none => return none
  | .numbered i source => do
    match ← source.next with
    | some (v, source) =>
      return some (← Eval.newTuple [← Eval.newInt i, v], .numbered (i + 1) source)
    | none => return none

end Iteration

end Stencil
