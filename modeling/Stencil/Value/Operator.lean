import Stencil.Value.Sequence

/-!
# Operators

The binary and unary operators on values of any types. Sequences can be joined and repeated, and a
text on the left of the remainder sign is a pattern that takes up the values on its right.
-/

namespace Stencil

namespace Eval

/-- The value of a number, in a new object. -/
def ofNumber : Number → Operation Value
  | .int n => newInt n
  | .float x => newFloat x
  | .complex z => return .complex (o := ← newOrigin) z

/-- An operation on numbers; other operands are not supported. -/
def arithmetic (sign : String) (f : Number → Number → Except Fault Number) (a b : Value) :
    Operation Value :=
  match a.number?, b.number? with
  | some x, some y => do ofNumber (← ofExcept (f x y))
  | _, _ => fail (.unsupportedOperands sign a.typeName b.typeName)

/-- Sums of numbers, and joined texts, lists and tuples. A text or tuple joined with an empty one is
the same object. -/
def add (a b : Value) : Operation Value := do
  let w ← heap
  match a, b with
  | .str "", .str _ | .tuple [], .tuple _ => return b
  | .str _, .str "" | .tuple _, .tuple [] => return a
  | .str s, .str t => newText (s ++ t)
  | .list r, .list s => newList (w.listItems r ++ w.listItems s)
  | .tuple xs, .tuple ys => newTuple (xs ++ ys)
  | .str _, _ | .list _, _ | .tuple _, _ => fail (.cannotConcatenate a.typeName b.typeName)
  | _, _ => arithmetic "+" Number.add a b

/-- A list of items repeated; a negative count gives none. -/
def repeated {α : Type} (items : List α) (count : Int) : List α :=
  if items.isEmpty then [] else (List.replicate count.toNat items).flatten

/-- A sequence repeated. -/
def repeatSequence (v : Value) (by_ : Value) : Operation Value := do
  match by_.int? with
  | none => fail (.cannotRepeat by_.typeName)
  | some n =>
    if n ≥ twoPow 63 ∨ n < -(twoPow 63) then
      fail .indexTooLarge
    match v with
    | .str s => if n = 1 then return v else newText (String.ofList (repeated s.toList n))
    | .tuple items => if n = 1 then return v else newTuple (repeated items n)
    | .list r => newList (repeated ((← heap).listItems r) n)
    | _ => fail (.cannotRepeat by_.typeName)

/-- Whether a value is a sequence that can be repeated. -/
def isRepeatable : Value → Bool
  | .str _ | .tuple _ | .list _ => true
  | _ => false

/-- Products of numbers, and repeated sequences. -/
def mul (a b : Value) : Operation Value :=
  if isRepeatable a then repeatSequence a b
  else if isRepeatable b then repeatSequence b a
  else arithmetic "*" Number.mul a b

/-- The whole number that a pattern prints for a value. -/
def formatInt (v : Value) : Except Fault Int :=
  match v.number? with
  | some (.int n) => .ok n
  | some (.float x) => Number.truncate x
  | _ => .error (.formatNeedsNumber 'd' v.typeName)

/-- The text of a pattern from a position on, with the values it has not used. -/
def formatFrom (w : Heap) : Nat → List Char → List Value → Except Fault (List Char × List Value)
  | _, [], args => .ok ([], args)
  | i, '%' :: '%' :: rest, args => do
    let (text, args) ← formatFrom w (i + 2) rest args
    return ('%' :: text, args)
  | _, ['%'], _ => .error .incompleteFormat
  | i, '%' :: c :: rest, args =>
    match args with
    | [] => .error .missingFormatArguments
    | v :: args =>
      match c with
      | 's' => do
        let s ← w.text v
        let (text, args) ← formatFrom w (i + 2) rest args
        return (s.toList ++ text, args)
      | 'd' => do
        let s ← decimal (← formatInt v)
        let (text, args) ← formatFrom w (i + 2) rest args
        return (s.toList ++ text, args)
      | _ => .error (.badFormatCharacter c (i + 1))
  | i, c :: rest, args => do
    let (text, args) ← formatFrom w (i + 1) rest args
    return (c :: text, args)

/-- A pattern filled in. A tuple gives several values, anything else one; a value that looks like a
mapping may stay unused. -/
def format (w : Heap) (pattern : String) (v : Value) : Except Fault String := do
  let args := match v with
    | .tuple items => items
    | v => [v]
  let (text, rest) ← formatFrom w 0 pattern.toList args
  let mayStay := match v with
    | .dict _ | .list _ | .range _ | .unit _ | .blockMap _ => true
    | _ => false
  if rest.isEmpty || mayStay then return String.ofList text
  else .error .unusedFormatArguments

/-- Remainders of numbers, and filled-in patterns. -/
def mod (a b : Value) : Operation Value := do
  match a with
  | .str pattern => newText (← ofExcept (format (← heap) pattern b))
  | _ =>
    match a.number?, b.number? with
    | some (.complex ..), _ | _, some (.complex ..) =>
      fail (.unsupportedOperands "%" a.typeName b.typeName)
    | _, _ => arithmetic "%" Number.mod a b

/-- A binary operator of generated code. -/
def binary (op : Script.BinOp) (a b : Value) : Operation Value :=
  match op with
  | .add => add a b
  | .sub => arithmetic "-" Number.sub a b
  | .mult => mul a b
  | .div => arithmetic "/" Number.div a b
  | .mod => mod a b

/-- Powers of numbers. -/
def power (a b : Value) : Operation Value :=
  arithmetic "** or pow()" Number.pow a b

/-- The floor of a number. -/
def floor (v : Value) : Operation Value :=
  match v.number? with
  | some n => do newInt (← ofExcept n.floor)
  | none => fail (.notReal v.typeName)

/-- A unary operator of generated code. -/
def unary (op : Script.UnaryOp) (v : Value) : Operation Value := do
  match op with
  | .not => return .bool (!(← heap).truthy v)
  | .neg =>
    match v.number? with
    | some n => ofNumber n.neg
    | none => fail (.badOperand "-" v.typeName)
  | .pos =>
    match v with
    | .int _ | .float _ | .complex _ => return v
    | _ =>
      match v.number? with
      | some n => ofNumber n
      | none => fail (.badOperand "+" v.typeName)

/-- A comparison of generated code. -/
def compareBy (op : Script.CompareOp) (a b : Value) : Operation Bool := do
  let w ← heap
  match op with
  | .eq => return w.equal a b
  | .ne => return !w.equal a b
  | .lt => ofExcept (w.order .lt a b)
  | .gt => ofExcept (w.order .gt a b)
  | .le => ofExcept (w.order .le a b)
  | .ge => ofExcept (w.order .ge a b)
  | .is => return a.identical b
  | .isNot => return !a.identical b
  | .within => within a b

end Eval

end Stencil
