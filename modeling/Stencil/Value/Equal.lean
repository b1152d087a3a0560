import Stencil.Value.Number
import Stencil.World

/-!
# Identity, equality, order and truth

Two values are equal when they are the same number, the same text, or containers with equal
contents; other objects are equal only to themselves. Inside containers an object counts as equal to
itself, so a list with a NaN object equals itself although the NaN does not. Containers may be
nested up to a fixed depth.
-/

namespace Stencil

/-- How deep containers may be nested for their contents to be compared or printed. -/
def nestingLimit : Nat := 1000

namespace Value

mutual

/-- Whether two values are one and the same object. Floating-point constants of equal content are
one object, unless they are NaN. -/
def identical : Value → Value → Bool
  | none, none => true
  | bool b, bool c => b == c
  | int (o := o) m, int (o := p) n => o == p && m == n
  | float (o := o) x, float (o := p) y =>
    x.toBits == y.toBits &&
      (o == p || (o.isConstant && p.isConstant && !Binary64.isNan x))
  | complex (o := o) z, complex (o := p) w =>
    o == p && z.re.toBits == w.re.toBits && z.im.toBits == w.im.toBits
  | str (o := o) s, str (o := p) t => o == p && s == t
  | tuple (o := o) xs, tuple (o := p) ys => o == p && identicalAll xs ys
  | list r, list s | dict r, dict s | cursor r, cursor s | record r, record s
  | function r, function s | macroObject r, macroObject s | template r, template s
  | unit r, unit s | blockMap r, blockMap s => r == s
  | view k r, view l s => k == l && r == s
  | generator (o := o) r, generator (o := p) s => o == p && r == s
  | host (o := o) f, host (o := p) g => o == p && f == g
  | filter f, filter g => f == g
  | method k v m, method l u n => k == l && m == n && identical v u
  | bound v m, bound u n => m == n && identical v u
  | typeObject s, typeObject t => s == t
  | typeAlias s v, typeAlias t u => s == t && identical v u
  | environment, environment => true
  | _, _ => false

/-- Whether two lists hold the same objects in the same order. -/
def identicalAll : List Value → List Value → Bool
  | [], [] => true
  | v :: rest, u :: others => identical v u && identicalAll rest others
  | _, _ => false

end

end Value

namespace Template

/-- The entry points of a template as the entries of a mapping. -/
def unitEntries (t : Template) : List (Value × Value) :=
  t.unit.entries.entries.map fun e => (.ofText e.1, e.2)

/-- The blocks of a template as the entries of a mapping. -/
def blockEntries (t : Template) : List (Value × Value) :=
  t.blocks.entries.map fun e => (.ofText e.1, e.2)

end Template

namespace Heap

/-- The entries of a value that maps keys to values. -/
def mapping? (w : Heap) : Value → Option (List (Value × Value))
  | .dict r => some (w.dictEntries r)
  | .unit r => some (w.template r).unitEntries
  | .blockMap r => some (w.template r).blockEntries
  | _ => none

/-- Equality of values nested at most as deep as the first argument says. -/
def equalUpTo (w : Heap) : Nat → Value → Value → Bool
  | 0, _, _ => false
  | n + 1, a, b =>
    let same (x y : Value) : Bool := x.identical y || equalUpTo w n x y
    let sameAll (xs ys : List Value) : Bool :=
      xs.length == ys.length && (xs.zip ys).all fun p => same p.1 p.2
    match a.number?, b.number? with
    | some x, some y => x.eq y
    | _, _ =>
      match a, b with
      | .none, .none => true
      | .str s, .str t => s == t
      | .tuple xs, .tuple ys => sameAll xs ys
      | .list r, .list s => sameAll (w.listItems r) (w.listItems s)
      | .range m, .range k => m == k
      | _, _ =>
        match w.mapping? a, w.mapping? b with
        | some xs, some ys =>
          xs.length == ys.length && xs.all fun x =>
            match ys.find? fun y => same y.1 x.1 with
            | some y => same x.2 y.2
            | none => false
        | _, _ => a.identical b

/-- Equality of values. -/
def equal (w : Heap) (a b : Value) : Bool :=
  w.equalUpTo nestingLimit a b

/-- Equality of the elements of containers: an object also equals itself. -/
def same (w : Heap) (a b : Value) : Bool :=
  a.identical b || w.equal a b

/-- The type that makes a value unfit as a key: something that can change. -/
def unhashable? : Value → Option String
  | .list _ => some "list"
  | .dict _ => some "dict"
  | .view .keys _ => some "dict_keys"
  | .view .items _ => some "dict_items"
  | .unit _ => some "CompiledUnit"
  | .blockMap _ => some "mappingproxy"
  | .tuple items => unhashableIn? items
  | _ => none
where
  /-- The type that makes one of the values unfit as a key. -/
  unhashableIn? : List Value → Option String
    | [] => none
    | v :: rest => unhashable? v <|> unhashableIn? rest

/-- The entry of a key in a list of entries. -/
def findEntry? (w : Heap) (entries : List (Value × Value)) (key : Value) : Option Value :=
  (entries.find? fun e => w.same e.1 key).map (·.2)

/-- Replace the entry of a key, or add it at the end; the key that came first stays. -/
def insertEntry (w : Heap) (key value : Value) (d : Dict) : Dict :=
  if d.entries.any fun e => w.same e.1 key then d.update (fun k => w.same k key) value
  else d.add key value

/-- Whether a value counts as true in a condition: numbers other than zero, containers and texts
that are not empty, and all other objects. -/
def truthy (w : Heap) : Value → Bool
  | .none => false
  | .bool b => b
  | .int n => n != 0
  | .float x => !Binary64.isZero x
  | .complex z => !z.isZero
  | .str s => !s.isEmpty
  | .tuple items => !items.isEmpty
  | .list r => !(w.listAt r).isEmpty
  | .dict r | .view _ r => !(w.dictEntries r).isEmpty
  | .range n => n != 0
  | .unit r => (w.template r).unit.entries.size != 0
  | .blockMap r => (w.template r).blocks.size != 0
  | _ => true

end Heap

/-- The order relations. -/
inductive OrderOp where
  | lt | gt | le | ge
  deriving DecidableEq, Inhabited, Repr

namespace OrderOp

/-- The sign of an order relation. -/
def sign : OrderOp → String
  | lt => "<"
  | gt => ">"
  | le => "<="
  | ge => ">="

/-- Decide an order relation from "less" and "less or equal", each as a function of two operands. -/
def decide {α : Type} (op : OrderOp) (less lessEq : α → α → Bool) (a b : α) : Bool :=
  match op with
  | lt => less a b
  | gt => less b a
  | le => lessEq a b
  | ge => lessEq b a

end OrderOp

namespace Heap

/-- The first pair of elements at the same place that are not the same. -/
def firstDifference (w : Heap) : List Value → List Value → Option (Value × Value)
  | x :: xs, y :: ys => if w.same x y then firstDifference w xs ys else some (x, y)
  | _, _ => none

/-- Order of values nested at most as deep as the first argument says. Sequences compare by their
first difference, or else by their lengths. -/
def orderUpTo (w : Heap) (op : OrderOp) : Nat → Value → Value → Except Fault Bool
  | 0, a, b => .error (.unordered op.sign a.typeName b.typeName)
  | n + 1, a, b =>
    let unordered : Except Fault Bool := .error (.unordered op.sign a.typeName b.typeName)
    let sequences (xs ys : List Value) : Except Fault Bool :=
      match w.firstDifference xs ys with
      | some (x, y) => orderUpTo w op n x y
      | none =>
        .ok (op.decide (fun (i j : Nat) => i < j) (fun i j => i ≤ j) xs.length ys.length)
    match a.number?, b.number? with
    | some x, some y =>
      let result : Option Bool := match op with
        | .lt => x.lt? y
        | .gt => y.lt? x
        | .le => x.le? y
        | .ge => y.le? x
      match result with
      | some r => .ok r
      | none => unordered
    | _, _ =>
      match a, b with
      | .str s, .str t => .ok (op.decide (fun s t : String => s < t) (fun s t => !(t < s)) s t)
      | .tuple xs, .tuple ys => sequences xs ys
      | .list r, .list s => sequences (w.listItems r) (w.listItems s)
      | _, _ => unordered

/-- Order of values. -/
def order (w : Heap) (op : OrderOp) (a b : Value) : Except Fault Bool :=
  w.orderUpTo op nestingLimit a b

end Heap

end Stencil
