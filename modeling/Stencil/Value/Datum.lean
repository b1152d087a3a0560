import Stencil.Value.Sequence

/-!
# Values in and out of a run

A `Datum` is a value without references. `Eval.thaw` makes the objects that a datum describes, each
occurrence a new object, and fails when a key of a dictionary can change. `Heap.freeze` copies a
value with its present contents.
-/

namespace Stencil

namespace Heap

/-- A copy of a value with its present contents, nested at most as deep as the first argument says.
-/
def freezeUpTo (w : Heap) : Nat → Value → Datum
  | 0, v => .other v.typeName
  | n + 1, v =>
    let copy (x : Value) : Datum := freezeUpTo w n x
    match v with
    | .none => .null
    | .bool b => .bool b
    | .int k => .int k
    | .float x => .float x
    | .str s => .str s
    | .tuple items => .tuple (items.map copy)
    | .list r => .list ((w.listItems r).map copy)
    | .dict r => .dict ((w.dictEntries r).map fun e => (copy e.1, copy e.2))
    | .record r =>
      .record (((w.records.get? r).getD {}).entries.map fun e => (e.1, copy e.2))
    | .host f => .host f
    | .macroObject r =>
      let m := w.macroAt r
      .macroObject m.name (m.params.map fun p => (p.1, copy p.2))
    | _ => .other v.typeName

/-- A copy of a value with its present contents. -/
def freeze (w : Heap) (v : Value) : Datum :=
  w.freezeUpTo nestingLimit v

end Heap

namespace Eval

mutual

/-- The value that a datum describes; `saved` are the values that it may refer to by name. -/
def thaw (saved : Table String Value) : Datum → Operation Value
  | .null | .other _ | .macroObject .. => return .none
  | .bool b => return .bool b
  | .int n => newInt n
  | .float x => newFloat x
  | .str s => newText s
  | .list items => do newList (← thawAll saved items)
  | .tuple items => do newTuple (← thawAll saved items)
  | .dict entries => do newDict (← thawEntries saved entries {})
  | .iterator items => do
    let items ← thawAll saved items
    modifyGet fun w => (.cursor w.cursors.size, { w with cursors := w.cursors.push items })
  | .record fields => do
    let fields ← thawFields saved fields
    modifyGet fun w =>
      (.record w.records.size, { w with records := w.records.push (Table.ofList fields) })
  | .host f => return .host (o := ← newOrigin) f
  | .saved name =>
    match saved.find? name with
    | some v => return v
    | none => fail (.keyMissing (Text.quoted name))

/-- The values that data describe. -/
def thawAll (saved : Table String Value) : List Datum → Operation (List Value)
  | [] => return []
  | d :: rest => return (← thaw saved d) :: (← thawAll saved rest)

/-- The dictionary with the entries that pairs of data describe, added one after the other. -/
def thawEntries (saved : Table String Value) : List (Datum × Datum) → Dict → Operation Dict
  | [], d => return d
  | (k, v) :: rest, d => do
    let key ← thaw saved k
    let value ← thaw saved v
    checkKey key
    thawEntries saved rest ((← heap).insertEntry key value d)

/-- The bindings that names with data describe. -/
def thawFields (saved : Table String Value) : List (String × Datum) →
    Operation (List (String × Value))
  | [] => return []
  | (k, d) :: rest => return (k, ← thaw saved d) :: (← thawFields saved rest)

end

end Eval

end Stencil
