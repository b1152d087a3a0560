import Stencil.Decimal.Reading
import Stencil.Value.Method

/-!
# The built-in filters

A filter takes the filtered value as its first argument. Missing values, the empty value and the
empty text, get special care where a filter would make no sense of them.
-/

namespace Stencil

/-- The parameters of a function: those that must be given, and those that may be left out. -/
structure Parameters where
  required : List String
  optional : List String := []

/-- A list of quoted names as a phrase. -/
def namesPhrase (names : List String) : String :=
  let quoted := names.map fun n => "'" ++ n ++ "'"
  match quoted with
  | [] => ""
  | [a] => a
  | [a, b] => s!"{a} and {b}"
  | _ => ", ".intercalate quoted.dropLast ++ ", and " ++ quoted.getLastD ""

/-- A number of arguments as a phrase. -/
def argumentsPhrase (n : Nat) : String :=
  if n = 1 then "positional argument" else "positional arguments"

/-- The complaint about a wrong number of arguments. -/
def arityMessage? (function : String) (p : Parameters) (given : Nat) : Option String :=
  let least := p.required.length
  let most := least + p.optional.length
  if given > most then
    let verb := if given = 1 then "was" else "were"
    let takes :=
      if p.optional.isEmpty then s!"{most} {argumentsPhrase most}"
      else s!"from {least} to {most} positional arguments"
    some s!"{function}() takes {takes} but {given} {verb} given"
  else if given < least then
    let missing := p.required.drop given
    some (s!"{function}() missing {missing.length} required {argumentsPhrase missing.length}: " ++
      namesPhrase missing)
  else
    none

/-- Check the number of arguments of a function. -/
def Eval.checkArity (function : String) (p : Parameters) (given : Nat) : Operation Unit :=
  match arityMessage? function p given with
  | some m => Eval.fail (.arity m)
  | none => pure ()

namespace BuiltinFilter

/-- The parameters of a filter. -/
def parameters : BuiltinFilter → Parameters
  | .replace => ⟨["value", "old", "new"], ["count"]⟩
  | .join => ⟨["value"], ["separator"]⟩
  | .default => ⟨["value"], ["default_value", "boolean"]⟩
  | .int => ⟨["value"], ["default"]⟩
  | _ => ⟨["value"], []⟩

open Eval

/-- Apply a function to the text that a value would output. -/
def onText (f : String → String) (v : Value) : Operation Value := do
  newText (f (← outputOf v))

/-- Apply a function to the text that a value would output; an unchanged text is the same object. -/
def keepingText (f : String → String) (v : Value) : Operation Value := do
  keptText v (f (← outputOf v))

/-- The number of elements; one-shot iterators are used up. -/
def countElements (v : Value) : Operation Value := do
  match v with
  | .none => newInt 0
  | _ =>
    match (← heap).length v with
    | .ok n => newInt n
    | .error _ => newInt (← elements v).length

/-- What the separator makes of the texts of the elements when it is asked to join them. -/
def joinElements (call : Call) (v separator : Value) : Eval Value := do
  match v with
  | .none => return .ofText ""
  | _ =>
    match ← attribute? separator "join" with
    | some joiner => call.value joiner [← textsOf v]
    | none =>
      match separator with
      | .typeObject type | .typeAlias type _ => fail (.missingTypeAttribute type "join")
      | _ => fail (.missingAttribute separator.typeName "join")

/-- The first element, or nothing for a missing or empty value. -/
def firstElement (v : Value) : Operation Value := do
  let w ← heap
  if !w.truthy v then
    return .none
  match Iteration.start? w v with
  | none => fail (.notIterable v.typeName)
  | some it =>
    match ← it.next with
    | some (x, _) => taken v x
    | none => fail .exhausted

/-- The last element, or nothing for a missing or empty value. -/
def lastElement (v : Value) : Operation Value := do
  let w ← heap
  if !w.truthy v then
    return .none
  match w.subscript v (.ofInt (-1)) with
  | .ok x => taken v x
  | .error f =>
    if f.family = .type ∨ f.family = .key then
      match (← elements v).getLast? with
      | some x => return x
      | none => fail (.indexOutOfRange "list")
    else
      fail f

/-- The elements in reverse order: a text for a text, a list for anything else. -/
def reverseElements (v : Value) : Operation Value := do
  match v with
  | .none => newList []
  | .str s => newText (String.ofList s.toList.reverse)
  | _ => newList (← elements v).reverse

/-- The value, or the fallback if it is missing or, on demand, false. -/
def orDefault (v fallback boolean : Value) : Operation Value := do
  let w ← heap
  if w.equal v .none || w.equal v (.ofText "") then
    return fallback
  if w.truthy boolean && !w.truthy v then
    return fallback
  return v

/-- The whole number of a value; none if there is no conversion. -/
def toInt (v : Value) : Except Fault (Option Int) :=
  match v with
  | .bool _ | .int _ => .ok v.int?
  | .float x =>
    match Number.truncate x with
    | .ok n => .ok (some n)
    | .error f => if f.family = .value then .ok none else .error f
  | .str s =>
    match Reading.int? s with
    | some n => .ok (some n)
    | none =>
      match Reading.float? s with
      | none => .ok none
      | some x =>
        match Number.truncate x with
        | .ok n => .ok (some n)
        | .error f => if f.family = .value then .ok none else .error f
  | _ => .ok none

/-- Apply a filter to arguments of the right number. -/
def run (call : Call) (f : BuiltinFilter) (args : List Value) : Eval Value := do
  let value := args.headD .none
  let argument (i : Nat) (other : Value) : Value := (args.drop i).headD other
  match f with
  | .upper => onText Text.upper value
  | .lower => onText Text.lower value
  | .title => onText Text.title value
  | .capitalize => onText Text.capitalize value
  | .trim => keepingText Text.trim value
  | .string => toText value
  | .replace =>
    let count? := match argument 3 .none with
      | .none => none
      | v => some v
    replaceText value (← outputOf value) (argument 1 .none) (argument 2 .none) count?
  | .length => countElements value
  | .join => joinElements call value (argument 1 (.ofText ""))
  | .first => firstElement value
  | .last => lastElement value
  | .reverse => reverseElements value
  | .default => orDefault value (argument 1 (.ofText "")) (argument 2 (.bool false))
  | .int =>
    match ← ofExcept (toInt value) with
    | some n => if let .int _ := value then return value else newInt n
    | none => return argument 1 (.ofInt 0)

/-- Apply a filter, given how values are called. -/
def apply (call : Call) (f : BuiltinFilter) (args : List Value) : Eval Value := do
  checkArity ("_filter_" ++ f.name) f.parameters args.length
  f.run call args

end BuiltinFilter

end Stencil
