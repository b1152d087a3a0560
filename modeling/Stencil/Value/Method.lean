import Stencil.Text.Case
import Stencil.Text.Pieces
import Stencil.Value.Attribute

/-!
# Methods

What the methods of texts, lists and dictionaries do, and how a template reaches the members of a
value. A method that changes nothing about a text gives back the same object.
-/

namespace Stencil

namespace Eval

/-- A method that takes no arguments was given some. -/
def noArguments (name : String) (args : List Value) (x : Operation Value) : Operation Value :=
  if args.isEmpty then x
  else fail (.arity s!"{name}() takes no arguments ({args.length} given)")

/-- How many arguments a message speaks of. -/
def argumentCount (n : Nat) : String :=
  if n = 1 then "1 argument" else s!"{n} arguments"

/-- Check the number of arguments of a method that takes between `least` and `most`. -/
def checkCount (name : String) (least most : Nat) (args : List Value) : Operation Unit := do
  if args.length < least then
    let word := if least = most then "" else "at least "
    fail (.arity s!"{name} expected {word}{argumentCount least}, got {args.length}")
  if args.length > most then
    let word := if least = most then "" else "at most "
    fail (.arity s!"{name} expected {word}{argumentCount most}, got {args.length}")

/-- Check that a method got exactly one argument. -/
def oneArgument (name : String) (args : List Value) (f : Value → Operation Value) :
    Operation Value :=
  match args with
  | [v] => f v
  | _ => fail (.arity s!"{name}() takes exactly one argument ({args.length} given)")

/-- The name of a value's type in a message about an argument. -/
def argumentType : Value → String
  | .none => "None"
  | v => v.typeName

/-- A text argument of a method. -/
def textArgument (function argument : String) : Value → Operation String
  | .str s => return s
  | v => fail (.badArgument function argument "str" (argumentType v))

/-- A whole-number argument of a method. -/
def intArgument (v : Value) : Operation Int :=
  match v.int? with
  | some n =>
    if n ≥ twoPow 63 ∨ n < -(twoPow 63) then fail .sizeTooLarge else return n
  | none => fail (.notIndex v.typeName)

/-- A limit given as a number; a negative one means no limit. -/
def limit? (n : Int) : Option Nat :=
  if n < 0 then none else some n.toNat

/-- Replace parts of the text of a value. -/
def replaceText (v : Value) (s : String) (old new : Value) (count? : Option Value) :
    Operation Value := do
  let old ← textArgument "replace" "argument 1" old
  let new ← textArgument "replace" "argument 2" new
  let times? ← match count? with
    | none => pure none
    | some v => do pure (limit? (← intArgument v))
  keptText v (Text.replace s old new times?)

/-- The parts of a text between separators or blanks. -/
def splitText (self : Value) (s : String) (sep : Value) (limit : Option Nat) : Operation Value := do
  let cuts := limit.getD (s.length + 1)
  let pieces ← match sep with
    | .none => pure (Text.splitBlank cuts s.toList)
    | .str "" => fail .emptySeparator
    | .str sep => pure (Text.splitOn sep.toList cuts s.toList)
    | v => fail (.splitNeedsText v.typeName)
  newList (← pieces.mapM fun p => keptText self (String.ofList p))

/-- An end of a section of a text, if it is given. -/
def sectionArgument : Value → Operation (Option Int)
  | .none => return none
  | v =>
    match v.int? with
    | some n => return some n
    | none => fail .sectionNeedsIndex

/-- Whether a text has one of the beginnings or endings that an argument names. -/
def affixText (function : String) (test : String → Bool) : Value → Operation Value
  | .str s => return .bool (test s)
  | .tuple items => tupleTest items
  | v => fail (.affixNeedsText function v.typeName)
where
  /-- Whether one of the texts in a tuple passes the test. -/
  tupleTest : List Value → Operation Value
    | [] => return .bool false
    | .str s :: rest => if test s then return .bool true else tupleTest rest
    | v :: _ => fail (.affixTupleNeedsText function v.typeName)

/-- The texts of values that are to be joined. -/
def joinTexts : Nat → List Value → Operation (List String)
  | _, [] => return []
  | i, .str s :: rest => return s :: (← joinTexts (i + 1) rest)
  | i, v :: _ => fail (.joinNeedsText i v.typeName)

/-- Join the texts of an iterable with a separator. -/
def joinWith (sep : String) (v : Value) : Operation Value := do
  let some _ := Iteration.start? (← heap) v | fail .joinNeedsIterable
  let items ← elements v
  let texts ← joinTexts 0 items
  match items with
  | [item] => return item
  | _ => newText (sep.intercalate texts)

/-- A method of a text. -/
def textMethod (self : Value) (s : String) (name : String) (args : List Value) :
    Operation Value := do
  match name with
  | "upper" => noArguments "str.upper" args (newText (Text.upper s))
  | "lower" => noArguments "str.lower" args (newText (Text.lower s))
  | "title" => noArguments "str.title" args (newText (Text.title s))
  | "capitalize" => noArguments "str.capitalize" args (newText (Text.capitalize s))
  | "strip" =>
    checkCount "strip" 0 1 args
    match args with
    | [] | [.none] => keptText self (Text.trim s)
    | .str drop :: _ => keptText self (Text.trimChars drop s)
    | _ => fail .stripNeedsText
  | "split" =>
    if args.length > 2 then
      fail (.arity s!"split() takes at most 2 arguments ({args.length} given)")
    let limit ← match args with
      | _ :: v :: _ => do pure (limit? (← intArgument v))
      | _ => pure none
    splitText self s (args.headD .none) limit
  | "replace" =>
    checkCount "replace" 2 3 args
    match args with
    | old :: new :: rest => replaceText self s old new rest.head?
    | _ => return self
  | "startswith" | "endswith" =>
    if args.isEmpty then
      fail (.arity s!"{name}() takes at least 1 argument (0 given)")
    if args.length > 3 then
      fail (.arity s!"{name}() takes at most 3 arguments ({args.length} given)")
    let start? ← sectionArgument ((args.drop 1).headD .none)
    let stop? ← sectionArgument ((args.drop 2).headD .none)
    let hasAffix := if name == "startswith" then Text.startsWith else Text.endsWith
    let test (affix : String) : Bool :=
      (Text.section? s start? stop?).any fun part => hasAffix part affix
    affixText name test (args.headD .none)
  | "join" => oneArgument "str.join" args (joinWith s)
  | _ => fail (.notCallable "str")

/-- A method of a list. -/
def listMethod (r : Ref) (name : String) (args : List Value) : Operation Value := do
  match name with
  | "append" =>
    oneArgument "list.append" args fun v => do
      modify fun w => { w with lists := w.lists.modify r fun items => items.push v }
      return .none
  | "pop" =>
    checkCount "pop" 0 1 args
    let i ← match args with
      | v :: _ => intArgument v
      | [] => pure (-1)
    let w ← heap
    let items := w.listItems r
    if items.isEmpty then
      fail .popFromEmptyList
    let i := if i < 0 then i + items.length else i
    if i < 0 ∨ i ≥ items.length then
      fail .popIndexOutOfRange
    modify fun o => { o with lists := o.lists.set r (items.eraseIdx i.toNat).toArray }
    return items[i.toNat]?.getD .none
  | _ => fail (.notCallable "list")

/-- A method of a dictionary. -/
def dictMethod (r : Ref) (name : String) (args : List Value) : Operation Value := do
  match name with
  | "get" =>
    checkCount "get" 1 2 args
    let key := args.headD .none
    checkKey key
    let w ← heap
    return (w.findEntry? (w.dictEntries r) key).getD ((args.drop 1).headD .none)
  | "keys" => noArguments "dict.keys" args (return .view .keys r)
  | "values" => noArguments "dict.values" args (return .view .values r)
  | "items" => noArguments "dict.items" args (return .view .items r)
  | "pop" =>
    checkCount "pop" 1 2 args
    let key := args.headD .none
    let w ← heap
    let entries := w.dictEntries r
    if !entries.isEmpty then
      checkKey key
    match w.findEntry? entries key, args.drop 1 with
    | some v, _ =>
      modify fun o =>
        { o with dicts := o.dicts.set r ((w.dictAt r).remove fun k => w.same k key) }
      return v
    | none, other :: _ => return other
    | none, [] => fail (w.missingKey key)
  | _ => fail (.notCallable "dict")

/-- The call of a method of a text, a list or a dictionary. -/
def method (self : Value) (name : String) (args : List Value) : Operation Value :=
  match self with
  | .str s => textMethod self s name args
  | .list r => listMethod r name args
  | .dict r => dictMethod r name args
  | v => fail (.notCallable v.typeName)

/-- The call of a method taken from a type: its first argument is the value it works on. -/
def unboundMethod (type name : String) (args : List Value) : Operation Value :=
  match args with
  | [] => fail (.arity s!"unbound method {type}.{name}() needs an argument")
  | self :: rest =>
    if (Heap.typeChain self.typeName).contains type then method self name rest
    else
      fail (.arity (s!"descriptor '{name}' for '{type}' objects doesn't apply to a " ++
        s!"'{self.typeName}' object"))

/-- The attribute of a value under a name. The parts of a complex number and the blocks of a
compiled unit come as new objects, and a template gives out its environment only while that is
alive. -/
def attribute? (v : Value) (name : String) : Operation (Option Value) := do
  let w ← heap
  match v, name with
  | .complex z, "real" => return some (← newFloat z.re)
  | .complex z, "imag" => return some (← newFloat z.im)
  | .unit r, "blocks" => return some (← newDict (.ofEntries (w.template r).blockEntries))
  | .template r, "_env" =>
    if w.env.alive then return some .environment
    else fail (.environmentGone (RenderState.nameText (w.template r).name?))
  | _, _ => return w.attribute? v name

/-- Whether a value carries the marker of macros. -/
def isMacro (v : Value) : Operation Bool := do
  match (← heap).attribute? v "is_macro" with
  | some (.bool true) => return true
  | _ => return false

/-- The member of a value under a key: what stands under it as an index or key, else the attribute
of that name, else nothing. Nothing has members of its own, and neither has the empty text. -/
def member (v key : Value) : Operation Value := do
  match v with
  | .none | .str "" => return .none
  | _ =>
    match (← heap).subscript v key with
    | .ok x => taken v x
    | .error _ =>
      match key with
      | .str name => return (← attribute? v name).getD .none
      | _ => return .none

end Eval

end Stencil
