import Stencil.Text.Literal
import Stencil.Value.Equal

/-!
# Values as text

A value has a printed form, in which texts are quoted, and a text form, in which a text stands for
itself. A container that contains itself is shown as dots inside itself. A macro has a printed form
only if all its parameters are named by texts; the first one that is not is the fault of whatever
prints it.
-/

namespace Stencil

/-- A part of a complex number: without the zero behind the point of a whole one. -/
def complexPart (x : Float) : String :=
  let t := Shortest.text x
  if Text.endsWith t ".0" then String.ofList (t.toList.take (t.length - 2)) else t

/-- The printed form of a complex number. -/
def complexText (re im : Float) : String :=
  if Binary64.isZero re && !Binary64.isNegative re then complexPart im ++ "j"
  else
    let sign := if Binary64.isNegative im && !Binary64.isNan im then "" else "+"
    "(" ++ complexPart re ++ sign ++ complexPart im ++ "j)"

/-- The name of the type that a value is, or else that it has. -/
def typeOf : Value → String
  | .typeObject name => name
  | v => v.typeName

namespace Macro

/-- The names of parameters as texts; the first argument is the position of the first one. -/
def nameTexts : Nat → List Constant → Except Fault (List String)
  | _, [] => return []
  | i, .str s :: rest => return s :: (← nameTexts (i + 1) rest)
  | i, c :: _ => .error (.joinNeedsText i c.typeName)

/-- The printed form of a macro: its name and its parameters. -/
def text (m : Macro) : Except Fault String := do
  let names ← nameTexts 0 (m.params.map (·.1))
  return "<MacroWrapper " ++ m.name.text ++ Text.bracketed "(" ")>" names

end Macro

namespace Template

/-- The printed form of a template. -/
def text (t : Template) : String :=
  let name := match t.name? with
    | some name => if name.isEmpty then "(inline)" else name
    | none => "(inline)"
  s!"<Template {name}>"

end Template

namespace Environment

/-- The printed form of an environment. -/
def text (e : Environment) : String :=
  let loader := match e.loader? with
    | some l => l.typeName
    | none => "None"
  s!"<Environment loader={loader}>"

end Environment

namespace Context

/-- The printed form of a context: the names of its variables and its blocks in order. -/
def text (c : Context) : String :=
  s!"<Context vars={Text.sortedList c.vars.keys} blocks={Text.sortedList c.blocks.keys}>"

end Context

/-- A whole number in decimal notation, unless it has too many digits. -/
def decimal (k : Int) : Except Fault String :=
  if k.natAbs < tenPow digitLimit then return toString k else throw .tooManyDigits

namespace Heap

/-- The printed form of a value nested at most as deep as the first argument says. `around` are the
containers that are being printed. -/
def shownUpTo (w : Heap) : Nat → List Value → Value → Except Fault String
  | 0, _, _ => return "..."
  | n + 1, around, v =>
    let inside (x : Value) : Except Fault String := shownUpTo w n (v :: around) x
    let entry (e : Value × Value) : Except Fault String := do
      let key ← inside e.1
      return key ++ ": " ++ (← inside e.2)
    let pair (e : Value × Value) : Except Fault String := do
      let key ← inside e.1
      return Text.bracketed "(" ")" [key, ← inside e.2]
    let within := around.any v.identical
    match v with
    | .none => return "None"
    | .bool b => return if b then "True" else "False"
    | .int k => decimal k
    | .float x => return Shortest.text x
    | .complex z => return complexText z.re z.im
    | .str s => return Text.quoted s
    | .tuple [] => return "()"
    | .tuple [x] => if within then return "(...)" else return "(" ++ (← inside x) ++ ",)"
    | .tuple items =>
      if within then return "(...)" else return Text.bracketed "(" ")" (← items.mapM inside)
    | .list r =>
      if within then return "[...]"
      else return Text.bracketed "[" "]" (← (w.listItems r).mapM inside)
    | .dict r =>
      if within then return "\x7b...\x7d"
      else return Text.bracketed "\x7b" "\x7d" (← (w.dictEntries r).mapM entry)
    | .view .keys r =>
      return Text.bracketed "dict_keys([" "])" (← (w.dictEntries r).mapM fun e => inside e.1)
    | .view .values r =>
      return Text.bracketed "dict_values([" "])" (← (w.dictEntries r).mapM fun e => inside e.2)
    | .view .items r =>
      return Text.bracketed "dict_items([" "])" (← (w.dictEntries r).mapM pair)
    | .range k => return s!"range(0, {k})"
    | .record _ => return "<obj>"
    | .host f => return s!"<fn {f.name}>"
    | .macroObject r => (w.macroAt r).text
    | .template r => return (w.template r).text
    | .unit r => return (w.template r).unit.text
    | .blockMap r =>
      return Text.bracketed "mappingproxy(\x7b" "\x7d)"
        (← (w.template r).blockEntries.mapM entry)
    | .typeObject name => return s!"<class '{name}'>"
    | .typeAlias name argument => return Text.bracketed (name ++ "[") "]" [← inside argument]
    | .method .unbound self name => return s!"<method '{name}' of '{typeOf self}' objects>"
    | .method .unboundSlot self name =>
      return s!"<slot wrapper '{name}' of '{typeOf self}' objects>"
    | .environment => return w.env.text
    | _ => return s!"<{v.typeName}>"

/-- The printed form of a value, in which texts are quoted. -/
def shown (w : Heap) (v : Value) : Except Fault String :=
  w.shownUpTo nestingLimit [] v

/-- The text form of a value: a text stands for itself, and the blocks of a template are written
like a dictionary. -/
def text (w : Heap) : Value → Except Fault String
  | .str s => return s
  | .blockMap r => do
    let entries ← (w.template r).blockEntries.mapM fun e => do
      let key ← w.shown e.1
      return key ++ ": " ++ (← w.shown e.2)
    return Text.bracketed "\x7b" "\x7d" entries
  | v => w.shown v

/-- The text that a value contributes to the output: nothing for the empty value. -/
def outputText (w : Heap) : Value → Except Fault String
  | .none => return ""
  | v => w.text v

/-- The fault that a mapping does not have a key. -/
def missingKey (w : Heap) (key : Value) : Fault :=
  match w.shown key with
  | .ok shown => .keyMissing shown
  | .error cause => .keyUnprintable cause

end Heap

namespace Eval

/-- The printed form of a value. -/
def shownOf (v : Value) : Operation String := do
  ofExcept ((← heap).shown v)

/-- The text form of a value. -/
def textOf (v : Value) : Operation String := do
  ofExcept ((← heap).text v)

/-- The text that a value contributes to the output. -/
def outputOf (v : Value) : Operation String := do
  ofExcept ((← heap).outputText v)

/-- A text made from a value: the value itself if it is that text, and a new object otherwise. -/
def keptText (v : Value) (s : String) : Operation Value :=
  match v with
  | .str t => if s == t then return v else newText s
  | _ => newText s

/-- What a value contributes to the output, as a value. A text is itself. -/
def toText (v : Value) : Operation Value := do
  keptText v (← outputOf v)

end Eval

end Stencil
