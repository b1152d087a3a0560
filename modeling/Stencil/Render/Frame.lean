import Stencil.Text.Pieces
import Stencil.Value.Operator

/-!
# Runtime frames

A frame binds the loop variables of one loop; frames nest like the loops. A dotted name is a path:
its first part names a variable of the frame, and each further part an entry of the dictionary under
the parts before it, made on the way if need be.
-/

namespace Stencil

/-- The parts of a dotted name. -/
def pathParts (name : String) : List String :=
  (Text.splitAt '.' name.toList).map String.ofList

namespace World

/-- The innermost binding of a name, looking at no more frames than the first argument says. -/
def lookupFrames (w : World) (name : String) : Nat → Ref → Option Value
  | 0, _ => none
  | fuel + 1, r =>
    let f := w.frame r
    match f.vars.find? name with
    | some v => some v
    | none =>
      match f.parent with
      | some p => lookupFrames w name fuel p
      | none => none

/-- The innermost binding of a name in a frame and the frames around it. -/
def lookupFrame (w : World) (r : Ref) (name : String) : Option Value :=
  w.lookupFrames name (r + 1) r

end World

namespace Eval

/-- The dictionary found where the next part of a path is to be bound: the one that is there, or a
new one. The second result tells whether it is new. -/
def subDict (found? : Option Value) : Operation (Ref × Bool) := do
  match found? with
  | some (.dict r) => return (r, false)
  | _ => modifyGet fun w => ((w.dicts.size, true), { w with dicts := w.dicts.push {} })

/-- Bind a path in a dictionary object. -/
def setPath (r : Ref) : List String → Value → Operation Unit
  | [], _ => pure ()
  | [part], v => setEntry r (.ofText part) v
  | part :: rest, v => do
    let w ← heap
    let (inner, isNew) ← subDict (w.findEntry? (w.dictEntries r) (.ofText part))
    if isNew then
      setEntry r (.ofText part) (.dict inner)
    setPath inner rest v

/-- Bind a variable of a frame. -/
def bindVariable (r : Ref) (name : String) (v : Value) : Eval Unit :=
  modify fun w =>
    let f := w.frame r
    { w with frames := w.frames.set r { f with vars := f.vars.insert name v } }

/-- Bind a dotted name in a frame. -/
def setInFrame (r : Ref) (name : String) (v : Value) : Eval Unit := do
  match pathParts name with
  | [] => pure ()
  | [part] => bindVariable r part v
  | part :: rest =>
    let (inner, isNew) ← subDict (((← get).frame r).vars.find? part)
    if isNew then
      bindVariable r part (.dict inner)
    setPath inner rest v

/-- Open a frame inside another one. -/
def pushFrame (r : Ref) : Eval Ref :=
  newFrame { parent := some r }

/-- The frame around a frame. -/
def popFrame (r : Ref) : Eval (Option Ref) := do
  return ((← get).frame r).parent

end Eval

end Stencil
