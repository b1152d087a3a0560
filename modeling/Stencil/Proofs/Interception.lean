import Stencil.Proofs.Activation

/-!
# Engines under observation

An intercepted engine (`Engine.intercepted`) makes the calls of the engine, but something may happen
around every entry into a template or a block and around every call of a method. Where that
something is not noticed from related states, the intercepted engine is not noticed either
(`Kept.callsAlike_intercepted`).
-/

namespace Stencil

open Engine

/-- What happens around an entry into a template or a block with a context, and around the call of a
method. -/
structure Interception where
  enter : (entry : Value) → (context : Ref) → Eval Value → Eval Value := fun _ _ x => x
  method : Cell → Script.Attr → List Cell → Eval Cell → Eval Cell := fun _ _ _ x => x

/-- Calls nested at most as deep as the fuel says, with an interception around each of them. -/
def Engine.intercepted (i : Interception) : Nat → Call
  | 0 => call 0
  | fuel + 1 =>
    ⟨fun f args => apply (intercepted i fuel) fuel f args,
      fun entry env context frame =>
        i.enter entry context (applyEntry (intercepted i fuel) fuel entry env context frame),
      fun self field args =>
        i.method self field args (callMethod (intercepted i fuel) self field args)⟩

variable {R : World → World → Prop} {entry : World → Ref → Value → Prop}
  {method : Cell → Script.Attr → Prop} {good : Call → Call → Prop}

/-- An interception that is not noticed from related states, as far as entry points and methods are
allowed. -/
structure Interception.Unnoticed (i : Interception) (R : World → World → Prop)
    (entry : World → Ref → Value → Prop) (method : Cell → Script.Attr → Prop) : Prop where
  enter {e c x y} :
    AlikeFrom (Admits R entry c e) R x y → AlikeFrom (Admits R entry c e) R x (i.enter e c y)
  method {call call' self field args} : method self field →
    Alike R (callMethod call self field args) (callMethod call' self field args) →
    Alike R (callMethod call self field args)
      (i.method self field args (callMethod call' self field args))

/-- An engine under an interception that is not noticed does what the engine does. -/
theorem Kept.callsAlike_intercepted (hR : Kept R entry method good) {i}
    (hi : i.Unnoticed R entry method)
    (hgood : ∀ fuel, good (call fuel) (intercepted i fuel)) (fuel : Nat) :
    CallsAlike R entry method (call fuel) (intercepted i fuel) := by
  induction fuel with
  | zero =>
    exact ⟨fun _ _ => Alike.throw _, fun _ _ _ _ => Coupled.throw fun _ _ h => h.1,
      fun _ _ _ _ => Alike.throw _⟩
  | succ fuel ih =>
    exact ⟨hR.apply ih (hgood fuel) fuel,
      fun e env c f => hi.enter (hR.applyEntry ih (hgood fuel) fuel e env c f),
      fun self field args h =>
        hi.method h (hR.toClosed.callMethod ih hR.load self field args h)⟩

end Stencil
