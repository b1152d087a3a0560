import Stencil.Proofs.Gives
import Stencil.Proofs.Ownership

/-!
# What a free reference gives

A name of a template that nothing around it binds is compiled to a search through the render
variables and the frames, which always ends with a value (`Eval.outcome_resolve`).
-/

namespace Stencil

open Script Compile Eval

/-- What the search for a name ends with. -/
def World.meaning (w : World) (context frame : Ref) (name : String) : Value :=
  match (w.context context).lookup name with
  | .none =>
    match w.lookupFrame frame name with
    | some .none | none => .ofText ""
    | some v => v
  | v => v

/-- The search for a name ends with a value and changes nothing. -/
theorem Eval.outcome_resolve (context frame : Ref) (name : String) (w : World) :
    (resolve context frame name).outcome w = (.ok (w.meaning context frame name), w) := by
  unfold resolve World.meaning
  rw [outcome_get_bind]
  cases (w.context context).lookup name with
  | none =>
    cases w.lookupFrame frame name with
    | none => rfl
    | some v => cases v <;> rfl
  | _ => rfl

/-- The code of a reference to a name that nothing binds. -/
theorem outcome_eval_search {r context frame : Ref} {w : World} (fuel : Nat) (x : String)
    (hcontext : reads? w r .context = some (.context context))
    (hframe : reads? w r .frame = some (.frame frame))
    (hruntime : reads? w r .runtime = some .runtime) :
    (eval (Engine.call (fuel + 1)) r
      (.helper .resolve [.name .context, .name .frame, .text x])).outcome w =
      (.ok (.value (w.meaning context frame x)), w) := by
  simp only [Expr.helper, Expr.method, Expr.text, eval, evalAll, bind_assoc, pure_bind]
  rw [outcome_bind_of_ok (outcome_read_of_reads? hruntime)]
  have hfield : fieldOf .runtime .resolve = pure (.method .runtime .resolve) := rfl
  rw [hfield, pure_bind, outcome_bind_of_ok (outcome_read_of_reads? hcontext),
    outcome_bind_of_ok (outcome_read_of_reads? hframe)]
  exact outcome_bind_of_ok (outcome_resolve context frame x w) _

end Stencil
