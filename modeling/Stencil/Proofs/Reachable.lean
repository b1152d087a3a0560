import Stencil.Proofs.Lookup

/-!
# The states that rendering leads to

An application loads templates, asks them for renders, blocks and exports, and calls what it was
given. Whatever it does, and however a render ends, it finds itself in a state in which blocks are
supplied (`World.Reached.supplied`). So generated code never asks for a block in vain, neither for
the definition to render nor for the one behind its own (`block_lookups_succeed`).
-/

namespace Stencil

open Script

/-- The blocks of every tree that a loader may give are named by texts. -/
def Environment.NamesBlocks (env : Environment) : Prop :=
  ∀ loader, env.loader? = some loader → ∀ tree ∈ loader.trees, tree.BlocksNamed

/-- The states that an application reaches when it makes an environment, changes it and its own
objects, loads templates whose blocks are named by texts, and uses them. A use of a template counts
however it ends. -/
inductive World.Reached : World → Prop where
  | start {env} : env.NamesBlocks → Reached { env }
  | arrange {w env} (o : Objects) : env.NamesBlocks → Reached w →
    Reached { w with toObjects := o, env }
  | load {w tree} (name? file? : Option String) : tree.BlocksNamed → Reached w →
    Reached ((Eval.loadTemplate tree name? file?).outcome w).2
  | find {w} (name : Value) (eager : Bool) : Reached w →
    Reached ((Eval.getTemplate name eager).outcome w).2
  | request {w} (fuel : Nat) (r : Ref) (request : Request) : Reached w →
    Reached ((request.run (Engine.call fuel) r).outcome w).2
  | call {w} (fuel : Nat) (f : Value) (args : List Value) : Reached w →
    Reached (((Engine.call fuel).value f args).outcome w).2

theorem Closed.request {R entry method} (hR : Closed R entry method) {call call'}
    (hc : CallsAlike R entry method call call') (r : Ref) (request : Request) :
    Alike R (request.run call r) (request.run call' r) := by
  cases request with
  | render vars frame? => exact hR.render hc r vars frame?
  | renderBlock block vars => exact hR.renderBlock hc r block vars
  | getModule => exact hR.getModule hc r

/-- Computations that end alike in states with a property have the same outcome, and the property
holds after it. -/
theorem AlikeFrom.outcome_eq {α : Type} {pre P} {x y : Eval α} (h : AlikeFrom pre (Always P) x y)
    {w} (hw : pre w w) : y.outcome w = x.outcome w ∧ P (x.outcome w).2 := by
  obtain ⟨a, b, u, u', hu, hu', rfl, rfl, hP⟩ | ⟨e, u, u', hu, hu', rfl, hP⟩ :=
    (h w w hw).results_or_halt
  · rw [hu, hu']
    exact ⟨rfl, hP⟩
  · rw [hu, hu']
    exact ⟨rfl, hP⟩

theorem Alike.outcome_eq {α : Type} {P} {x y : Eval α} (h : Alike (Always P) x y) {w : World}
    (hw : P w) : y.outcome w = x.outcome w ∧ P (x.outcome w).2 :=
  AlikeFrom.outcome_eq h ⟨rfl, hw⟩

namespace World

theorem supplied_empty {env} (henv : env.NamesBlocks) : ({ env } : World).Supplied where
  nesting := scoped_empty
  holder ha := by simp [Store.get?] at ha
  inside hin := by simp [Inside, ownerOf, ownerFrom, Store.get?] at hin
  closure hq := by simp [Store.get?] at hq
  chain hv := absurd (Supplied.lt_of_mem_chainOf (.str _) hv) (Nat.not_lt_zero _)
  overridden hq := by simp [Store.get?] at hq
  template r e he := by
    rcases he with rfl | ⟨b, hb⟩
    · intro q hq
      cases hq
    · cases hb
  named := henv

namespace Reached

variable {w : World}

theorem supplied (h : w.Reached) : w.Supplied := by
  have hcalls (fuel : Nat) := Engine.callsAlike_lookupAlarm (throw .outOfFuel) fuel
  induction h with
  | start henv => exact supplied_empty henv
  | arrange o henv _ ih =>
    exact ⟨ih.nesting, ih.holder, ih.inside, ih.closure, ih.chain, ih.overridden, ih.template, henv⟩
  | load name? file? hnames _ ih =>
    exact ih.of_attempted (Eval.attempted_loadTemplate hnames name? file? _)
  | find name eager _ ih => exact ih.of_attempted (Eval.attempted_getTemplate ih.named name eager)
  | request fuel r request _ ih =>
    exact ((Supplied.closed.request (hcalls fuel) r request).outcome_eq ih).2
  | call fuel f args _ ih => exact (((hcalls fuel).value f args).outcome_eq ih).2

end Reached

end World

/-- A page that overrides a block of its layout and renders what it overrides. -/
def layoutLoader : Loader :=
  let pos : Position := {}
  .dict [ ("layout", .root pos [.text pos "<", .block pos (.symbol pos "b") (.text pos "old"),
      .text pos ">"]),
    ("page", .root pos [.inherit pos (.literal pos (.str "layout")),
      .block pos (.symbol pos "b") (.sequence pos [.text pos "new ",
        .output pos [.call pos (.symbol pos "super") none]])])]

theorem layoutLoader_namesBlocks :
    ({ loader? := some layoutLoader } : Environment).NamesBlocks := by
  rintro _ ⟨⟩
  decide

end Stencil
