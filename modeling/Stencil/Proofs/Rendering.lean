import Stencil.Engine.Call
import Stencil.Proofs.Coupling

/-!
# What a render does to the render state and to faults

A render opens a render state (`RenderState.opening`), or is refused. It runs its entry point in
that state, turns the fault that the entry point ends with into what it makes of it
(`Fault.settledBy`), and leaves the render state as it found it (`Engine.outcome_runEntry`).
-/

namespace Stencil

variable {α : Type}

/-- The state that the render of a template opens: a first one with the limit of the environment, or
one below the current state, unless that state has reached its limit. -/
def RenderState.opening (state? : Option RenderState) (limit : Int) (template? : Option String) :
    Except Report RenderState :=
  match state? with
  | none => .ok { template?, maxDepth := limit }
  | some s =>
    match s.depthReport? template? with
    | some r => .error r
    | none => .ok (s.child template?)

/-- What a render makes of a fault: a report passes, and any other fault becomes a report with the
name and the stack of the render, unless it cannot be put into words. -/
def Fault.settledBy (template? : Option String) (stack : TemplateStack) (f : Fault) : Fault :=
  if f.family = .template then f
  else
    match f.wording with
    | .error cause => cause
    | .ok wording =>
      .report (.render
        { message := if wording.isEmpty then f.className else wording, template?, stack })

/-- The renders that led to the current one. -/
def World.stack (w : World) : TemplateStack :=
  (w.state?.map (·.stack)).getD []

/-- What a render makes of a halt. -/
def Halt.settledBy (template? : Option String) (stack : TemplateStack) : Halt → Halt
  | .fault f => .fault (f.settledBy template? stack)
  | .outOfFuel => .outOfFuel

/-- What a render makes of the outcome of its entry point: it settles a halt, and leaves the render
state as it was. -/
def Template.conclude (t : Template) (state? : Option RenderState) :
    Except Halt Value × World → Except Halt Value × World
  | (.ok v, u) => (.ok v, { u with state? })
  | (.error e, u) => (.error (e.settledBy t.name? u.stack), { u with state? })

namespace Eval

theorem outcome_withState (state? : Option RenderState) (x : Eval α) (w : World) :
    (withState state? x).outcome w =
      ((x.outcome { w with state? }).1,
        { (x.outcome { w with state? }).2 with state? := w.state? }) :=
  rfl

variable {template? : Option String} {w : World}

/-- A render that is refused has changed nothing. -/
theorem outcome_inRender_of_refused {r}
    (h : RenderState.opening w.state? w.env.maxDepth template? = .error r) (x : Eval α) :
    (inRender template? x).outcome w = (.error (.fault (.report r)), w) := by
  unfold inRender
  rw [outcome_get_bind]
  cases hs : w.state? with
  | none =>
    rw [hs] at h
    cases h
  | some s =>
    simp only [RenderState.opening, hs] at h
    cases hd : s.depthReport? template? with
    | none =>
      simp only [hd] at h
      cases h
    | some r' =>
      simp only [hd] at h ⊢
      cases h
      rfl

/-- A render that is not refused runs in the state that it opens. -/
theorem outcome_inRender_of_opened {s}
    (h : RenderState.opening w.state? w.env.maxDepth template? = .ok s) (x : Eval α) :
    (inRender template? x).outcome w = (withState (some s) x).outcome w := by
  unfold inRender
  rw [outcome_get_bind]
  cases hs : w.state? with
  | none =>
    rw [hs] at h
    cases h
    rfl
  | some s' =>
    simp only [RenderState.opening, hs] at h
    cases hd : s'.depthReport? template? with
    | some r =>
      simp only [hd] at h
      cases h
    | none =>
      simp only [hd] at h ⊢
      cases h
      rfl

theorem outcome_reporting_of_ok {x u} {a : α} (h : x.outcome w = (.ok a, u)) :
    (reporting template? x).outcome w = (.ok a, u) := by
  unfold reporting
  rw [outcome_recover, h]

/-- A fault is settled with the stack of the state in which it arises. -/
theorem outcome_reporting_of_error {x : Eval α} {u e} (h : x.outcome w = (.error e, u)) :
    (reporting template? x).outcome w = (.error (e.settledBy template? u.stack), u) := by
  unfold reporting
  rw [outcome_recover, h]
  cases e with
  | outOfFuel => rfl
  | fault f =>
    unfold Halt.settledBy Fault.settledBy
    by_cases hf : f.family = .template
    · simp only [hf, ne_eq, not_true_eq_false, decide_false, Bool.false_eq_true, if_false, if_true]
      rfl
    · simp only [hf, ne_eq, not_false_eq_true, decide_true, if_false, if_true]
      rw [outcome_get_bind]
      cases f.wording with
      | error cause => rfl
      | ok wording => rfl

theorem outcome_checkAlive (h : w.env.alive = true) (template? : Option String) :
    (liftM (checkAlive template?) : Eval Unit).outcome w = (.ok (), w) := by
  have hperform : (checkAlive template?).perform w.toSurroundings w.toObjects =
      (.ok (), w.toObjects) := by
    show (if !w.env.alive then _ else _ : Operation Unit).perform w.toSurroundings w.toObjects = _
    rw [h]
    rfl
  rw [outcome_lift, hperform]
  rfl

theorem outcome_checkAlive_of_gone (h : w.env.alive = false) (template? : Option String) :
    (liftM (checkAlive template?) : Eval Unit).outcome w =
      (.error (.fault (.environmentGone (RenderState.nameText template?))), w) := by
  have hperform : (checkAlive template?).perform w.toSurroundings w.toObjects =
      (.error (.environmentGone (RenderState.nameText template?)), w.toObjects) := by
    show (if !w.env.alive then _ else _ : Operation Unit).perform w.toSurroundings w.toObjects = _
    rw [h]
    rfl
  rw [outcome_lift, hperform]
  rfl

end Eval

namespace Engine

open Eval

variable {call : Call} {t : Template} {entry : Value} {context frame : Ref} {w u : World}

theorem outcome_runEntry_of_refused {r}
    (h : RenderState.opening w.state? w.env.maxDepth t.name? = .error r) :
    (runEntry call t entry context frame).outcome w = (.error (.fault (.report r)), w) :=
  outcome_inRender_of_refused h _

variable {s : RenderState}

theorem outcome_runEntry_of_ok {v} (h : RenderState.opening w.state? w.env.maxDepth t.name? = .ok s)
    (hrun : (call.enter entry .environment context frame).outcome { w with state? := some s } =
      (.ok v, u)) :
    (runEntry call t entry context frame).outcome w = (.ok v, { u with state? := w.state? }) := by
  unfold runEntry enter
  rw [outcome_inRender_of_opened h, outcome_withState, outcome_reporting_of_ok hrun]

theorem outcome_runEntry_of_error {e}
    (h : RenderState.opening w.state? w.env.maxDepth t.name? = .ok s)
    (hrun : (call.enter entry .environment context frame).outcome { w with state? := some s } =
      (.error e, u)) : (runEntry call t entry context frame).outcome w =
      (.error (e.settledBy t.name? u.stack), { u with state? := w.state? }) := by
  unfold runEntry enter
  rw [outcome_inRender_of_opened h, outcome_withState, outcome_reporting_of_error hrun]

theorem outcome_runEntry (h : RenderState.opening w.state? w.env.maxDepth t.name? = .ok s) :
    (runEntry call t entry context frame).outcome w = t.conclude w.state?
      ((call.enter entry .environment context frame).outcome { w with state? := some s }) := by
  cases hrun :
      (call.enter entry .environment context frame).outcome { w with state? := some s } with
  | mk result u =>
    cases result with
    | ok v => exact outcome_runEntry_of_ok h hrun
    | error e => exact outcome_runEntry_of_error h hrun

theorem outcome_render {r vars frame?} (ht : w.template r = t) (halive : w.env.alive = true) :
    (render call r vars frame?).outcome w =
      (runEntry call t t.root w.contexts.size w.frames.size).outcome { w with
          contexts := w.contexts.push (.ofBlocks (w.env.globals.insertAll vars) t.blocks.entries)
          frames := w.frames.push { parent := frame? } } := by
  unfold render
  rw [outcome_get_bind, ht, outcome_bind_of_ok (outcome_checkAlive halive _)]
  rfl

end Engine

end Stencil
