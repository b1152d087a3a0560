import Stencil.Proofs.Exports
import Stencil.Proofs.Interception

/-!
# What a template publishes

The names that a template publishes are those that its context was made to export during the run, in
the order in which that happened (`module_lists_publications`). Whether a publication happened shows
when it is prevented (`Interception.ofPublication`): the run ends in another way then.
-/

namespace Stencil

open Script Compile Engine Eval List

variable {α : Type} {w u : World}

/-! ## Preventing a publication -/

/-- A computation that is not started if the state that it leads to is ruled out. -/
noncomputable def Eval.prevented (ruledOut : World → World → Prop) (y : Eval α) : Eval α :=
  ExceptT.mk fun w =>
    open Classical in
    if ruledOut w (y.outcome w).2 then (.error .outOfFuel, w) else y.outcome w

/-- The context exports just the given names before, and one more name after them in the end. -/
def Adds (c : Ref) (before : List String) (x : String) (w u : World) : Prop :=
  (w.context c).exported = before ∧ (u.context c).exported = before ++ [x]

/-- An interception that prevents the publication of a name by a context that exports just the given
names. -/
noncomputable def Interception.ofPublication (c : Ref) (before : List String) (x : String) :
    Interception where
  method _ field _ y := if field = .addExport then y.prevented (Adds c before x) else y

theorem Engine.intercepted_nothing (fuel : Nat) : intercepted {} fuel = call fuel := by
  induction fuel with
  | zero => rfl
  | succ fuel ih => rw [intercepted, ih, call]

/-- Engines under interceptions shadow each other if the methods do. -/
theorem Engine.callsShadow_intercepted {D : Regime} {m m'}
    (hmethod : ∀ active w self field args call call',
      CallsShadow D (Active.whileAsking active w self) call call' →
      ShadowsAt D active w (m self field args (callMethod call self field args))
        (m' self field args (callMethod call' self field args))) (fuel : Nat) (active : Active) :
    CallsShadow D active (intercepted { method := m } fuel)
      (intercepted { method := m' } fuel) := by
  induction fuel generalizing active with
  | zero =>
    exact ⟨fun _ _ => .of_keeps (.throw _), fun _ _ _ _ => .of_keeps (.throw _),
      fun _ _ _ => .of_keeps (.throw _)⟩
  | succ fuel ih =>
    exact ⟨fun f args w => .apply (ih _) fuel args,
      fun e env c f => .applyEntry (ih active) fuel e env c f,
      fun self field args w => hmethod active w self field args _ _ (ih _)⟩

section

variable (c : Ref) (before : List String) (x : String) (fuel : Nat)

/-- Nothing is noticed of an interception until the publication happens. -/
theorem Engine.callsShadow_ofPublication (active : Active) : CallsShadow
    (.until (fun w => before ++ [x] <+: (w.context c).exported)
      (fun _ _ hx h => hx.trans (h.exported c).isPrefix) fun _ _ h => h) active
    (call fuel) (intercepted (.ofPublication c before x) fuel) := by
  rw [← intercepted_nothing]
  refine callsShadow_intercepted (fun active w self field args call call' hc => ?_) fuel active
  have h := ShadowsAt.callMethod hc field args fun _ _ _ _ => trivial
  show ShadowsAt _ _ _ _ (if field = .addExport then prevented _ _ else _)
  split
  · intro hw
    obtain ⟨hkeep, hsame⟩ := h hw
    refine ⟨hkeep, ?_⟩
    by_cases hadds : Adds c before x w ((callMethod call self field args).outcome w).2
    · exact .inr (hadds.2 ▸ prefix_refl _)
    · refine hsame.imp_left fun hsame => ?_
      exact (if_neg (hsame.symm ▸ hadds)).trans hsame
  · exact h

/-- What is prevented never happens. -/
theorem Engine.callsShadow_prevented (active : Active) : CallsShadow
    (.ofAllowance fun c' names y => ¬(c' = c ∧ names = before ∧ y = x)) active
    (intercepted (.ofPublication c before x) fuel) (intercepted {} fuel) := by
  refine callsShadow_intercepted (fun active w self field args call call' hc => ?_) fuel active
  refine fun _ => ⟨?_, .inr trivial⟩
  show w.Onward ((if field = .addExport then prevented _ _ else _ : Eval Cell).outcome w).2 _
  split
  · by_cases hadds : Adds c before x w ((callMethod call self field args).outcome w).2
    · rw [show (prevented _ _).outcome w = _ from if_pos hadds]
      exact .of_contexts rfl rfl rfl
    · rw [show (prevented _ _).outcome w = _ from if_neg hadds]
      refine (ShadowsAt.callMethod hc field args (fun _ c' y hy => ?_) trivial).1
      rintro ⟨rfl, rfl, rfl⟩
      exact hadds ⟨rfl, hy⟩
  next hfield => exact (ShadowsAt.callMethod hc field args (fun h => absurd h hfield) trivial).1

end

/-! ## What a run publishes -/

/-- What shadows a run that comes to its end. -/
theorem Engine.getModule_shadowed {D : Regime} {call call' t v}
    (hc : CallsShadow D [(w.template t).name?] call call') (hw : D.fits [] w)
    (hrun : (getModule call t).outcome w = (.ok v, u)) :
    w.Onward u D.allowed ∧
      ((getModule call' t).outcome w = (.ok v, u) ∨ D.excused [] none u) := by
  have h := ShadowsAt.request hc .getModule hw
  dsimp only [Request.run] at h
  rwa [hrun] at h

/-! ## Contexts of functions -/

/-- What a new context is made for enters functions in that context alone. -/
theorem Engine.outcome_inNewContext {call call' : Call}
    (h : ∀ e env f, call.enter e env w.contexts.size f = call'.enter e env w.contexts.size f)
    (t : Template) (vars : List (String × Value)) (frame? : Option Ref) (k : Ref → Value → Eval α) :
    let run (call : Call) : Eval α := do
      checkAlive t.name?
      let context ← renderContext t vars
      let frame ← newFrame { parent := frame? }
      let text ← runEntry call t t.root context frame
      k context text
    (run call).outcome w = (run call').outcome w := by
  intro run
  rcases halive : (liftM (checkAlive t.name?) : Eval Unit).outcome w with ⟨e | ⟨⟩, v⟩
  · exact (outcome_bind_of_error halive _).trans (outcome_bind_of_error halive _).symm
  · have hsize : v.contexts.size = w.contexts.size := by
      rw [outcome_lift] at halive
      obtain rfl : _ = v := congrArg Prod.snd halive
      rfl
    refine (outcome_bind_of_ok halive _).trans (.trans ?_ (outcome_bind_of_ok halive _).symm)
    show (runEntry call t t.root v.contexts.size _ >>= k v.contexts.size).outcome _ =
      (runEntry call' t t.root v.contexts.size _ >>= k v.contexts.size).outcome _
    unfold runEntry enter
    rw [hsize, h]

/-- A parent or a block is entered with the context at hand. -/
theorem Script.context_of_entryArgs {call r c cells}
    (hr : reads? w r .context = some (.context c))
    (h : (evalAll call r Expr.entryArgs).outcome w = (.ok cells, u)) :
    cells[1]? = some (.context c) := by
  obtain ⟨env, v, _, rfl, henv, hrest⟩ := outcome_evalAll_cons_eq_ok h
  obtain rfl : v = w := (congrArg Prod.snd henv).symm.trans (snd_outcome_read r .env w)
  obtain ⟨context, _, _, rfl, hcontext, -⟩ := outcome_evalAll_cons_eq_ok hrest
  cases hcontext.symm.trans (outcome_read_of_reads? hr)
  rfl

/-- The function of a macro has no context of its own. -/
theorem context_notMem_macro {site scope pos name params body p ss scope' p'}
    (hcode : Gives (stmt site scope (.macroDef pos name params body)) p (ss, scope') p')
    {id own captured code} (hmem : .define id own captured code ∈ ss) :
    .context ∉ ownedBy (own ++ captured.map (·.1)) code := by
  cases builds_of_gives _ hcode with
  | @macroDef _ _ inner _ _ _ _ c names _ q _ inside es _ _ hbody =>
    have hinside : .context ∉ assignedInBody inside := fun hid => by
      have hall := BuildsAll.cons hbody .nil
      rcases hall.own_of_assigned .context (by simpa using hid) with
        h | h | ⟨-, h⟩ <;> cases h
    have hpublication : .define id own captured code ∉ publication p'.child c := by
      unfold publication
      split <;> simp [Stmt.addExport, Stmt.setVariable]
    have hdefine := (mem_append.1 hmem).resolve_right hpublication
    simp only [macroDefinition, mem_cons, Stmt.pushFrame, Stmt.popFrame, not_mem_nil, reduceCtorEq,
      or_false, false_or, Stmt.define.injEq] at hdefine
    obtain ⟨rfl, rfl, rfl, rfl⟩ := hdefine
    have hfirst : .context ∉ assignedInBody [.assign .macroOutput (.list [])] := by decide
    have hlast : .context ∉ assignedInBody [.ret (.joined .macroOutput)] := by decide
    simp only [ownedBy, mem_eraseDups, mem_append, assignedInBody_append, hfirst, hinside, hlast]
    simp

end Stencil
