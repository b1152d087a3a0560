import Stencil.Proofs.Descent
import Stencil.Proofs.Naming
import Stencil.Proofs.Printing
import Stencil.Proofs.Spared

/-!
# How a template takes up its parent

A template that names its parent in one of its own statements, after any statements and before any
others, takes up the parent just once (`root_inherits_once`): the blocks of the parent are added
once to their chains, and what the template gives is what the root of the parent gives in the same
context. In the body of a macro the name of a parent has no such effect
(`render_of_macro_with_parent`).
-/

namespace Stencil

open Script Compile Engine Eval List Store

/-! ## Code that returns nothing -/

/-- A run that never ends with something to return. -/
def Eval.FallsThrough (x : Eval (Option Cell)) : Prop :=
  ∀ w c u, x.outcome w ≠ (.ok (some c), u)

namespace Eval.FallsThrough

theorem nothing : (pure none : Eval (Option Cell)).FallsThrough :=
  fun _ _ _ h => by cases h

theorem bind {α : Type} {x : Eval α} {k : α → Eval (Option Cell)} (h : ∀ a, (k a).FallsThrough) :
    (x >>= k).FallsThrough := by
  intro w c u hrun
  obtain ⟨a, v, -, hk⟩ := outcome_bind_eq_ok hrun
  exact h a v c u hk

theorem andThen {x y : Eval (Option Cell)} (hx : x.FallsThrough) (hy : y.FallsThrough) :
    (do match ← x with
      | some c => return some c
      | none => y : Eval (Option Cell)).FallsThrough := by
  intro w c u hrun
  obtain ⟨c? | c', v, hv, hk⟩ := outcome_bind_eq_ok hrun
  · exact hy v c u hk
  · exact hx w _ v hv

variable {round : Value → Eval (Option Cell)} (h : ∀ v, (round v).FallsThrough)

include h

theorem roundsOver (items : List Value) : (Script.roundsOver round items).FallsThrough := by
  induction items with
  | nil => exact nothing
  | cons v rest ih => exact (h v).andThen ih

theorem roundsFrom (fuel : Nat) (it : Iteration) :
    (Script.roundsFrom round fuel it).FallsThrough := by
  induction fuel generalizing it with
  | zero => exact fun _ _ _ hrun => by cases hrun
  | succ fuel ih =>
    refine .bind fun next? => ?_
    cases next? with
    | none => exact nothing
    | some next => exact (h next.1).andThen (ih next.2)

theorem runLoop (limit : Nat) (source : Value) :
    (Script.runLoop limit source round).FallsThrough := by
  refine .bind fun w => ?_
  split
  · exact fun _ _ _ hrun => by cases hrun
  · exact roundsOver h _
  · exact roundsFrom h _ _

end Eval.FallsThrough

/-- The code of statements returns nothing. -/
theorem Script.Prints.fallsThrough {call : Call} {limit : Nat} {r : Ref} {buffer ss}
    (h : Prints buffer false ss) : (execAll call limit r ss).FallsThrough := by
  generalize hreturns : false = returns at h
  induction h with
  | nil => exact .nothing
  | append _ _ ih ih' =>
    rw [execAll_append]
    exact (ih hreturns).andThen (ih' hreturns)
  | ret => cases hreturns
  | branch _ _ _ ih ih' =>
    rw [execAll_singleton, exec]
    refine .bind fun _ => .bind fun _ => .bind fun _ => ?_
    split
    · exact ih hreturns
    · exact ih' hreturns
  | loop _ _ _ ih =>
    rw [execAll_singleton, exec]
    exact .bind fun _ => .bind fun _ => .runLoop (fun _ => .bind fun _ => ih hreturns) _ _
  | increment =>
    rw [execAll_singleton, exec]
    exact .bind fun _ => .bind fun _ => .bind fun _ => .bind fun _ => .bind fun _ => .bind fun _ =>
      .nothing
  | define =>
    rw [execAll_singleton, exec]
    exact .bind fun _ => .bind fun _ => .bind fun _ => .bind fun _ => .nothing
  | pass =>
    rw [execAll_singleton, exec]
    exact .nothing
  | assign =>
    rw [execAll_singleton, exec]
    exact .bind fun _ => .bind fun _ => .nothing
  | _ =>
    rw [execAll_singleton]
    exact .bind fun _ => .nothing

theorem Script.outcome_execAll_append_eq_ok {call : Call} {limit : Nat} {r : Ref} {w u ss rest o}
    (h : (execAll call limit r ss).FallsThrough)
    (hrun : (execAll call limit r (ss ++ rest)).outcome w = (.ok o, u)) :
    ∃ v, (execAll call limit r ss).outcome w = (.ok none, v) ∧
      (execAll call limit r rest).outcome v = (.ok o, u) := by
  rw [execAll_append] at hrun
  obtain ⟨_ | c, v, hv, hrest⟩ := outcome_bind_eq_ok hrun
  · exact ⟨v, hv, hrest⟩
  · exact absurd hv (h w c v)

/-! ## The end of a root with a parent -/

section

variable {a : Activation} {w u : World} {r c : Ref} {env : Value} {limit : Nat} {call : Call}

/-- A root that has a parent and comes to its end gives what the root of the parent gives. -/
theorem Script.outcome_delegation_eq_ok {t rest o}
    (hparent : reads? w r .parentTemplate = some (.value (.template t)))
    (henv : reads? w r .env = some (.value env))
    (hcontext : reads? w r .context = some (.context c))
    (hrun : (execAll call limit r (delegation true ++ rest)).outcome w = (.ok o, u)) :
    ∃ f v, o = some (.value v) ∧
      (call.enter (w.template t).root env c f).outcome w = (.ok v, u) := by
  rw [outcome_execAll_delegation hparent] at hrun
  obtain ⟨cells, x, hcells, hcall⟩ := outcome_bind_eq_ok hrun
  obtain ⟨cell, v', hcall, hcell⟩ := outcome_bind_eq_ok hcall
  cases hcell
  -- The arguments are read one after the other, which changes nothing.
  have hname {id d y} (h : (eval call r (.name id)).outcome w = (.ok d, y)) : y = w :=
    (congrArg Prod.snd h).symm.trans (snd_outcome_read r id w)
  obtain ⟨_, _, _, rfl, h₁, hcells₁⟩ := outcome_evalAll_cons_eq_ok hcells
  obtain rfl := hname h₁
  obtain ⟨_, _, _, rfl, h₂, hcells₂⟩ := outcome_evalAll_cons_eq_ok hcells₁
  obtain rfl := hname h₂
  obtain ⟨frame, _, _, rfl, h₃, hcells₃⟩ := outcome_evalAll_cons_eq_ok hcells₂
  obtain rfl := hname h₃
  obtain ⟨last, _, _, rfl, h₄, hcells₄⟩ := outcome_evalAll_cons_eq_ok hcells₃
  obtain rfl := hname h₄
  cases hcells₄
  cases h₁.symm.trans (outcome_read_of_reads? henv)
  cases h₂.symm.trans (outcome_read_of_reads? hcontext)
  unfold callCell at hcall
  dsimp only at hcall
  split at hcall
  next hargs =>
    obtain ⟨v, y, henter, hcell⟩ := outcome_bind_eq_ok hcall
    cases hcell
    unfold entryArguments? at hargs
    split at hargs
    next hlist =>
      cases hlist
      cases hargs
      exact ⟨_, v, rfl, henter⟩
    next => cases hargs
  next =>
    obtain ⟨_, _, hvalues, -⟩ := outcome_bind_eq_ok hcall
    cases hvalues

end

/-! ## Statements around the name of a parent -/

theorem Compile.BuildsAll.split {site : Site} {n : Node} {post : List Node} {scope' p'} :
    ∀ {pre : List Node} {scope p ss}, BuildsAll site scope (pre ++ n :: post) p ss scope' p' →
    ∃ before code after scope₁ scope₂ p₁ p₂, ss = before ++ (code ++ after) ∧
      BuildsAll site scope pre p before scope₁ p₁ ∧ Builds site scope₁ n p₁ code scope₂ p₂ ∧
      BuildsAll site scope₂ post p₂ after scope' p'
  | [], _, _, _, .cons h hrest => ⟨[], _, _, _, _, _, _, rfl, .nil, h, hrest⟩
  | _ :: _, _, _, _, .cons h hrest => by
    obtain ⟨before, code, after, scope₁, scope₂, p₁, p₂, rfl, hpre, hn, hpost⟩ := hrest.split
    exact ⟨_, code, after, scope₁, scope₂, p₁, p₂, (append_assoc _ _ _).symm, .cons h hpre, hn,
      hpost⟩

theorem Compile.assignedInBody_adoption (key : Ident) : assignedInBody [adoption key] = [key] := by
  simp [adoption, assignedInBody, Stmt.assigned, Target.assigned, Expr.method, Expr.assigned,
    assignedIn]

theorem Compile.assignedInBody_inheritance (e : Expr) (key : Ident) :
    assignedInBody (inheritance e key) = .parentTemplate :: (e.assigned ++ [key]) := by
  rw [inheritance_eq, assignedInBody, assignedInBody_adoption]
  simp [Stmt.assigned, Expr.method, Expr.assigned, assignedIn]

/-- Code leaves alone what its root was entered with, and its parent once it is named. -/
theorem Compile.BuildsAll.spares {site scope scope' ns p p' ss}
    (h : BuildsAll site scope ns p ss scope' p') :
    (.env ∉ assignedInBody ss ∧ .context ∉ assignedInBody ss) ∧
      (p.child = true → .parentTemplate ∉ assignedInBody ss) := by
  refine ⟨⟨fun hid => ?_, fun hid => ?_⟩, fun hchild hid => ?_⟩ <;>
    rcases h.own_of_assigned _ hid with h | h | ⟨hp, h⟩
  all_goals first | exact absurd (hchild.symm.trans hp) Bool.noConfusion | cases h

/-- What code finds of its root in the activation `r` of a scoped state. -/
structure World.AtRoot (w : World) (r c : Ref) (own : List Ident) : Prop where
  nesting : w.Scoped
  activation : ∃ a, w.activations.get? r = some a ∧ a.owned = own
  env : reads? w r .env = some (.value .environment)
  context : reads? w r .context = some (.context c)
  lt : c < w.contexts.size

theorem World.atRoot_startRoot {w : World} {c home : Ref} (hw : w.Scoped)
    (hhome : home < w.activations.size) (hc : c < w.contexts.size) (ss : List Stmt) (child : Bool)
    (f : Ref) : (w.startRoot ((rootOf ss child).closure home) .environment c f).AtRoot
      w.activations.size c ((rootOf ss child).closure home).owned := by
  obtain ⟨a, ha, hown, hat⟩ := w.atWork_startRoot .environment c f rfl rfl
    fun id hid => mem_owned_rootOf (.inl hid)
  refine ⟨?_, ⟨a, ha, hown⟩, (reads?_own ha (hat .env _ rfl).1).trans (hat .env _ rfl).2,
    (reads?_own ha (hat .context _ rfl).1).trans (hat .context _ rfl).2, hc⟩
  have hpush := hw.pushActivation (a := ((rootOf ss child).closure home).activation
    (entryCells .environment c f)) fun o ho => by cases ho; exact hhome
  refine (hpush.modify _ ?_).modify _ ?_ <;> exact fun _ => rfl

/-- Code keeps what a root has at hand, and what it does not assign. -/
theorem World.AtRoot.of_execAll {w u : World} {r c : Ref} {own : List Ident} {fuel limit : Nat} {ss}
    (h : w.AtRoot r c own) (hss : .env ∉ assignedInBody ss ∧ .context ∉ assignedInBody ss)
    (hrun : (execAll (call (fuel + 1)) limit r ss).outcome w = (.ok none, u)) :
    u.AtRoot r c own ∧ ∀ id ∉ assignedInBody ss, reads? u r id = reads? w r id := by
  obtain ⟨a, ha, hown⟩ := h.activation
  obtain ⟨hscoped, hspared⟩ := spared_execAll (fuel + 1) limit (S := (· ∈ assignedInBody ss))
    (fun _ hid => hid) h.nesting (get?_eq_some_lt ha)
  have hsize := (onward_execAll (fuel + 1) limit r w ss).size
  rw [hrun] at hscoped hspared hsize
  obtain ⟨a', ha', howned⟩ := Option.map_eq_some_iff.1 (hspared.owned.trans (congrArg _ ha))
  exact ⟨⟨hscoped, ⟨a', ha', howned.trans hown⟩, (hspared.reads .env hss.1).trans h.env,
    (hspared.reads .context hss.2).trans h.context, Nat.lt_of_lt_of_le h.lt hsize⟩,
    fun id hid => hspared.reads id hid⟩

/-- Code that has found a parent is about to add its blocks. -/
theorem World.AtRoot.adopting {w u : World} {r c : Ref} {own : List Ident} {fuel limit k : Nat} {e}
    (h : w.AtRoot r c own) (hown : .parentTemplate ∈ own ∧ .temp k ∈ own)
    (he : .env ∉ e.assigned ∧ .context ∉ e.assigned)
    (hrun : (exec (call (fuel + 1)) limit r (.assign .parentTemplate
      (.method (.name .env) .getTemplate [e, .const (.bool true)]))).outcome w = (.ok none, u)) :
    u.AtRoot r c own ∧ ∃ t, u.Adopting r c t k := by
  have hassigned : (Expr.method (.name .env) .getTemplate [e, .const (.bool true)]).assigned =
      e.assigned := by
    simp [Expr.method, Expr.assigned, assignedIn]
  obtain ⟨hu, -⟩ : u.AtRoot r c own ∧ _ := by
    rw [← execAll_singleton] at hrun
    exact h.of_execAll (by simp [assignedInBody, Stmt.assigned, hassigned, he]) hrun
  refine ⟨hu, ?_⟩
  obtain ⟨a, ha, rfl⟩ := h.activation
  rw [exec] at hrun
  obtain ⟨cell, v, heval, hwrite⟩ := outcome_bind_eq_ok hrun
  cases hwrite
  obtain ⟨cells, x, -, hmethod⟩ :=
    outcome_eval_method_eq_ok (outcome_read_of_reads? h.env) rfl heval
  obtain ⟨t, -, rfl⟩ := (tracks_intercepted (throw .outOfFuel) (fuel + 1)).template hmethod
  obtain ⟨hparent, -⟩ := reads?_assigned (S := (· ∈ e.assigned)) (fun _ => hassigned ▸ id)
    h.nesting ha hown.1 heval
  obtain ⟨a', ha', howned⟩ := hu.activation
  exact ⟨t, hu.nesting.activation, ⟨a', ha', howned ▸ hown.2⟩, hparent, hu.context, hu.lt⟩

/-! ## A whole root -/

end Stencil
