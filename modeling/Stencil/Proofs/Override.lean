import Stencil.Proofs.Lookup

/-!
# The definitions of a block at work

Entering a definition of a block runs its body with a function under the name `super`
(`World.Supplied.outcome_enterBlock`). Called without arguments, that function enters the definition
behind the running one in a new frame, or reports that there is none (`Engine.outcome_super`).
-/

namespace Stencil

open Script Compile Eval List Store

variable {w : World} {c f home : Ref} {env : Value} {limit : Nat} {call : Call}

/-- The function of a block around the code of its body. -/
def Compile.blockOf (b : String) (ss : List Stmt) : Script.Function where
  name := .blockName b
  params := entryParams
  body := [.assign .output (.list []),
      .assign (.localName "super") (.method (.name .context) .getSuper
        [.name .env, .text b, .name (.blockName b), .name .runtime])] ++
    ss ++ [.ret (.joined .output)]

/-- The state in which the body of a definition starts, given the definition behind it. -/
def World.startBlock (w : World) (g : Closure) (env : Value) (c f : Ref) (b : String)
    (next? : Option Value) : World :=
  { w with
    lists := w.lists.push #[]
    functions := w.functions.push (.superBlock env c (.str b) next?)
    activations :=
      ((w.activations.push (g.activation (entryCells env c f))).modify w.activations.size
        (·.assign .output (.value (.list w.lists.size)))).modify w.activations.size
          (·.assign (.localName "super") (.value (.function w.functions.size))) }

/-- The parameters of the function of a block belong to it, and so does what its code assigns. -/
theorem Compile.mem_owned_blockOf {b ss id}
    (h : id ∈ .output :: .localName "super" :: entryParams ∨ id ∈ assignedInBody ss) :
    id ∈ ((blockOf b ss).closure home).owned := by
  show id ∈ ownedBy _ _
  rw [ownedBy, mem_eraseDups]
  simp only [blockOf, assignedInBody_append, mem_append, mem_cons] at h ⊢
  rcases h with (rfl | rfl | h) | h
  · simp [assignedInBody, Stmt.assigned]
  · simp [assignedInBody, Stmt.assigned]
  · exact .inl h
  · exact .inr (.inl (.inr h))

/-- A definition runs its body with a function for the definition behind it. -/
theorem World.Supplied.outcome_enterBlock (hw : w.Supplied) {t : Template} {tree q}
    (h : t.Loaded tree q home w) {b v} (hb : t.blocks.find? b = some v) {next?}
    (hsuper : ∀ u : World, u.context c = w.context c →
      (call.method (.context c) .getSuper [.value env, .value (.ofText b), .value v,
        .runtime]).outcome u = (.ok (.value (.function u.functions.size)),
          { u with functions := u.functions.push (.superBlock env c (.str b) next?) })) :
    ∃ body ss scope p p', tree.definitions.find? b = some body ∧
      Builds ⟨false, .output⟩ (Scope.set {} "super" (.localName "super")) body p ss scope p' ∧
      (∃ k, v = .function k ∧ w.functions.get? k = some (.closure ((blockOf b ss).closure home))) ∧
      (Engine.applyEntry call limit v env c f).outcome w =
        (do valueIn ((← execAll call limit w.activations.size
          (ss ++ [.ret (.joined .output)])).getD (.value .none)) : Eval Value).outcome
          (w.startBlock ((blockOf b ss).closure home) env c f b next?) := by
  obtain ⟨body, fn, p, p', k, hbody, hgives, -, -, rfl, hk⟩ := h.block hb
  obtain ⟨ss, scope, hbuilds, rfl⟩ := gives_blockFunction hgives
  refine ⟨body, ss, scope, p, p', hbody, hbuilds, ⟨k, rfl, hk⟩, ?_⟩
  let g : Closure := (blockOf b ss).closure home
  have hk : w.functions.get? k = some (.closure g) := hk
  let start : World := (w.activate g (entryCells env c f))
  let printing : World := { start with
    lists := w.lists.push #[]
    activations := start.activations.modify w.activations.size
      (·.assign .output (.value (.list w.lists.size))) }
  have hlist : (eval call w.activations.size (.list [])).outcome start =
      (.ok (.value (.list w.lists.size)), { start with lists := w.lists.push #[] }) := rfl
  have hown {id : Ident} (hid : id ∈ entryParams) : id ∈ g.owned :=
    mem_owned_blockOf (.inl (mem_cons_of_mem _ (mem_cons_of_mem _ hid)))
  have hself : printing.activations.get? w.activations.size =
      some ((g.activation (entryCells env c f)).assign .output (.value (.list w.lists.size))) := by
    rw [get?_modify_self, get?_push_self]
    rfl
  have hscoped : Nested (w.activations.push (g.activation (entryCells env c f))) :=
    (hw.nesting.pushActivation fun o ho => hw.nesting.closure hk ho).activation
  have hblock : (eval call w.activations.size (.name (.blockName b))).outcome printing =
      (.ok (.value (.function k)), printing) := by
    refine outcome_read_of_reads? (reads?_of_blockSeen ?_)
    rw [blockSeen_assign hscoped (fun _ => Ident.noConfusion), hw.blockSeen_activation hk rfl,
      h.blockSeen_eq hw.nesting.activation, hb]
    rfl
  have hargs : (evalAll call w.activations.size [.name .env, .text b, .name (.blockName b),
      .name .runtime]).outcome printing =
        (.ok [.value env, .value (.ofText b), .value (.function k), .runtime], printing) :=
    outcome_evalAll_cons (outcome_read_own hself (hown (by simp [entryParams])) rfl) <|
      outcome_evalAll_cons rfl <| outcome_evalAll_cons hblock <|
      outcome_evalAll_cons (outcome_read_own hself (hown (by simp [entryParams])) rfl)
        outcome_evalAll_nil
  have hget : (eval call w.activations.size (.method (.name .context) .getSuper
      [.name .env, .text b, .name (.blockName b), .name .runtime])).outcome printing =
        (.ok (.value (.function w.functions.size)), { printing with
          functions := w.functions.push (.superBlock env c (.str b) next?) }) := by
    rw [outcome_eval_method .getSuper
      (outcome_read_own hself (hown (by simp [entryParams])) rfl) rfl hargs]
    exact hsuper printing rfl
  rw [Engine.outcome_applyEntry hk rfl]
  refine outcome_bind_congr ?_ _
  exact (outcome_execAll_cons (outcome_exec_assign hlist)).trans
    (outcome_execAll_cons (outcome_exec_assign hget))

/-- What `super` renders: the definition behind the running one, in a new frame. A report says that
there is none. -/
def Engine.overridden (call : Call) (env : Value) (c : Ref) (b : String) : Option Value → Eval Value
  | some next => do call.enter next env c (← newFrame {})
  | none => failWith (.noSuper b)

theorem Engine.outcome_super {p b next?}
    (hp : w.functions.get? p = some (.superBlock env c (.str b) next?)) :
    (apply call limit (.function p) []).outcome w = (overridden call env c b next?).outcome w := by
  show (callFunction call limit p []).outcome w = _
  rw [callFunction, outcome_get_bind, hp]
  cases next? <;> rfl

end Stencil
