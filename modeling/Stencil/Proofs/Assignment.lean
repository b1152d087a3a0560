import Stencil.Proofs.Assembly
import Stencil.Proofs.Instruction
import Stencil.Proofs.Inventory
import Stencil.Proofs.Nesting
import Stencil.Proofs.Reference
import Stencil.Proofs.Spared

/-!
# What an assignment stores

An assignment evaluates its value once, stores it in the render variables under each of its targets,
and changes no variable of the function it stands in but temporaries of its own. A reference that
follows it in the same list therefore gives the stored value if nothing around binds the name, and
what the name was bound to before if something does (`assignment_read_back`).
-/

namespace Stencil

open Script Compile Engine Eval List

variable {id : Ident} {cell : Cell}

variable {fuel limit : Nat} {r context : Ref} {w u : World}

/-- In the state `u`, the context holds `v` under the given names; otherwise it holds what it holds
in the state `w`, and nothing has happened to variables of scripts. -/
structure Stored (context : Ref) (names : List String) (v : Value) (w u : World) : Prop where
  activations : u.activations = w.activations
  size : u.contexts.size = w.contexts.size
  find (x : String) : (u.context context).vars.find? x =
    if x ∈ names then some v else (w.context context).vars.find? x

namespace Stored

variable {names names' : List String} {v : Value}

theorem trans {u'} (h : Stored context names v w u) (h' : Stored context names' v u u') :
    Stored context (names ++ names') v w u' where
  activations := h'.activations.trans h.activations
  size := h'.size.trans h.size
  find x := by
    rw [h'.find, h.find]
    by_cases hx : x ∈ names' <;> simp [hx]

theorem reads?_eq (h : Stored context names v w u) (id : Ident) :
    reads? u r id = reads? w r id := by
  unfold reads?
  rw [h.activations]

end Stored

theorem World.meaning_of_find? {frame x v} (h : (w.context context).vars.find? x = some v)
    (hv : v ≠ .none) : w.meaning context frame x = v := by
  unfold meaning Context.lookup
  rw [h, Option.getD_some]
  cases v <;> first | rfl | exact absurd rfl hv

/-! ## The statements of an assignment -/

section

variable (hcontext : reads? w r .context = some (.context context)) (hc : context < w.contexts.size)

include hcontext hc

omit hc in
theorem outcome_exec_setVariable (name : String) (hid : reads? w r id = some cell) :
    (exec (call (fuel + 1)) limit r (.setVariable name (.name id))).outcome w =
      (callMethod (call fuel) (.context context) .setVariable
        [.value (.ofText name), cell] >>= fun _ => pure none).outcome w := by
  have hargs : (evalAll (call (fuel + 1)) r [.text name, .name id]).outcome w =
      (.ok [.value (.ofText name), cell], w) :=
    outcome_evalAll_cons rfl (outcome_evalAll_cons (outcome_read_of_reads? hid) outcome_evalAll_nil)
  have heval := outcome_eval_method .setVariable (outcome_read_of_reads? hcontext) rfl hargs
  rw [Stmt.setVariable, exec, outcome_bind, outcome_bind, heval]
  rfl

omit hc in
theorem outcome_exec_addExport (name : String) :
    (exec (call (fuel + 1)) limit r (.addExport name)).outcome w = (.ok none,
        w.setContext context ((w.context context).addExport name)) := by
  have hargs : (evalAll (call (fuel + 1)) r [.text name]).outcome w =
      (.ok [.value (.ofText name)], w) := outcome_evalAll_cons rfl outcome_evalAll_nil
  have heval := outcome_eval_method .addExport (outcome_read_of_reads? hcontext) rfl hargs
  rw [Stmt.addExport, exec, outcome_bind, heval]
  rfl

/-- Storing what an identifier holds succeeds just for a value. -/
theorem stored_setVariable {name o} (hid : reads? w r id = some cell)
    (hrun : (exec (call (fuel + 1)) limit r (.setVariable name (.name id))).outcome w =
      (.ok o, u)) :
    o = none ∧ ∃ v, cell = .value v ∧ Stored context [name] v w u := by
  rw [outcome_exec_setVariable hcontext name hid] at hrun
  cases cell with
  | value v =>
    cases hrun
    refine ⟨rfl, v, rfl, rfl, ?_, fun x => ?_⟩
    · exact w.contexts.size_set _ _
    · rw [World.context_set hc]
      by_cases hx : x = name
      · rw [hx, Table.find?_insert_self, if_pos (mem_singleton_self name)]
      · rw [Table.find?_insert_of_ne _ hx, if_neg (mt mem_singleton.1 hx)]
  | _ => cases hrun

/-- Publishing a name leaves the render variables as they are. -/
theorem stored_addExport (name : String) (v : Value) :
    ∃ u, (exec (call (fuel + 1)) limit r (.addExport name)).outcome w = (.ok none, u) ∧
      Stored context [] v w u := by
  refine ⟨_, outcome_exec_addExport hcontext name, rfl, w.contexts.size_set _ _, fun x => ?_⟩
  rw [World.context_set hc, if_neg not_mem_nil]
  unfold Context.addExport
  split <;> rfl

/-- The value is stored under one target. -/
theorem stored_store {name o} (hid : reads? w r id = some cell)
    (hrun : (execAll (call (fuel + 1)) limit r (store id name)).outcome w = (.ok o, u)) :
    o = none ∧ ∃ v, cell = .value v ∧ Stored context [name] v w u := by
  unfold store at hrun
  rw [execAll] at hrun
  obtain ⟨o', w', hset, hrun⟩ := outcome_bind_eq_ok hrun
  obtain ⟨rfl, v, hv, hstored⟩ := stored_setVariable hcontext hc hid hset
  dsimp only at hrun
  split at hrun
  · cases hrun
    exact ⟨rfl, v, hv, hstored⟩
  · have hcontext' : reads? w' r .context = some (.context context) :=
      (hstored.reads?_eq _).trans hcontext
    obtain ⟨u', hexport, hstored'⟩ := stored_addExport hcontext' (hstored.size ▸ hc) name v
    rw [execAll_singleton, hexport] at hrun
    cases hrun
    exact ⟨rfl, v, hv, hstored.trans hstored'⟩

end

/-- The value is stored under every target. -/
theorem stored_stores {v} : ∀ {names : List String} {w : World}
    {o : Option Cell}, reads? w r .context = some (.context context) →
    context < w.contexts.size → reads? w r id = some (.value v) →
    (execAll (call (fuel + 1)) limit r (names.flatMap (store id))).outcome w = (.ok o, u) →
    Stored context names v w u := by
  intro names
  induction names with
  | nil =>
    rintro w o - - - ⟨⟩
    exact ⟨rfl, rfl, fun x => (if_neg not_mem_nil).symm⟩
  | cons name rest ih =>
    intro w o hcontext hc hid hrun
    rw [flatMap_cons, execAll_append] at hrun
    obtain ⟨o', w', hfirst, hrun⟩ := outcome_bind_eq_ok hrun
    obtain ⟨rfl, _, ⟨⟩, hstored⟩ := stored_store hcontext hc hid hfirst
    have hrest := ih ((hstored.reads?_eq _).trans hcontext) (hstored.size ▸ hc)
      ((hstored.reads?_eq _).trans hid) hrun
    exact hstored.trans hrest

/-! ## Reading back -/

/-- The code of an assignment: a temporary takes the value, which is then stored under each name. -/
theorem gives_assign {site scope scope' pos targets value p p' ss}
    (h : Gives (stmt site scope (.assign pos targets value)) p (ss, scope') p') :
    ∃ code names, Gives (expr scope value) { p with temps := p.temps + 1 } code p' ∧
      Named targets names ∧ scope' = scope ∧
      ss = .assign (.temp (p.temps + 1)) code :: names.flatMap (store (.temp (p.temps + 1))) := by
  simp only [stmt, Compile.value, gives_bind, gives_pure, gives_demand, gives_fresh,
    Prod.mk.injEq] at h
  obtain ⟨_, _, ⟨rfl, rfl⟩, code, q, ⟨_, _, ⟨-, rfl⟩, hcode⟩, names, q', hnames, ⟨rfl, rfl⟩,
    rfl⟩ := h
  obtain ⟨hnamed, rfl⟩ := named_of_gives targets (by simpa only [gives_bind] using hnames)
  exact ⟨code, names, hcode, hnamed, rfl, rfl⟩

theorem Compile.Named.mem_iff {targets names} (h : Named targets names) {x} :
    x ∈ names ↔ ∃ n ∈ targets, Direct.targetName? n = some x := by
  induction h with
  | nil => simp
  | cons hname _ ih => simp [hname, ih, eq_comm]

/-- The activation `r` has a context, a frame and the runtime at hand, and owns what the statements
assign. -/
structure Equipped (w : World) (r context frame : Ref) (ss : List Stmt) : Prop where
  nesting : w.Scoped
  owns : ∃ a, w.activations.get? r = some a ∧ ∀ id ∈ assignedInBody ss, id ∈ a.owned
  lt : context < w.contexts.size
  context : reads? w r .context = some (.context context)
  frame : reads? w r .frame = some (.frame frame)
  runtime : reads? w r .runtime = some .runtime

/-- An assignment stores its value under every target. A reference to a target in the list behind it
gives this value, unless it is none, if nothing binds the name where the assignment stands.
Otherwise the reference names what is bound there, which the assignment does not change. -/
theorem assignment_read_back {site : Site} {scope scope' : Scope Ident} {pos pos' : Position}
    {targets : List Node} {value target : Node} {x : String} {p p' q q' : Progress}
    {ss : List Stmt} {e : Expr} {frame : Ref} (fuel limit : Nat)
    (hstmt : Gives (stmt site scope (.assign pos targets value)) p (ss, scope') p')
    (hscope : scope.Only fun id => ∀ k, id = .temp k → k ≤ p.temps)
    (htarget : target ∈ targets) (hx : Direct.targetName? target = some x)
    (hsymbol : Gives (expr scope' (.symbol pos' x)) q e q') (hw : Equipped w r context frame ss)
    (hrun : (execAll (Engine.call (fuel + 1)) limit r ss).outcome w = (.ok none, u)) :
    ∃ code v w', Gives (expr scope value) { p with temps := p.temps + 1 } code p' ∧
      (eval (Engine.call (fuel + 1)) r code).outcome w = (.ok (.value v), w') ∧
      (u.context context).vars.find? x = some v ∧
      (scope'.lookup x = none → v ≠ .none →
        (eval (Engine.call (fuel + 1)) r e).outcome u = (.ok (.value v), u)) ∧
      ∀ id, scope'.lookup x = some id → e = .name id ∧ reads? u r id = reads? w r id := by
  obtain ⟨code, names, hcode, hnamed, rfl, rfl⟩ := gives_assign hstmt
  obtain ⟨rfl, -⟩ : e = reference scope' x ∧ q' = q := by
    simpa only [expr, gives_pure] using hsymbol
  have hmem := hnamed.mem_iff.2 ⟨target, htarget, hx⟩
  -- The value is evaluated, and what it gives is assigned to the temporary.
  rw [execAll] at hrun
  obtain ⟨o, w₁, hassign, hrun⟩ := Eval.outcome_bind_eq_ok hrun
  obtain ⟨cell, w', heval, hassign⟩ := Eval.outcome_bind_eq_ok hassign
  cases hassign
  obtain ⟨a, ha, hown⟩ := hw.owns
  have hlater : ∀ id ∈ code.assigned, ∃ k, id = .temp k ∧ p.temps + 1 < k := by
    intro id hid
    obtain ⟨v, hv⟩ := code.mem_assigned_iff.1 hid
    obtain ⟨⟨k, rfl, hk, -⟩, -⟩ := (emits_of_gives _ hcode).pieces.bind id v hv
    exact ⟨k, rfl, hk⟩
  obtain ⟨htemp, hothers⟩ :=
    reads?_assigned hlater hw.nesting ha (hown _ List.mem_cons_self) heval
  have hsize := (onward_eval (fuel + 1) r w code).size
  rw [heval] at hsize
  -- What was known before the assignment is no temporary of it.
  have hkept (id : Ident) (hid : ∀ k, id = .temp k → k ≤ p.temps) := hothers id (by
      rintro ⟨k, rfl, hk⟩
      exact Nat.not_succ_le_self _ (Nat.le_trans (Nat.le_of_lt hk) (hid k rfl)))
    (by
      rintro rfl
      exact Nat.not_succ_le_self _ (hid _ rfl))
  -- The stores read the temporary and change nothing but render variables.
  have hcontext := (hkept .context fun _ => Ident.noConfusion).trans hw.context
  have hlt := Nat.lt_of_lt_of_le hw.lt hsize
  obtain ⟨v, rfl⟩ : ∃ v, cell = .value v := by
    cases names with
    | nil => cases hmem
    | cons name rest =>
      rw [List.flatMap_cons, execAll_append] at hrun
      obtain ⟨_, _, hfirst, -⟩ := Eval.outcome_bind_eq_ok hrun
      obtain ⟨-, v, hv, -⟩ := stored_store hcontext hlt htemp hfirst
      exact ⟨v, hv⟩
  have hstored := stored_stores hcontext hlt htemp hrun
  have hfind : (u.context context).vars.find? x = some v := (hstored.find x).trans (if_pos hmem)
  refine ⟨code, v, w', hcode, heval, hfind, fun hnone hv => ?_, fun id hid => ?_⟩
  · have hat (id : Ident) (hid : ∀ k, id ≠ .temp k) : reads? u r id = reads? w r id :=
      (hstored.reads?_eq id).trans (hkept id fun k h => (hid k h).elim)
    have hsearch := outcome_eval_search fuel x
      ((hat .context fun _ => Ident.noConfusion).trans hw.context)
      ((hat .frame fun _ => Ident.noConfusion).trans hw.frame)
      ((hat .runtime fun _ => Ident.noConfusion).trans hw.runtime)
    rw [reference, hnone]
    refine hsearch.trans ?_
    rw [World.meaning_of_find? hfind hv]
  · exact ⟨by rw [reference, hid], (hstored.reads?_eq id).trans (hkept id (hscope x id hid))⟩

/-- An assignment at the top of a template, where nothing is bound. -/
theorem top_assignment_read_back :
    let pos : Position := {}
    let n : Node := .assign pos [.symbol pos "x"] (.literal pos (.int 5))
    let start (ss : List Stmt) : World :=
      { contexts := Store.push {} {}, frames := Store.push {} {}
        activations := Store.push {} {
          owned := ownedBy entryParams ss
          vars := Table.ofList [(.env, .value .environment), (.context, .context 0),
            (.frame, .frame 0), (.runtime, .runtime)] } }
    ∃ ss p' u e, Gives (stmt ⟨true, .output⟩ {} n) {} (ss, {}) p' ∧
      Gives (expr {} (.symbol pos "x")) {} e {} ∧ Equipped (start ss) 0 0 0 ss ∧
      (execAll (Engine.call 9) 9 0 ss).outcome (start ss) = (.ok none, u) ∧
      (eval (Engine.call 9) 0 e).outcome u = (.ok (.value (.ofConstant (.int 5))), u) := by
  intro pos n start
  obtain ⟨ss, p', hstmt, hdone⟩ : ∃ ss p', Gives (stmt ⟨true, .output⟩ {} n) {} (ss, {}) p' ∧
      ((execAll (Engine.call 9) 9 0 ss).outcome (start ss)).1.toOption.map Option.isNone =
        some true := ⟨_, _, rfl, by decide +kernel⟩
  have hsymbol : Gives (expr {} (.symbol pos "x")) {} (reference {} "x") {} := rfl
  have hscoped : (start ss).Scoped := World.scoped_empty.pushActivation fun o ho => by cases ho
  have hreads {id : Ident} (hid : id ∈ entryParams) :=
    reads?_of_owner (w := start ss) (r := 0) (o := 0) (ownerOf_eq_self hscoped.activation rfl
      (List.mem_eraseDups.2 (List.mem_append_left _ hid))) rfl
  have hequipped : Equipped (start ss) 0 0 0 ss :=
    { nesting := hscoped
      owns := ⟨_, rfl, fun id hid => List.mem_eraseDups.2 (List.mem_append_right _ hid)⟩
      lt := Nat.zero_lt_one
      context := hreads (by decide)
      frame := hreads (by decide)
      runtime := hreads (by decide) }
  have hrun := Eval.outcome_eq_ok_none hdone
  obtain ⟨code, v, w', hcode, heval, -, hread, -⟩ := assignment_read_back 8 9 hstmt
    Scope.Only.empty List.mem_cons_self rfl hsymbol hequipped hrun
  cases hcode
  cases heval
  exact ⟨ss, _, _, _, hstmt, hsymbol, hequipped, hrun, hread rfl Value.noConfusion⟩

/-- A whole render in which a reference does not give what was stored last: the name is bound by the
loop around it. -/
theorem render_of_assigned_loop_target :
    let pos : Position := {}
    let tree : Node := .root pos [ .loop pos (.symbol pos "x") (.array pos [.literal pos (.int 1)])
        (.sequence pos [ .assign pos [.symbol pos "x"] (.literal pos (.int 5)),
          .output pos [.symbol pos "x"]])]
    let run : Eval Value := do
      let t ← Eval.loadTemplate tree (some "t.html") none
      Engine.render (Engine.call 9) t [] none
    ((run.outcome {}).1.toOption.bind Value.constant?).map Constant.text = some "1" := by
  decide +kernel

end Stencil
