import Stencil.Proofs.Conduct

/-!
# What running a script keeps

The generic part of every proof about running scripts. A relation of states that stands the steps of
the engine, the reads and writes of one activation and the definition of functions in it is kept by
every script run in that activation (`Runs.execAll`), when the script reads only identifiers for
which reading is known to be harmless.
-/


namespace Stencil

open Script Eval List

variable {R pre : World → World → Prop} {call call' : Call}

/-- The state in which an identifier of an activation holds `c`. -/
abbrev World.assign (w : World) (r : Ref) (id : Ident) (c : Cell) : World :=
  { w with activations := w.activations.modify r (·.assign id c) }

/-- The state in which a called function starts: with an activation of its own. -/
abbrev World.activate (w : World) (c : Closure) (args : List Cell) : World :=
  { w with activations := w.activations.push (c.activation args) }

/-- Everything may be entered with every context. -/
abbrev anyEntry : World → Ref → Value → Prop := fun _ _ _ => True

/-- Every method may be called. -/
abbrev anyMethod : Cell → Attr → Prop := fun _ _ => True

theorem CallsAlike.enter_any {method} (hc : CallsAlike R anyEntry method call call') (e env : Value)
    (c f : Ref) : Alike R (call.enter e env c f) (call'.enter e env c f) :=
  fun w w' hw => hc.enter e env c f w w' ⟨hw, trivial⟩

/-- A relation of states that stands what a script does to its own activation: it may read the
identifiers in `known`. -/
structure Runs (R : World → World → Prop) (r : Ref) (known : Ident → Prop) : Prop where
  read (id : Ident) : known id → Alike R (read r id) (read r id)
  write (id : Ident) (c : Cell) : Alike R (write r id c) (write r id c)
  define (name : Ident) (params : List Ident) (captured : List (Ident × Cell)) (body : List Stmt) :
    (∀ id ∈ mentionedInBody body, id ∉ ownedBy (params ++ captured.map (·.1)) body → known id) →
    Alike R (do newFunction (.closure (closureIn (← get) r name params captured body)))
      (do newFunction (.closure (closureIn (← get) r name params captured body)))

namespace Runs

variable {R : World → World → Prop} {r : Ref} {known : Ident → Prop} {call call' : Call}

/-- To read known identifiers only, also from the functions that are defined. -/
def policy (known : Ident → Prop) : Policy where
  reads := known
  writes := fun _ => True
  fields := fun _ => True
  defines := fun own body => ∀ id ∈ mentionedInBody body, id ∉ ownedBy own body → known id
  whole := fun _ _ => False

theorem obeys (e : Expr) (h : ∀ id ∈ e.mentioned, known id) : e.Obeys (policy known).toAccess := by
  refine e.obeys_of_parts fun x hx => ?_
  unfold Access.Allows
  split
  · exact h _ (e.mem_mentioned_iff.2 hx)
  all_goals trivial

mutual

/-- A statement that mentions known identifiers only. -/
theorem obeysStmt : ∀ s : Stmt, (∀ id ∈ s.mentioned, known id) → s.Obeys (policy known)
  | .expr e, h | .ret e, h => obeys e h
  | .assign _ e, h => ⟨trivial, obeys e h⟩
  | .increment id e, h =>
    ⟨h id mem_cons_self, trivial, obeys e fun id hid => h id (mem_cons_of_mem _ hid)⟩
  | .branch test body otherwise, h =>
    ⟨obeys test fun id hid => h id (mem_append_left _ (mem_append_left _ hid)),
      obeyInBody body fun id hid => h id (mem_append_left _ (mem_append_right _ hid)),
      obeyInBody otherwise fun id hid => h id (mem_append_right _ hid)⟩
  | .loop _ source body, h =>
    ⟨fun _ _ => trivial, obeys source fun id hid => h id (mem_append_left _ hid),
      obeyInBody body fun id hid => h id (mem_append_right _ hid)⟩
  | .define _ _ captured body, h => by
    refine ⟨trivial, fun p hp => obeys p.2 fun id hid => ?_, fun id hid hown => ?_⟩
    · exact h id (mem_append_left _ (mem_flatMap.2 ⟨p, hp, hid⟩))
    · refine h id (mem_append_right _ (mem_filter.2 ⟨hid, ?_⟩))
      simpa using hown
  | .pass, _ => trivial

theorem obeyInBody : ∀ body : List Stmt, (∀ id ∈ mentionedInBody body, known id) →
    ObeyInBody (policy known) body
  | [], _ => trivial
  | s :: rest, h =>
    ⟨obeysStmt s fun id hid => h id (mem_append_left _ hid),
      obeyInBody rest fun id hid => h id (mem_append_right _ hid)⟩

end

section

variable (hR : Closed R anyEntry anyMethod) (hc : CallsAlike R anyEntry anyMethod call call')
  (hr : Runs R r known)

include hR hc hr

theorem conducts : Conducts R anyEntry anyMethod call call' r (policy known) fun _ => True where
  toClosed := hR
  toCallsAlike := hc
  heldValue _ := trivial
  heldMethod _ _ := trivial
  heldResult self field args hp := .of_alike (hc.method self field args hp)
  allowsMethod _ := trivial
  allowsEntry _ _ _ _ _ := trivial
  read id hid := .of_alike (hr.read id hid)
  write id c _ _ := hr.write id c
  define name params captured body hbody _ := hr.define name params captured body hbody
  whole _ _ hw := hw.elim

theorem execAll (limit : Nat) (body : List Stmt) (h : ∀ id ∈ mentionedInBody body, known id) :
    Alike R (execAll call limit r body) (execAll call' limit r body) :=
  (conducts hR hc hr).execAll limit body (obeyInBody body h)

end

end Runs

/-! ## Single expressions and statements -/

namespace Script

variable {call : Call} {limit : Nat} {r : Ref} {w u : World} {id : Ident} {c : Cell} {e : Expr}
  {args : List Expr} {cells : List Cell}

theorem fieldOf_eq {field} (h : hasMethod c field = true) :
    fieldOf c field = pure (.method c field) := by
  unfold fieldOf
  split
  · cases h
  · cases h
  · exact if_pos h

theorem outcome_eval_method (field : Attr) (hread : (read r id).outcome w = (.ok c, w))
    (h : hasMethod c field = true) (hargs : (evalAll call r args).outcome w = (.ok cells, u)) :
    (eval call r (.method (.name id) field args)).outcome w =
      (call.method c field cells).outcome u := by
  simp only [Expr.method, eval, bind_assoc]
  rw [outcome_bind_of_ok hread, fieldOf_eq h, pure_bind, outcome_bind_of_ok hargs]
  rfl

theorem outcome_evalAll_nil : (evalAll call r []).outcome w = (.ok [], w) := rfl

theorem outcome_evalAll_cons {rest v} (he : (eval call r e).outcome w = (.ok c, u))
    (hrest : (evalAll call r rest).outcome u = (.ok cells, v)) :
    (evalAll call r (e :: rest)).outcome w = (.ok (c :: cells), v) := by
  rw [evalAll, outcome_bind_of_ok he, outcome_bind_of_ok hrest]
  rfl

theorem outcome_exec_assign (he : (eval call r e).outcome w = (.ok c, u)) :
    (exec call limit r (.assign id e)).outcome w = (.ok none, u.assign r id c) := by
  rw [exec, outcome_bind_of_ok he]
  rfl

theorem outcome_exec_ret (he : (eval call r e).outcome w = (.ok c, u)) :
    (exec call limit r (.ret e)).outcome w = (.ok (some c), u) := by
  rw [exec, outcome_bind_of_ok he]
  rfl

end Script

/-! ## Lists of statements -/

section

variable {call : Call} {limit : Nat}

theorem Script.execAll_append (r : Ref) (ss ts : List Stmt) : execAll call limit r (ss ++ ts) = (do
      match ← execAll call limit r ss with
      | some c => return some c
      | none => execAll call limit r ts) := by
  induction ss with
  | nil => simp only [nil_append, execAll, pure_bind]
  | cons s rest ih =>
    simp only [cons_append, execAll, ih, bind_assoc]
    congr 1
    funext o
    cases o <;> simp only [pure_bind]

theorem Script.execAll_singleton (r : Ref) (s : Stmt) :
    execAll call limit r [s] = exec call limit r s := by
  rw [execAll]
  have h : (fun o : Option Cell => match o with
      | some c => pure (some c)
      | none => execAll call limit r []) = (pure : Option Cell → Eval (Option Cell)) := by
    funext o
    cases o <;> simp only [execAll]
  exact (congrArg _ h).trans (bind_pure _)

theorem Leads.append {mid post r ss ts}
    (h : Leads pre mid R (execAll call limit r ss) (execAll call' limit r ss))
    (h' : Leads mid post R (execAll call limit r ts) (execAll call' limit r ts)) :
    Leads pre post R (execAll call limit r (ss ++ ts)) (execAll call' limit r (ss ++ ts)) := by
  rw [execAll_append, execAll_append]
  exact h.next (fun _ => rfl) (fun _ => rfl) h'

theorem Leads.single {mid r s} (h : Leads pre mid R (exec call limit r s) (exec call' limit r s)) :
    Leads pre mid R (execAll call limit r [s]) (execAll call' limit r [s]) := by
  rwa [execAll_singleton, execAll_singleton]

end

/-! ## Calls of script functions -/

namespace Engine

/-- A script function runs its body in a new activation, if it is given the right number of
arguments. -/
theorem outcome_callClosure (call : Call) (limit : Nat) (c : Closure) (args : List Cell)
    (w : World) :
    (callClosure call limit c args).outcome w =
      match arityMessage? c.name ⟨c.params.map (·.text), []⟩ args.length with
      | some m => (.error (.fault (.arity m)), w)
      | none =>
        (do valueIn ((← execAll call limit w.activations.size c.body).getD (.value .none)) :
          Eval Value).outcome (w.activate c args) := by
  unfold callClosure checkArity
  cases arityMessage? c.name ⟨c.params.map (·.text), []⟩ args.length <;> rfl

/-- Entering a function with the parameters of an entry point runs its body in an activation of its
own. -/
theorem outcome_applyEntry {limit g q context frame env w}
    (hq : w.functions.get? q = some (.closure g)) (hparams : g.params = entryParams) :
    (applyEntry call limit (.function q) env context frame).outcome w =
      (do valueIn ((← execAll call limit w.activations.size g.body).getD (.value .none)) :
        Eval Value).outcome
        { w with
          activations := w.activations.push
            (g.activation [.value env, .context context, .frame frame, .runtime]) } := by
  have hfound : (applyEntry call limit (.function q) env context frame).outcome w =
      (callClosure call limit g
        [.value env, .context context, .frame frame, .runtime]).outcome w := by
    show (callFunction call limit q _).outcome w = _
    rw [callFunction, outcome_get_bind, hq]
  have harity : arityMessage? g.name ⟨g.params.map (·.text), []⟩
      [Cell.value env, .context context, .frame frame, .runtime].length = none := by
    rw [hparams]
    rfl
  rw [hfound, outcome_callClosure, harity]

/-- To compare two calls of a script function it is enough to compare the runs of its body in the
new activation. -/
theorem coupled_callClosure {entry method} (hR : Closed R entry method)
    (hpre : ∀ w w', pre w w' → R w w') (limit : Nat) (c : Closure) (args : List Cell)
    (hexec : ∀ w w', pre w w' → Agree (fun a b u u' => b = a ∧ R u u') R
      ((execAll call limit w.activations.size c.body).outcome
        (w.activate c args))
      ((execAll call' limit w'.activations.size c.body).outcome
        (w'.activate c args))) :
    Coupled pre (callClosure call limit c args) (callClosure call' limit c args)
      (fun a b w w' => b = a ∧ R w w') R := by
  intro w w' hw
  rw [outcome_callClosure, outcome_callClosure]
  split
  · exact .error (hpre w w' hw)
  · refine (hexec w w' hw).bind ?_
    rintro a b u u' ⟨rfl, hu⟩
    exact hR.lift _ u u' hu

end Engine

end Stencil
