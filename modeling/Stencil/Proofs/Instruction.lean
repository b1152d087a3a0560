import Stencil.Proofs.Ownership

/-!
# What single instructions of generated code do

The outcomes of the expressions and statements that generated code is made of, each given the
outcomes of its parts. Calls are a parameter; `Engine.call (fuel + 1)` makes of the call of a method
what `Engine.callMethod` says.
-/

namespace Stencil

open Engine Eval

@[simp]
theorem Eval.valueIn_value (v : Value) : (liftM (valueIn (.value v)) : Eval Value) = pure v :=
  rfl

theorem Eval.valuesIn_values (vs : List Value) : valuesIn (vs.map .value) = pure vs := by
  induction vs with
  | nil => rfl
  | cons v rest ih =>
    unfold valuesIn at ih ⊢
    rw [List.map_cons, List.mapM_cons, ih]
    rfl

theorem Script.entryArguments?_values (vs : List Value) :
    entryArguments? (vs.map .value) = none := by
  rcases vs with _ | ⟨_, _ | ⟨_, _⟩⟩ <;> rfl

namespace Script

variable {call : Call} {limit : Nat} {r : Ref} {w u : World}

variable {id : Ident} {c : Cell} {args : List Expr} {cells : List Cell} {e : Expr}
  {rest : List Stmt} {h : Halt} {s : Stmt}

theorem outcome_read_own {a} (ha : w.activations.get? r = some a) (hid : id ∈ a.owned)
    (hc : a.vars.find? id = some c) : (read r id).outcome w = (.ok c, w) := by
  exact outcome_read_of_reads? ((reads?_own ha hid).trans hc)

theorem outcome_eval_method_of_error (field : Attr) {e} (hread : (read r id).outcome w = (.ok c, w))
    (h : hasMethod c field = true) (hargs : (evalAll call r args).outcome w = (.error e, u)) :
    (eval call r (.method (.name id) field args)).outcome w = (.error e, u) := by
  simp only [Expr.method, eval, bind_assoc]
  rw [outcome_bind_of_ok hread, fieldOf_eq h, pure_bind, outcome_bind_of_error hargs]

theorem outcome_evalAll_cons_of_error {rest} (he : (eval call r e).outcome w = (.error h, u)) :
    (evalAll call r (e :: rest)).outcome w = (.error h, u) := by
  rw [evalAll, outcome_bind_of_error he]

theorem outcome_evalAll_cons_eq_ok {rest}
    (h : (evalAll call r (e :: rest)).outcome w = (.ok cells, u)) :
    ∃ c v cs, cells = c :: cs ∧ (eval call r e).outcome w = (.ok c, v) ∧
      (evalAll call r rest).outcome v = (.ok cs, u) := by
  rw [evalAll] at h
  obtain ⟨c, v, he, h⟩ := outcome_bind_eq_ok h
  obtain ⟨cs, v', hrest, h⟩ := outcome_bind_eq_ok h
  cases h
  exact ⟨c, v, cs, rfl, he, hrest⟩

/-- The call of a method that gives something has got its arguments before. -/
theorem outcome_eval_method_eq_ok {field d} (hread : (read r id).outcome w = (.ok c, w))
    (h : hasMethod c field = true)
    (hrun : (eval call r (.method (.name id) field args)).outcome w = (.ok d, u)) :
    ∃ cells v, (evalAll call r args).outcome w = (.ok cells, v) ∧
      (call.method c field cells).outcome v = (.ok d, u) := by
  rcases hargs : (evalAll call r args).outcome w with ⟨e | cells, v⟩
  · rw [outcome_eval_method_of_error field hread h hargs] at hrun
    cases hrun
  · rw [outcome_eval_method field hread h hargs] at hrun
    exact ⟨cells, v, rfl, hrun⟩

theorem outcome_exec_branch {b body otherwise}
    (he : (eval call r e).outcome w = (.ok (.value (.bool b)), u)) :
    (exec call limit r (.branch e body otherwise)).outcome w =
      (execAll call limit r (if b then body else otherwise)).outcome u := by
  rw [exec, outcome_bind_of_ok he, valueIn_value, pure_bind, outcome_get_bind]
  cases b <;> rfl

theorem outcome_execAll_cons (hs : (exec call limit r s).outcome w = (.ok none, u)) :
    (execAll call limit r (s :: rest)).outcome w = (execAll call limit r rest).outcome u := by
  rw [execAll, outcome_bind_of_ok hs]

theorem outcome_execAll_cons_of_ret (hs : (exec call limit r s).outcome w = (.ok (some c), u)) :
    (execAll call limit r (s :: rest)).outcome w = (.ok (some c), u) := by
  rw [execAll, outcome_bind_of_ok hs]
  rfl

theorem outcome_execAll_cons_of_error (hs : (exec call limit r s).outcome w = (.error h, u)) :
    (execAll call limit r (s :: rest)).outcome w = (.error h, u) := by
  rw [execAll, outcome_bind_of_error hs]

theorem outcome_execAll_append {ss} (hs : (execAll call limit r ss).outcome w = (.ok none, u)) :
    (execAll call limit r (ss ++ rest)).outcome w = (execAll call limit r rest).outcome u := by
  rw [execAll_append, outcome_bind_of_ok hs]

theorem outcome_execAll_append_of_error {ss}
    (hs : (execAll call limit r ss).outcome w = (.error h, u)) :
    (execAll call limit r (ss ++ rest)).outcome w = (.error h, u) := by
  rw [execAll_append, outcome_bind_of_error hs]

end Script

/-! ## Output -/

/-- The state in which a value was added to a list object. -/
def World.append (w : World) (out : Ref) (v : Value) : World :=
  { w with lists := w.lists.modify out (·.push v) }

namespace Script

variable {fuel limit : Nat} {r out : Ref} {buffer : Ident} {w u : World}

theorem outcome_exec_emit {e v}
    (hbuffer : (read r buffer).outcome w = (.ok (.value (.list out)), w))
    (he : (eval (call (fuel + 1)) r e).outcome w = (.ok (.value v), u)) :
    (exec (call (fuel + 1)) limit r (.emit buffer e)).outcome w = (.ok none, u.append out v) := by
  have heval := outcome_eval_method .append hbuffer rfl
    (outcome_evalAll_cons he outcome_evalAll_nil)
  rw [Stmt.emit, exec, outcome_bind, heval]
  rfl

theorem outcome_exec_emit_of_error {e h}
    (hbuffer : (read r buffer).outcome w = (.ok (.value (.list out)), w))
    (he : (eval (call (fuel + 1)) r e).outcome w = (.error h, u)) :
    (exec (call (fuel + 1)) limit r (.emit buffer e)).outcome w = (.error h, u) := by
  rw [Stmt.emit, exec]
  exact outcome_bind_of_error
    (outcome_eval_method_of_error .append hbuffer rfl (outcome_evalAll_cons_of_error he)) _

end Script

/-! ## The texts in a buffer -/

/-- The values are texts that make up the given text. -/
inductive Spells : List Value → String → Prop where
  | nil : Spells [] ""
  | cons {o s t vs} : Spells vs t → Spells (.str (o := o) s :: vs) (s ++ t)

namespace Spells

variable {vs : List Value} {s t : String}

theorem append {o} (h : Spells vs s) : Spells (vs ++ [.str (o := o) t]) (s ++ t) := by
  induction h with
  | nil =>
    have hcons : Spells [.str (o := o) t] (t ++ "") := .cons .nil
    rwa [String.append_empty] at hcons
  | cons _ ih =>
    rw [String.append_assoc]
    exact .cons ih

theorem joinTexts (h : Spells vs s) (i : Nat) :
    ∃ texts, joinTexts i vs = pure texts ∧ "".intercalate texts = s := by
  induction h generalizing i with
  | nil => exact ⟨[], rfl, String.intercalate_nil⟩
  | @cons o s t vs _ ih =>
    obtain ⟨texts, hjoin, rfl⟩ := ih (i + 1)
    refine ⟨s :: texts, ?_, ?_⟩
    · rw [Eval.joinTexts, hjoin, pure_bind]
    · cases texts with
      | nil => rw [String.intercalate_singleton, String.intercalate_nil, String.append_empty]
      | cons t rest => rw [String.intercalate_cons_cons, String.append_empty]

end Spells

theorem Eval.perform_newText (s : String) (su : Surroundings) (o : Objects) :
    ∃ origin objects, (newText s).perform su o =
      (.ok (.str (o := origin) s), { o with objects }) := by
  unfold newText renew
  split
  · exact ⟨.shared, o.objects, rfl⟩
  · exact ⟨.made o.objects, o.objects + 1, rfl⟩

theorem Eval.perform_newInt (n : Int) (su : Surroundings) (o : Objects) :
    ∃ origin objects, (newInt n).perform su o =
      (.ok (.int (o := origin) n), { o with objects }) := by
  unfold newInt renew
  split
  · exact ⟨.shared, o.objects, rfl⟩
  · exact ⟨.made o.objects, o.objects + 1, rfl⟩

theorem Eval.outcome_newInt (n : Int) (w : World) :
    ∃ origin objects, (liftM (newInt n) : Eval Value).outcome w =
      (.ok (.int (o := origin) n), { w with objects }) := by
  obtain ⟨origin, objects, hnew⟩ := perform_newInt n w.toSurroundings w.toObjects
  exact ⟨origin, objects, by rw [outcome_lift, hnew]; rfl⟩

/-- What texts are joined to: a new text, or the one value that they come from. -/
def Eval.joinedText (texts : List String) : List Value → Operation Value
  | [item] => pure item
  | _ => newText ("".intercalate texts)

variable {w : World}

/-- The texts in a list are joined to one text; nothing else changes. -/
theorem Eval.outcome_joinWith {out items s} (hout : w.lists.get? out = some items)
    (h : Spells items.toList s) :
    ∃ origin objects, (liftM (joinWith "" (.list out)) : Eval Value).outcome w =
      (.ok (.str (o := origin) s), { w with objects }) := by
  obtain ⟨texts, hjoin, htexts⟩ := h.joinTexts 0
  have hitems : w.listItems out = items.toList := by
    unfold Objects.listItems Objects.listAt
    rw [hout]
    rfl
  have hperform : (joinWith "" (.list out)).perform w.toSurroundings w.toObjects = (do
        let texts ← joinTexts 0 (w.listItems out)
        joinedText texts (w.listItems out) : Operation Value).perform w.toSurroundings
          w.toObjects := rfl
  rw [hitems, hjoin, pure_bind] at hperform
  rw [outcome_lift, hperform]
  generalize items.toList = vs at h
  obtain ⟨origin, objects, hnew⟩ := perform_newText s w.toSurroundings w.toObjects
  cases h with
  | nil =>
    rw [joinedText, htexts, hnew]
    · exact ⟨origin, objects, rfl⟩
    · nofun
  | @cons o s t vs hrest =>
    cases hrest with
    | nil =>
      rw [String.append_empty]
      exact ⟨o, w.objects, rfl⟩
    | cons _ =>
      rw [joinedText, htexts, hnew]
      · exact ⟨origin, objects, rfl⟩
      · nofun

theorem Script.outcome_eval_joined (fuel : Nat) {r out buffer items s}
    (hbuffer : (read r buffer).outcome w = (.ok (.value (.list out)), w))
    (hout : w.lists.get? out = some items) (h : Spells items.toList s) :
    ∃ origin objects, (eval (call (fuel + 1)) r (.joined buffer)).outcome w =
      (.ok (.value (.str (o := origin) s)), { w with objects }) := by
  obtain ⟨origin, objects, hjoin⟩ := outcome_joinWith hout h
  refine ⟨origin, objects, ?_⟩
  have hargs : (evalAll (call (fuel + 1)) r [.name buffer]).outcome w =
      (.ok [.value (.list out)], w) := outcome_evalAll_cons hbuffer outcome_evalAll_nil
  simp only [Expr.joined, Expr.method, Expr.text, eval, pure_bind]
  rw [fieldOf_eq rfl, pure_bind, outcome_bind_of_ok hargs]
  exact outcome_bind_of_ok hjoin _

/-! ## Entry points -/

/-- The arguments of an entry point. -/
def Script.entryCells (env : Value) (context frame : Ref) : List Cell :=
  [.value env, .context context, .frame frame, .runtime]

/-- Entering a function with the parameters of an entry point runs its body in an activation of its
own. -/
theorem Engine.outcome_enter {fuel} {f : Script.Function} {q home context frame env}
    (hq : w.functions.get? q = some (.closure (f.closure home)))
    (hparams : f.params = Script.entryParams) :
    ((Engine.call (fuel + 1)).enter (.function q) env context frame).outcome w =
      (do Eval.valueIn ((← Script.execAll (Engine.call fuel) fuel w.activations.size f.body).getD
          (.value .none)) : Eval Value).outcome
        { w with
          activations := w.activations.push
            ((f.closure home).activation (Script.entryCells env context frame)) } :=
  outcome_applyEntry hq hparams

theorem Engine.outcome_method_render {fuel r frame vars} :
    ((call (fuel + 1)).method (.value (.template r)) .render
      [.value vars, .frame frame]).outcome w =
      (do return .value (← render (call fuel) r (variablesOf w.toHeap vars)
        (some frame)) : Eval Cell).outcome w := by
  have hmethod : (call (fuel + 1)).method (.value (.template r)) .render
      [.value vars, .frame frame] = (do
        let w ← get
        return .value (← render (call fuel) r (variablesOf w.toHeap vars)
          (some frame)) : Eval Cell) := rfl
  rw [hmethod, outcome_get_bind]

end Stencil
