import Stencil.Proofs.Expression
import Stencil.Proofs.Assembly

/-!
# Rules for generated statements

How a script and an interpreter go side by side through statements: lists of statements, loops whose
rounds carry something along, assignments, and the statements that append output, store variables,
and open and close frames. A rule for a single statement also speaks about what comes after it,
because an assignment changes what is known from then on.
-/

namespace Stencil

open Script Compile Direct Eval List

variable {f : Ref} {e : Expr} {rest : List Stmt} {y : Eval Value} {id : Ident} {j : Nat} {v : Value}

variable {k : Knowledge} {call : Call} {limit : Nat}

/-! ## Statement lists -/

/-- As long as `k` is known, running script statements is coupled to the interpreter's `z`. -/
abbrev Follows {β : Type} (call : Call) (limit : Nat) (k : Knowledge) (ss : List Stmt) (z : Eval β)
    (post : Option Cell → β → World → World → Prop) : Prop :=
  Coupled (Mirror k) (execAll call limit k.r ss) z post (Veiled k.r k.hidden)

/-- Script statements come to their end and do what the interpreter's `y` does. -/
abbrev Performs (call : Call) (limit : Nat) (k : Knowledge) (ss : List Stmt) (y : Eval Unit) :
    Prop :=
  Shows k (fun _ => none) (execAll call limit k.r ss) y

namespace Mirror

variable {β : Type} {post : Option Cell → β → World → World → Prop}

theorem exec_expr {γ : Type} {g} {y : Eval γ} {z} (he : Shows k g (eval call k.r e) y)
    (hrest : Follows call limit k rest z post) :
    Follows call limit k (.expr e :: rest) (y >>= fun _ => z) post := by
  simp only [Follows, execAll, exec, bind_assoc, pure_bind]
  exact Coupled.bind he fun _ _ w w' h => hrest w w' h.2

theorem exec_assign {γ : Type} {g y} {z : γ → Eval β} (hid : id ∈ k.own ∧ k.hidden id)
    (he : Shows k g (eval call k.r e) y)
    (hrest : ∀ b, Follows call limit (k.learn id (g b)) rest (z b) post) :
    Follows call limit k (.assign id e :: rest) (y >>= z) post := by
  simp only [Follows, execAll, exec, bind_assoc, pure_bind]
  refine Coupled.bind he fun c b => ?_
  rintro w w' ⟨rfl, hw⟩
  exact write hid.1 hid.2 (hrest b) w w' hw

theorem exec_append {ss y z} (hss : Performs call limit k ss y)
    (hrest : Follows call limit k rest z post) :
    Follows call limit k (ss ++ rest) (y >>= fun _ => z) post := by
  rw [Follows, execAll_append]
  refine Coupled.bind hss fun o _ => ?_
  rintro w w' ⟨rfl, hw⟩
  exact hrest w w' hw

end Mirror

namespace Performs

theorem nil : Performs call limit k [] (pure ()) := by
  rw [Performs, execAll]
  exact Shows.pure ()

/-- A conditional. -/
theorem branch {body otherwise z z'} (he : Yields call k e y)
    (hbody : Performs call limit k body z)
    (hother : Performs call limit k otherwise z') :
    Performs call limit k [.branch e body otherwise] (do
      let v ← y
      if (← get).truthy v then z else z') := by
  rw [Performs, execAll_singleton, exec]
  exact Shows.value_bind he fun v => .ite_truthy v hbody hother

end Performs

/-! ## Loops -/

/-- The same knowledge, with other contents of identifiers. -/
def Knowledge.knowing (k : Knowledge) (known : Ident → Option Cell) : Knowledge :=
  { k with known }

/-- What is carried along from round to round. -/
def Knowledge.Carries {σ : Type} (k : Knowledge) (K : σ → Ident → Option Cell)
    (x : Eval (Option Cell)) (y : Eval σ) (s : σ) : Prop :=
  Coupled (Mirror (k.knowing (K s))) x y
    (fun o t w w' => o = none ∧ Mirror (k.knowing (K t)) w w') (Veiled k.r k.hidden)

section

variable {σ : Type} {K : σ → Ident → Option Cell} {round : Value → Eval (Option Cell)}
  {step : σ → Value → Eval σ}

theorem Mirror.roundsOver (h : ∀ s v, k.Carries K (round v) (step s v) s) (items : List Value)
    (s : σ) : k.Carries K (roundsOver round items) (items.foldlM step s) s := by
  induction items generalizing s with
  | nil => exact Coupled.pure fun _ _ hw => ⟨rfl, hw⟩
  | cons v rest ih =>
    rw [Script.roundsOver, List.foldlM_cons]
    refine Coupled.bind (h s v) fun o t => ?_
    rintro w w' ⟨rfl, hw⟩
    exact ih t w w' hw

theorem Mirror.roundsFrom (h : ∀ s v, k.Carries K (round v) (step s v) s) (fuel : Nat)
    (it : Iteration) (s : σ) :
    k.Carries K (roundsFrom round fuel it) (eachFrom step fuel it s) s := by
  induction fuel generalizing it s with
  | zero => exact Coupled.throw fun _ _ hw => hw.veiled
  | succ fuel ih =>
    rw [Script.roundsFrom, Direct.eachFrom]
    refine Coupled.bind (Mirror.step (.lift it.next)) fun _ next => ?_
    rintro w w' ⟨rfl, hw⟩
    cases next with
    | none => exact .ok ⟨rfl, hw⟩
    | some pair =>
      refine Agree.bind (h s pair.1 w w' hw) ?_
      rintro o t u u' ⟨rfl, hu⟩
      exact ih pair.2 t u u' hu

/-- Rounds that keep what is carried along make up a loop that does. -/
theorem Mirror.runLoop (h : ∀ s v, k.Carries K (round v) (step s v) s) (limit : Nat)
    (source : Value) (s : σ) :
    k.Carries K (runLoop limit source round) (each limit source step s) s := by
  refine Coupled.get_bind fun w w' hw => ?_
  obtain ⟨acts, hw', -⟩ := hw.veiled
  have hheap : w'.toHeap = w.toHeap := by rw [hw']
  rw [hheap]
  cases Iteration.start? w.toHeap source with
  | none => exact .error hw.veiled
  | some it =>
    match it with
    | .over (.fixed items) => exact roundsOver h items s w w' hw
    | .over (.listFrom ..) | .over (.dictFrom ..) | .over (.cursor _) | .texts _ | .numbered .. =>
      exact roundsFrom h _ _ s w w' hw

end

/-! ## Single statements -/

/-- To know the parent of a frame. -/
def Knowledge.adopt (k : Knowledge) (f parent : Ref) : Knowledge :=
  { k with parents := (f, parent) :: k.parents }

/-- The script knows what plain statements refer to: everything that expressions do, the output
buffer, and the functions that every module can call. -/
structure Stage (scope : Scope Ident) (place : Place) (k : Knowledge) (temps : Nat)
    (out : Ref) : Prop extends Stands scope place k temps where
  output : k.known .output = some (.value (.list out))
  list : k.known .list = some (.core .list)
  len : k.known .len = some (.core .len)
  range : k.known .range = some (.core .range)

namespace Stage

variable {scope : Scope Ident} {place : Place} {temps : Nat} {out : Ref}

theorem after {temps'} (h : Stage scope place k temps out) (hle : temps ≤ temps') :
    Stage scope place k temps' out :=
  { h with toStands := h.toStands.mono hle }

theorem learn (h : Stage scope place k temps out) (hj : temps < j) (c : Cell) :
    Stage scope place (k.learn (.temp j) c) j out :=
  { toStands := h.toStands.learn hj c
    output := h.output
    list := h.list
    len := h.len
    range := h.range }

/-- Learning what a temporary holds that no name in scope stands for. -/
theorem relearn (h : Stage scope place k temps out) (hj : j ≤ temps)
    (hne : ∀ x, scope.lookup x ≠ some (.temp j)) (c : Cell) :
    Stage scope place (k.learn (.temp j) c) temps out where
  env := h.env
  context := h.context
  frame := h.frame
  runtime := h.runtime
  bound {x id} hx := by
    obtain ⟨v, hv, hid⟩ := h.bound hx
    refine ⟨v, hv, (k.known_learn_of_ne ?_ c).trans hid⟩
    rintro rfl
    exact hne x hx
  free := h.free
  temps_le {i d} hi := by
    by_cases hij : Ident.temp i = .temp j
    · cases hij
      exact hj
    · rw [k.known_learn_of_ne hij] at hi
      exact h.temps_le hi
  output := h.output
  list := h.list
  len := h.len
  range := h.range

theorem lookup_ne (h : Stage scope place k temps out) (hj : temps < j) (x : String) :
    scope.lookup x ≠ some (.temp j) := by
  intro hx
  obtain ⟨v, -, hid⟩ := h.bound hx
  exact Nat.not_le_of_lt hj (h.temps_le hid)

/-- Inside a new frame. -/
theorem inFrame (h : Stage scope place k temps out) (f g : Ref) :
    Stage scope.push { place with frame := g } ((k.adopt g f).learn .frame (.frame g)) temps
      out where
  env := h.env
  context := h.context
  frame := rfl
  runtime := h.runtime
  bound {x id} hx := by
    obtain ⟨v, hv, hid⟩ := h.bound hx
    refine ⟨v, hv, ((k.adopt g f).known_learn_of_ne ?_ _).trans hid⟩
    rintro rfl
    exact nomatch h.frame.symm.trans hid
  free {x} hx := h.free hx
  temps_le hj := h.temps_le hj
  output := h.output
  list := h.list
  len := h.len
  range := h.range

/-- With a name bound to what an identifier holds. -/
theorem bind (h : Stage scope place k temps out) {name} (hid : k.known id = some (.value v)) :
    Stage (scope.set name id) (place.bind name v) k temps out :=
  { h with
    env := h.env
    context := h.context
    frame := h.frame
    bound := fun {x i} hx => by
      by_cases hx' : x = name
      · subst hx'
        rw [scope.lookup_set_self, Option.some.injEq] at hx
        exact ⟨v, if_pos rfl, hx ▸ hid⟩
      · rw [scope.lookup_set_of_ne hx'] at hx
        obtain ⟨u, hu, hi⟩ := h.bound hx
        exact ⟨u, (if_neg hx').trans hu, hi⟩
    free := fun {x} hx => by
      by_cases hx' : x = name
      · subst hx'
        rw [scope.lookup_set_self] at hx
        cases hx
      · rw [scope.lookup_set_of_ne hx'] at hx
        exact (if_neg hx').trans (h.free hx) }

end Stage

namespace Shows

variable {scope : Scope Ident} {place : Place} {temps : Nat} {out : Ref}

theorem emit (hs : call.Sound) (hk : Stage scope place k temps out) (he : Yields call k e y) :
    Yields call k (.method (.name .output) .append [e])
      (y >>= fun v => listMethod out "append" [v]) := by
  refine Mirror.method hs hk.output rfl fun inner => ?_
  simp only [evalAll, bind_assoc, pure_bind]
  exact he.bind fun v => value (lift _)

theorem act {x : Eval Unit} (hx : Neutral x x) (c : Cell) :
    Shows k (fun _ => c) (x >>= fun _ => pure c) x := by
  have h := (neutral (k := k) hx).bind (s := fun _ => pure c)
    fun u => Shows.pure u
  rwa [bind_pure] at h

theorem frameSet (hs : call.Sound) (hf : k.known .frame = some (.frame f)) (name : String)
    (he : Yields call k e y) : Shows k (fun _ => Cell.value .none)
      (eval call k.r (.method (.name .frame) .set [.text name, e]))
      (y >>= fun v => setInFrame f name v) := by
  refine Mirror.method hs hf rfl fun inner => ?_
  simp only [evalAll, eval, Expr.text, bind_assoc, pure_bind]
  exact he.bind fun v => act (.of_closed fun _ hR => hR.setInFrame f name v trivial) _

theorem setVariable (hs : call.Sound) {c : Ref} (hc : k.known .context = some (.context c))
    (hid : k.known id = some (.value v)) (name : String) :
    Shows k (fun _ => Cell.value .none)
      (eval call k.r (.method (.name .context) .setVariable [.text name, .name id]))
      (setVariable c name v) := by
  refine Mirror.method hs hc rfl fun inner => ?_
  simp only [evalAll, eval, Expr.text, bind_assoc, pure_bind]
  refine Mirror.read hid ?_
  exact act (.of_closed fun _ hR => hR.setVariable c name v) _

theorem addExport (hs : call.Sound) {c : Ref} (hc : k.known .context = some (.context c))
    (name : String) :
    Shows k (fun _ => Cell.value .none)
      (eval call k.r (.method (.name .context) .addExport [.text name]))
      (modifyContext c (·.addExport name)) := by
  refine Mirror.method hs hc rfl fun inner => ?_
  simp only [evalAll, eval, Expr.text, pure_bind]
  exact act (.of_closed fun _ hR => hR.modifyContext c _ fun d =>
    d.addExport_blocks name) _

end Shows

namespace Performs

variable {scope : Scope Ident} {place : Place} {temps : Nat} {out : Ref}

theorem appendText (hs : call.Sound) (hk : Stage scope place k temps out) (s : String) :
    Performs call limit k (if s.isEmpty then [] else [.emit .output (.text s)])
      (appendText out s) := by
  unfold Direct.appendText
  split
  · exact nil
  · have htext : Yields call k (.text s) (pure (.ofText s)) := by
      rw [Yields, Expr.text, eval]
      exact Shows.pure _
    have hemit : Performs call limit k [.emit .output (.text s)] _ :=
      Mirror.exec_expr (Shows.emit hs hk htext) nil
    simpa only [pure_bind, append] using hemit

theorem publish (hs : call.Sound) (hk : Stage scope place k temps out) (name : String) :
    Performs call limit k (if isPrivate name then [] else [.addExport name])
      (publish place.context name) := by
  unfold Direct.publish
  split
  · exact nil
  · have hexport : Performs call limit k [.addExport name] _ :=
      Mirror.exec_expr (Shows.addExport hs hk.context name) nil
    simpa only [bind_pure_unit] using hexport

/-- Storing a value under the targets of an assignment. -/
theorem stores (hs : call.Sound) (hk : Stage scope place k temps out)
    (hid : k.known id = some (.value v)) : ∀ {targets : List Node} {names : List String},
    Named targets names →
    Performs call limit k (names.flatMap (store id)) (stores place.context v targets)
  | _, _, .nil => by
    rw [List.flatMap_nil, Direct.stores]
    exact nil
  | _, _, .cons hname hrest => by
    rw [List.flatMap_cons, Direct.stores, hname, Compile.store, List.cons_append]
    refine Mirror.exec_expr (Shows.setVariable hs hk.context hid _) ?_
    exact Mirror.exec_append (publish hs hk _) (stores hs hk hid hrest)

end Performs

/-! ## Frames -/

namespace Mirror

variable {β : Type} {post : Option Cell → β → World → World → Prop}

/-- Opening a frame. -/
theorem pushFrame : Coupled (Mirror k) (pushFrame f) (pushFrame f)
      (fun a b w w' => b = a ∧ Mirror (k.adopt a f) w w') (Veiled k.r k.hidden) := by
  intro w w' h
  have hstep := step (.of_closed fun _ hR => hR.newFrame { parent := some f }) w w' h
  obtain ⟨acts, rfl, -⟩ := h.veiled
  cases hstep with
  | ok hpost =>
    refine .ok ⟨rfl, hpost.2.veiled, hpost.2.owned, hpost.2.reads, fun g q hg => ?_⟩
    rcases mem_cons.1 hg with heq | hmem
    · cases heq
      refine ⟨?_, ?_⟩
      · rw [Store.size_push]
        exact Nat.lt_succ_self _
      · show (((w.frames.push _).get? w.frames.size).getD {}).parent = some f
        rw [Store.get?_push_self]
        rfl
    · exact hpost.2.parent g q hmem

/-- The statement that opens a frame, and what comes after it. -/
theorem exec_pushFrame (hs : call.Sound) (hf : k.known .frame = some (.frame f))
    (hid : Ident.frame ∈ k.own ∧ k.hidden .frame) {z}
    (hrest : ∀ g, Follows call limit ((k.adopt g f).learn .frame (.frame g)) rest (z g) post) :
    Follows call limit k (.pushFrame :: rest) (Eval.pushFrame f >>= z) post := by
  have hpush : Coupled (Mirror k) (eval call k.r (.method (.name .frame) .push []))
      (Eval.pushFrame f) (fun c g w w' => c = .frame g ∧ Mirror (k.adopt g f) w w')
      (Veiled k.r k.hidden) := by
    refine Mirror.method hs hf rfl fun inner => ?_
    simp only [evalAll, pure_bind]
    have h : Coupled (Mirror k) (Eval.pushFrame f >>= fun g => pure (Cell.frame g))
        (Eval.pushFrame f >>= pure) (fun c g w w' => c = .frame g ∧ Mirror (k.adopt g f) w w')
        (Veiled k.r k.hidden) := by
      refine Coupled.bind pushFrame fun g g' => ?_
      rintro w w' ⟨rfl, hw⟩
      exact .ok ⟨rfl, hw⟩
    rwa [bind_pure] at h
  simp only [Follows, Stmt.pushFrame, execAll, exec, bind_assoc, pure_bind]
  refine Coupled.bind hpush fun c g => ?_
  rintro w w' ⟨rfl, hw⟩
  exact write (k := k.adopt g f) hid.1 hid.2 (hrest g) w w' hw

/-- The statement that closes a frame, and what comes after it. -/
theorem exec_popFrame (hs : call.Sound) {f g} (hf : k.known .frame = some (.frame g))
    (hg : (g, f) ∈ k.parents) (hid : Ident.frame ∈ k.own ∧ k.hidden .frame) {rest z}
    (hrest : Follows call limit (k.learn .frame (.frame f)) rest z post) :
    Follows call limit k (.popFrame :: rest) z post := by
  have hpop : Coupled (Mirror k) (eval call k.r (.method (.name .frame) .pop []))
      (pure ()) (fun c _ w w' => c = .frame f ∧ Mirror k w w') (Veiled k.r k.hidden) := by
    refine Mirror.method hs hf rfl fun inner => ?_
    simp only [evalAll, pure_bind]
    intro w w' hw
    have hparent : (w.frame g).parent = some f := (hw.parent g f hg).2
    show Agree _ _ (.ok (((w.frame g).parent.map Cell.frame).getD (.value .none)), w) (.ok (), w')
    rw [hparent]
    exact .ok ⟨rfl, hw⟩
  have h : Coupled (Mirror k) (eval call k.r (.method (.name .frame) .pop []) >>= fun c =>
        Script.write k.r .frame c >>= fun _ => execAll call limit k.r rest)
      (pure () >>= fun _ => z) post (Veiled k.r k.hidden) := by
    refine Coupled.bind hpop fun c _ => ?_
    rintro w w' ⟨rfl, hw⟩
    exact write hid.1 hid.2 hrest w w' hw
  simpa only [Follows, Stmt.popFrame, execAll, exec, bind_assoc, pure_bind] using h

end Mirror

/-! ## Assignments -/

/-- Binding a name in the innermost frame, and what comes after it. -/
theorem Mirror.exec_frameSet {β : Type} {post} (hs : call.Sound)
    (hf : k.known .frame = some (.frame f)) {name} {z : Eval β} (he : Yields call k e y)
    (hrest : Follows call limit k rest z post) :
    Follows call limit k (.frameSet name e :: rest) (do
      setInFrame f name (← y)
      z) post := by
  have h := exec_expr (Shows.frameSet hs hf name he) hrest
  simpa only [Stmt.frameSet, bind_assoc] using h

theorem Performs.assign {z : Value → Eval Unit} (hid : id ∈ k.own ∧ k.hidden id)
    (hnew : k.known id = none) (he : Yields call k e y)
    (hrest : ∀ v, Performs call limit (k.learn id (.value v)) rest (z v)) :
    Performs call limit k (.assign id e :: rest) (y >>= z) :=
  Mirror.exec_assign hid he fun v => (hrest v).ensures fun _ _ _ _ h => ⟨h.1, h.2.forget hnew⟩

end Stencil
